import AdaptiveEval.Proofs.Chain.Partition
import AdaptiveEval.Proofs.Composition
import AdaptiveEval.Proofs.Reference.Simulation
import Mathlib.Logic.Relation

/-!
# What a graph does to its caches

The nodes that resolve names and those that read items each have a chain in a cache of the target.
An evaluation reaches the caches only through the heads of its own nodes, by accesses that all keep
the chains apart.
-/

namespace AdaptiveEval

open Chain

namespace Chain.Store

variable {ι κ α : Type} [DecidableEq ι] [DecidableEq κ]

/-- What a node with one of the given heads can do to a store. -/
inductive Access (nodes : List ι) : Store ι κ α → Store ι κ α → Prop where
  | sync (store : Store ι κ α) (generation : Nat) :
      Access nodes store { store with arena := store.arena.sync generation }
  | count (store : Store ι κ α) {head : ι} (hhead : head ∈ nodes) (hit : Bool) :
      Access nodes store
        { store with heads := Function.update store.heads head ((store.heads head).record hit) }
  | append (store : Store ι κ α) {head : ι} (hhead : head ∈ nodes) (generation : Nat) (key : κ)
      (value : α) :
      Access nodes store
        { arena := (store.arena.tryAppend (store.heads head) generation key value).2.1
          heads := Function.update store.heads head
            (store.arena.tryAppend (store.heads head) generation key value).2.2 }

/-- Any number of accesses. -/
def Accesses (nodes : List ι) : Store ι κ α → Store ι κ α → Prop :=
  Relation.ReflTransGen (Access nodes)

variable {nodes : List ι} {store after : Store ι κ α}

theorem Accesses.heads_eq (haccesses : Accesses nodes store after) {head : ι}
    (hhead : head ∉ nodes) : after.heads head = store.heads head := by
  induction haccesses with
  | refl => rfl
  | tail _ haccess ih =>
      rw [← ih]
      cases haccess with
      | sync generation => rfl
      | count hother hit =>
          refine Function.update_of_ne ?_ _ _
          rintro rfl
          exact hhead hother
      | append hother generation key value =>
          refine Function.update_of_ne ?_ _ _
          rintro rfl
          exact hhead hother

theorem Accesses.limit_eq (haccesses : Accesses nodes store after) :
    after.arena.limit = store.arena.limit := by
  induction haccesses with
  | refl => rfl
  | tail _ haccess ih =>
      rw [← ih]
      cases haccess with
      | sync generation => exact Arena.limit_sync _ _
      | count hhead hit => rfl
      | append hhead generation key value => exact Arena.limit_tryAppend _ _ _ _ _

theorem Accesses.partitioned (haccesses : Accesses nodes store after) {live : Finset ι}
    (hnodes : ∀ head ∈ nodes, head ∈ live) (hpartitioned : store.Partitioned live) :
    after.Partitioned live := by
  induction haccesses with
  | refl => exact hpartitioned
  | tail _ haccess ih =>
      cases haccess with
      | sync generation => exact ih.sync generation
      | @count head hhead hit => exact ih.record head hit
      | append hhead generation key value =>
          exact ih.tryAppend (hnodes _ hhead) generation key value

/-- The miss that a node counts before it appends. -/
theorem accesses_miss (store : Store ι κ α) {head : ι} (hhead : head ∈ nodes) (generation : Nat)
    (key : κ) (value : α) :
    Accesses nodes store
      { arena :=
          (store.arena.tryAppend ((store.heads head).record false) generation key value).2.1
        heads := Function.update store.heads head
          (store.arena.tryAppend ((store.heads head).record false) generation key value).2.2 } := by
  have hcount := Access.count store hhead false
  have happend := Access.append
    { store with heads := Function.update store.heads head ((store.heads head).record false) }
    hhead generation key value
  simp only [Function.update_self, Function.update_idem] at happend
  exact .tail (.single hcount) happend

end Chain.Store

section Lookups

variable {ι : Type} [DecidableEq ι] {nodes : List ι} {head : ι}

theorem Registry.accesses_resolve (registry : Registry) (store : Store ι String (Option Int64))
    (hhead : head ∈ nodes) (name : String) :
    Store.Accesses nodes store
      { arena := (registry.resolve store.arena (store.heads head) name).2.1
        heads := Function.update store.heads head
          (registry.resolve store.arena (store.heads head) name).2.2 } := by
  have hsync : Store.Access nodes store _ := .sync store registry.epoch
  unfold resolve
  dsimp only
  split
  · exact .tail (.single hsync) (.count _ hhead true)
  · exact .trans (.single hsync) (Store.accesses_miss _ hhead _ name _)

theorem ElementSite.accesses_get (site : ElementSite) (store : Store ι Shape Reader)
    (hhead : head ∈ nodes) (hsite : store.heads head = site.head) (array : ArrayValue)
    (index : Int64) :
    Store.Accesses nodes store
      { arena := (site.get store.arena array index).2.2
        heads := Function.update store.heads head
          (site.get store.arena array index).2.1.head } := by
  unfold get
  split
  · rw [← hsite, Function.update_eq_self]
    exact .refl
  · unfold readerFor
    dsimp only
    rw [← hsite]
    split
    · exact .single (.count store hhead true)
    · exact Store.accesses_miss store hhead _ _ _

end Lookups

namespace CacheKind

abbrev Key : CacheKind → Type
  | .name => String
  | .shape => Shape

abbrev Cached : CacheKind → Type
  | .name => Option Int64
  | .shape => Reader

instance (kind : CacheKind) : DecidableEq kind.Key :=
  match kind with
  | .name => inferInstanceAs (DecidableEq String)
  | .shape => inferInstanceAs (DecidableEq Shape)

end CacheKind

def TargetState.cache (state : TargetState) : (kind : CacheKind) → Arena kind.Key kind.Cached
  | .name => state.nameCache
  | .shape => state.shapes

def Sites.headAt (sites : Sites) : CacheKind → SiteId → Head
  | .name => sites.nameAt
  | .shape => fun site => (sites.elementAt site).head

/-- One cache of a target, with the heads of all nodes. -/
def Machine.store (machine : Machine) (kind : CacheKind) : Store SiteId kind.Key kind.Cached :=
  { arena := machine.target.cache kind, heads := machine.sites.headAt kind }

theorem getD_insert_eq_update {α : Type} (states : Std.HashMap SiteId α) (site : SiteId)
    (state fresh : α) :
    (fun other => (states.insert site state).getD other fresh) =
      Function.update (fun other => states.getD other fresh) site state := by
  funext other
  by_cases hother : other = site
  · subst hother
    simp
  · rw [Function.update_of_ne hother, Std.HashMap.getD_insert,
      if_neg (by simpa using Ne.symm hother)]

theorem Sites.nameAt_insert (sites : Sites) (site : SiteId) (head : Head) :
    ({ sites with names := sites.names.insert site head } : Sites).nameAt =
      Function.update sites.nameAt site head :=
  getD_insert_eq_update sites.names site head {}

theorem Sites.elementAt_insert (sites : Sites) (site : SiteId) (state : ElementSite) :
    ({ sites with elements := sites.elements.insert site state } : Sites).elementAt =
      Function.update sites.elementAt site state :=
  getD_insert_eq_update sites.elements site state {}

/-- The action accesses the caches at the given sites only. -/
def Uses {α : Type} (sites : CacheKind → List SiteId) (action : Eval α) : Prop :=
  ∀ (context : Context) (machine : Machine) (kind : CacheKind),
    Store.Accesses (sites kind) (machine.store kind) ((action context machine).2.store kind)

namespace Uses

variable {α β : Type} {sites : CacheKind → List SiteId}

theorem quiet {action : Eval α}
    (hquiet : ∀ context machine kind,
      (action context machine).2.store kind = machine.store kind) : Uses sites action := by
  intro context machine kind
  rw [hquiet]
  exact .refl

theorem bind {action : Eval α} {next : α → Eval β} (haction : Uses sites action)
    (hnext : ∀ value, Uses sites (next value)) : Uses sites (action >>= next) := by
  intro context machine kind
  have hfirst := haction context machine kind
  rw [Eval.bind_apply]
  generalize action context machine = run at hfirst ⊢
  rcases run with ⟨fault | value, reached⟩
  · exact hfirst
  · exact hfirst.trans (hnext value context reached kind)

theorem nested {body : Eval α} (hbody : Uses sites body) : Uses sites (Eval.nested body) := by
  intro context machine kind
  have hinside := hbody context { machine with depth := machine.depth + 1 } kind
  unfold Eval.nested
  split
  · exact .refl
  · generalize body context { machine with depth := machine.depth + 1 } = run at hinside ⊢
    rcases run with ⟨fault | value, reached⟩
    · cases fault <;> exact hinside
    · exact hinside

section Primitives

theorem write (slot : Nat) (value : Value) : Uses sites (Eval.write slot value) :=
  quiet fun _ machine kind => by
    unfold Eval.write
    split <;> cases kind <;> rfl

theorem arith (site : SiteId) (op : ArithmeticOp) (left right : Value) :
    Uses sites (Eval.arith site op left right) :=
  quiet fun _ machine kind => by
    unfold Eval.arith
    dsimp only
    rw [Eval.ofExcept_snd]
    cases kind <;> rfl

theorem resolve {site : SiteId} (hsite : site ∈ sites .name) (name : String) :
    Uses sites (Eval.resolve site name) := by
  intro context machine kind
  cases kind with
  | shape => exact .refl
  | name =>
      have haccesses := context.registry.accesses_resolve (machine.store .name) hsite name
      simp only [Machine.store, Sites.headAt, ← Sites.nameAt_insert] at haccesses
      exact haccesses

theorem element {site : SiteId} (hsite : site ∈ sites .shape) (array : ArrayValue)
    (index : Int64) : Uses sites (Eval.element site array index) := by
  intro context machine kind
  cases kind with
  | name => exact .refl
  | shape =>
      have haccesses := (machine.sites.elementAt site).accesses_get (machine.store .shape) hsite rfl
        array index
      have hheads : ∀ state : ElementSite,
          Function.update (machine.store .shape).heads site state.head = fun other =>
            (({ machine.sites with
              elements := machine.sites.elements.insert site state } : Sites).elementAt
                other).head := by
        intro state
        funext other
        rw [Sites.elementAt_insert]
        exact (Function.apply_update (fun _ => ElementSite.head) _ site state other).symm
      rw [hheads] at haccesses
      exact haccesses

theorem of_primitive {sites : SiteSets} {action : Eval α}
    (hprimitive : Eval.Primitive sites action) : Uses sites.caches action := by
  cases hprimitive with
  | look hlooks =>
      exact quiet fun context machine _ => by rw [hlooks.snd_eq]
  | write slot value => exact write slot value
  | arith hsite op left right => exact arith _ op left right
  | resolve hsite name => exact resolve hsite name
  | element hsite array index => exact element hsite array index

end Primitives

theorem of_composed {sites : SiteSets} {loops : Prop} {height : Nat} {traced : Traced α}
    {action : Eval α} (hcomposed : Eval.Composed sites loops height traced action) :
    Uses sites.caches action := by
  induction hcomposed with
  | pure height value => exact quiet fun _ _ _ => rfl
  | step height hprimitive => exact of_primitive hprimitive
  | bind _ _ ihaction ihnext => exact bind ihaction ihnext
  | nested _ ih => exact nested ih
  | bounded hloops _ ih => exact fun context => ih _ _ context
  | outOfFuel height hloops => exact quiet fun _ _ _ => rfl
  | enterOsr height hloops => exact quiet fun _ _ kind => by cases kind <;> rfl

/-- A body accesses the caches at its own nodes only. -/
theorem run (root : Root SiteId) : Uses (root.cacheSites ·) root.run :=
  of_composed (.run trivial root)

theorem node (node : Node) : Uses (node.cacheSites ·) node.run := by
  obtain ⟨_, hcomposed⟩ := Eval.Composed.node trivial node
  exact of_composed hcomposed

end Uses

end AdaptiveEval
