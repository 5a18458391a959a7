import AdaptiveEval.Proofs.Chain.Ledger

/-!
# Heads shared between arenas

A head that one arena has written may name an unrelated entry of another arena, if that arena is at
the same generation. Its next append there puts an entry in front of a chain that the head never
built. Chains stay well formed under every such splice.
-/

namespace AdaptiveEval.Chain

variable {ρ ι κ α : Type}

namespace Arena

/-- The walk along the links from a start. No bound is put on its steps, so there is a walk only
where the links come to an end. -/
inductive Walks (entries : Array (Entry κ α)) : Option Nat → List (Entry κ α) → Prop where
  | nil : Walks entries none []
  | outside {index : Nat} (houtside : entries[index]? = none) : Walks entries (some index) []
  | cons {index : Nat} {entry : Entry κ α} {rest : List (Entry κ α)}
      (hentry : entries[index]? = some entry) (hrest : Walks entries entry.next rest) :
      Walks entries (some index) (entry :: rest)

theorem Linked.walks {entries : Array (Entry κ α)} (hlinked : Linked entries) (index : Nat) :
    Walks entries (some index) (walk entries index) := by
  induction index using Nat.strongRecOn with
  | _ index ih =>
      unfold walk
      cases hentry : entries[index]? with
      | none =>
          simp only [follow, hentry]
          exact .outside hentry
      | some entry =>
          simp only [follow, hentry]
          refine .cons hentry ?_
          cases hnext : entry.next with
          | none =>
              rw [follow_none]
              exact .nil
          | some next =>
              have hlt : next < index := hlinked hentry next hnext
              rw [hlinked.follow_eq_walk hlt]
              exact ih next hlt

/-- A chain never holds a key twice, nor more entries than the limit. -/
structure Orderly (arena : Arena κ α) : Prop extends arena.WellFormed where
  bounded : ∀ ⦃index : Nat⦄ ⦃entry : Entry κ α⦄, arena.entries[index]? = some entry →
    (walk arena.entries index).length ≤ arena.limit.toNat
  distinct : ∀ ⦃index : Nat⦄ ⦃entry : Entry κ α⦄, arena.entries[index]? = some entry →
    ((walk arena.entries index).map Entry.key).Nodup

theorem orderly_of_entries_eq_empty {arena : Arena κ α} (hempty : arena.entries = #[]) :
    arena.Orderly where
  toWellFormed := wellFormed_of_entries_eq_empty hempty
  bounded := by simp [hempty]
  distinct := by simp [hempty]

theorem key_ne_of_appended [DecidableEq κ] {arena : Arena κ α} {head : Head} {generation : Nat}
    {key : κ} {value : α} (happended : (arena.tryAppend head generation key value).1 = .appended) :
    ∀ entry ∈ arena.chain head, entry.key ≠ key := by
  intro entry hmem hkey
  have hpresent : ((arena.chain head).any fun entry => decide (entry.key = key)) = true :=
    List.any_eq_true.mpr ⟨entry, hmem, decide_eq_true hkey⟩
  unfold tryAppend at happended
  rw [if_pos hpresent] at happended
  split at happended <;> simp at happended

namespace Orderly

variable {arena : Arena κ α}

/-- Whatever word a head carries, it reads nothing or the chain of a stored entry. -/
theorem chain_cases (horderly : arena.Orderly) (head : Head) :
    (arena.locate head = none ∧ arena.chain head = []) ∨
      ∃ index entry, arena.entries[index]? = some entry ∧ arena.locate head = some index ∧
        arena.chain head = walk arena.entries index := by
  unfold chain
  cases hlocate : arena.locate head with
  | none => exact Or.inl ⟨rfl, follow_none _ _⟩
  | some index =>
      have hindex : index < arena.entries.size := locate_lt index hlocate
      exact Or.inr ⟨index, _, Array.getElem?_eq_getElem hindex, rfl,
        horderly.linked.follow_eq_walk hindex⟩

theorem walks_chain (horderly : arena.Orderly) (head : Head) :
    Walks arena.entries (arena.locate head) (arena.chain head) := by
  obtain ⟨hlocate, hchain⟩ | ⟨index, _, _, hlocate, hchain⟩ := horderly.chain_cases head
  · rw [hlocate, hchain]
    exact .nil
  · rw [hlocate, hchain]
    exact horderly.linked.walks index

theorem length_chain_le (horderly : arena.Orderly) (head : Head) :
    (arena.chain head).length ≤ arena.limit.toNat := by
  obtain ⟨_, hchain⟩ | ⟨index, entry, hentry, _, hchain⟩ := horderly.chain_cases head
  · simp [hchain]
  · rw [hchain]
    exact horderly.bounded hentry

theorem nodup_chain (horderly : arena.Orderly) (head : Head) :
    ((arena.chain head).map Entry.key).Nodup := by
  obtain ⟨_, hchain⟩ | ⟨index, entry, hentry, _, hchain⟩ := horderly.chain_cases head
  · simp [hchain]
  · rw [hchain]
    exact horderly.distinct hentry

/-- The new entry stands in front of whatever chain the head happens to read, and the chains of all
older entries stay as they are. -/
theorem walk_push_cases (horderly : arena.Orderly) (head : Head) (key : κ) (value : α) {index : Nat}
    {entry : Entry κ α}
    (hentry : (arena.push key value (arena.locate head)).entries[index]? = some entry) :
    (∃ newest : Entry κ α, newest.key = key ∧
      walk (arena.push key value (arena.locate head)).entries index =
        newest :: arena.chain head) ∨
    (arena.entries[index]? = some entry ∧
      walk (arena.push key value (arena.locate head)).entries index =
        walk arena.entries index) := by
  simp only [Arena.push] at hentry ⊢
  rw [Array.getElem?_push] at hentry
  split at hentry
  · rename_i heq
    subst heq
    exact Or.inl ⟨_, rfl, walk_push_size horderly.linked locate_lt⟩
  · have hindex : index < arena.entries.size := (Array.getElem?_eq_some_iff.mp hentry).1
    exact Or.inr ⟨hentry, walk_push horderly.linked _ hindex⟩

theorem push (horderly : arena.Orderly) (head : Head) {key : κ} (value : α)
    (hfresh : ∀ entry ∈ arena.chain head, entry.key ≠ key)
    (hopen : arena.isFrozen head = false) :
    (arena.push key value (arena.locate head)).Orderly := by
  have hroom : (arena.chain head).length < arena.limit.toNat := by
    rw [← horderly.chainLength_eq]
    simpa [isFrozen] using hopen
  have hlength : (arena.lengthAt (arena.locate head)).toNat < maxLimit := by
    rw [horderly.lengthAt_eq locate_lt]
    exact Nat.lt_of_lt_of_le hroom (Nat.le_of_lt_succ arena.limit.toNat_lt)
  refine ⟨horderly.toWellFormed.push key value locate_lt hlength, ?_, ?_⟩
  · intro index entry hentry
    obtain ⟨newest, _, hwalk⟩ | ⟨hold, hwalk⟩ := horderly.walk_push_cases head key value hentry
    · rw [hwalk]
      exact hroom
    · rw [hwalk]
      exact horderly.bounded hold
  · intro index entry hentry
    obtain ⟨newest, rfl, hwalk⟩ | ⟨hold, hwalk⟩ := horderly.walk_push_cases head key value hentry
    · rw [hwalk, List.map_cons, List.nodup_cons]
      refine ⟨fun hmem => ?_, horderly.nodup_chain head⟩
      obtain ⟨older, holder, hkey⟩ := List.mem_map.mp hmem
      exact hfresh older holder hkey
    · rw [hwalk]
      exact horderly.distinct hold

theorem tryAppend [DecidableEq κ] (horderly : arena.Orderly) (head : Head) (generation : Nat)
    (key : κ) (value : α) : (arena.tryAppend head generation key value).2.1.Orderly := by
  obtain ⟨outcome, _, hrefused⟩ | ⟨_, _, hopen, _, happended⟩ :=
    arena.tryAppend_cases head generation key value
  · rw [hrefused]
    exact horderly
  · have hfresh := key_ne_of_appended (congrArg Prod.fst happended)
    rw [happended]
    exact horderly.push head value hfresh hopen

theorem sync (horderly : arena.Orderly) (generation : Nat) : (arena.sync generation).Orderly := by
  unfold Arena.sync
  split
  · exact orderly_of_entries_eq_empty rfl
  · exact horderly

end Orderly

end Arena

/-- Several arenas, and heads that any of them may write. -/
structure Pool (ρ ι κ α : Type) where
  arenas : ρ → Arena κ α
  heads : ι → Head

namespace Pool

def ofLimits (limits : ρ → Nat) (heads : ι → Head) : Pool ρ ι κ α :=
  { arenas := fun arena => .ofLimit (limits arena), heads }

variable [DecidableEq ρ] [DecidableEq ι] [DecidableEq κ]

/-- One arena works on the heads as if they were its own. -/
def step (pool : Pool ρ ι κ α) (arena : ρ) (operation : Operation ι κ α) : Pool ρ ι κ α :=
  let store : Store ι κ α := { arena := pool.arenas arena, heads := pool.heads }
  let after := (store.step operation).2
  { arenas := Function.update pool.arenas arena after.arena, heads := after.heads }

def run (pool : Pool ρ ι κ α) : List (ρ × Operation ι κ α) → Pool ρ ι κ α
  | [] => pool
  | (arena, operation) :: rest => (pool.step arena operation).run rest

def Orderly (limits : ρ → Nat) (pool : Pool ρ ι κ α) : Prop :=
  ∀ arena, (pool.arenas arena).Orderly ∧
    (pool.arenas arena).limit.toNat = min (limits arena) maxLimit

variable {limits : ρ → Nat} {pool : Pool ρ ι κ α}

omit [DecidableEq ρ] [DecidableEq ι] [DecidableEq κ] in
theorem orderly_ofLimits (limits : ρ → Nat) (heads : ι → Head) :
    (ofLimits limits heads : Pool ρ ι κ α).Orderly limits := by
  intro arena
  exact ⟨Arena.orderly_of_entries_eq_empty rfl, Arena.toNat_limit_ofLimit (limits arena)⟩

omit [DecidableEq ρ] in
theorem orderly_store_step (store : Store ι κ α) (horderly : store.arena.Orderly)
    (operation : Operation ι κ α) :
    (store.step operation).2.arena.Orderly ∧
      (store.step operation).2.arena.limit = store.arena.limit := by
  cases operation with
  | append head generation key value =>
      exact ⟨horderly.tryAppend _ _ key value, Arena.limit_tryAppend _ _ _ _ _⟩
  | lookup head accepts => exact ⟨horderly, rfl⟩
  | length head => exact ⟨horderly, rfl⟩
  | frozen head => exact ⟨horderly, rfl⟩
  | invalidate => exact ⟨Arena.orderly_of_entries_eq_empty rfl, rfl⟩
  | sync generation => exact ⟨horderly.sync _, Arena.limit_sync _ _⟩

theorem Orderly.step (horderly : pool.Orderly limits) (arena : ρ) (operation : Operation ι κ α) :
    (pool.step arena operation).Orderly limits := by
  intro other
  by_cases heq : other = arena
  · subst heq
    obtain ⟨hheld, hlimit⟩ := horderly other
    obtain ⟨hafter, hkept⟩ :=
      orderly_store_step { arena := pool.arenas other, heads := pool.heads } hheld operation
    simp only [Pool.step, Function.update_self]
    rw [hkept]
    exact ⟨hafter, hlimit⟩
  · simp only [Pool.step, Function.update_of_ne heq]
    exact horderly other

theorem Orderly.run (horderly : pool.Orderly limits) (operations : List (ρ × Operation ι κ α)) :
    (pool.run operations).Orderly limits := by
  induction operations generalizing pool with
  | nil => exact horderly
  | cons operation rest ih => exact ih (horderly.step operation.1 operation.2)

/-- **Chains stay well formed when arenas share heads.** Whatever words the heads start with and
whichever arenas work on them, in every arena each entry links to an older one and counts the chain
that starts at it, which holds no key twice and keeps to the arena's limit. Hence the walk of a
lookup ends for every word, after as many entries as the chain length says. -/
theorem run_chains_wellFormed (limits : ρ → Nat) (heads : ι → Head)
    (operations : List (ρ × Operation ι κ α)) (id : ρ) :
    let arena := ((ofLimits limits heads).run operations).arenas id
    (∀ index entry, arena.entries[index]? = some entry →
      (∀ next ∈ entry.next, next < index) ∧
        ∃ walked, Arena.Walks arena.entries (some index) walked ∧
          entry.length.toNat = walked.length ∧ walked.length ≤ min (limits id) maxLimit ∧
          (walked.map Entry.key).Nodup) ∧
    ∀ head : Head, ∃ walked, Arena.Walks arena.entries (arena.locate head) walked ∧
      walked.length = arena.chainLength head ∧ walked.length ≤ min (limits id) maxLimit ∧
      ∀ accepts, arena.lookup head accepts =
        (walked.find? fun entry => accepts entry.key).map Entry.value := by
  intro arena
  obtain ⟨horderly, hlimit⟩ := (orderly_ofLimits limits heads).run operations id
  rw [← hlimit]
  constructor
  · intro index entry hentry
    exact ⟨horderly.linked hentry, _, horderly.linked.walks index, horderly.counted hentry,
      horderly.bounded hentry, horderly.distinct hentry⟩
  · intro head
    exact ⟨_, horderly.walks_chain head, (horderly.chainLength_eq head).symm,
      horderly.length_chain_le head, fun _ => rfl⟩

end Pool

end AdaptiveEval.Chain
