import AdaptiveEval.Proofs.Chain.Links
import Mathlib.Algebra.BigOperators.Group.Finset.Piecewise
import Mathlib.Data.Fintype.Basic

/-!
# The arena as a ledger of lists

A ledger keeps one newest-first list of pairs for each head, and nothing else. An arena that is the
only one to write its heads answers every operation as the ledger does.
-/

namespace AdaptiveEval.Chain

open scoped BigOperators

variable {ι κ α : Type}

inductive Operation (ι κ α : Type) where
  | append (head : ι) (generation : UInt64) (key : κ) (value : α)
  | lookup (head : ι) (accepts : κ → Bool)
  | length (head : ι)
  | frozen (head : ι)
  | invalidate
  | sync (generation : UInt64)

inductive Answer (α : Type) where
  | append (outcome : Append)
  | found (value : Option α)
  | length (count : Nat)
  | frozen (full : Bool)
  | invalidated
  | synced (generation : Nat)

structure Ledger (ι κ α : Type) where
  limit : Nat
  generation : Nat
  chains : ι → List (κ × α)

namespace Ledger

def ofLimit (limit : Nat) : Ledger ι κ α :=
  { limit := min limit maxLimit, generation := 0, chains := fun _ => [] }

def total [Fintype ι] (ledger : Ledger ι κ α) : Nat :=
  ∑ head, (ledger.chains head).length

def append [Fintype ι] [DecidableEq ι] [DecidableEq κ] (ledger : Ledger ι κ α) (head : ι)
    (generation : Nat) (key : κ) (value : α) : Append × Ledger ι κ α :=
  if ledger.generation ≠ generation ∨ maxGeneration < ledger.generation then
    (.stale, ledger)
  else if key ∈ (ledger.chains head).map Prod.fst then
    (.present, ledger)
  else if ledger.limit ≤ (ledger.chains head).length ∨ maxEntries ≤ ledger.total then
    (.frozen, ledger)
  else
    (.appended,
      { ledger with
        chains := Function.update ledger.chains head ((key, value) :: ledger.chains head) })

def lookup (ledger : Ledger ι κ α) (head : ι) (accepts : κ → Bool) : Option α :=
  ((ledger.chains head).find? fun pair => accepts pair.1).map Prod.snd

def reset (ledger : Ledger ι κ α) (generation : Nat) : Ledger ι κ α :=
  { ledger with generation, chains := fun _ => [] }

def step [Fintype ι] [DecidableEq ι] [DecidableEq κ] (ledger : Ledger ι κ α) :
    Operation ι κ α → Answer α × Ledger ι κ α
  | .append head generation key value =>
      match ledger.append head generation.toNat key value with
      | (outcome, ledger) => (.append outcome, ledger)
  | .lookup head accepts => (.found (ledger.lookup head accepts), ledger)
  | .length head => (.length (ledger.chains head).length, ledger)
  | .frozen head => (.frozen (decide (ledger.limit ≤ (ledger.chains head).length)), ledger)
  | .invalidate => (.invalidated, ledger.reset (min (ledger.generation + 1) lastGeneration))
  | .sync generation =>
      if ledger.generation < generation.toNat then
        (.synced generation.toNat, ledger.reset generation.toNat)
      else
        (.synced ledger.generation, ledger)

def run [Fintype ι] [DecidableEq ι] [DecidableEq κ] (ledger : Ledger ι κ α) :
    List (Operation ι κ α) → List (Answer α) × Ledger ι κ α
  | [] => ([], ledger)
  | operation :: rest =>
      match ledger.step operation with
      | (answer, next) =>
          match next.run rest with
          | (answers, final) => (answer :: answers, final)

end Ledger

structure Store (ι κ α : Type) where
  arena : Arena κ α
  heads : ι → Head

namespace Store

def ofLimit (limit : Nat) : Store ι κ α :=
  { arena := .ofLimit limit, heads := fun _ => {} }

def step [DecidableEq ι] [DecidableEq κ] (store : Store ι κ α) :
    Operation ι κ α → Answer α × Store ι κ α
  | .append head generation key value =>
      match store.arena.tryAppend (store.heads head) generation.toNat key value with
      | (outcome, arena, written) =>
          (.append outcome, { arena, heads := Function.update store.heads head written })
  | .lookup head accepts => (.found (store.arena.lookup (store.heads head) accepts), store)
  | .length head => (.length (store.arena.chainLength (store.heads head)), store)
  | .frozen head => (.frozen (store.arena.isFrozen (store.heads head)), store)
  | .invalidate => (.invalidated, { store with arena := store.arena.invalidate })
  | .sync generation =>
      let arena := store.arena.sync generation.toNat
      (.synced arena.generation, { store with arena })

def run [DecidableEq ι] [DecidableEq κ] (store : Store ι κ α) :
    List (Operation ι κ α) → List (Answer α) × Store ι κ α
  | [] => ([], store)
  | operation :: rest =>
      match store.step operation with
      | (answer, next) =>
          match next.run rest with
          | (answers, final) => (answer :: answers, final)

def chain (store : Store ι κ α) (head : ι) : List (Entry κ α) :=
  store.arena.chain (store.heads head)

def view (store : Store ι κ α) : Ledger ι κ α :=
  { limit := store.arena.limit.toNat
    generation := store.arena.generation
    chains := fun head => (store.chain head).map fun entry => (entry.key, entry.value) }

/-- What an arena and its heads keep to, as long as no other arena writes these heads. -/
structure Sound [Fintype ι] (store : Store ι κ α) : Prop where
  wellFormed : store.arena.WellFormed
  word : store.arena.generation ≤ lastGeneration
  past : ∀ head, (store.heads head).generation ≤ store.arena.generation
  stored : ∀ head, (store.heads head).generation = store.arena.generation →
    (store.heads head).slot ≤ store.arena.size
  disjoint : store.arena.size = ∑ head, (store.chain head).length

theorem chain_of_entries_eq_empty {store : Store ι κ α} (hempty : store.arena.entries = #[])
    (head : ι) : store.chain head = [] := by
  simp [chain, Arena.chain, hempty, Arena.follow]

theorem view_reset (store : Store ι κ α) (generation : Nat) :
    ({ store with arena := store.arena.reset generation } : Store ι κ α).view =
      store.view.reset generation := by
  unfold view Ledger.reset
  simp [chain_of_entries_eq_empty, Arena.reset]

section Queries

variable {store : Store ι κ α}

theorem lookup_view (store : Store ι κ α) (head : ι) (accepts : κ → Bool) :
    store.view.lookup head accepts = store.arena.lookup (store.heads head) accepts := by
  unfold Ledger.lookup Arena.lookup
  simp only [view, chain, List.find?_map, Option.map_map]
  rfl

theorem mem_keys_view_iff [DecidableEq κ] (store : Store ι κ α) (head : ι) (key : κ) :
    key ∈ (store.view.chains head).map Prod.fst ↔
      ((store.arena.chain (store.heads head)).any fun entry => decide (entry.key = key)) = true := by
  simp [view, chain]

variable [Fintype ι]

theorem Sound.length_view (hsound : store.Sound) (head : ι) :
    (store.view.chains head).length = store.arena.chainLength (store.heads head) := by
  rw [hsound.wellFormed.chainLength_eq]
  simp [view, chain]

theorem Sound.total_view (hsound : store.Sound) : store.view.total = store.arena.size := by
  rw [hsound.disjoint]
  simp [Ledger.total, view]

end Queries

section Resets

variable [Fintype ι] {store : Store ι κ α}

/-- A reset empties every chain at once, since no head names the generation that it moves to. -/
theorem Sound.reset (hsound : store.Sound) {generation : Nat} (hword : generation ≤ lastGeneration)
    (hforward : store.arena.generation < generation ∨
      (store.arena.generation = generation ∧ maxGeneration < generation)) :
    ({ store with arena := store.arena.reset generation } : Store ι κ α).Sound where
  wellFormed := Arena.wellFormed_of_entries_eq_empty rfl
  word := hword
  past := by
    intro head
    have hpast := hsound.past head
    simp only [Arena.reset]
    omega
  stored := by
    intro head hcurrent
    have hpast := hsound.past head
    have hnameable := (store.heads head).generation_le
    simp only [Arena.reset] at hcurrent
    omega
  disjoint := by
    simp [chain_of_entries_eq_empty, Arena.reset, Arena.size]

end Resets

section Appends

variable [DecidableEq ι]

def appended (store : Store ι κ α) (head : ι) (key : κ) (value : α) : Store ι κ α :=
  { arena := store.arena.push key value (store.arena.locate (store.heads head))
    heads := Function.update store.heads head
      ((store.heads head).point store.arena.generation store.arena.size) }

variable [Fintype ι] {store : Store ι κ α}

/-- Only the chain of the head that appends changes. -/
theorem Sound.chain_appended (hsound : store.Sound) (head : ι) (key : κ) (value : α)
    (hlive : store.arena.isExhausted = false) (hroom : store.arena.size < maxEntries) :
    (store.appended head key value).chain =
      Function.update store.chain head
        ({ key, value
           next := store.arena.locate (store.heads head)
           length := store.arena.lengthAt (store.arena.locate (store.heads head)) + 1 } ::
          store.chain head) := by
  funext other
  by_cases heq : other = head
  · subst heq
    simp only [chain, appended, Function.update_self]
    exact hsound.wellFormed.chain_push_point _ key value Arena.locate_lt hlive hroom
  · simp only [chain, appended, Function.update_of_ne heq]
    exact hsound.wellFormed.chain_push_of_slot_le key value Arena.locate_lt (hsound.stored other)

theorem Sound.view_appended (hsound : store.Sound) (head : ι) (key : κ) (value : α)
    (hlive : store.arena.isExhausted = false) (hroom : store.arena.size < maxEntries) :
    (store.appended head key value).view =
      { store.view with
        chains := Function.update store.view.chains head
          ((key, value) :: store.view.chains head) } := by
  unfold view
  simp only [hsound.chain_appended head key value hlive hroom, Ledger.mk.injEq]
  refine ⟨rfl, rfl, funext fun other => ?_⟩
  by_cases heq : other = head <;> simp [heq]

/-- The new entry lies on the chain of the head that appended it, and on no other. -/
theorem Sound.size_appended (hsound : store.Sound) (head : ι) (key : κ) (value : α)
    (hlive : store.arena.isExhausted = false) (hroom : store.arena.size < maxEntries) :
    (store.appended head key value).arena.size =
      ∑ other, ((store.appended head key value).chain other).length := by
  have hupdate : (fun other => ((store.appended head key value).chain other).length) =
      Function.update (fun other => (store.chain other).length) head
        ((store.chain head).length + 1) := by
    funext other
    rw [hsound.chain_appended head key value hlive hroom]
    by_cases heq : other = head <;> simp [heq]
  have hsum := Finset.add_sum_erase Finset.univ (fun other => (store.chain other).length)
    (Finset.mem_univ head)
  rw [hupdate, Finset.sum_update_of_mem (Finset.mem_univ head), Finset.sdiff_singleton_eq_erase]
  have hsize : (store.appended head key value).arena.size = store.arena.size + 1 := by
    simp [appended, Arena.push, Arena.size]
  rw [hsize, hsound.disjoint, ← hsum]
  omega

theorem Sound.appended (hsound : store.Sound) (head : ι) (key : κ) (value : α)
    (hlive : store.arena.isExhausted = false)
    (hopen : store.arena.isFrozen (store.heads head) = false)
    (hroom : store.arena.size < maxEntries) : (store.appended head key value).Sound where
  wellFormed := by
    refine hsound.wellFormed.push key value Arena.locate_lt ?_
    have hlength : store.arena.chainLength (store.heads head) < store.arena.limit.toNat := by
      simpa [Arena.isFrozen] using hopen
    have hlimit := store.arena.limit.toNat_lt
    simp only [maxLimit]
    exact Nat.lt_of_lt_of_le hlength (Nat.le_of_lt_succ hlimit)
  word := hsound.word
  past := by
    intro other
    by_cases heq : other = head
    · subst heq
      simp only [Store.appended, Function.update_self, Arena.push]
      rw [Head.generation_point _ (Arena.isExhausted_eq_false_iff.mp hlive) hroom]
    · simp only [Store.appended, Function.update_of_ne heq]
      exact hsound.past other
  stored := by
    intro other hcurrent
    by_cases heq : other = head
    · subst heq
      simp only [Store.appended, Function.update_self, Arena.push, Arena.size, Array.size_push]
      rw [← Arena.size, Head.slot_point _ (Arena.isExhausted_eq_false_iff.mp hlive) hroom]
    · simp only [Store.appended, Function.update_of_ne heq, Arena.push] at hcurrent ⊢
      have hslot := hsound.stored other hcurrent
      simp only [Arena.size, Array.size_push] at hslot ⊢
      omega
  disjoint := hsound.size_appended head key value hlive hroom

end Appends

section Refinement

variable [Fintype ι] [DecidableEq ι] [DecidableEq κ] {store : Store ι κ α}

structure Matches (store : Store ι κ α) (operation : Operation ι κ α) : Prop where
  answer : (store.step operation).1 = (store.view.step operation).1
  view : (store.step operation).2.view = (store.view.step operation).2
  sound : (store.step operation).2.Sound

theorem Sound.matches_of_refused (hsound : store.Sound) {head : ι} {generation : UInt64} {key : κ}
    {value : α} {outcome : Append}
    (hstore : store.arena.tryAppend (store.heads head) generation.toNat key value =
      (outcome, store.arena, store.heads head))
    (hledger : store.view.append head generation.toNat key value = (outcome, store.view)) :
    store.Matches (.append head generation key value) := by
  have hkept : ({ store with
      heads := Function.update store.heads head (store.heads head) } : Store ι κ α) = store := by
    rw [Function.update_eq_self]
  constructor <;> simp only [Store.step, Ledger.step, hstore, hledger, hkept]
  exact hsound

theorem Sound.matches_of_appended (hsound : store.Sound) {head : ι} {generation : UInt64} {key : κ}
    {value : α}
    (hstore : store.arena.tryAppend (store.heads head) generation.toNat key value =
      (.appended, (store.appended head key value).arena,
        (store.appended head key value).heads head))
    (hledger : store.view.append head generation.toNat key value =
      (.appended, { store.view with
        chains := Function.update store.view.chains head
          ((key, value) :: store.view.chains head) }))
    (hlive : store.arena.isExhausted = false)
    (hopen : store.arena.isFrozen (store.heads head) = false)
    (hroom : store.arena.size < maxEntries) :
    store.Matches (.append head generation key value) := by
  have hheads : Function.update store.heads head ((store.appended head key value).heads head) =
      (store.appended head key value).heads := by
    simp [Store.appended]
  constructor <;> simp only [Store.step, Ledger.step, hstore, hledger, hheads]
  · exact hsound.view_appended head key value hlive hroom
  · exact hsound.appended head key value hlive hopen hroom

theorem Sound.matches_append (hsound : store.Sound) (head : ι) (generation : UInt64) (key : κ)
    (value : α) : store.Matches (.append head generation key value) := by
  -- Both sides ask the same three questions, in the same order.
  have hexhausted : store.arena.isExhausted = true ↔ maxGeneration < store.view.generation := by
    simp [Arena.isExhausted, Store.view]
  have hpresent := store.mem_keys_view_iff head key
  have hfull : (store.arena.isFrozen (store.heads head) = true ∨ maxEntries ≤ store.arena.size) ↔
      (store.view.limit ≤ (store.view.chains head).length ∨ maxEntries ≤ store.view.total) := by
    rw [hsound.length_view, hsound.total_view]
    simp [Arena.isFrozen, Store.view]
  by_cases hstale : store.view.generation ≠ generation.toNat ∨ maxGeneration < store.view.generation
  · exact hsound.matches_of_refused (if_pos (hstale.imp_right hexhausted.mpr)) (if_pos hstale)
  have hcurrent : ¬(store.arena.generation ≠ generation.toNat ∨ store.arena.isExhausted = true) :=
    fun hold => hstale (hold.imp_right hexhausted.mp)
  by_cases hmem : key ∈ (store.view.chains head).map Prod.fst
  · exact hsound.matches_of_refused ((if_neg hcurrent).trans (if_pos (hpresent.mp hmem)))
      ((if_neg hstale).trans (if_pos hmem))
  have hnew := fun hold => hmem (hpresent.mpr hold)
  by_cases hbound : store.view.limit ≤ (store.view.chains head).length ∨
      maxEntries ≤ store.view.total
  · exact hsound.matches_of_refused
      ((if_neg hcurrent).trans ((if_neg hnew).trans (if_pos (hfull.mpr hbound))))
      ((if_neg hstale).trans ((if_neg hmem).trans (if_pos hbound)))
  have hopen := fun hold => hbound (hfull.mp hold)
  have hlive : store.arena.isExhausted = false :=
    Bool.eq_false_iff.mpr (not_or.mp hcurrent).2
  have hunfrozen : store.arena.isFrozen (store.heads head) = false :=
    Bool.eq_false_iff.mpr (not_or.mp hopen).1
  have hroom : store.arena.size < maxEntries := Nat.lt_of_not_le (not_or.mp hopen).2
  refine hsound.matches_of_appended ?_ ?_ hlive hunfrozen hroom
  · simp only [Store.appended, Function.update_self]
    exact (if_neg hcurrent).trans ((if_neg hnew).trans (if_neg hopen))
  · exact (if_neg hstale).trans ((if_neg hmem).trans (if_neg hbound))

theorem Sound.matches_invalidate (hsound : store.Sound) : store.Matches .invalidate := by
  have hgeneration : (if store.arena.generation < lastGeneration then store.arena.generation + 1
      else store.arena.generation) = min (store.view.generation + 1) lastGeneration := by
    have hword := hsound.word
    simp only [Store.view]
    split <;> omega
  constructor
  · rfl
  · simp only [Store.step, Ledger.step, Arena.invalidate, hgeneration]
    exact store.view_reset _
  · simp only [Store.step, Arena.invalidate, hgeneration]
    refine hsound.reset (Nat.min_le_right _ _) ?_
    have hword := hsound.word
    simp only [Store.view, lastGeneration, maxGeneration] at hword ⊢
    omega

theorem Sound.matches_sync (hsound : store.Sound) (generation : UInt64) :
    store.Matches (.sync generation) := by
  by_cases hforward : store.view.generation < generation.toNat
  · have hsync : store.arena.sync generation.toNat = store.arena.reset generation.toNat :=
      if_pos hforward
    constructor <;> simp only [Store.step, Ledger.step, hsync, if_pos hforward]
    · rfl
    · exact store.view_reset _
    · exact hsound.reset (Nat.le_of_lt_succ generation.toNat_lt) (Or.inl hforward)
  · have hsync : store.arena.sync generation.toNat = store.arena := if_neg hforward
    constructor <;> simp only [Store.step, Ledger.step, hsync, if_neg hforward]
    · rfl
    · exact hsound

theorem Sound.step (hsound : store.Sound) (operation : Operation ι κ α) :
    store.Matches operation := by
  cases operation with
  | append head generation key value => exact hsound.matches_append head generation key value
  | lookup head accepts =>
      refine ⟨?_, rfl, hsound⟩
      simp only [Store.step, Ledger.step, lookup_view]
  | length head =>
      refine ⟨?_, rfl, hsound⟩
      simp only [Store.step, Ledger.step, hsound.length_view]
  | frozen head =>
      refine ⟨?_, rfl, hsound⟩
      simp only [Store.step, Ledger.step, hsound.length_view]
      rfl
  | invalidate => exact hsound.matches_invalidate
  | sync generation => exact hsound.matches_sync generation

theorem Sound.run (hsound : store.Sound) (operations : List (Operation ι κ α)) :
    (store.run operations).1 = (store.view.run operations).1 ∧
      (store.run operations).2.view = (store.view.run operations).2 := by
  induction operations generalizing store with
  | nil => exact ⟨rfl, rfl⟩
  | cons operation rest ih =>
      obtain ⟨hanswer, hview, hnext⟩ := hsound.step operation
      obtain ⟨hanswers, hfinal⟩ := ih hnext
      simp only [Store.run, Ledger.run]
      rw [← hview, ← hanswer, ← hanswers, ← hfinal]
      exact ⟨rfl, rfl⟩

omit [DecidableEq ι] [DecidableEq κ] in
theorem sound_ofLimit (limit : Nat) : (Store.ofLimit limit : Store ι κ α).Sound where
  wellFormed := Arena.wellFormed_of_entries_eq_empty rfl
  word := Nat.zero_le _
  past := fun _ => by
    change ({} : Head).generation ≤ 0
    decide
  stored := fun _ _ => by
    change ({} : Head).slot ≤ 0
    decide
  disjoint := by
    simp [chain_of_entries_eq_empty, Store.ofLimit, Arena.ofLimit, Arena.size]

omit [Fintype ι] [DecidableEq ι] [DecidableEq κ] in
theorem view_ofLimit (limit : Nat) :
    (Store.ofLimit limit : Store ι κ α).view = Ledger.ofLimit limit := by
  have hlimit : (Arena.ofLimit limit : Arena κ α).limit.toNat = min limit maxLimit :=
    Arena.toNat_limit_ofLimit limit
  simp only [Arena.ofLimit] at hlimit
  simp [Store.view, Ledger.ofLimit, Store.ofLimit, Arena.ofLimit, hlimit,
    chain_of_entries_eq_empty]

/-- **The arena refines a ledger of lists.** For every limit and every sequence of operations on any
number of heads, a fresh arena gives the answers of the empty ledger, and its chains are at the end
the ledger's lists. -/
theorem run_eq_ledger_run (limit : Nat) (operations : List (Operation ι κ α)) :
    ((Store.ofLimit limit).run operations).1 = ((Ledger.ofLimit limit).run operations).1 ∧
      ((Store.ofLimit limit).run operations).2.view =
        ((Ledger.ofLimit limit).run operations).2 := by
  rw [← view_ofLimit]
  exact (sound_ofLimit limit).run operations

end Refinement

end Store

end AdaptiveEval.Chain
