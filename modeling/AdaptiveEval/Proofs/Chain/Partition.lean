import AdaptiveEval.Proofs.Chain.FirstKeys
import Mathlib.Algebra.Order.BigOperators.Group.Finset

/-!
# Every entry has one owner

The chains of the heads that one arena serves take its entries apart: each stored entry lies on the
chain of exactly one head. So the arena is as large as its chains are long together, and nothing
that is stored goes out of reach.
-/

namespace AdaptiveEval.Chain

open scoped BigOperators

variable {ι κ α : Type}

namespace Arena

/-- A walk along the links from a start comes past an index. -/
inductive Leads (entries : Array (Entry κ α)) : Option Nat → Nat → Prop where
  | here (index : Nat) : Leads entries (some index) index
  | next {start index : Nat} {entry : Entry κ α} (hentry : entries[start]? = some entry)
      (hrest : Leads entries entry.next index) : Leads entries (some start) index

section Leads

variable {entries : Array (Entry κ α)} {start index : Nat}

theorem not_leads_none : ¬Leads entries none index :=
  nofun

theorem leads_some_iff {entry : Entry κ α} (hentry : entries[start]? = some entry) :
    Leads entries (some start) index ↔ index = start ∨ Leads entries entry.next index := by
  constructor
  · rintro (_ | ⟨hfound, hrest⟩)
    · exact Or.inl rfl
    · rw [hentry] at hfound
      exact Or.inr (Option.some.inj hfound ▸ hrest)
  · rintro (rfl | hrest)
    · exact .here _
    · exact .next hentry hrest

/-- Links lead to older entries only. -/
theorem Linked.le_of_leads (hlinked : Linked entries) (hleads : Leads entries (some start) index) :
    index ≤ start := by
  generalize hfrom : some start = first at hleads
  induction hleads generalizing start with
  | here index => exact Nat.le_of_eq (Option.some.inj hfrom).symm
  | @next middle index entry hentry hrest ih =>
      obtain rfl := Option.some.inj hfrom
      cases hnext : entry.next with
      | none =>
          rw [hnext] at hrest
          exact absurd hrest not_leads_none
      | some next =>
          exact Nat.le_trans (ih hnext.symm) (Nat.le_of_lt (hlinked hentry next hnext))

theorem Linked.leads_push_iff (hlinked : Linked entries) (newest : Entry κ α) {first : Option Nat}
    (hfirst : ∀ start ∈ first, start < entries.size) :
    Leads (entries.push newest) first index ↔ Leads entries first index := by
  have hkept : ∀ {start}, start < entries.size →
      (entries.push newest)[start]? = entries[start]? := fun hlt => by
    rw [Array.getElem?_push, if_neg (Nat.ne_of_lt hlt)]
  constructor
  · intro hleads
    induction hleads with
    | here index => exact .here index
    | @next start index entry hentry hrest ih =>
        rw [hkept (hfirst start rfl)] at hentry
        refine .next hentry (ih fun next hnext => ?_)
        exact Nat.lt_trans (hlinked hentry next hnext) (hfirst start rfl)
  · intro hleads
    induction hleads with
    | here index => exact .here index
    | @next start index entry hentry hrest ih =>
        refine .next ((hkept (hfirst start rfl)).trans hentry) (ih fun next hnext => ?_)
        exact Nat.lt_trans (hlinked hentry next hnext) (hfirst start rfl)

/-- The stored entries on a chain, by their indices. -/
noncomputable def led (entries : Array (Entry κ α)) (first : Option Nat) : Finset Nat :=
  open Classical in (Finset.range entries.size).filter (Leads entries first)

theorem mem_led {first : Option Nat} :
    index ∈ led entries first ↔ index < entries.size ∧ Leads entries first index := by
  simp [led]

theorem Linked.card_led_some (hlinked : Linked entries) (hstart : start < entries.size) :
    (led entries (some start)).card = (walk entries start).length := by
  induction start using Nat.strongRecOn with
  | _ start ih =>
      have hentry : entries[start]? = some entries[start] := Array.getElem?_eq_getElem hstart
      have hsplit : led entries (some start) = insert start (led entries entries[start].next) := by
        ext index
        rw [Finset.mem_insert, mem_led, mem_led, leads_some_iff hentry]
        constructor
        · rintro ⟨hlt, rfl | hrest⟩
          · exact Or.inl rfl
          · exact Or.inr ⟨hlt, hrest⟩
        · rintro (rfl | ⟨hlt, hrest⟩)
          · exact ⟨hstart, Or.inl rfl⟩
          · exact ⟨hlt, Or.inr hrest⟩
      have hnew : start ∉ led entries entries[start].next := by
        intro hmem
        have hback := (mem_led.mp hmem).2
        cases hnext : entries[start].next with
        | none =>
            rw [hnext] at hback
            exact not_leads_none hback
        | some next =>
            rw [hnext] at hback
            have hle := hlinked.le_of_leads hback
            have hlt := hlinked hentry next hnext
            omega
      rw [hsplit, Finset.card_insert_of_notMem hnew, walk, follow, hentry]
      cases hnext : entries[start].next with
      | none => simp [led, not_leads_none, hnext]
      | some next =>
          have hlt : next < start := hlinked hentry next hnext
          rw [ih next hlt (Nat.lt_trans hlt hstart), List.length_cons, hnext,
            hlinked.follow_eq_walk hlt]

end Leads

theorem Orderly.card_led {arena : Arena κ α} (horderly : arena.Orderly) (head : Head) :
    (led arena.entries (arena.locate head)).card = arena.chainLength head := by
  rw [horderly.chainLength_eq]
  obtain ⟨hlocate, hchain⟩ | ⟨index, entry, hentry, hlocate, hchain⟩ := horderly.chain_cases head
  · simp [hlocate, hchain, led, not_leads_none]
  · rw [hlocate, hchain]
    exact horderly.linked.card_led_some (Array.getElem?_eq_some_iff.mp hentry).1

end Arena

namespace Arena

variable {arena : Arena κ α} {head other : Head}

theorem locate_eq_of_word_eq (hword : other.word = head.word) :
    arena.locate other = arena.locate head := by
  obtain ⟨word, hits, misses⟩ := other
  obtain rfl := hword
  rfl

theorem Owns.of_word_eq (howns : arena.Owns head) (hword : other.word = head.word) :
    arena.Owns other where
  orderly := howns.orderly
  past := by
    rw [Head.generation, hword]
    exact howns.past
  stored := by
    rw [Head.generation, Head.slot, hword]
    exact howns.stored

end Arena

open Arena (Leads led mem_led)

namespace Store

/-- The entry at an index lies on the chain of a head. -/
def Holds (store : Store ι κ α) (head : ι) (index : Nat) : Prop :=
  Leads store.arena.entries (store.arena.locate (store.heads head)) index

/-- Each entry lies on the chain of exactly one of the live heads. -/
structure Partitioned (store : Store ι κ α) (live : Finset ι) : Prop where
  orderly : store.arena.Orderly
  owns : ∀ head ∈ live, store.arena.Owns (store.heads head)
  owner : ∀ index < store.arena.size, ∃! head, head ∈ live ∧ store.Holds head index

namespace Partitioned

variable {store : Store ι κ α} {live : Finset ι}

/-- The entries are as many as the chains are long together. -/
theorem size_eq_sum (hpartitioned : store.Partitioned live) :
    store.arena.size = ∑ head ∈ live, store.arena.chainLength (store.heads head) := by
  classical
  let owned := fun head => led store.arena.entries (store.arena.locate (store.heads head))
  have hcover : Finset.range store.arena.size = live.biUnion owned := by
    ext index
    rw [Finset.mem_range, Finset.mem_biUnion]
    constructor
    · intro hlt
      obtain ⟨head, ⟨hlive, hholds⟩, -⟩ := hpartitioned.owner index hlt
      exact ⟨head, hlive, mem_led.mpr ⟨hlt, hholds⟩⟩
    · rintro ⟨head, -, hled⟩
      exact (mem_led.mp hled).1
  have hdisjoint : (live : Set ι).PairwiseDisjoint owned := by
    intro head hhead other hother hne
    refine Finset.disjoint_left.mpr fun index hled hshared => hne ?_
    obtain ⟨hlt, hholds⟩ := mem_led.mp hled
    exact (hpartitioned.owner index hlt).unique ⟨hhead, hholds⟩
      ⟨hother, (mem_led.mp hshared).2⟩
  calc store.arena.size
      = (live.biUnion owned).card := by rw [← hcover, Finset.card_range]
    _ = ∑ head ∈ live, (owned head).card := Finset.card_biUnion hdisjoint
    _ = ∑ head ∈ live, store.arena.chainLength (store.heads head) :=
        Finset.sum_congr rfl fun head _ => hpartitioned.orderly.card_led (store.heads head)

theorem size_le (hpartitioned : store.Partitioned live) :
    store.arena.size ≤ store.arena.limit.toNat * live.card := by
  have hbound : ∀ head ∈ live,
      store.arena.chainLength (store.heads head) ≤ store.arena.limit.toNat := by
    intro head _
    rw [hpartitioned.orderly.chainLength_eq]
    exact hpartitioned.orderly.length_chain_le _
  calc store.arena.size
      = ∑ head ∈ live, store.arena.chainLength (store.heads head) := hpartitioned.size_eq_sum
    _ ≤ live.card • store.arena.limit.toNat := Finset.sum_le_card_nsmul live _ _ hbound
    _ = store.arena.limit.toNat * live.card := Nat.mul_comm _ _

theorem lt_of_holds (hpartitioned : store.Partitioned live) {head : ι} {index : Nat}
    (hholds : store.Holds head index) : index < store.arena.size := by
  unfold Holds at hholds
  cases hlocate : store.arena.locate (store.heads head) with
  | none =>
      rw [hlocate] at hholds
      exact absurd hholds Arena.not_leads_none
  | some start =>
      rw [hlocate] at hholds
      exact Nat.lt_of_le_of_lt (hpartitioned.orderly.linked.le_of_leads hholds)
        (Arena.locate_lt start hlocate)

theorem of_entries_eq_empty (hempty : store.arena.entries = #[])
    (howns : ∀ head ∈ live, store.arena.Owns (store.heads head)) : store.Partitioned live where
  orderly := Arena.orderly_of_entries_eq_empty hempty
  owns := howns
  owner := by simp [Arena.size, hempty]

/-- Only the words of the live heads matter. -/
theorem of_word_eq (hpartitioned : store.Partitioned live) {heads : ι → Head}
    (hword : ∀ head ∈ live, (heads head).word = (store.heads head).word) :
    ({ store with heads } : Store ι κ α).Partitioned live where
  orderly := hpartitioned.orderly
  owns head hlive := (hpartitioned.owns head hlive).of_word_eq (hword head hlive)
  owner index hlt := by
    obtain ⟨head, ⟨hlive, hholds⟩, hunique⟩ := hpartitioned.owner index hlt
    refine ⟨head, ⟨hlive, ?_⟩, ?_⟩
    · rw [Holds, Arena.locate_eq_of_word_eq (hword head hlive)]
      exact hholds
    · rintro other ⟨hother, hheld⟩
      rw [Holds, Arena.locate_eq_of_word_eq (hword other hother)] at hheld
      exact hunique other ⟨hother, hheld⟩

theorem invalidate [DecidableEq κ] (hpartitioned : store.Partitioned live) :
    ({ store with arena := store.arena.invalidate } : Store ι κ α).Partitioned live :=
  of_entries_eq_empty rfl fun head hlive => (hpartitioned.owns head hlive).change (.invalidate _)

theorem sync [DecidableEq κ] (hpartitioned : store.Partitioned live) (generation : Nat) :
    ({ store with arena := store.arena.sync generation } : Store ι κ α).Partitioned live := by
  by_cases hforward : store.arena.generation < generation
  · have hreset : store.arena.sync generation = store.arena.reset generation := if_pos hforward
    apply of_entries_eq_empty
    · rw [hreset]
      rfl
    · exact fun head hlive => (hpartitioned.owns head hlive).change (.sync _ _)
  · rw [Arena.sync_of_le (Nat.not_lt.mp hforward)]
    exact hpartitioned

section Appends

variable [DecidableEq ι] {head : ι}

/-- A head that only counts an access keeps its chain. -/
theorem record (hpartitioned : store.Partitioned live) (head : ι) (hit : Bool) :
    ({ store with
        heads := Function.update store.heads head ((store.heads head).record hit) } :
      Store ι κ α).Partitioned live := by
  refine hpartitioned.of_word_eq fun other _ => ?_
  by_cases hother : other = head
  · subst hother
    cases hit <;> simp [Head.record]
  · rw [Function.update_of_ne hother]

variable (hpartitioned : store.Partitioned live) (hhead : head ∈ live) (key : κ) (value : α)
  (hlive : store.arena.isExhausted = false) (hroom : store.arena.size < maxEntries)

include hpartitioned hlive hroom

/-- What the appending head held stays behind its new entry; other chains stay as they are. -/
theorem holds_appended_iff {other : ι} (hother : other ∈ live) {index : Nat} :
    (store.appended head key value).Holds other index ↔
      store.Holds other index ∨ other = head ∧ index = store.arena.size := by
  have hlinked := hpartitioned.orderly.linked
  unfold Holds
  by_cases heq : other = head
  · subst heq
    have hnewest : (store.appended other key value).arena.entries[store.arena.size]? = some
        { key, value
          next := store.arena.locate (store.heads other)
          length := store.arena.lengthAt (store.arena.locate (store.heads other)) + 1 } :=
      Array.getElem?_push_size
    have hlocate : (store.appended other key value).arena.locate
        ((store.appended other key value).heads other) = some store.arena.size := by
      simp only [appended, Function.update_self]
      exact Arena.locate_push_point _ key value _ hlive hroom
    rw [hlocate, Arena.leads_some_iff hnewest]
    dsimp only [appended, Arena.push]
    rw [hlinked.leads_push_iff _ Arena.locate_lt, or_comm]
    simp only [true_and]
  · have hlocate : (store.appended head key value).arena.locate
        ((store.appended head key value).heads other) = store.arena.locate (store.heads other) := by
      simp only [appended, Function.update_of_ne heq]
      exact Arena.locate_push_of_slot_le key value _ (hpartitioned.owns other hother).stored
    rw [hlocate]
    dsimp only [appended, Arena.push]
    rw [hlinked.leads_push_iff _ Arena.locate_lt]
    simp only [heq, false_and, or_false]

theorem owner_appended (hhead : head ∈ live) {index : Nat}
    (hlt : index < (store.appended head key value).arena.size) :
    ∃! other, other ∈ live ∧ (store.appended head key value).Holds other index := by
  have hiff : ∀ {other}, other ∈ live → ((store.appended head key value).Holds other index ↔
      store.Holds other index ∨ other = head ∧ index = store.arena.size) := fun hother =>
    hpartitioned.holds_appended_iff key value hlive hroom hother
  have hsize : (store.appended head key value).arena.size = store.arena.size + 1 :=
    Array.size_push _
  obtain hold | rfl := Nat.lt_succ_iff_lt_or_eq.mp (hsize ▸ hlt)
  · obtain ⟨owner, ⟨howner, hholds⟩, hunique⟩ := hpartitioned.owner index hold
    refine ⟨owner, ⟨howner, (hiff howner).mpr (Or.inl hholds)⟩, ?_⟩
    rintro other ⟨hother, hheld⟩
    obtain hheld | ⟨-, hnew⟩ := (hiff hother).mp hheld
    · exact hunique other ⟨hother, hheld⟩
    · exact absurd hnew (Nat.ne_of_lt hold)
  · refine ⟨head, ⟨hhead, (hiff hhead).mpr (Or.inr ⟨rfl, rfl⟩)⟩, ?_⟩
    rintro other ⟨hother, hheld⟩
    obtain hheld | ⟨hsame, -⟩ := (hiff hother).mp hheld
    · exact absurd (hpartitioned.lt_of_holds hheld) (Nat.lt_irrefl _)
    · exact hsame

end Appends

variable [DecidableEq ι] [DecidableEq κ]

theorem tryAppend (hpartitioned : store.Partitioned live) {head : ι} (hhead : head ∈ live)
    (generation : Nat) (key : κ) (value : α) :
    ({ arena := (store.arena.tryAppend (store.heads head) generation key value).2.1
       heads := Function.update store.heads head
         (store.arena.tryAppend (store.heads head) generation key value).2.2 } :
      Store ι κ α).Partitioned live := by
  have howns := hpartitioned.owns head hhead
  obtain ⟨_, _, hrefused⟩ | ⟨_, hlive, hopen, hroom, happended⟩ :=
    store.arena.tryAppend_cases (store.heads head) generation key value
  · rw [hrefused, Function.update_eq_self]
    exact hpartitioned
  · have hfresh := Arena.key_ne_of_appended (congrArg Prod.fst happended)
    have hnameable := Arena.isExhausted_eq_false_iff.mp hlive
    rw [happended]
    change (store.appended head key value).Partitioned live
    refine ⟨hpartitioned.orderly.push _ value hfresh hopen, fun other hother => ?_, fun index hlt =>
      hpartitioned.owner_appended key value hlive hroom hhead hlt⟩
    by_cases heq : other = head
    · subst heq
      simp only [appended, Function.update_self]
      exact howns.point hnameable hroom value hfresh hopen
    · have hkept :=
        (hpartitioned.owns other hother).tryAppend (store.heads head) generation key value
      rw [happended] at hkept
      simpa only [appended, Function.update_of_ne heq] using hkept

theorem step [Fintype ι] (hpartitioned : store.Partitioned Finset.univ)
    (operation : Operation ι κ α) : (store.step operation).2.Partitioned Finset.univ := by
  cases operation with
  | append head generation key value =>
      exact hpartitioned.tryAppend (Finset.mem_univ head) generation.toNat key value
  | lookup head accepts => exact hpartitioned
  | length head => exact hpartitioned
  | frozen head => exact hpartitioned
  | invalidate => exact hpartitioned.invalidate
  | sync generation => exact hpartitioned.sync generation.toNat

theorem run [Fintype ι] (hpartitioned : store.Partitioned Finset.univ)
    (operations : List (Operation ι κ α)) :
    (store.run operations).2.Partitioned Finset.univ := by
  induction operations generalizing store with
  | nil => exact hpartitioned
  | cons operation rest ih => exact ih (hpartitioned.step operation)

end Partitioned

end Store

end AdaptiveEval.Chain
