import AdaptiveEval.Chain.Arena

/-!
# What an arena holds

Facts about the stored entries that hold for every head, also for one that was written for another
arena: whatever word it carries, a lookup reads stored entries only, and each stored entry is what
the right word reads.
-/

namespace AdaptiveEval.Chain

namespace Head

variable (head : Head) {generation index : Nat}

theorem toNat_pack (hgeneration : generation ≤ maxGeneration) (hindex : index < maxEntries) :
    (pack generation index).toNat = generation * slotCount + (index + 1) := by
  apply UInt64.toNat_ofNat_of_lt
  simp only [maxGeneration, maxEntries, slotCount, UInt64.size] at hgeneration hindex ⊢
  omega

theorem generation_point (hgeneration : generation ≤ maxGeneration) (hindex : index < maxEntries) :
    (head.point generation index).generation = generation := by
  unfold Head.generation point
  rw [toNat_pack hgeneration hindex]
  simp only [maxEntries, slotCount] at hindex ⊢
  omega

theorem slot_point (hgeneration : generation ≤ maxGeneration) (hindex : index < maxEntries) :
    (head.point generation index).slot = index + 1 := by
  unfold Head.slot point
  rw [toNat_pack hgeneration hindex]
  simp only [maxEntries, slotCount] at hindex ⊢
  omega

theorem generation_le : head.generation ≤ maxGeneration := by
  have hword := head.word.toNat_lt
  simp only [Head.generation, maxGeneration, slotCount]
  omega

end Head

namespace Arena

variable {κ α : Type}

theorem isExhausted_eq_false_iff {arena : Arena κ α} :
    arena.isExhausted = false ↔ arena.generation ≤ maxGeneration := by
  simp [isExhausted]

theorem toNat_limit_ofLimit (limit : Nat) :
    (ofLimit limit : Arena κ α).limit.toNat = min limit maxLimit := by
  apply UInt8.toNat_ofNat_of_lt
  simp only [maxLimit, UInt8.size]
  omega

@[simp]
theorem follow_none (entries : Array (Entry κ α)) (steps : Nat) :
    follow entries steps none = [] := by
  cases steps <;> rfl

theorem mem_of_mem_follow {entries : Array (Entry κ α)} {entry : Entry κ α} :
    ∀ {steps : Nat} {start : Option Nat}, entry ∈ follow entries steps start → entry ∈ entries := by
  intro steps
  induction steps with
  | zero =>
      intro start hmem
      simp [follow] at hmem
  | succ steps ih =>
      intro start hmem
      cases start with
      | none => simp [follow] at hmem
      | some index =>
          cases hentry : entries[index]? with
          | none => simp [follow, hentry] at hmem
          | some newest =>
              simp only [follow, hentry, List.mem_cons] at hmem
              rcases hmem with rfl | hrest
              · exact Array.mem_of_getElem? hentry
              · exact ih hrest

theorem exists_mem_of_lookup_eq_some {arena : Arena κ α} {head : Head} {accepts : κ → Bool}
    {value : α} (hlookup : arena.lookup head accepts = some value) :
    ∃ entry ∈ arena.entries, accepts entry.key = true ∧ entry.value = value := by
  obtain ⟨entry, hfind, hvalue⟩ := Option.map_eq_some_iff.mp hlookup
  refine ⟨entry, mem_of_mem_follow (List.mem_of_find?_eq_some hfind), ?_, hvalue⟩
  simpa using List.find?_some hfind

/-- Everything that an append can do: nothing, or one entry more, in front of the head's chain. -/
theorem tryAppend_cases [DecidableEq κ] (arena : Arena κ α) (head : Head) (generation : Nat)
    (key : κ) (value : α) :
    (∃ outcome, outcome ≠ .appended ∧
      arena.tryAppend head generation key value = (outcome, arena, head)) ∨
    (arena.generation = generation ∧ arena.isExhausted = false ∧ arena.isFrozen head = false ∧
      arena.size < maxEntries ∧
      arena.tryAppend head generation key value =
        (.appended, arena.push key value (arena.locate head),
          head.point arena.generation arena.size)) := by
  unfold tryAppend
  split
  · exact Or.inl ⟨.stale, by decide, rfl⟩
  · rename_i hlive
    split
    · exact Or.inl ⟨.present, by decide, rfl⟩
    · split
      · exact Or.inl ⟨.frozen, by decide, rfl⟩
      · rename_i hroom
        obtain ⟨hgeneration, hexhausted⟩ := not_or.mp hlive
        obtain ⟨hfrozen, hsize⟩ := not_or.mp hroom
        exact Or.inr ⟨Decidable.not_not.mp hgeneration, Bool.eq_false_iff.mpr hexhausted,
          Bool.eq_false_iff.mpr hfrozen, Nat.lt_of_not_le hsize, rfl⟩

section EmptyHeads

variable {arena : Arena κ α} {head : Head} (hslot : head.slot = 0)

include hslot

theorem locate_of_slot_eq_zero : arena.locate head = none := by
  simp [locate, hslot]

theorem chain_of_slot_eq_zero : arena.chain head = [] := by
  rw [chain, locate_of_slot_eq_zero hslot, follow_none]

theorem lookup_of_slot_eq_zero (accepts : κ → Bool) : arena.lookup head accepts = none := by
  rw [lookup, chain_of_slot_eq_zero hslot]
  rfl

/-- Nothing but the bounds of the arena stands in the way of an empty head. -/
theorem tryAppend_of_slot_eq_zero [DecidableEq κ] (hlive : arena.generation ≤ maxGeneration)
    (hlimit : 0 < arena.limit.toNat) (hroom : arena.size < maxEntries) (key : κ) (value : α) :
    arena.tryAppend head arena.generation key value =
      (.appended, arena.push key value none, head.point arena.generation arena.size) := by
  have hexhausted : arena.isExhausted = false := isExhausted_eq_false_iff.mpr hlive
  have hopen : arena.isFrozen head = false := by
    simp [isFrozen, chainLength, lengthAt, locate_of_slot_eq_zero hslot, Nat.ne_of_gt hlimit]
  have hfits : ¬maxEntries ≤ arena.size := Nat.not_le_of_lt hroom
  simp [tryAppend, hexhausted, hopen, hfits, chain_of_slot_eq_zero hslot,
    locate_of_slot_eq_zero hslot]

end EmptyHeads

@[simp]
theorem generation_tryAppend [DecidableEq κ] (arena : Arena κ α) (head : Head) (generation : Nat)
    (key : κ) (value : α) :
    (arena.tryAppend head generation key value).2.1.generation = arena.generation := by
  obtain ⟨outcome, _, hrefused⟩ | ⟨_, _, _, _, happended⟩ :=
    arena.tryAppend_cases head generation key value
  · rw [hrefused]
  · rw [happended]
    rfl

@[simp]
theorem limit_tryAppend [DecidableEq κ] (arena : Arena κ α) (head : Head) (generation : Nat)
    (key : κ) (value : α) :
    (arena.tryAppend head generation key value).2.1.limit = arena.limit := by
  obtain ⟨outcome, _, hrefused⟩ | ⟨_, _, _, _, happended⟩ :=
    arena.tryAppend_cases head generation key value
  · rw [hrefused]
  · rw [happended]
    rfl

/-- A new entry holds the appended pair, which was computed for the live generation. -/
theorem mem_entries_tryAppend [DecidableEq κ] {arena : Arena κ α} {head : Head} {generation : Nat}
    {key : κ} {value : α} {entry : Entry κ α}
    (hmem : entry ∈ (arena.tryAppend head generation key value).2.1.entries) :
    entry ∈ arena.entries ∨
      (entry.key = key ∧ entry.value = value ∧ arena.generation = generation) := by
  obtain ⟨outcome, _, hrefused⟩ | ⟨hgeneration, _, _, _, happended⟩ :=
    arena.tryAppend_cases head generation key value
  · rw [hrefused] at hmem
    exact Or.inl hmem
  · rw [happended] at hmem
    rcases Array.mem_push.mp hmem with hold | hnew
    · exact Or.inl hold
    · subst hnew
      exact Or.inr ⟨rfl, rfl, hgeneration⟩

@[simp]
theorem generation_sync (arena : Arena κ α) (generation : Nat) :
    (arena.sync generation).generation = max arena.generation generation := by
  unfold sync
  split
  · simp only [reset]
    omega
  · omega

theorem sync_of_le {arena : Arena κ α} {generation : Nat} (hle : generation ≤ arena.generation) :
    arena.sync generation = arena := by
  unfold sync
  rw [if_neg (Nat.not_lt_of_le hle)]

@[simp]
theorem limit_sync (arena : Arena κ α) (generation : Nat) :
    (arena.sync generation).limit = arena.limit := by
  unfold sync
  split <;> rfl

/-- Entries survive a synchronization only when it asks for no newer generation. -/
theorem mem_entries_sync {arena : Arena κ α} {generation : Nat} {entry : Entry κ α}
    (hmem : entry ∈ (arena.sync generation).entries) :
    entry ∈ arena.entries ∧ generation ≤ arena.generation := by
  unfold sync at hmem
  split at hmem
  · simp [reset] at hmem
  · rename_i hbehind
    exact ⟨hmem, by omega⟩

/-- What an arena with entries must have had in order to get them. -/
structure Nameable (arena : Arena κ α) : Prop where
  room : arena.size ≤ maxEntries
  live : arena.entries ≠ #[] → arena.generation ≤ maxGeneration
  limited : arena.entries ≠ #[] → 0 < arena.limit.toNat

theorem nameable_of_entries_eq_empty {arena : Arena κ α} (hempty : arena.entries = #[]) :
    arena.Nameable where
  room := by simp [size, hempty]
  live := fun hne => absurd hempty hne
  limited := fun hne => absurd hempty hne

namespace Nameable

variable {arena : Arena κ α}

theorem tryAppend [DecidableEq κ] (hnameable : arena.Nameable) (head : Head) (generation : Nat)
    (key : κ) (value : α) : (arena.tryAppend head generation key value).2.1.Nameable := by
  obtain ⟨outcome, _, hrefused⟩ | ⟨_, hlive, hfrozen, hroom, happended⟩ :=
    arena.tryAppend_cases head generation key value
  · rw [hrefused]
    exact hnameable
  · rw [happended]
    refine ⟨?_, fun _ => isExhausted_eq_false_iff.mp hlive, fun _ => ?_⟩
    · simp only [size, push, Array.size_push] at hroom ⊢
      omega
    · have hopen : arena.chainLength head < arena.limit.toNat := by
        simpa [isFrozen] using hfrozen
      exact Nat.zero_lt_of_lt hopen

theorem sync (hnameable : arena.Nameable) (generation : Nat) : (arena.sync generation).Nameable := by
  unfold Arena.sync
  split
  · exact nameable_of_entries_eq_empty rfl
  · exact hnameable

theorem lookup_point (hnameable : arena.Nameable) (head : Head) {index : Nat} {entry : Entry κ α}
    (hentry : arena.entries[index]? = some entry) {accepts : κ → Bool}
    (haccepts : accepts entry.key = true) :
    arena.lookup (head.point arena.generation index) accepts = some entry.value := by
  obtain ⟨hindex, _⟩ := Array.getElem?_eq_some_iff.mp hentry
  have hne : arena.entries ≠ #[] := by
    intro hempty
    simp [hempty] at hindex
  have hgeneration := hnameable.live hne
  have hbound : index < maxEntries := Nat.lt_of_lt_of_le hindex hnameable.room
  have hlocate : arena.locate (head.point arena.generation index) = some index := by
    have hexhausted := isExhausted_eq_false_iff.mpr hgeneration
    unfold locate
    rw [Head.slot_point head hgeneration hbound, Head.generation_point head hgeneration hbound]
    simp [hexhausted, hindex]
  have hchain : ∃ rest, arena.chain (head.point arena.generation index) = entry :: rest := by
    unfold chain
    rw [hlocate]
    obtain ⟨steps, hsteps⟩ := Nat.exists_eq_add_one_of_ne_zero (Nat.ne_zero_of_lt hindex)
    rw [hsteps]
    simp [follow, hentry]
  obtain ⟨rest, hchain⟩ := hchain
  unfold lookup
  rw [hchain]
  simp [haccepts]

end Nameable

end Arena

end AdaptiveEval.Chain
