import AdaptiveEval.Proofs.Chain.Entries

/-!
# Links between entries

Every link leads to an older entry, so a walk ends by itself: the bound on its steps never cuts it
short, and entries stored later do not show up in it.
-/

namespace AdaptiveEval.Chain.Arena

variable {κ α : Type} {entries : Array (Entry κ α)}

def Linked (entries : Array (Entry κ α)) : Prop :=
  ∀ ⦃index : Nat⦄ ⦃entry : Entry κ α⦄, entries[index]? = some entry →
    ∀ next ∈ entry.next, next < index

/-- The chain that starts at a stored entry. -/
def walk (entries : Array (Entry κ α)) (index : Nat) : List (Entry κ α) :=
  follow entries (index + 1) (some index)

theorem Linked.follow_eq_walk (hlinked : Linked entries) {steps index : Nat}
    (hsteps : index < steps) : follow entries steps (some index) = walk entries index := by
  induction index using Nat.strongRecOn generalizing steps with
  | _ index ih =>
      obtain ⟨steps, rfl⟩ := Nat.exists_eq_add_one_of_ne_zero (Nat.ne_zero_of_lt hsteps)
      unfold walk
      cases hentry : entries[index]? with
      | none => simp [follow, hentry]
      | some entry =>
          simp only [follow, hentry]
          cases hnext : entry.next with
          | none => simp
          | some next =>
              have hlt : next < index := hlinked hentry next hnext
              rw [ih next hlt (by omega), ih next hlt hlt]

theorem follow_push (hlinked : Linked entries) (newest : Entry κ α) (steps : Nat) {index : Nat}
    (hindex : index < entries.size) :
    follow (entries.push newest) steps (some index) = follow entries steps (some index) := by
  induction steps generalizing index with
  | zero => rfl
  | succ steps ih =>
      have hentry : entries[index]? = some entries[index] := Array.getElem?_eq_getElem hindex
      simp only [follow, Array.getElem?_push, Nat.ne_of_lt hindex, if_false, hentry]
      cases hnext : entries[index].next with
      | none => simp
      | some next =>
          have hlt : next < index := hlinked hentry next hnext
          rw [ih (by omega)]

theorem Linked.push (hlinked : Linked entries) {newest : Entry κ α}
    (hnewest : ∀ next ∈ newest.next, next < entries.size) : Linked (entries.push newest) := by
  intro index entry hentry next hnext
  rw [Array.getElem?_push] at hentry
  split at hentry
  · rename_i heq
    subst heq
    obtain rfl := Option.some.inj hentry
    exact hnewest next hnext
  · exact hlinked hentry next hnext

/-- A new entry starts with itself and goes on with the chain it was put in front of. -/
theorem walk_push_size (hlinked : Linked entries) {newest : Entry κ α}
    (hnewest : ∀ next ∈ newest.next, next < entries.size) :
    walk (entries.push newest) entries.size =
      newest :: follow entries entries.size newest.next := by
  unfold walk
  simp only [follow, Array.getElem?_push_size]
  cases hnext : newest.next with
  | none => simp
  | some next => rw [follow_push hlinked newest _ (hnewest next hnext)]

theorem walk_push (hlinked : Linked entries) (newest : Entry κ α) {index : Nat}
    (hindex : index < entries.size) : walk (entries.push newest) index = walk entries index :=
  follow_push hlinked newest _ hindex

/-- Every entry counts the chain that starts at it. -/
structure WellFormed (arena : Arena κ α) : Prop where
  linked : Linked arena.entries
  counted : ∀ ⦃index : Nat⦄ ⦃entry : Entry κ α⦄, arena.entries[index]? = some entry →
    entry.length.toNat = (walk arena.entries index).length

theorem wellFormed_of_entries_eq_empty {arena : Arena κ α} (hempty : arena.entries = #[]) :
    arena.WellFormed where
  linked := by simp [Linked, hempty]
  counted := by simp [hempty]

theorem locate_lt {arena : Arena κ α} {head : Head} :
    ∀ index ∈ arena.locate head, index < arena.size := by
  intro index hlocate
  unfold locate at hlocate
  split at hlocate
  · simp at hlocate
  · split at hlocate
    · rename_i hlt
      obtain rfl := Option.some.inj hlocate
      exact hlt
    · simp at hlocate

/-- The head that appended a pair names it. -/
theorem locate_push_point {arena : Arena κ α} (head : Head) (key : κ) (value : α)
    (next : Option Nat) (hlive : arena.isExhausted = false) (hroom : arena.size < maxEntries) :
    (arena.push key value next).locate (head.point arena.generation arena.size) =
      some arena.size := by
  have hgeneration := isExhausted_eq_false_iff.mp hlive
  have hexhausted : (arena.push key value next).isExhausted = false := hlive
  unfold locate
  rw [Head.slot_point head hgeneration hroom, Head.generation_point head hgeneration hroom,
    hexhausted]
  simp [Arena.push, size]

/-- Another head names what it named before, unless its word happens to name the new entry. -/
theorem locate_push_of_slot_le {arena : Arena κ α} {head : Head} (key : κ) (value : α)
    (next : Option Nat) (hslot : head.generation = arena.generation → head.slot ≤ arena.size) :
    (arena.push key value next).locate head = arena.locate head := by
  have hexhausted : (arena.push key value next).isExhausted = arena.isExhausted := rfl
  unfold locate
  rw [hexhausted]
  simp only [Arena.push, Array.size_push]
  split
  · rfl
  · rename_i hnamed
    obtain ⟨hpositive, hrest⟩ := not_or.mp hnamed
    obtain ⟨hgeneration, _⟩ := not_or.mp hrest
    have hle := hslot (Decidable.not_not.mp hgeneration)
    simp only [size] at hle
    rw [if_pos (by omega), if_pos (by omega)]

namespace WellFormed

variable {arena : Arena κ α}

theorem lengthAt_eq (hwell : arena.WellFormed) {next : Option Nat}
    (hnext : ∀ index ∈ next, index < arena.size) :
    (arena.lengthAt next).toNat = (follow arena.entries arena.entries.size next).length := by
  cases next with
  | none => simp [lengthAt]
  | some index =>
      have hindex : index < arena.entries.size := hnext index rfl
      have hentry : arena.entries[index]? = some arena.entries[index] :=
        Array.getElem?_eq_getElem hindex
      rw [hwell.linked.follow_eq_walk hindex, ← hwell.counted hentry]
      simp [lengthAt, hentry]

theorem chainLength_eq (hwell : arena.WellFormed) (head : Head) :
    arena.chainLength head = (arena.chain head).length :=
  hwell.lengthAt_eq locate_lt

theorem push (hwell : arena.WellFormed) (key : κ) (value : α) {next : Option Nat}
    (hnext : ∀ index ∈ next, index < arena.size) (hlength : (arena.lengthAt next).toNat < maxLimit) :
    (arena.push key value next).WellFormed where
  linked := hwell.linked.push hnext
  counted := by
    intro index entry hentry
    simp only [Arena.push] at hentry ⊢
    rw [Array.getElem?_push] at hentry
    split at hentry
    · rename_i heq
      subst heq
      obtain rfl := Option.some.inj hentry
      rw [walk_push_size hwell.linked hnext, List.length_cons, ← hwell.lengthAt_eq hnext]
      -- The count of a chain below the longest one does not wrap.
      simp only [UInt8.toNat_add, maxLimit] at hlength ⊢
      change (_ + 1) % 256 = _
      omega
    · have hindex : index < arena.entries.size := (Array.getElem?_eq_some_iff.mp hentry).1
      rw [walk_push hwell.linked _ hindex]
      exact hwell.counted hentry

/-- The head that appended a pair reads it in front of what it read before. -/
theorem chain_push_point (hwell : arena.WellFormed) (head : Head) (key : κ) (value : α)
    {next : Option Nat} (hnext : ∀ index ∈ next, index < arena.size)
    (hlive : arena.isExhausted = false) (hroom : arena.size < maxEntries) :
    (arena.push key value next).chain (head.point arena.generation arena.size) =
      { key, value, next, length := arena.lengthAt next + 1 } ::
        follow arena.entries arena.entries.size next := by
  have hlinked : Linked (arena.push key value next).entries := hwell.linked.push hnext
  unfold chain
  rw [locate_push_point head key value next hlive hroom,
    hlinked.follow_eq_walk (by simp [Arena.push, size])]
  exact walk_push_size hwell.linked hnext

/-- Another head reads what it read before. -/
theorem chain_push_of_slot_le (hwell : arena.WellFormed) (key : κ) (value : α) {next : Option Nat}
    (hnext : ∀ index ∈ next, index < arena.size) {head : Head}
    (hslot : head.generation = arena.generation → head.slot ≤ arena.size) :
    (arena.push key value next).chain head = arena.chain head := by
  unfold chain
  rw [locate_push_of_slot_le key value next hslot]
  cases hindex : arena.locate head with
  | none => simp
  | some index =>
      have hlt : index < arena.entries.size := locate_lt index hindex
      simp only [Arena.push, Array.size_push]
      rw [(hwell.linked.push hnext).follow_eq_walk (Nat.lt_succ_of_lt hlt),
        hwell.linked.follow_eq_walk hlt, walk_push hwell.linked _ hlt]

end WellFormed

end AdaptiveEval.Chain.Arena
