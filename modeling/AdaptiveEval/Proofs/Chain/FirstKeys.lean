import AdaptiveEval.Proofs.Chain.SharedHeads

/-!
# The first keys of a head

A head that one arena alone writes lists the first distinct keys that were asked for at it since the
arena last changed generation, as many as the limit allows. Other heads may carry any words: what
they append never shows up in its chain.
-/

namespace AdaptiveEval.Chain

section Recent

variable {σ ε κ : Type} (step : σ → ε → σ) (counter : σ → Nat) (item? : ε → Option κ)

def recentFrom (past : List κ) (state : σ) : List ε → List κ
  | [] => past
  | event :: rest =>
      let after := step state event
      let kept := if counter after = counter state then past else []
      recentFrom (kept ++ (item? event).toList) after rest

/-- The items of the events since a counter last changed, oldest first. An event that changes the
counter does so before its own item. -/
def recent (start : σ) (events : List ε) : List κ :=
  recentFrom step counter item? [] start events

theorem recentFrom_concat (past : List κ) (state : σ) (events : List ε) (event : ε) :
    recentFrom step counter item? past state (events ++ [event]) =
      (if counter (step (events.foldl step state) event) = counter (events.foldl step state) then
          recentFrom step counter item? past state events
        else []) ++ (item? event).toList := by
  induction events generalizing past state with
  | nil => rfl
  | cons first rest ih => exact ih _ _

theorem recent_concat (start : σ) (events : List ε) (event : ε) :
    recent step counter item? start (events ++ [event]) =
      (if counter (step (events.foldl step start) event) = counter (events.foldl step start) then
          recent step counter item? start events
        else []) ++ (item? event).toList :=
  recentFrom_concat step counter item? [] start events event

end Recent

section Distinct

variable {κ : Type} [DecidableEq κ] {asked : List κ} {key : κ}

theorem eraseDups_concat_of_mem (hmem : key ∈ asked) :
    (asked ++ [key]).eraseDups = asked.eraseDups := by
  simp [List.eraseDups_append, List.removeAll, hmem]

theorem eraseDups_concat_of_notMem (hnew : key ∉ asked) :
    (asked ++ [key]).eraseDups = asked.eraseDups ++ [key] := by
  simp [List.eraseDups_append, List.removeAll, hnew, List.eraseDups_cons]

/-- Once there are enough distinct keys, the first ones do not change any more. -/
theorem take_eraseDups_concat {count : Nat} (hfull : count ≤ asked.eraseDups.length) :
    (asked ++ [key]).eraseDups.take count = asked.eraseDups.take count := by
  rw [List.eraseDups_append, List.take_append_of_le_length hfull]

end Distinct

namespace Arena

variable {κ α : Type}

theorem chain_record (arena : Arena κ α) (head : Head) (hit : Bool) :
    arena.chain (head.record hit) = arena.chain head := by
  cases hit <;> rfl

theorem chain_of_entries_eq_empty {arena : Arena κ α} (hempty : arena.entries = #[])
    (head : Head) : arena.chain head = [] := by
  simp [chain, hempty, follow]

/-- Nothing can be read from an arena whose generation no head can name. -/
theorem chain_of_isExhausted {arena : Arena κ α} (hexhausted : arena.isExhausted = true)
    (head : Head) : arena.chain head = [] := by
  simp [chain, locate, hexhausted]

/-- An append moves a head without counting anything at it. -/
theorem counts_tryAppend [DecidableEq κ] (arena : Arena κ α) (head : Head) (generation : Nat)
    (key : κ) (value : α) :
    (arena.tryAppend head generation key value).2.2.hits = head.hits ∧
      (arena.tryAppend head generation key value).2.2.misses = head.misses := by
  obtain ⟨_, _, hrefused⟩ | ⟨_, _, _, _, happended⟩ :=
    arena.tryAppend_cases head generation key value
  · simp only [hrefused, and_self]
  · simp only [happended, Head.point, and_self]

/-- All that can happen to an arena, whichever heads take part. -/
inductive Change [DecidableEq κ] : Arena κ α → Arena κ α → Prop where
  | refl (arena : Arena κ α) : Change arena arena
  | append (arena : Arena κ α) (head : Head) (generation : Nat) (key : κ) (value : α) :
      Change arena (arena.tryAppend head generation key value).2.1
  | invalidate (arena : Arena κ α) : Change arena arena.invalidate
  | sync (arena : Arena κ α) (generation : Nat) : Change arena (arena.sync generation)
  | trans {arena middle after : Arena κ α} (hfirst : Change arena middle)
      (hsecond : Change middle after) : Change arena after

namespace Change

variable [DecidableEq κ] {arena after : Arena κ α}

theorem limit_eq (hchange : Change arena after) : after.limit = arena.limit := by
  induction hchange with
  | refl arena => rfl
  | append arena head generation key value => exact limit_tryAppend _ _ _ _ _
  | invalidate arena => rfl
  | sync arena generation => exact limit_sync _ _
  | trans _ _ ihfirst ihsecond => exact ihsecond.trans ihfirst

theorem generation_le (hchange : Change arena after) : arena.generation ≤ after.generation := by
  induction hchange with
  | refl arena => exact Nat.le_refl _
  | append arena head generation key value =>
      rw [generation_tryAppend]
  | invalidate arena =>
      simp only [Arena.invalidate, Arena.reset]
      split <;> omega
  | sync arena generation =>
      rw [generation_sync]
      exact Nat.le_max_left _ _
  | trans _ _ ihfirst ihsecond => exact Nat.le_trans ihfirst ihsecond

end Change

variable {arena after : Arena κ α} {head : Head}

/-- No other arena has written the head. -/
structure Owns (arena : Arena κ α) (head : Head) : Prop where
  orderly : arena.Orderly
  past : head.generation ≤ arena.generation
  stored : head.generation = arena.generation → head.slot ≤ arena.size

namespace Owns

theorem blank (horderly : arena.Orderly) : arena.Owns {} where
  orderly := horderly
  past := Nat.zero_le _
  stored _ := Nat.zero_le _

theorem record (howns : arena.Owns head) (hit : Bool) : arena.Owns (head.record hit) := by
  cases hit <;> exact ⟨howns.orderly, howns.past, howns.stored⟩

theorem reset (howns : arena.Owns head) {generation : Nat}
    (hforward : arena.generation < generation ∨
      (arena.generation = generation ∧ maxGeneration < generation)) :
    (arena.reset generation).Owns head where
  orderly := orderly_of_entries_eq_empty rfl
  past := by
    have hpast := howns.past
    simp only [Arena.reset]
    omega
  stored := by
    intro hcurrent
    have hpast := howns.past
    have hnameable := head.generation_le
    simp only [Arena.reset] at hcurrent
    omega

variable [DecidableEq κ]

theorem tryAppend (howns : arena.Owns head) (other : Head) (generation : Nat) (key : κ)
    (value : α) : (arena.tryAppend other generation key value).2.1.Owns head := by
  refine ⟨howns.orderly.tryAppend other generation key value, ?_, ?_⟩
  · rw [generation_tryAppend]
    exact howns.past
  · rw [generation_tryAppend]
    intro hcurrent
    have hslot := howns.stored hcurrent
    obtain ⟨_, _, hrefused⟩ | ⟨_, _, _, _, happended⟩ :=
      arena.tryAppend_cases other generation key value
    · rw [hrefused]
      exact hslot
    · rw [happended]
      simp only [size, push, Array.size_push] at hslot ⊢
      omega

theorem change (howns : arena.Owns head) (hchange : Change arena after) : after.Owns head := by
  induction hchange with
  | refl arena => exact howns
  | append arena other generation key value => exact howns.tryAppend other generation key value
  | invalidate arena =>
      apply howns.reset
      split
      · exact Or.inl (Nat.lt_succ_self _)
      · rename_i hlast
        refine Or.inr ⟨rfl, ?_⟩
        simp only [lastGeneration, maxGeneration] at hlast ⊢
        omega
  | sync arena generation =>
      unfold Arena.sync
      split
      · rename_i hforward
        exact howns.reset (Or.inl hforward)
      · exact howns
  | trans _ _ ihfirst ihsecond => exact ihsecond (ihfirst howns)

/-- Whatever happens to its arena, a chain stays as it is until the generation changes, and is empty
from then on. -/
theorem chain_change (howns : arena.Owns head) (hchange : Change arena after) :
    after.chain head = if after.generation = arena.generation then arena.chain head else [] := by
  induction hchange with
  | refl arena => rw [if_pos rfl]
  | append arena other generation key value =>
      rw [generation_tryAppend, if_pos rfl]
      obtain ⟨_, _, hrefused⟩ | ⟨_, _, _, _, happended⟩ :=
        arena.tryAppend_cases other generation key value
      · rw [hrefused]
      · rw [happended]
        exact howns.orderly.chain_push_of_slot_le key value locate_lt howns.stored
  | invalidate arena =>
      rw [chain_of_entries_eq_empty rfl]
      split
      · rename_i hkept
        have hlast : ¬arena.generation < lastGeneration := by
          intro hlt
          simp [Arena.invalidate, Arena.reset, hlt] at hkept
        -- A generation that cannot advance is past those that a head can name.
        have hexhausted : arena.isExhausted = true := by
          apply decide_eq_true
          simp only [lastGeneration, maxGeneration] at hlast ⊢
          omega
        rw [chain_of_isExhausted hexhausted]
      · rfl
  | sync arena generation =>
      by_cases hforward : arena.generation < generation
      · have hreset : arena.sync generation = arena.reset generation := if_pos hforward
        have hmoved : (arena.reset generation).generation ≠ arena.generation :=
          Nat.ne_of_gt hforward
        rw [hreset, if_neg hmoved]
        exact chain_of_entries_eq_empty rfl head
      · rw [sync_of_le (Nat.not_lt.mp hforward), if_pos rfl]
  | @trans arena middle after hfirst hsecond ihfirst ihsecond =>
      have hle := hfirst.generation_le
      have hle' := hsecond.generation_le
      rw [ihsecond (howns.change hfirst), ihfirst howns]
      -- Generations only grow, so the first and the last agree only if all between them do.
      by_cases hkept : after.generation = arena.generation
      · rw [if_pos hkept, if_pos (by omega), if_pos (by omega)]
      · rw [if_neg hkept]
        split
        · rw [if_neg (by omega)]
        · rfl

theorem chainLength_change_le (howns : arena.Owns head) (hchange : Change arena after) :
    after.chainLength head ≤ arena.chainLength head := by
  rw [(howns.change hchange).orderly.chainLength_eq, howns.orderly.chainLength_eq,
    howns.chain_change hchange]
  split
  · exact Nat.le_refl _
  · exact Nat.zero_le _

omit [DecidableEq κ] in
/-- The head that appended a pair is still the arena's own. -/
theorem point (howns : arena.Owns head) (hlive : arena.generation ≤ maxGeneration)
    (hroom : arena.size < maxEntries) {key : κ} (value : α)
    (hfresh : ∀ entry ∈ arena.chain head, entry.key ≠ key)
    (hopen : arena.isFrozen head = false) :
    (arena.push key value (arena.locate head)).Owns (head.point arena.generation arena.size) where
  orderly := howns.orderly.push head value hfresh hopen
  past := by
    rw [Head.generation_point _ hlive hroom]
    exact Nat.le_refl _
  stored _ := by
    rw [Head.slot_point _ hlive hroom]
    simp [push, size]

end Owns

variable [DecidableEq κ]

/-- The chain of a head holds the first distinct keys out of those that were asked for, newest
first. -/
structure Lists (arena : Arena κ α) (head : Head) (asked : List κ) : Prop extends
    arena.Owns head where
  keys : (arena.chain head).map Entry.key = (asked.eraseDups.take arena.limit.toNat).reverse

namespace Lists

variable {asked : List κ} {key : κ}

theorem blank (hempty : arena.entries = #[]) : arena.Lists {} [] where
  toOwns := .blank (orderly_of_entries_eq_empty hempty)
  keys := by
    rw [chain_of_entries_eq_empty hempty]
    simp

theorem record (hlists : arena.Lists head asked) (hit : Bool) :
    arena.Lists (head.record hit) asked where
  toOwns := hlists.toOwns.record hit
  keys := by
    rw [chain_record]
    exact hlists.keys

theorem change (hlists : arena.Lists head asked) (hchange : Change arena after) :
    after.Lists head (if after.generation = arena.generation then asked else []) where
  toOwns := hlists.toOwns.change hchange
  keys := by
    rw [hlists.chain_change hchange, hchange.limit_eq]
    split
    · exact hlists.keys
    · simp

theorem exists_entry_iff (hlists : arena.Lists head asked) :
    (∃ entry ∈ arena.chain head, entry.key = key) ↔
      key ∈ asked.eraseDups.take arena.limit.toNat := by
  rw [← List.mem_reverse, ← hlists.keys, List.mem_map]

theorem lookup_isSome_iff (hlists : arena.Lists head asked) {accepts : κ → Bool}
    (haccepts : ∀ other, accepts other = true ↔ other = key) :
    (arena.lookup head accepts).isSome = true ↔ key ∈ asked.eraseDups.take arena.limit.toNat := by
  rw [← hlists.exists_entry_iff, lookup, Option.isSome_map, List.find?_isSome]
  simp only [haccepts]

theorem chainLength_eq (hlists : arena.Lists head asked) :
    arena.chainLength head = min arena.limit.toNat asked.eraseDups.length := by
  have hlength := congrArg List.length hlists.keys
  rw [List.length_map, List.length_reverse, List.length_take] at hlength
  rw [hlists.orderly.chainLength_eq, hlength]

theorem isFrozen_iff (hlists : arena.Lists head asked) :
    arena.isFrozen head = true ↔ arena.limit.toNat ≤ asked.eraseDups.length := by
  rw [isFrozen, decide_eq_true_iff, hlists.chainLength_eq]
  omega

/-- A key that the chain holds changes nothing when it is asked for again. -/
theorem again (hlists : arena.Lists head asked)
    (hheld : key ∈ asked.eraseDups.take arena.limit.toNat) : arena.Lists head (asked ++ [key]) where
  toOwns := hlists.toOwns
  keys := by
    rw [eraseDups_concat_of_mem (List.mem_eraseDups.mp (List.mem_of_mem_take hheld))]
    exact hlists.keys

/-- A key past the limit is left out for good. -/
theorem past_limit (hlists : arena.Lists head asked)
    (hfull : arena.limit.toNat ≤ asked.eraseDups.length) (key : κ) :
    arena.Lists head (asked ++ [key]) where
  toOwns := hlists.toOwns
  keys := by
    rw [take_eraseDups_concat hfull]
    exact hlists.keys

section Appends

variable (hlists : arena.Lists head asked) (hlive : arena.generation ≤ maxGeneration)
  (hroom : arena.size < maxEntries) (value : α)

include hlists hlive hroom

/-- The chain takes a new key in as long as it is below the limit. -/
theorem push (hopen : asked.eraseDups.length < arena.limit.toNat) (hnew : key ∉ asked) :
    (arena.push key value (arena.locate head)).Lists (head.point arena.generation arena.size)
      (asked ++ [key]) := by
  have hunfrozen : arena.isFrozen head = false := by
    rw [Bool.eq_false_iff, ne_eq, hlists.isFrozen_iff]
    omega
  have hfresh : ∀ entry ∈ arena.chain head, entry.key ≠ key := by
    intro entry hentry hkey
    have hheld := hlists.exists_entry_iff.mp ⟨entry, hentry, hkey⟩
    exact hnew (List.mem_eraseDups.mp (List.mem_of_mem_take hheld))
  refine ⟨hlists.point hlive hroom value hfresh hunfrozen, ?_⟩
  have hchain := hlists.orderly.chain_push_point head key value (@locate_lt κ α arena head)
    (isExhausted_eq_false_iff.mpr hlive) hroom
  have hlength : (asked.eraseDups ++ [key]).length ≤ arena.limit.toNat := by
    simp only [List.length_append, List.length_singleton]
    omega
  rw [hchain, eraseDups_concat_of_notMem hnew]
  change key :: (arena.chain head).map Entry.key =
    ((asked.eraseDups ++ [key]).take arena.limit.toNat).reverse
  rw [hlists.keys, List.take_of_length_le hlength, List.take_of_length_le (Nat.le_of_lt hopen),
    List.reverse_concat]

omit hroom in
theorem tryAppend_of_miss (hmiss : key ∉ asked.eraseDups.take arena.limit.toNat) :
    arena.tryAppend head arena.generation key value =
      if arena.isFrozen head = true ∨ maxEntries ≤ arena.size then (.frozen, arena, head)
      else
        (.appended, arena.push key value (arena.locate head),
          head.point arena.generation arena.size) := by
  have hcurrent : ¬(arena.generation ≠ arena.generation ∨ arena.isExhausted = true) := by
    rw [isExhausted_eq_false_iff.mpr hlive]
    simp
  have habsent : ¬((arena.chain head).any fun entry => decide (entry.key = key)) = true := by
    rw [List.any_eq_true]
    simp only [decide_eq_true_eq]
    exact fun hheld => hmiss (hlists.exists_entry_iff.mp hheld)
  unfold Arena.tryAppend
  rw [if_neg hcurrent, if_neg habsent]

theorem tryAppend_of_open (hopen : asked.eraseDups.length < arena.limit.toNat)
    (hnew : key ∉ asked) :
    arena.tryAppend head arena.generation key value =
      (.appended, arena.push key value (arena.locate head),
        head.point arena.generation arena.size) := by
  have hunfrozen : ¬(arena.isFrozen head = true ∨ maxEntries ≤ arena.size) := by
    rw [hlists.isFrozen_iff]
    omega
  rw [hlists.tryAppend_of_miss hlive value fun hheld =>
    hnew (List.mem_eraseDups.mp (List.mem_of_mem_take hheld)), if_neg hunfrozen]

/-- Asking for a key that the chain does not hold: it is taken in, unless the chain is full. -/
theorem tryAppend_self (hmiss : key ∉ asked.eraseDups.take arena.limit.toNat) :
    (arena.tryAppend head arena.generation key value).1 =
        (if arena.limit.toNat ≤ asked.eraseDups.length then .frozen else .appended) ∧
      (arena.tryAppend head arena.generation key value).2.1.Lists
        (arena.tryAppend head arena.generation key value).2.2 (asked ++ [key]) := by
  by_cases hfull : arena.limit.toNat ≤ asked.eraseDups.length
  · rw [hlists.tryAppend_of_miss hlive value hmiss,
      if_pos (Or.inl (hlists.isFrozen_iff.mpr hfull)), if_pos hfull]
    exact ⟨rfl, hlists.past_limit hfull key⟩
  · have hopen : asked.eraseDups.length < arena.limit.toNat := Nat.not_le.mp hfull
    have hnew : key ∉ asked := by
      rw [List.take_of_length_le (Nat.le_of_lt hopen)] at hmiss
      exact fun hmem => hmiss (List.mem_eraseDups.mpr hmem)
    rw [hlists.tryAppend_of_open hlive hroom value hopen hnew, if_neg hfull]
    exact ⟨rfl, hlists.push hlive hroom value hopen hnew⟩

/-- The pair that was taken in is found. -/
theorem lookup_tryAppend (hopen : asked.eraseDups.length < arena.limit.toNat) (hnew : key ∉ asked)
    {accepts : κ → Bool} (haccepts : accepts key = true) :
    (arena.tryAppend head arena.generation key value).2.1.lookup
      (arena.tryAppend head arena.generation key value).2.2 accepts = some value := by
  have hchain := hlists.orderly.chain_push_point head key value (@locate_lt κ α arena head)
    (isExhausted_eq_false_iff.mpr hlive) hroom
  rw [hlists.tryAppend_of_open hlive hroom value hopen hnew, Arena.lookup, hchain]
  simp [haccepts]

end Appends

end Lists

end Arena

end AdaptiveEval.Chain
