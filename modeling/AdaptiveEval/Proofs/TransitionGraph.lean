import AdaptiveEval.BooleanNetwork.Basic
import Mathlib.Data.List.Nodup
import Mathlib.Data.Nat.Bitwise

/-!
# The asynchronous transition graph

A network holds one state for each valuation of its variables, and a state lists the valuations that
one update leads to: those that differ from it in a single variable, whose update disagrees with its
value. The lists are filled in place, one state after the other, and an update could read the list
that it helps to fill; every state is read before its list is written, so that the update is asked
about states that list nothing yet.
-/

namespace AdaptiveEval.BooleanNetwork

/-- The valuations differ in one variable, and in no other. -/
def DiffersAt (var : Nat) (literal other : Literal) : Prop :=
  ∀ bit, other.testBit bit ≠ literal.testBit bit ↔ bit = var

section Flip

variable {literal other : Literal} {var : Nat}

theorem testBit_flip (literal : Literal) (var bit : Nat) :
    (flip literal var).testBit bit = (literal.testBit bit ^^ decide (var = bit)) := by
  rw [flip, Nat.testBit_xor, Nat.one_shiftLeft, Nat.testBit_two_pow]

theorem differsAt_flip (literal : Literal) (var : Nat) :
    DiffersAt var literal (flip literal var) := by
  intro bit
  rw [testBit_flip]
  by_cases hbit : var = bit
  · simp [hbit]
  · simp [hbit, Ne.symm hbit]

theorem DiffersAt.eq_flip (hdiffers : DiffersAt var literal other) : other = flip literal var := by
  apply Nat.eq_of_testBit_eq
  intro bit
  rw [testBit_flip]
  have hbit := hdiffers bit
  by_cases heq : bit = var
  · rw [decide_eq_true heq.symm, Bool.xor_true]
    exact Bool.eq_not_of_ne (hbit.mpr heq)
  · rw [decide_eq_false (Ne.symm heq), Bool.xor_false]
    exact not_not.mp fun hne => heq (hbit.mp hne)

theorem differsAt_iff : DiffersAt var literal other ↔ other = flip literal var := by
  refine ⟨DiffersAt.eq_flip, ?_⟩
  rintro rfl
  exact differsAt_flip literal var

theorem DiffersAt.unique {later : Nat} (hdiffers : DiffersAt var literal other)
    (hlater : DiffersAt later literal other) : var = later :=
  (hlater var).mp ((hdiffers var).mpr rfl)

theorem flip_ne (literal : Literal) (var : Nat) : flip literal var ≠ literal := by
  intro hsame
  have hdiffers := (differsAt_flip literal var var).mpr rfl
  rw [hsame] at hdiffers
  exact hdiffers rfl

theorem flip_lt {arity : Nat} (hliteral : literal < 2 ^ arity) (hvar : var < arity) :
    flip literal var < 2 ^ arity := by
  rw [flip, Nat.one_shiftLeft]
  exact Nat.xor_lt_two_pow hliteral (Nat.pow_lt_pow_right (by decide) hvar)

theorem valueAt_eq_testBit (hvar : var < 32) (literal : Literal) :
    valueAt literal var = literal.testBit var := by
  rw [valueAt, decide_eq_true hvar, Bool.true_and]

end Flip

/-- An update of one variable leads from the state to the valuation: they differ in that variable
alone, and its update disagrees with its value. -/
def Update.LeadsTo (update : Update) (arity : Nat) (state : State) (next : Literal) : Prop :=
  ∃ var < arity, DiffersAt var state.literal next ∧ update state var ≠ state.literal.testBit var

/-- The update answers alike for equal states. -/
def Update.ReadsValuation (update : Update) : Prop :=
  ∀ left right : State, left.same right = true → update left = update right

namespace Update

variable {update : Update} {arity : Nat} {state other : State}

theorem leadsTo_flip_iff {var : Nat} (hvar : var < arity) :
    update.LeadsTo arity state (flip state.literal var) ↔
      update state var ≠ state.literal.testBit var := by
  constructor
  · rintro ⟨found, _, hdiffers, hupdate⟩
    rw [hdiffers.unique (differsAt_flip state.literal var)] at hupdate
    exact hupdate
  · intro hupdate
    exact ⟨var, hvar, differsAt_flip state.literal var, hupdate⟩

/-- States of one valuation lead to the same ones just if the update answers alike for both. -/
theorem forall_leadsTo_iff (hliteral : other.literal = state.literal) :
    (∀ next, update.LeadsTo arity other next ↔ update.LeadsTo arity state next) ↔
      ∀ var < arity, update state var = update other var := by
  constructor
  · intro hsame var hvar
    have hflip := hsame (flip state.literal var)
    rw [leadsTo_flip_iff hvar, ← hliteral, leadsTo_flip_iff hvar] at hflip
    revert hflip
    cases update state var <;> cases update other var <;> cases other.literal.testBit var <;> simp
  · intro hupdate next
    unfold LeadsTo
    rw [hliteral]
    refine exists_congr fun var => and_congr_right fun hvar => ?_
    rw [hupdate var hvar]

theorem ReadsValuation.leadsTo_iff (hreads : update.ReadsValuation)
    (hliteral : other.literal = state.literal) (next : Literal) :
    update.LeadsTo arity other next ↔ update.LeadsTo arity state next := by
  have hsame : update state = update other := hreads state other (beq_iff_eq.mpr hliteral.symm)
  exact (forall_leadsTo_iff hliteral).mpr (fun var _ => congrFun hsame var) next

end Update

namespace Network

section Successors

variable {arity : Nat} (update : Update) (state : State)

theorem mem_successorsOf_iff (harity : arity ≤ 30) (next : Literal) :
    next ∈ successorsOf arity update state.literal state ↔ update.LeadsTo arity state next := by
  have hvalue : ∀ var < arity, valueAt state.literal var = state.literal.testBit var :=
    fun var hvar => valueAt_eq_testBit (by omega) state.literal
  unfold successorsOf Update.LeadsTo
  simp only [List.mem_map, List.mem_filter, List.mem_range, bne_iff_ne, differsAt_iff]
  constructor
  · rintro ⟨var, ⟨hvar, hupdate⟩, rfl⟩
    rw [hvalue var hvar] at hupdate
    exact ⟨var, hvar, rfl, hupdate⟩
  · rintro ⟨var, hvar, rfl, hupdate⟩
    rw [← hvalue var hvar] at hupdate
    exact ⟨var, ⟨hvar, hupdate⟩, rfl⟩

variable (arity) (literal : Literal)

/-- Earlier successors differ in smaller variables. -/
theorem pairwise_successorsOf :
    (successorsOf arity update literal state).Pairwise fun earlier later =>
      ∀ var other, DiffersAt var literal earlier → DiffersAt other literal later → var < other := by
  have hvars : ((List.range arity).filter fun var =>
      update state var != valueAt state.literal var).Pairwise (· < ·) :=
    List.pairwise_lt_range.filter _
  apply hvars.map
  intro first second hlt var other hvar hother
  rw [hvar.unique (differsAt_flip literal first), hother.unique (differsAt_flip literal second)]
  exact hlt

theorem nodup_successorsOf : (successorsOf arity update literal state).Nodup := by
  have hinjective : Function.Injective (flip literal) := by
    intro var other hsame
    have hdiffers := differsAt_flip literal var
    rw [hsame] at hdiffers
    exact hdiffers.unique (differsAt_flip literal other)
  exact (List.nodup_range.filter _).map hinjective

theorem notMem_successorsOf_self : literal ∉ successorsOf arity update literal state := by
  intro hself
  obtain ⟨var, _, hflip⟩ := List.mem_map.mp hself
  exact flip_ne literal var hflip

variable {arity update literal state}

theorem lt_of_mem_successorsOf (hliteral : literal < 2 ^ arity) {next : Literal}
    (hnext : next ∈ successorsOf arity update literal state) : next < 2 ^ arity := by
  obtain ⟨var, hvar, rfl⟩ := List.mem_map.mp hnext
  exact flip_lt hliteral (List.mem_range.mp (List.mem_filter.mp hvar).1)

end Successors

section Build

variable (arity : Nat) (update : Update)

/-- The state of a literal in the finished network: its successors are those of the state as it was
when it listed nothing. -/
def finished (literal : Literal) : State :=
  { literal, successors := successorsOf arity update literal (.ofLiteral literal) }

/-- Filling one list leaves all other states as they are. -/
theorem getElem?_fill (states : Array State) (literal other : Literal) :
    (fill arity update states literal)[other]? =
      if literal = other then
        states[other]?.map fun state =>
          { state with successors := successorsOf arity update literal state }
      else states[other]? :=
  Array.getElem?_modify

/-- The first lists are filled and the others still empty. So the next state to be read is one that
lists nothing. -/
theorem getElem?_foldl_fill {count : Nat} (hcount : count ≤ 2 ^ arity) (index : Nat) :
    ((List.range count).foldl (fill arity update)
        ((Array.range (2 ^ arity)).map State.ofLiteral))[index]? =
      if index < count then some (finished arity update index)
      else if index < 2 ^ arity then some (.ofLiteral index)
      else none := by
  induction count with
  | zero =>
      rw [List.range_zero, List.foldl_nil, if_neg (Nat.not_lt_zero index)]
      split <;> simp [*]
  | succ count ih =>
      rw [List.range_succ, List.foldl_append, List.foldl_cons, List.foldl_nil, getElem?_fill,
        ih (by omega)]
      by_cases hindex : count = index
      · subst hindex
        have hlt : count < 2 ^ arity := hcount
        rw [if_pos rfl, if_neg (Nat.lt_irrefl count), if_pos hlt, if_pos (Nat.lt_succ_self count)]
        rfl
      · have hbelow : index < count + 1 ↔ index < count := by omega
        rw [if_neg hindex]
        simp only [hbelow]

theorem state?_build (literal : Literal) :
    (build arity update).state? literal =
      if literal < 2 ^ arity then some (finished arity update literal) else none := by
  have hfilled := getElem?_foldl_fill arity update (Nat.le_refl _) literal
  unfold state? build
  rw [Nat.one_shiftLeft]
  split
  · rename_i hlt
    rw [hfilled, if_pos hlt]
  · rename_i hle
    rw [hfilled, if_neg hle, if_neg hle]

theorem size_states_build : (build arity update).states.size = 2 ^ arity := by
  have hsize : ∀ literals : List Literal, ∀ states : Array State,
      (literals.foldl (fill arity update) states).size = states.size := by
    intro literals
    induction literals with
    | nil => exact fun _ => rfl
    | cons literal rest ih =>
        intro states
        rw [List.foldl_cons, ih, fill, Array.size_modify]
  rw [build, hsize, Array.size_map, Array.size_range, Nat.one_shiftLeft]

theorem state?_build_of_lt {literal : Literal} (hliteral : literal < 2 ^ arity) :
    (build arity update).state? literal = some (finished arity update literal) := by
  rw [state?_build, if_pos hliteral]

theorem state?_build_eq_some_iff {literal : Literal} {state : State} :
    (build arity update).state? literal = some state ↔
      literal < 2 ^ arity ∧ state = finished arity update literal := by
  rw [state?_build]
  split
  · rename_i hlt
    simp [hlt, eq_comm]
  · rename_i hle
    simp [hle]

/-- Every listed literal has its state, so that none is dropped on the way to the successors. -/
theorem next_build {literal : Literal} (hliteral : literal < 2 ^ arity) :
    (build arity update).next literal =
      (finished arity update literal).successors.map (finished arity update) := by
  rw [next, state?_build_of_lt arity update hliteral, ← List.filterMap_eq_map]
  apply List.filterMap_congr
  intro found hfound
  exact state?_build_of_lt arity update (lt_of_mem_successorsOf hliteral hfound)

end Build

/-- What a state lists in the asynchronous transition graph. -/
structure Asynchronous (network : Network) (arity : Nat) (update : Update) (state : State) :
    Prop where
  /-- The update is asked about the state as the construction reads it, before it lists anything. -/
  mem_iff : ∀ next, next ∈ state.successors ↔
    update.LeadsTo arity (.ofLiteral state.literal) next
  /-- For an update that looks at the valuation alone, the finished state is as good. -/
  mem_iff_of_readsValuation : update.ReadsValuation →
    ∀ next, next ∈ state.successors ↔ update.LeadsTo arity state next
  /-- For any other, it is as good just if the update answers for it as before. -/
  forall_mem_iff : (∀ next, next ∈ state.successors ↔ update.LeadsTo arity state next) ↔
    ∀ var < arity, update state var = update (.ofLiteral state.literal) var
  nodup : state.successors.Nodup
  ordered : state.successors.Pairwise fun earlier later => ∀ var other,
    DiffersAt var state.literal earlier → DiffersAt other state.literal later → var < other
  notMem_self : state.literal ∉ state.successors
  below : ∀ next ∈ state.successors, next < 2 ^ arity
  /-- One state for each listed literal, in the same order. -/
  next : (network.next state.literal).map State.literal = state.successors ∧
    ∀ found ∈ network.next state.literal, network.state? found.literal = some found

theorem asynchronous_build {arity : Nat} (harity : arity ≤ 30) (update : Update)
    {literal : Literal} (hliteral : literal < 2 ^ arity) :
    (build arity update).Asynchronous arity update (finished arity update literal) := by
  have hmem : ∀ next, next ∈ (finished arity update literal).successors ↔
      update.LeadsTo arity (.ofLiteral literal) next :=
    mem_successorsOf_iff update (.ofLiteral literal) harity
  have hvaluation : (State.ofLiteral literal).literal = (finished arity update literal).literal :=
    rfl
  refine ⟨hmem, ?_, ?_, nodup_successorsOf .., pairwise_successorsOf ..,
    notMem_successorsOf_self arity update _ literal, fun _ => lt_of_mem_successorsOf hliteral,
    ?_, ?_⟩
  · intro hreads next
    rw [hmem]
    exact hreads.leadsTo_iff hvaluation next
  · simp only [hmem]
    exact Update.forall_leadsTo_iff hvaluation
  · change ((build arity update).next literal).map State.literal = _
    rw [next_build arity update hliteral, List.map_map]
    exact List.map_id _
  · intro found hfound
    change found ∈ (build arity update).next literal at hfound
    rw [next_build arity update hliteral] at hfound
    obtain ⟨named, hnamed, rfl⟩ := List.mem_map.mp hfound
    exact state?_build_of_lt arity update (lt_of_mem_successorsOf hliteral hnamed)

/-- Up to thirty variables a network is the asynchronous transition graph of its update; more are
refused. -/
theorem ofUpdate_transitionGraph (arity : Nat) (update : Update) :
    (arity ≤ 30 → ∃ network, ofUpdate arity update = .ok network ∧
      network.states.size = 2 ^ arity ∧
      (∀ literal, (∃ state, network.state? literal = some state) ↔ literal < 2 ^ arity) ∧
      ∀ literal state, network.state? literal = some state →
        state.literal = literal ∧ network.Asynchronous arity update state) ∧
      (30 < arity → ofUpdate arity update = .error { arity }) := by
  constructor
  · intro harity
    refine ⟨build arity update, if_neg (Nat.not_lt.mpr harity), size_states_build arity update,
      ?_, ?_⟩
    · intro literal
      simp only [state?_build_eq_some_iff, exists_and_left, exists_eq, and_true]
    · intro literal state hstate
      obtain ⟨hliteral, rfl⟩ := (state?_build_eq_some_iff arity update).mp hstate
      exact ⟨rfl, asynchronous_build harity update hliteral⟩
  · intro hmany
    exact if_pos hmany

end Network

/-- All variables shall be true as long as no successor is listed. -/
def untilListed : Update := fun state _ => state.successors.isEmpty

/-- Why the update is not asked about the finished state: where all variables are false, no list at
all holds what this update leads to from a state with that list. -/
theorem not_forall_mem_iff_untilListed {arity : Nat} (harity : 0 < arity)
    (successors : List Literal) :
    ¬∀ next, next ∈ successors ↔
      untilListed.LeadsTo arity { literal := 0, successors } next := by
  intro hmem
  cases successors with
  | nil =>
      have hleads : untilListed.LeadsTo arity { literal := 0, successors := [] } (flip 0 0) :=
        (Update.leadsTo_flip_iff harity).mpr (by decide)
      exact List.not_mem_nil ((hmem _).mpr hleads)
  | cons first rest =>
      obtain ⟨var, _, _, hupdate⟩ := (hmem first).mp List.mem_cons_self
      exact hupdate (Nat.zero_testBit var).symm

end AdaptiveEval.BooleanNetwork
