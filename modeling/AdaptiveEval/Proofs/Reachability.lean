import AdaptiveEval.BooleanNetwork.Search
import AdaptiveEval.Proofs.TransitionGraph
import Mathlib.Data.List.Nodup
import Mathlib.Data.List.Perm.Subperm

/-!
# Breadth-first search is correct

What a search has found is a list of states with their distances: the queue, of which the visited
states are the beginning. The tags say the same as that list, whatever tags other accessors have
left, so that the search can be followed on the list alone.
-/

namespace AdaptiveEval.BooleanNetwork

namespace Network

/-- The states one step further. -/
def successors (network : Network) (literal : Literal) : List Literal :=
  (network.next literal).map State.literal

/-- The number of steps from one state to another, on some way. -/
inductive Path (network : Network) (start : Literal) : Nat → Literal → Prop where
  | refl : Path network start 0 start
  | step {steps : Nat} {middle next : Literal} (hpath : Path network start steps middle)
      (hnext : next ∈ network.successors middle) : Path network start (steps + 1) next

/-- Each state stands where its literal says. -/
def Indexed (network : Network) : Prop :=
  ∀ (literal : Literal) (state : State), network.state? literal = some state →
    state.literal = literal

theorem indexed_build (arity : Nat) (update : Update) : (build arity update).Indexed := by
  intro literal state hstate
  obtain ⟨_, rfl⟩ := (state?_build_eq_some_iff arity update).mp hstate
  rfl

variable {network : Network} {start literal : Literal}

theorem Indexed.lt_of_mem_successors (hindexed : network.Indexed)
    (hnext : literal ∈ network.successors start) : literal < network.states.size := by
  unfold successors next at hnext
  cases hstate : network.state? start with
  | none => simp [hstate] at hnext
  | some state =>
      rw [hstate] at hnext
      obtain ⟨found, hfound, rfl⟩ := List.mem_map.mp hnext
      obtain ⟨named, _, hnamed⟩ := List.mem_filterMap.mp hfound
      rw [hindexed named found hnamed]
      exact (Array.getElem?_eq_some_iff.mp hnamed).1

theorem Path.lt (hindexed : network.Indexed) (hstart : start < network.states.size) {steps : Nat}
    (hpath : network.Path start steps literal) : literal < network.states.size := by
  cases hpath with
  | refl => exact hstart
  | step _ hnext => exact hindexed.lt_of_mem_successors hnext

section Tags

variable (network) (accessor : Nat)

theorem distance?_store_self {literal : Literal} (hlt : literal < network.tags.size)
    (distance : Nat) :
    (network.store accessor literal (.distance distance)).distance? accessor literal =
      some distance := by
  simp [distance?, tag?, store, hlt]

theorem distance?_store_of_ne {literal other : Literal} (hne : other ≠ literal)
    (value : TagValue) :
    (network.store accessor literal value).distance? accessor other =
      network.distance? accessor other := by
  simp only [distance?, tag?, store, Array.getElem?_setIfInBounds_ne hne.symm]

/-- The tags of others are not seen. -/
theorem distance?_of_fresh (hfresh : ∀ tag, some tag ∈ network.tags → tag.accessor ≠ accessor)
    (literal : Literal) : network.distance? accessor literal = none := by
  unfold distance? tag?
  cases htag : network.tags[literal]? with
  | none => rfl
  | some tag =>
      cases tag with
      | none => rfl
      | some tag =>
          have hother := hfresh tag (Array.mem_of_getElem? htag)
          simp [hother]

end Tags

end Network

/-- States in the order in which they were found, each with its distance. -/
abbrev Findings := List (Literal × Nat)

namespace Findings

/-- Adds a state, unless it was found before. -/
def meet (distance : Nat) (found : Findings) (literal : Literal) : Findings :=
  if literal ∈ found.map Prod.fst then found else found ++ [(literal, distance)]

variable {distance : Nat} {found : Findings} {literals : List Literal}

theorem foldl_meet_eq_append (distance : Nat) (found : Findings) (literals : List Literal) :
    ∃ added, literals.foldl (meet distance) found = found ++ added ∧
      ∀ entry ∈ added, entry.1 ∈ literals ∧ entry.2 = distance := by
  induction literals generalizing found with
  | nil => exact ⟨[], by simp, nofun⟩
  | cons literal literals ih =>
      obtain ⟨added, hfold, hadded⟩ := ih (meet distance found literal)
      have hlater : ∀ entry ∈ added, entry.1 ∈ literal :: literals ∧ entry.2 = distance :=
        fun entry hentry =>
          ⟨List.mem_cons_of_mem literal (hadded entry hentry).1, (hadded entry hentry).2⟩
      rw [List.foldl_cons, hfold]
      unfold meet
      split
      · exact ⟨added, rfl, hlater⟩
      · refine ⟨(literal, distance) :: added, by simp, ?_⟩
        exact List.forall_mem_cons.mpr ⟨⟨List.mem_cons_self, rfl⟩, hlater⟩

theorem nodup_meet (hdistinct : (found.map Prod.fst).Nodup) (literal : Literal) :
    ((meet distance found literal).map Prod.fst).Nodup := by
  unfold meet
  split
  · exact hdistinct
  · rename_i hnew
    rw [List.map_append]
    exact hdistinct.append (List.nodup_singleton _) (by simpa using hnew)

theorem nodup_foldl_meet (hdistinct : (found.map Prod.fst).Nodup) (literals : List Literal) :
    ((literals.foldl (meet distance) found).map Prod.fst).Nodup := by
  induction literals generalizing found with
  | nil => exact hdistinct
  | cons literal literals ih => exact ih (nodup_meet hdistinct literal)

theorem mem_meet (distance : Nat) (found : Findings) (literal : Literal) :
    literal ∈ (meet distance found literal).map Prod.fst := by
  unfold meet
  split
  · assumption
  · simp

theorem mem_foldl_meet {literal : Literal} (hmem : literal ∈ literals) :
    literal ∈ (literals.foldl (meet distance) found).map Prod.fst := by
  induction literals generalizing found with
  | nil => cases hmem
  | cons first literals ih =>
      rw [List.foldl_cons]
      obtain rfl | hmem := List.mem_cons.mp hmem
      · obtain ⟨added, hfold, _⟩ := foldl_meet_eq_append distance (meet distance found literal)
          literals
        rw [hfold, List.map_append]
        exact List.mem_append_left _ (mem_meet distance found literal)
      · exact ih hmem

end Findings

/-- A breadth-first search between two visits: what it has visited, and what is ahead. -/
structure Explored (network : Network) (start : Literal) (visited ahead : Findings) : Prop where
  first : (visited ++ ahead).head? = some (start, 0)
  distinct : ((visited ++ ahead).map Prod.fst).Nodup
  reached : ∀ entry ∈ visited ++ ahead, network.Path start entry.2 entry.1
  ordered : (visited ++ ahead).Pairwise fun earlier later => earlier.2 ≤ later.2
  /-- Nothing was found more than one step beyond what is ahead. -/
  narrow : ∀ entry ∈ ahead, ∀ other ∈ visited ++ ahead, other.2 ≤ entry.2 + 1
  closed : ∀ entry ∈ visited, ∀ next ∈ network.successors entry.1,
    ∃ other ∈ visited ++ ahead, other.1 = next ∧ other.2 ≤ entry.2 + 1

namespace Explored

variable {network : Network} {start : Literal} {visited ahead : Findings}

theorem begin (network : Network) (start : Literal) : Explored network start [] [(start, 0)] where
  first := rfl
  distinct := List.nodup_singleton _
  reached := List.forall_mem_singleton.mpr .refl
  ordered := List.pairwise_singleton _ _
  narrow := by simp
  closed := nofun

section Visit

variable {entry : Literal × Nat} {added : Findings}

theorem le_of_mem_ahead (hexplored : Explored network start visited (entry :: ahead))
    {later : Literal × Nat} (hlater : later ∈ ahead) : entry.2 ≤ later.2 := by
  have hrest := (List.pairwise_append.mp hexplored.ordered).2.1
  exact (List.pairwise_cons.mp hrest).1 later hlater

/-- The successors of a state go to the end: nothing found before is further away. -/
theorem extend (hexplored : Explored network start visited (entry :: ahead))
    (hadded : ∀ other ∈ added, other.1 ∈ network.successors entry.1 ∧ other.2 = entry.2 + 1)
    (hdistinct : ((visited ++ entry :: ahead ++ added).map Prod.fst).Nodup)
    (hmet : ∀ next ∈ network.successors entry.1,
      next ∈ (visited ++ entry :: ahead ++ added).map Prod.fst) :
    Explored network start (visited ++ [entry]) (ahead ++ added) := by
  have hsame : visited ++ [entry] ++ (ahead ++ added) = visited ++ entry :: ahead ++ added := by
    simp
  have hbound : ∀ other ∈ visited ++ entry :: ahead ++ added, other.2 ≤ entry.2 + 1 := by
    intro other hother
    obtain hold | hnew := List.mem_append.mp hother
    · exact hexplored.narrow entry List.mem_cons_self other hold
    · exact Nat.le_of_eq (hadded other hnew).2
  constructor
  case first =>
    rw [hsame, List.head?_append, hexplored.first]
    rfl
  case distinct =>
    rw [hsame]
    exact hdistinct
  case reached =>
    rw [hsame]
    intro other hother
    obtain hold | hnew := List.mem_append.mp hother
    · exact hexplored.reached other hold
    · obtain ⟨hnext, hfar⟩ := hadded other hnew
      rw [hfar]
      exact .step (hexplored.reached entry (by simp)) hnext
  case ordered =>
    rw [hsame]
    refine List.pairwise_append.mpr ⟨hexplored.ordered, ?_, ?_⟩
    · apply List.pairwise_of_forall_mem_list
      intro earlier hearlier later hlater
      exact Nat.le_of_eq ((hadded earlier hearlier).2.trans (hadded later hlater).2.symm)
    · intro earlier hearlier later hlater
      rw [(hadded later hlater).2]
      exact hexplored.narrow entry List.mem_cons_self earlier hearlier
  case narrow =>
    rw [hsame]
    intro later hlater other hother
    have hbeyond : entry.2 ≤ later.2 := by
      obtain hold | hnew := List.mem_append.mp hlater
      · exact hexplored.le_of_mem_ahead hold
      · rw [(hadded later hnew).2]
        exact Nat.le_succ entry.2
    calc other.2 ≤ entry.2 + 1 := hbound other hother
      _ ≤ later.2 + 1 := Nat.succ_le_succ hbeyond
  case closed =>
    rw [hsame]
    intro earlier hearlier next hnext
    obtain hold | hlast := List.mem_append.mp hearlier
    · obtain ⟨other, hother, hfound⟩ := hexplored.closed earlier hold next hnext
      exact ⟨other, List.mem_append_left _ hother, hfound⟩
    · -- The state visited just now: its successors are found, and everything found is near.
      obtain rfl := List.mem_singleton.mp hlast
      obtain ⟨other, hother, rfl⟩ := List.mem_map.mp (hmet next hnext)
      exact ⟨other, hother, rfl, hbound other hother⟩

theorem visit (hexplored : Explored network start visited (entry :: ahead)) :
    ∃ added, (network.successors entry.1).foldl (Findings.meet (entry.2 + 1))
        (visited ++ entry :: ahead) = visited ++ entry :: ahead ++ added ∧
      Explored network start (visited ++ [entry]) (ahead ++ added) := by
  obtain ⟨added, hfold, hadded⟩ := Findings.foldl_meet_eq_append (entry.2 + 1)
    (visited ++ entry :: ahead) (network.successors entry.1)
  refine ⟨added, hfold, hexplored.extend hadded ?_ ?_⟩
  · rw [← hfold]
    exact Findings.nodup_foldl_meet hexplored.distinct _
  · rw [← hfold]
    exact fun _ => Findings.mem_foldl_meet

end Visit

/-- A state cannot be found twice, and there are only so many. -/
theorem length_le (hexplored : Explored network start visited ahead) (hindexed : network.Indexed)
    (hstart : start < network.states.size) :
    (visited ++ ahead).length ≤ network.states.size := by
  have hsubset : (visited ++ ahead).map Prod.fst ⊆ List.range network.states.size := by
    intro literal hliteral
    obtain ⟨entry, hentry, rfl⟩ := List.mem_map.mp hliteral
    exact List.mem_range.mpr ((hexplored.reached entry hentry).lt hindexed hstart)
  have hlength := (List.subperm_of_subset hexplored.distinct hsubset).length_le
  rw [List.length_map, List.length_range] at hlength
  exact hlength

/-- With nothing ahead, every path ends at a state that was found, not further away than the path
is long. -/
theorem found_of_path (hexplored : Explored network start visited []) {steps : Nat}
    {literal : Literal} (hpath : network.Path start steps literal) :
    ∃ entry ∈ visited, entry.1 = literal ∧ entry.2 ≤ steps := by
  have hwhole : visited ++ [] = visited := List.append_nil visited
  induction hpath with
  | refl =>
      have hfirst := hexplored.first
      rw [hwhole] at hfirst
      exact ⟨(start, 0), List.mem_of_mem_head? hfirst, rfl, Nat.le_refl 0⟩
  | step _ hnext ih =>
      obtain ⟨entry, hentry, rfl, hle⟩ := ih
      obtain ⟨other, hother, hfound, hnear⟩ := hexplored.closed entry hentry _ hnext
      rw [hwhole] at hother
      exact ⟨other, hother, hfound, by omega⟩

end Explored

/-- What a breadth-first search from a state has to return. -/
structure BreadthFirst (network : Network) (start : Literal) (order : Findings) : Prop where
  begins : order.head? = some (start, 0)
  distinct : (order.map Prod.fst).Nodup
  reachable : ∀ literal, literal ∈ order.map Prod.fst ↔ ∃ steps, network.Path start steps literal
  shortest : ∀ literal distance, (literal, distance) ∈ order →
    network.Path start distance literal ∧
      ∀ steps, network.Path start steps literal → distance ≤ steps
  ordered : (order.map Prod.snd).Pairwise (· ≤ ·)

theorem Explored.breadthFirst {network : Network} {start : Literal} {visited : Findings}
    (hexplored : Explored network start visited []) : BreadthFirst network start visited := by
  have hfound := fun {steps literal} => @found_of_path network start visited hexplored steps literal
  obtain ⟨hfirst, hdistinct, hreached, hordered, _, _⟩ := hexplored
  rw [List.append_nil] at hfirst hdistinct hreached hordered
  refine ⟨hfirst, hdistinct, fun literal => ⟨?_, ?_⟩, ?_, List.pairwise_map.mpr hordered⟩
  · intro hliteral
    obtain ⟨entry, hentry, rfl⟩ := List.mem_map.mp hliteral
    exact ⟨entry.2, hreached entry hentry⟩
  · rintro ⟨steps, hpath⟩
    obtain ⟨entry, hentry, rfl, _⟩ := hfound hpath
    exact List.mem_map_of_mem hentry
  · intro literal distance hentry
    refine ⟨hreached _ hentry, fun steps hpath => ?_⟩
    obtain ⟨other, hother, hsame, hle⟩ := hfound hpath
    obtain rfl : other = (literal, distance) :=
      List.inj_on_of_nodup_map hdistinct hother hentry hsame
    exact hle

namespace Search

/-- The queue and the tags of a search say what it has found. -/
structure Lists (network : Network) (accessor : Nat) (search : Search) (found : Findings) :
    Prop where
  states : search.network.states = network.states
  slots : search.network.tags.size = network.states.size
  queue : search.queue.toList = found.map Prod.fst
  tagged : ∀ literal distance, search.network.distance? accessor literal = some distance ↔
    (literal, distance) ∈ found

namespace Lists

variable {network : Network} {accessor : Nat} {search : Search} {found : Findings}

theorem distance?_eq_none_iff (hlists : search.Lists network accessor found) (literal : Literal) :
    search.network.distance? accessor literal = none ↔ literal ∉ found.map Prod.fst := by
  rw [Option.eq_none_iff_forall_ne_some]
  simp [hlists.tagged]

theorem successors_eq (hlists : search.Lists network accessor found) (literal : Literal) :
    search.network.successors literal = network.successors literal := by
  unfold Network.successors Network.next Network.state?
  rw [hlists.states]

theorem meet (hlists : search.Lists network accessor found) {literal : Literal}
    (hlt : literal < network.states.size) (distance : Nat) :
    (search.meet accessor distance literal).Lists network accessor
      (Findings.meet distance found literal) := by
  unfold Search.meet Findings.meet
  by_cases hmem : literal ∈ found.map Prod.fst
  · rw [if_pos hmem]
    cases htag : search.network.distance? accessor literal with
    | some steps => exact hlists
    | none => exact absurd hmem ((hlists.distance?_eq_none_iff literal).mp htag)
  · rw [if_neg hmem, (hlists.distance?_eq_none_iff literal).mpr hmem]
    constructor
    case states => exact hlists.states
    case slots => simp [Network.store, hlists.slots]
    case queue => simp [hlists.queue]
    case tagged =>
      intro other steps
      rw [List.mem_append, List.mem_singleton, ← hlists.tagged]
      by_cases heq : other = literal
      · subst heq
        have hslot : other < search.network.tags.size := by
          rw [hlists.slots]
          exact hlt
        dsimp only
        rw [Network.distance?_store_self _ _ hslot, (hlists.distance?_eq_none_iff other).mpr hmem]
        simp [eq_comm]
      · dsimp only
        rw [Network.distance?_store_of_ne _ _ heq]
        simp [heq]

theorem foldl_meet (hlists : search.Lists network accessor found) (distance : Nat)
    {literals : List Literal} (hlt : ∀ literal ∈ literals, literal < network.states.size) :
    (literals.foldl (Search.meet accessor distance) search).Lists network accessor
      (literals.foldl (Findings.meet distance) found) := by
  induction literals generalizing search found with
  | nil => exact hlists
  | cons literal literals ih =>
      obtain ⟨hliteral, hliterals⟩ := List.forall_mem_cons.mp hlt
      exact ih (hlists.meet hliteral distance) hliterals

end Lists

theorem order_foldl_meet (accessor distance : Nat) (literals : List Literal) (search : Search) :
    (literals.foldl (meet accessor distance) search).order = search.order := by
  induction literals generalizing search with
  | nil => rfl
  | cons literal literals ih =>
      rw [List.foldl_cons, ih]
      unfold meet
      split <;> rfl

/-- A search between two visits, followed on what it has found. -/
structure Follows (network : Network) (accessor : Nat) (start : Literal) (search : Search)
    (visited ahead : Findings) : Prop where
  lists : search.Lists network accessor (visited ++ ahead)
  order : search.order.toList = visited
  explored : Explored network start visited ahead

theorem Follows.visit {network : Network} {accessor : Nat} {start : Literal} {search : Search}
    {visited ahead : Findings} {entry : Literal × Nat} (hindexed : network.Indexed)
    (hfollows : search.Follows network accessor start visited (entry :: ahead)) :
    ∃ added, (search.visit accessor entry.1).Follows network accessor start (visited ++ [entry])
      (ahead ++ added) := by
  obtain ⟨hlists, horder, hexplored⟩ := hfollows
  obtain ⟨added, hfold, hnext⟩ := hexplored.visit
  have htag : search.network.distance? accessor entry.1 = some entry.2 :=
    (hlists.tagged _ _).mpr (by simp)
  have hvisit : search.visit accessor entry.1 =
      (network.successors entry.1).foldl (Search.meet accessor (entry.2 + 1))
        { search with order := search.order.push entry } := by
    rw [← hlists.successors_eq]
    simp only [Search.visit, htag]
    rfl
  have hpushed : Lists network accessor { search with order := search.order.push entry }
      (visited ++ entry :: ahead) := ⟨hlists.states, hlists.slots, hlists.queue, hlists.tagged⟩
  have hwithin : ∀ literal ∈ network.successors entry.1, literal < network.states.size :=
    fun _ => hindexed.lt_of_mem_successors
  have hmet := hpushed.foldl_meet (entry.2 + 1) hwithin
  rw [hfold, ← hvisit] at hmet
  refine ⟨added, ?_, ?_, hnext⟩
  · simpa using hmet
  · rw [hvisit, order_foldl_meet, Array.toList_push, horder]

/-- A search that goes on while anything is queued, and comes to its end. -/
inductive Halts (accessor : Nat) : Nat → Search → Search → Prop where
  | exhausted {position : Nat} {search : Search} (hnone : search.queue[position]? = none) :
      Halts accessor position search search
  | visit {position : Nat} {search last : Search} {literal : Literal}
      (hsome : search.queue[position]? = some literal)
      (hrest : Halts accessor (position + 1) (search.visit accessor literal) last) :
      Halts accessor position search last

section Run

variable {network : Network} {accessor : Nat} {start : Literal} {search : Search}
  {visited ahead : Findings}

theorem Follows.queue_getElem? (hfollows : search.Follows network accessor start visited ahead) :
    search.queue[visited.length]? = ahead.head?.map Prod.fst := by
  rw [← Array.getElem?_toList, hfollows.lists.queue, List.map_append,
    List.getElem?_append_right (by simp)]
  simp [List.head?_eq_getElem?]

/-- As many visits as there are states leave nothing ahead. -/
theorem Follows.run (hindexed : network.Indexed) (hstart : start < network.states.size)
    (hfollows : search.Follows network accessor start visited ahead) {fuel : Nat}
    (henough : network.states.size ≤ visited.length + fuel) :
    Halts accessor visited.length search (Search.run accessor fuel visited.length search) ∧
      ∃ order, (Search.run accessor fuel visited.length search).Follows network accessor start
        order [] := by
  have hqueue := hfollows.queue_getElem?
  induction fuel generalizing search visited ahead with
  | zero =>
      have hlength := hfollows.explored.length_le hindexed hstart
      rw [List.length_append] at hlength
      obtain rfl : ahead = [] := List.eq_nil_of_length_eq_zero (by omega)
      exact ⟨.exhausted hqueue, visited, hfollows⟩
  | succ fuel ih =>
      rw [Search.run]
      cases ahead with
      | nil =>
          have hnone : search.queue[visited.length]? = none := hqueue
          rw [hnone]
          exact ⟨.exhausted hnone, visited, hfollows⟩
      | cons entry ahead =>
          have hsome : search.queue[visited.length]? = some entry.1 := hqueue
          obtain ⟨added, hvisited⟩ := hfollows.visit hindexed
          have hrest := ih hvisited (by rw [List.length_append, List.length_singleton]; omega)
            hvisited.queue_getElem?
          rw [List.length_append, List.length_singleton] at hrest
          rw [hsome]
          exact ⟨.visit hsome hrest.1, hrest.2⟩

end Run

end Search

/-- A search before its first visit. -/
def Network.searchFrom (network : Network) (accessor : Nat) (start : Literal) : Search :=
  { network := network.store accessor start (.distance 0), queue := #[start], order := #[] }

theorem Network.reachable_eq (network : Network) (accessor : Nat) (start : Literal) :
    network.reachable accessor start =
      ((Search.run accessor network.states.size 0 (network.searchFrom accessor start)).order,
        (Search.run accessor network.states.size 0
          (network.searchFrom accessor start)).network) := rfl

/-- Tags that others have left are as good as none. -/
theorem Search.follows_searchFrom {network : Network} {tags : Array (Option Tag)}
    (hslots : tags.size = network.states.size) {accessor : Nat}
    (hfresh : ∀ tag, some tag ∈ tags → tag.accessor ≠ accessor) {start : Literal}
    (hstart : start < network.states.size) :
    (Network.searchFrom { network with tags } accessor start).Follows network accessor start []
      [(start, 0)] := by
  refine ⟨⟨rfl, ?_, rfl, ?_⟩, rfl, .begin network start⟩
  · simp [Network.searchFrom, Network.store, hslots]
  · intro literal distance
    have hslot : start < ({ network with tags } : Network).tags.size := by
      rw [hslots]
      exact hstart
    change (Network.store { network with tags } accessor start (.distance 0)).distance? accessor
      literal = some distance ↔ _
    by_cases heq : literal = start
    · subst heq
      rw [Network.distance?_store_self _ _ hslot]
      simp [eq_comm]
    · rw [Network.distance?_store_of_ne _ _ heq, Network.distance?_of_fresh _ _ hfresh]
      simp [heq]

theorem Network.ofUpdate_eq_build {arity : Nat} {update : Update} {network : Network}
    (hbuilt : ofUpdate arity update = .ok network) : network = build arity update := by
  unfold ofUpdate at hbuilt
  split at hbuilt
  · cases hbuilt
  · exact (Except.ok.inj hbuilt).symm

/-- Breadth-first search ends and is correct, on every network and whatever tags others have left on
its states. -/
theorem reachable_breadthFirst {arity : Nat} {update : Update} {network : Network}
    (hbuilt : Network.ofUpdate arity update = .ok network) {tags : Array (Option Tag)}
    (hslots : tags.size = network.tags.size) {accessor : Nat}
    (hfresh : ∀ tag, some tag ∈ tags → tag.accessor ≠ accessor) {start : Literal} {state : State}
    (hstart : network.state? start = some state) :
    ∃ search,
      Search.Halts accessor 0 (Network.searchFrom { network with tags } accessor start) search ∧
      Network.reachable { network with tags } accessor start = (search.order, search.network) ∧
      BreadthFirst network start search.order.toList := by
  obtain rfl := Network.ofUpdate_eq_build hbuilt
  have hindexed := Network.indexed_build arity update
  have hlt : start < (Network.build arity update).states.size :=
    (Array.getElem?_eq_some_iff.mp hstart).1
  have hsizes : (Network.build arity update).tags.size =
      (Network.build arity update).states.size := by
    rw [Network.size_states_build, Network.build, Array.size_replicate, Nat.one_shiftLeft]
  have hbegin := Search.follows_searchFrom (hslots.trans hsizes) hfresh hlt
  obtain ⟨hhalts, order, hends⟩ := hbegin.run hindexed hlt (Nat.le_add_left _ _)
  refine ⟨_, hhalts, Network.reachable_eq _ accessor start, ?_⟩
  rw [hends.order]
  exact hends.explored.breadthFirst

/-- All variables flip. -/
def toggle : Update := fun state var => !valueAt state.literal var

/-- The tags of an earlier search, and one that was written since. -/
def usedTags : Array (Option Tag) :=
  (((Network.build 2 toggle).reachable 1 3).2.store 2 0 (.text "seen")).tags

theorem reachable_breadthFirst_toggle :
    (∀ tag, some tag ∈ usedTags → tag.accessor ≠ 3) ∧
      (∃ search,
        Search.Halts 3 0
          (Network.searchFrom { Network.build 2 toggle with tags := usedTags } 3 0) search ∧
        search.order = #[(0, 0), (1, 1), (2, 1), (3, 2)]) ∧
      BreadthFirst (Network.build 2 toggle) 0 [(0, 0), (1, 1), (2, 1), (3, 2)] := by
  have hfresh : ∀ tag, some tag ∈ usedTags → tag.accessor ≠ 3 := by
    have htags : usedTags =
        #[ some { accessor := 2, value := .text "seen" },
           some { accessor := 1, value := .distance 1 },
           some { accessor := 1, value := .distance 1 },
           some { accessor := 1, value := .distance 0 } ] := by decide +kernel
    rw [htags]
    simp
  have hslots : usedTags.size = (Network.build 2 toggle).tags.size := by decide +kernel
  have hstart : (Network.build 2 toggle).state? 0 =
      some { literal := 0, successors := [1, 2] } := by decide +kernel
  obtain ⟨search, hhalts, hsearch, hfirst⟩ :=
    @reachable_breadthFirst 2 toggle _ rfl usedTags hslots 3 hfresh 0 _ hstart
  have horder : search.order = #[(0, 0), (1, 1), (2, 1), (3, 2)] := by
    calc search.order
        = (Network.reachable { Network.build 2 toggle with tags := usedTags } 3 0).1 := by
          rw [hsearch]
      _ = #[(0, 0), (1, 1), (2, 1), (3, 2)] := by decide +kernel
  rw [horder] at hfirst
  exact ⟨hfresh, ⟨search, hhalts, horder⟩, hfirst⟩

end AdaptiveEval.BooleanNetwork
