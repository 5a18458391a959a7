import AdaptiveEval.BooleanNetwork.Basic

/-!
# Reachability

Breadth-first search that marks the states it has met by tagging them with their distance.
-/

namespace AdaptiveEval.BooleanNetwork

def Network.distance? (network : Network) (accessor : Nat) (literal : Literal) : Option Nat :=
  match network.tag? accessor literal with
  | some (.distance steps) => some steps
  | _ => none

structure Search where
  network : Network
  queue : Array Literal
  order : Array (Literal × Nat)

namespace Search

def meet (accessor distance : Nat) (search : Search) (literal : Literal) : Search :=
  match search.network.distance? accessor literal with
  | some _ => search
  | none =>
      { search with
        network := search.network.store accessor literal (.distance distance)
        queue := search.queue.push literal }

def visit (accessor : Nat) (search : Search) (literal : Literal) : Search :=
  match search.network.distance? accessor literal with
  | none => search
  | some distance =>
      ((search.network.next literal).map State.literal).foldl (meet accessor (distance + 1))
        { search with order := search.order.push (literal, distance) }

/-- Visits at most `fuel` queued states from `position` on. -/
def run (accessor : Nat) : Nat → Nat → Search → Search
  | 0, _, search => search
  | fuel + 1, position, search =>
      match search.queue[position]? with
      | none => search
      | some literal => run accessor fuel (position + 1) (search.visit accessor literal)

end Search

/-- The states reachable from `start` with their distances, in visiting order. The accessor must
be new to the network. A state is queued at most once, so there is a visit for each. -/
def Network.reachable (network : Network) (accessor : Nat) (start : Literal) :
    Array (Literal × Nat) × Network :=
  let search := Search.run accessor network.states.size 0
    { network := network.store accessor start (.distance 0), queue := #[start], order := #[] }
  (search.order, search.network)

end AdaptiveEval.BooleanNetwork
