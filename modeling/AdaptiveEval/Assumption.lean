/-!
# Assumptions

An assumption holds until it is invalidated once. A flag is read through the assumption that it
was never changed.
-/

namespace AdaptiveEval

structure Assumption where
  name : String
  valid : Bool := true
  deriving DecidableEq, Inhabited

namespace Assumption

/-- Reports whether this call broke the assumption. -/
def invalidate (assumption : Assumption) : Bool × Assumption :=
  (assumption.valid, { assumption with valid := false })

end Assumption

structure Flag where
  unchanged : Assumption
  value : Bool := false
  deriving DecidableEq, Inhabited

namespace Flag

def ofName (name : String) : Flag :=
  { unchanged := { name := name ++ " is not requested" } }

def get (flag : Flag) : Bool :=
  if flag.unchanged.valid then false else flag.value

/-- The first change of the value breaks the assumption. -/
def set (flag : Flag) (value : Bool) : Flag :=
  if flag.value = value then flag else { unchanged := flag.unchanged.invalidate.2, value }

def invalidate (flag : Flag) : Bool × Flag :=
  (flag.unchanged.invalidate.1, { flag with unchanged := flag.unchanged.invalidate.2 })

end Flag

end AdaptiveEval
