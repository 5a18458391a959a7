import AdaptiveEval.Arithmetic.Operator

/-!
# Arithmetic sites

An arithmetic site remembers the variants it has run. Each new one retires the code specialized
to the old set, which the code generation counts.
-/

namespace AdaptiveEval

structure VariantSet where
  int : Bool := false
  float : Bool := false
  undefinedLeft : Bool := false
  undefinedRight : Bool := false
  deriving DecidableEq, Inhabited

namespace VariantSet

def empty : VariantSet := {}

def onlyInt : VariantSet := { int := true }

def contains (seen : VariantSet) : Variant → Bool
  | .int => seen.int
  | .float => seen.float
  | .undefinedLeft => seen.undefinedLeft
  | .undefinedRight => seen.undefinedRight

def insert (seen : VariantSet) : Variant → VariantSet
  | .int => { seen with int := true }
  | .float => { seen with float := true }
  | .undefinedLeft => { seen with undefinedLeft := true }
  | .undefinedRight => { seen with undefinedRight := true }

def size (seen : VariantSet) : Nat :=
  seen.int.toNat + seen.float.toNat + seen.undefinedLeft.toNat + seen.undefinedRight.toNat

/-- One bit for each variant, in the order of the table. -/
def bits (seen : VariantSet) : Nat :=
  seen.int.toNat + 2 * seen.float.toNat + 4 * seen.undefinedLeft.toNat +
    8 * seen.undefinedRight.toNat

def singleton (variant : Variant) : VariantSet :=
  empty.insert variant

theorem contains_insert (seen : VariantSet) (variant other : Variant) :
    (seen.insert variant).contains other = (decide (other = variant) || seen.contains other) := by
  cases variant <;> cases other <;> simp [insert, contains]

theorem size_insert (seen : VariantSet) (variant : Variant) :
    (seen.insert variant).size = if seen.contains variant then seen.size else seen.size + 1 := by
  rcases seen with ⟨int, float, undefinedLeft, undefinedRight⟩
  cases variant <;> cases int <;> cases float <;> cases undefinedLeft <;> cases undefinedRight <;>
    rfl

theorem size_le (seen : VariantSet) : seen.size ≤ 4 := by
  rcases seen with ⟨int, float, undefinedLeft, undefinedRight⟩
  cases int <;> cases float <;> cases undefinedLeft <;> cases undefinedRight <;> decide

end VariantSet

structure ArithmeticSite where
  seen : VariantSet := .empty
  deriving DecidableEq, Inhabited

namespace ArithmeticSite

/-- Records a variant; a new one advances the code generation. -/
def observe (site : ArithmeticSite) (variant : Variant) (generation : Nat) :
    ArithmeticSite × Nat :=
  ({ site with seen := site.seen.insert variant },
    if site.seen.contains variant then generation else generation + 1)

/-- A site that has only seen integers combines further ones without consulting the table. -/
def fastPath? (site : ArithmeticSite) (op : ArithmeticOp) : Value → Value → Option Value
  | .int left, .int right =>
      if site.seen = .onlyInt then some (.int (op.onInt left right)) else none
  | _, _ => none

/-- Operands that no variant accepts leave the site and the generation as they are. -/
def evaluate (site : ArithmeticSite) (op : ArithmeticOp) (left right : Value)
    (generation : Nat) : Except RuntimeError Value × ArithmeticSite × Nat :=
  match site.fastPath? op left right with
  | some value => (.ok value, site, generation)
  | none =>
      match Variant.select? left right with
      | none => (.error (unsupported op.symbol left right), site, generation)
      | some variant => (.ok (variant.apply op left right), site.observe variant generation)

end ArithmeticSite

end AdaptiveEval
