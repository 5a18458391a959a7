import AdaptiveEval.Proofs.Levels
import Mathlib.Data.Int.ModEq

/-!
# The numeric tower

An arithmetic tree over integers, floats and undefined values always has a value, whatever its sites
have seen. An undefined leaf makes it undefined, and otherwise a float among the leaves makes it a
float. Over integers alone it is the exact value of the tree, wrapped to a word: wrapping commutes
with every operator, so that it may as well be done once, at the root.
-/

namespace AdaptiveEval

section Wrapping

/-- The operator on integers of any size. -/
def ArithmeticOp.onWhole : ArithmeticOp → Int → Int → Int
  | .add, left, right => left + right
  | .sub, left, right => left - right
  | .mul, left, right => left * right

theorem ArithmeticOp.ofInt_onWhole (op : ArithmeticOp) (left right : Int) :
    Int64.ofInt (op.onWhole left right) = op.onInt (.ofInt left) (.ofInt right) := by
  cases op with
  | add => exact Int64.ofInt_add left right
  | sub => exact Int64.ofInt_sub left right
  | mul => exact Int64.ofInt_mul left right

theorem toInt_ofInt_modEq (number : Int) : (Int64.ofInt number).toInt ≡ number [ZMOD 2 ^ 64] := by
  rw [Int64.toInt_ofInt]
  exact Int.bmod_emod

end Wrapping

/-- What the leaves of a tree may hold. -/
def Value.Numeric (value : Value) : Prop :=
  value.kind = .int ∨ value.kind = .float ∨ value.kind = .undefined

namespace Expr

variable {σ : Type}

/-- A tree of arithmetic nodes over constants and arguments, with the values of its leaves from left
to right. -/
inductive ArithmeticTree (arguments : Array Value) : Expr σ → List Value → Prop where
  | const (value : Value) : ArithmeticTree arguments (.const value) [value]
  | arg {index : Nat} {value : Value} (hvalue : arguments[index]? = some value) :
      ArithmeticTree arguments (.arg index) [value]
  | arith {site : σ} {op : ArithmeticOp} {left right : Expr σ} {ahead after : List Value}
      (hleft : ArithmeticTree arguments left ahead)
      (hright : ArithmeticTree arguments right after) :
      ArithmeticTree arguments (.arith site op left right) (ahead ++ after)

/-- The value of an arithmetic tree over the integers, if all its leaves are integers. -/
def wholeValue? (arguments : Array Value) : Expr σ → Option Int
  | .const value => value.int?.map Int64.toInt
  | .arg index => (arguments[index]?.bind Value.int?).map Int64.toInt
  | .arith _ op left right => do
      let left ← left.wholeValue? arguments
      let right ← right.wholeValue? arguments
      pure (op.onWhole left right)
  | _ => none

end Expr

/-- The value that the tower demands, given the values of the leaves and the value over the
integers. -/
inductive Tower (leaves : List Value) (whole : Option Int) : Value → Prop where
  | int {number : Int} (hleaves : ∀ leaf ∈ leaves, leaf.kind = .int)
      (hwhole : whole = some number) : Tower leaves whole (.int (.ofInt number))
  | float (number : Float) (hdefined : .undefined ∉ leaves)
      (hleaf : ∃ leaf ∈ leaves, leaf.kind = .float) : Tower leaves whole (.float number)
  | undefined (hleaf : .undefined ∈ leaves) : Tower leaves whole .undefined

namespace Tower

variable {leaves ahead after : List Value} {whole former latter : Option Int}
  {value left right : Value}

theorem leaf (hnumeric : value.Numeric) : Tower [value] (value.int?.map Int64.toInt) value := by
  cases value with
  | int number =>
      have hword : Tower [.int number] (some number.toInt) (.int (.ofInt number.toInt)) :=
        .int (by simp [Value.kind]) rfl
      rw [Int64.ofInt_toInt] at hword
      exact hword
  | float number => exact .float number (by simp) ⟨.float number, List.mem_singleton_self _, rfl⟩
  | undefined => exact .undefined (List.mem_singleton_self _)
  | _ => simp [Value.Numeric, Value.kind] at hnumeric

theorem undefined_notMem_of_int (hleaves : ∀ leaf ∈ leaves, leaf.kind = .int) :
    .undefined ∉ leaves := by
  intro hleaf
  have hkind := hleaves _ hleaf
  simp [Value.kind] at hkind

/-- Combining the values of two trees is combining their leaves. -/
theorem combine (hleft : Tower ahead former left) (hright : Tower after latter right)
    (op : ArithmeticOp) :
    ∃ value, op.combine left right = .ok value ∧
      Tower (ahead ++ after)
        (do
          let left ← former
          let right ← latter
          pure (op.onWhole left right))
        value := by
  have hfloat : (.undefined ∉ ahead ∧ .undefined ∉ after) →
      ((∃ leaf ∈ ahead, leaf.kind = .float) ∨ ∃ leaf ∈ after, leaf.kind = .float) →
      ∀ number whole, Tower (ahead ++ after) whole (.float number) := by
    intro hdefined hleaf number whole
    apply Tower.float number
    · simpa using hdefined
    · obtain ⟨leaf, hmem, hkind⟩ | ⟨leaf, hmem, hkind⟩ := hleaf
      · exact ⟨leaf, List.mem_append_left _ hmem, hkind⟩
      · exact ⟨leaf, List.mem_append_right _ hmem, hkind⟩
  cases hleft with
  | undefined hleaf => exact ⟨.undefined, rfl, .undefined (List.mem_append_left _ hleaf)⟩
  | @int first hahead hformer =>
      cases hright with
      | undefined hleaf => exact ⟨.undefined, rfl, .undefined (List.mem_append_right _ hleaf)⟩
      | @int second hafter hlatter =>
          refine ⟨.int (op.onInt (.ofInt first) (.ofInt second)), rfl, ?_⟩
          rw [← ArithmeticOp.ofInt_onWhole]
          apply Tower.int
          · simp only [List.mem_append]
            rintro leaf (hleaf | hleaf)
            · exact hahead leaf hleaf
            · exact hafter leaf hleaf
          · rw [hformer, hlatter]
            rfl
      | float number hdefined hleaf =>
          exact ⟨_, rfl, hfloat ⟨undefined_notMem_of_int hahead, hdefined⟩ (.inr hleaf) _ _⟩
  | float number hdefined hleaf =>
      cases hright with
      | undefined hleaf => exact ⟨.undefined, rfl, .undefined (List.mem_append_right _ hleaf)⟩
      | int hafter _ =>
          exact ⟨_, rfl, hfloat ⟨hdefined, undefined_notMem_of_int hafter⟩ (.inl hleaf) _ _⟩
      | float _ hlater _ => exact ⟨_, rfl, hfloat ⟨hdefined, hlater⟩ (.inl hleaf) _ _⟩

theorem eq_undefined_iff (htower : Tower leaves whole value) :
    value = .undefined ↔ .undefined ∈ leaves := by
  cases htower with
  | int hleaves _ => simp [undefined_notMem_of_int hleaves]
  | float _ hdefined _ => simp [hdefined]
  | undefined hleaf => simp [hleaf]

theorem exists_int_iff (htower : Tower leaves whole value) (hdefined : .undefined ∉ leaves) :
    (∃ number, value = .int number) ↔ ∀ leaf ∈ leaves, leaf.kind = .int := by
  cases htower with
  | int hleaves _ => exact ⟨fun _ => hleaves, fun _ => ⟨_, rfl⟩⟩
  | float _ _ hleaf =>
      obtain ⟨leaf, hmem, hkind⟩ := hleaf
      constructor
      · rintro ⟨_, ⟨⟩⟩
      · intro hleaves
        rw [hleaves leaf hmem] at hkind
        cases hkind
  | undefined hleaf => exact absurd hleaf hdefined

theorem modEq_of_int {number : Int64} (htower : Tower leaves whole (.int number)) :
    ∃ exactly, whole = some exactly ∧ number.toInt ≡ exactly [ZMOD 2 ^ 64] := by
  cases htower with
  | int _ hwhole => exact ⟨_, hwhole, toInt_ofInt_modEq _⟩

theorem int_or_float (htower : Tower leaves whole value) (hdefined : .undefined ∉ leaves) :
    (∃ number, value = .int number) ∨ ∃ number, value = .float number := by
  cases htower with
  | int _ _ => exact .inl ⟨_, rfl⟩
  | float number _ _ => exact .inr ⟨number, rfl⟩
  | undefined hleaf => exact absurd hleaf hdefined

end Tower

section Evaluation

variable {context : Context} {machine : Machine}

theorem Eval.bind_of_ok {α β : Type} {action : Eval α} {next : α → Eval β} {content : α}
    (hcontent : (action context machine).1 = .ok content) :
    (action >>= next) context machine = next content context (action context machine).2 := by
  rw [bind_apply]
  rcases hrun : action context machine with ⟨result, reached⟩
  rw [hrun] at hcontent
  obtain rfl : result = .ok content := hcontent
  rfl

/-- A site chooses how a result is found, not which one. -/
theorem Eval.arith_fst (site : SiteId) (op : ArithmeticOp) (left right : Value) :
    (Eval.arith site op left right context machine).1 =
      (op.combine left right).mapError .runtime := by
  unfold Eval.arith
  dsimp only
  rw [ArithmeticSite.evaluate_fst]
  cases op.combine left right <;> rfl

theorem Expr.depth_eval_of_ok {expr : Expr SiteId} {value : Value}
    (hvalue : (expr.eval context machine).1 = .ok value) :
    (expr.eval context machine).2.depth = machine.depth := by
  have hcomposed : Eval.Composed expr.ownSites False expr.height expr.traced expr.eval :=
    .eval_own expr
  apply (hcomposed.balanced context machine).restored
  rw [hvalue]
  exact nofun

theorem Expr.eval_arith_fst {site : SiteId} {op : ArithmeticOp} {left right : Expr SiteId}
    (hroom : machine.depth < context.options.maxDepth) {former latter : Value}
    (hleft : (left.eval context machine.inside).1 = .ok former)
    (hright : (right.eval context (left.eval context machine.inside).2).1 = .ok latter) :
    ((Expr.arith site op left right).eval context machine).1 =
      (op.combine former latter).mapError .runtime := by
  rw [Expr.eval, Eval.nested_fst (Nat.not_le.mpr hroom)]
  change ((left.eval >>= _) context machine.inside).1 = _
  rw [Eval.bind_of_ok hleft, Eval.bind_of_ok hright]
  exact Eval.arith_fst site op former latter

/-- A tree with room for its nodes has the value that the tower demands. -/
theorem Expr.ArithmeticTree.eval {tree : Expr SiteId} {leaves : List Value}
    (htree : tree.ArithmeticTree context.arguments leaves) (hleaves : ∀ leaf ∈ leaves, leaf.Numeric)
    (hroom : machine.depth + tree.height ≤ context.options.maxDepth) :
    ∃ value, (tree.eval context machine).1 = .ok value ∧
      Tower leaves (tree.wholeValue? context.arguments) value := by
  induction htree generalizing machine with
  | const value =>
      rw [Expr.height] at hroom
      refine ⟨value, ?_, .leaf (hleaves value (List.mem_singleton_self _))⟩
      rw [Expr.eval, Eval.nested_fst (by omega)]
      rfl
  | @arg index value hvalue =>
      rw [Expr.height] at hroom
      have hleaf :
          Tower [value] ((Expr.arg index : Expr SiteId).wholeValue? context.arguments) value := by
        rw [Expr.wholeValue?, hvalue]
        exact .leaf (hleaves value (List.mem_singleton_self _))
      refine ⟨value, ?_, hleaf⟩
      rw [Expr.eval, Eval.nested_fst (by omega)]
      dsimp only [Eval.argument]
      rw [hvalue]
  | @arith site op left right ahead after _ _ ihleft ihright =>
      rw [Expr.height] at hroom
      have hinside : machine.inside.depth = machine.depth + 1 := rfl
      obtain ⟨former, hformer, hleft⟩ := @ihleft machine.inside
        (fun leaf hleaf => hleaves leaf (List.mem_append_left _ hleaf)) (by omega)
      have hreached := Expr.depth_eval_of_ok hformer
      obtain ⟨latter, hlatter, hright⟩ := @ihright (left.eval context machine.inside).2
        (fun leaf hleaf => hleaves leaf (List.mem_append_right _ hleaf)) (by omega)
      obtain ⟨value, hvalue, htower⟩ := hleft.combine hright op
      refine ⟨value, ?_, htower⟩
      rw [Expr.eval_arith_fst (by omega) hformer hlatter, hvalue]
      rfl

end Evaluation

/-- Arithmetic trees follow the numeric tower, on every machine and so whatever the sites have
seen. -/
theorem Expr.eval_numericTower {context : Context} {tree : Expr SiteId} {leaves : List Value}
    (htree : tree.ArithmeticTree context.arguments leaves) (hleaves : ∀ leaf ∈ leaves, leaf.Numeric)
    {machine : Machine} (hroom : machine.depth + tree.height ≤ context.options.maxDepth) :
    ∃ value, (tree.eval context machine).1 = .ok value ∧
      (value = .undefined ↔ .undefined ∈ leaves) ∧
      (.undefined ∉ leaves →
        ((∃ number, value = .int number) ↔ ∀ leaf ∈ leaves, leaf.kind = .int) ∧
        (∀ number, value = .int number → ∃ whole, tree.wholeValue? context.arguments = some whole ∧
          number.toInt ≡ whole [ZMOD 2 ^ 64]) ∧
        ((∃ number, value = .int number) ∨ ∃ number, value = .float number)) := by
  obtain ⟨value, hvalue, htower⟩ := htree.eval hleaves hroom
  refine ⟨value, hvalue, htower.eq_undefined_iff, fun hdefined => ?_⟩
  refine ⟨htower.exists_int_iff hdefined, ?_, htower.int_or_float hdefined⟩
  rintro number rfl
  exact htower.modEq_of_int

/-- A tree of full height in which two nodes share a site. -/
def Expr.sharedTree : Expr SiteId :=
  .arith 0 .sub (.arith 1 .add (.arg 0) (.const (.int 1))) (.arith 0 .mul (.arg 0) (.arg 1))

def Expr.sharedTreeContext (first second : Value) : Context :=
  { arguments := #[first, second]
    options := { maxDepth := 3 }
    registry := .ofLimit 2
    flags := #[]
    fuel := 0 }

/-- One site has seen integers only, the other floats only. -/
def Expr.sharedTreeMachine : Machine :=
  { frame := .ofSize 0
    depth := 0
    target :=
      { descriptor := .ofSize 0
        nameCache := (Registry.ofLimit 2).freshCache
        shapes := .ofLimit 2 }
    sites :=
      { arithmetic := .ofList [(0, { seen := .onlyInt }), (1, { seen := .singleton .float })] } }

theorem Expr.eval_numericTower_shared :
    (∃ number : Int64,
      (sharedTree.eval (sharedTreeContext (.int .maxValue) (.int 3)) sharedTreeMachine).1 =
          .ok (.int number) ∧
        number.toInt ≡ 2 ^ 63 - (2 ^ 63 - 1) * 3 [ZMOD 2 ^ 64]) ∧
      (∃ number, (sharedTree.eval (sharedTreeContext (.int 7) (.float 0.5)) sharedTreeMachine).1 =
        .ok (.float number)) ∧
      (sharedTree.eval (sharedTreeContext .undefined (.float 0.5)) sharedTreeMachine).1 =
        .ok .undefined := by
  have htree : ∀ first second,
      sharedTree.ArithmeticTree (sharedTreeContext first second).arguments
        [first, .int 1, first, second] :=
    fun _ _ => .arith (.arith (.arg rfl) (.const _)) (.arith (.arg rfl) (.arg rfl))
  have hroom : ∀ first second,
      sharedTreeMachine.depth + sharedTree.height ≤
        (sharedTreeContext first second).options.maxDepth :=
    fun _ _ => Nat.le_refl 3
  refine ⟨?_, ?_, ?_⟩
  · obtain ⟨value, hvalue, -, hdefined⟩ := eval_numericTower (htree (.int .maxValue) (.int 3))
      (by simp [Value.Numeric, Value.kind]) (hroom _ _)
    obtain ⟨hint, hwraps, -⟩ := hdefined (by simp)
    obtain ⟨number, rfl⟩ := hint.mpr (by simp [Value.kind])
    obtain ⟨whole, hwhole, hwraps⟩ := hwraps number rfl
    have hexact : sharedTree.wholeValue? #[.int .maxValue, .int 3] =
        some (2 ^ 63 - (2 ^ 63 - 1) * 3) := by decide +kernel
    obtain rfl := Option.some.inj (hexact.symm.trans hwhole)
    exact ⟨number, hvalue, hwraps⟩
  · obtain ⟨value, hvalue, -, hdefined⟩ := eval_numericTower (htree (.int 7) (.float 0.5))
      (by simp [Value.Numeric, Value.kind]) (hroom _ _)
    obtain ⟨hint, -, hkinds⟩ := hdefined (by simp)
    obtain hnumber | ⟨number, rfl⟩ := hkinds
    · simpa [Value.kind] using hint.mp hnumber
    · exact ⟨number, hvalue⟩
  · obtain ⟨value, hvalue, hundefined, -⟩ := eval_numericTower (htree .undefined (.float 0.5))
      (by simp [Value.Numeric, Value.kind]) (hroom _ _)
    rw [hvalue, hundefined.mpr (by simp)]

end AdaptiveEval
