import AdaptiveEval.Proofs.NodeSites
import AdaptiveEval.Proofs.Specialization.Trace

/-!
# How evaluations are composed

A node is evaluated in steps, in one level of depth for each node around them, and in loops. The
traced evaluation is composed in the same way. What holds of the steps, and of what is composed of
them, therefore holds of every node, without going through the nodes again.
-/

namespace AdaptiveEval

/-- Both phases of a loop, the interpreted one and the one after the hand-over. -/
def runInPhases (step : Eval Progress) (threshold fuel : Nat) : Eval Flow := do
  let progress ← runFor step threshold
  match progress with
  | .done flow => pure flow
  | .running => do
      Eval.enterOsr
      runToEnd step fuel

theorem executeLoop_eq (step : Eval Progress) :
    executeLoop step = Eval.context >>= fun context =>
      runInPhases step context.options.osrThreshold context.fuel := rfl

namespace Eval

variable {α : Type}

/-- A step that changes nothing, and looks at nothing but the arguments, the flags and the frame. -/
def Looks (action : Eval α) : Prop :=
  ∃ look : Array Value → Array Flag → Frame → Except RuntimeError α,
    ∀ (context : Context) (machine : Machine), action context machine =
      ((look context.arguments context.flags machine.frame).mapError .runtime, machine)

namespace Looks

theorem snd_eq {action : Eval α} (hlooks : action.Looks) (context : Context) (machine : Machine) :
    (action context machine).2 = machine := by
  obtain ⟨look, hlook⟩ := hlooks
  rw [hlook]

theorem fail (error : RuntimeError) : (Eval.fail error : Eval α).Looks :=
  ⟨fun _ _ _ => .error error, fun _ _ => rfl⟩

theorem ofExcept (result : Except RuntimeError α) : (Eval.ofExcept result).Looks :=
  ⟨fun _ _ _ => result, fun _ _ => by cases result <;> rfl⟩

theorem expectBool (value : Value) : (Eval.expectBool value).Looks := by
  cases value with
  | bool truth => exact ofExcept (.ok truth)
  | _ => exact fail _

theorem expectIndex (value : Value) : (Eval.expectIndex value).Looks := by
  cases value with
  | int index => exact ofExcept (.ok index)
  | _ => exact fail _

theorem expectArray (value : Value) : (Eval.expectArray value).Looks := by
  cases value with
  | array items => exact ofExcept (.ok items)
  | _ => exact fail _

theorem argument (index : Nat) : (Eval.argument index).Looks := by
  refine ⟨fun arguments _ _ =>
    arguments[index]?.elim (.error (.argumentOutOfBounds index arguments.size)) .ok,
    fun context _ => ?_⟩
  unfold Eval.argument
  dsimp only
  cases context.arguments[index]? <;> rfl

theorem read (slot : Nat) (expect : Expectation) : (Eval.read slot expect).Looks := by
  refine ⟨fun _ _ frame => frame.read slot expect, fun _ machine => ?_⟩
  unfold Eval.read
  dsimp only
  cases machine.frame.read slot expect <;> rfl

theorem flag (id : Nat) :
    (do let context ← Eval.context; pure (.bool (context.flag id)) : Eval Value).Looks :=
  ⟨fun _ flags _ => .ok (.bool ((flags[id]?.map Flag.get).getD false)), fun _ _ => rfl⟩

end Looks

theorem ofExcept_snd (result : Except RuntimeError α) (context : Context) (machine : Machine) :
    (ofExcept result context machine).2 = machine :=
  (Looks.ofExcept result).snd_eq context machine

/-- The steps that nodes are made of. One that uses a site uses one of the given sites. -/
inductive Primitive (sites : SiteSets) : {α : Type} → Eval α → Prop where
  | look {α : Type} {action : Eval α} (hlooks : action.Looks) : Primitive sites action
  | write (slot : Nat) (value : Value) : Primitive sites (write slot value)
  | arith {site : SiteId} (hsite : site ∈ sites.arithmetic) (op : ArithmeticOp)
      (left right : Value) : Primitive sites (arith site op left right)
  | resolve {site : SiteId} (hsite : site ∈ sites.caches .name) (name : String) :
      Primitive sites (resolve site name)
  | element {site : SiteId} (hsite : site ∈ sites.caches .shape) (array : ArrayValue)
      (index : Int64) : Primitive sites (element site array index)

/-- A traced evaluation and the evaluation that it traces, which need at most `height` levels. Only
loops look at their bounds, and only where `loops` allows them. -/
inductive Composed (sites : SiteSets) (loops : Prop) :
    Nat → {α : Type} → Traced α → Eval α → Prop where
  | pure (height : Nat) {α : Type} (value : α) :
      Composed sites loops height (pure value) (pure value)
  | step (height : Nat) {α : Type} {action : Eval α} (hprimitive : Primitive sites action) :
      Composed sites loops height (Traced.step action) action
  | bind {height : Nat} {α β : Type} {traced : Traced α} {action : Eval α}
      {tracedNext : α → Traced β} {next : α → Eval β}
      (haction : Composed sites loops height traced action)
      (hnext : ∀ value, Composed sites loops height (tracedNext value) (next value)) :
      Composed sites loops height (traced >>= tracedNext) (action >>= next)
  | nested {height : Nat} {α : Type} {traced : Traced α} {body : Eval α}
      (hbody : Composed sites loops height traced body) :
      Composed sites loops (height + 1) (Traced.nested traced) (nested body)
  | bounded {height : Nat} {α : Type} {traced : Nat → Nat → Traced α} {run : Nat → Nat → Eval α}
      (hloops : loops)
      (hrun : ∀ threshold fuel,
        Composed sites loops height (traced threshold fuel) (run threshold fuel)) :
      Composed sites loops height
        (Traced.step Eval.context >>= fun context =>
          traced context.options.osrThreshold context.fuel)
        (Eval.context >>= fun context => run context.options.osrThreshold context.fuel)
  | outOfFuel (height : Nat) {α : Type} (hloops : loops) :
      Composed sites loops height (Traced.step (raise .outOfFuel)) (raise .outOfFuel : Eval α)
  | enterOsr (height : Nat) (hloops : loops) :
      Composed sites loops height (Traced.step enterOsr) enterOsr

namespace Composed

variable {sites : SiteSets} {loops : Prop} {height : Nat}

theorem mono {traced : Traced α} {action : Eval α}
    (hcomposed : Composed sites loops height traced action) {taller : Nat} (hle : height ≤ taller) :
    Composed sites loops taller traced action := by
  induction hcomposed generalizing taller with
  | pure height value => exact .pure taller value
  | step height hprimitive => exact .step taller hprimitive
  | bind _ _ ihaction ihnext => exact .bind (ihaction hle) fun value => ihnext value hle
  | nested _ ih =>
      obtain ⟨rest, rfl⟩ : ∃ rest, taller = rest + 1 := ⟨taller - 1, by omega⟩
      exact .nested (ih (by omega))
  | bounded hloops _ ih => exact .bounded hloops fun threshold fuel => ih threshold fuel hle
  | outOfFuel height hloops => exact .outOfFuel taller hloops
  | enterOsr height hloops => exact .enterOsr taller hloops

theorem look {action : Eval α} (hlooks : action.Looks) :
    Composed sites loops height (Traced.step action) action :=
  .step height (.look hlooks)

section Loops

theorem loopStep {tracedCondition : Traced Value} {condition : Eval Value}
    {tracedBody : Traced Flow} {body : Eval Flow}
    (hcondition : Composed sites loops height tracedCondition condition)
    (hbody : Composed sites loops height tracedBody body) :
    Composed sites loops height (Traced.loopStep tracedCondition tracedBody)
      (loopStep condition body) := by
  apply bind hcondition
  intro value
  apply bind (look (.expectBool value))
  intro entered
  cases entered with
  | false => exact .pure height _
  | true =>
      apply bind hbody
      intro flow
      cases flow <;> exact .pure height _

variable {traced : Traced Progress} {iteration : Eval Progress}

theorem runFor (hiteration : Composed sites loops height traced iteration) (budget : Nat) :
    Composed sites loops height (Traced.runFor traced budget) (runFor iteration budget) := by
  induction budget with
  | zero => exact .pure height _
  | succ budget ih =>
      apply bind hiteration
      intro progress
      cases progress with
      | running => exact ih
      | done flow => exact .pure height _

theorem runToEnd (hloops : loops) (hiteration : Composed sites loops height traced iteration)
    (fuel : Nat) :
    Composed sites loops height (Traced.runToEnd traced fuel) (runToEnd iteration fuel) := by
  induction fuel with
  | zero => exact .outOfFuel height hloops
  | succ fuel ih =>
      apply bind hiteration
      intro progress
      cases progress with
      | running => exact ih
      | done flow => exact .pure height _

theorem executeLoop (hloops : loops) (hiteration : Composed sites loops height traced iteration) :
    Composed sites loops height (Traced.executeLoop traced) (executeLoop iteration) := by
  have hphases : ∀ threshold fuel : Nat, Composed sites loops height
      (do
        let progress ← Traced.runFor traced threshold
        match progress with
        | .done flow => Pure.pure flow
        | .running => do
            Traced.step Eval.enterOsr
            Traced.runToEnd traced fuel)
      (runInPhases iteration threshold fuel) := by
    intro threshold fuel
    apply bind (runFor hiteration threshold)
    intro progress
    cases progress with
    | done flow => exact .pure height flow
    | running => exact bind (.enterOsr height hloops) fun _ => runToEnd hloops hiteration fuel
  rw [executeLoop_eq]
  exact bounded hloops hphases

theorem runLoop (hloops : loops) (hiteration : Composed sites loops height traced iteration)
    (budget : Option Nat) :
    ∃ tracedLoop, Composed sites loops height tracedLoop (runLoop iteration budget) := by
  cases budget with
  | some budget => exact ⟨_, runFor hiteration budget⟩
  | none =>
      have hrun : ∀ _threshold fuel : Nat, Composed sites loops height
          (Traced.runToEnd traced fuel >>= fun flow => Pure.pure (Progress.done flow))
          (AdaptiveEval.runToEnd iteration fuel >>= fun flow => Pure.pure (Progress.done flow)) :=
        fun _ fuel => bind (runToEnd hloops hiteration fuel) fun flow => .pure height _
      exact ⟨_, bounded hloops hrun⟩

end Loops

end Composed

end Eval

section Height

variable {σ : Type}

/-- The levels of depth that an expression needs: one, and those of its tallest operand. -/
def Expr.height : Expr σ → Nat
  | .const _ => 1
  | .arg _ => 1
  | .read _ _ => 1
  | .arith _ _ left right => 1 + max left.height right.height
  | .compare _ left right => 1 + max left.height right.height
  | .conditional condition accept reject =>
      1 + max condition.height (max accept.height reject.height)
  | .resolve _ _ => 1
  | .element _ array index => 1 + max array.height index.height
  | .length array => 1 + array.height
  | .format _ argument => 1 + argument.height
  | .flag _ => 1

mutual

def Stmt.height : Stmt σ → Nat
  | .block body => 1 + heightOfAll body
  | .write _ value => 1 + value.height
  | .loop condition body => 1 + max condition.height body.height
  | .ret value => 1 + value.height
  | .eval value => 1 + value.height

def heightOfAll : List (Stmt σ) → Nat
  | [] => 0
  | stmt :: rest => max stmt.height (heightOfAll rest)

end

def Body.height : Body σ → Nat
  | .expr node => node.height
  | .stmt node => node.height

/-- A loop that is driven by hand takes no level of its own. -/
def Node.height : Node → Nat
  | .expr node => node.height
  | .stmt node => node.height
  | .iteration condition body => max condition.height body.height
  | .loop condition body _ => max condition.height body.height
  | .wholeLoop condition body => max condition.height body.height

end Height

namespace Eval.Composed

variable {sites : SiteSets} {loops : Prop}

theorem nested_one_add {α : Type} {height : Nat} {traced : Traced α} {body : Eval α}
    (hbody : Composed sites loops height traced body) :
    Composed sites loops (1 + height) (Traced.nested traced) (Eval.nested body) := by
  rw [Nat.add_comm]
  exact nested hbody

/-- An expression has no loops. -/
theorem eval (expr : Expr SiteId)
    (hsites : sites.Include expr.arithmeticSites (expr.cacheSites ·)) :
    Composed sites loops expr.height expr.traced expr.eval := by
  induction expr with
  | const value =>
      rw [Expr.traced, Expr.eval]
      exact nested (.pure 0 value)
  | arg index =>
      rw [Expr.traced, Expr.eval]
      exact nested (look (.argument index))
  | read slot expect =>
      rw [Expr.traced, Expr.eval]
      exact nested (look (.read slot expect))
  | arith site op left right ihleft ihright =>
      obtain ⟨hsite, harithmetic⟩ := List.cons_subset.mp hsites.arithmetic
      obtain ⟨hleft, hright⟩ := SiteSets.include_append_iff.mp ⟨harithmetic, hsites.caches⟩
      rw [Expr.traced, Expr.eval]
      apply nested_one_add
      apply bind ((ihleft hleft).mono (Nat.le_max_left _ _))
      intro left
      apply bind ((ihright hright).mono (Nat.le_max_right _ _))
      intro right
      exact .step _ (.arith hsite op left right)
  | compare op left right ihleft ihright =>
      obtain ⟨hleft, hright⟩ := SiteSets.include_append_iff.mp hsites
      rw [Expr.traced, Expr.eval]
      apply nested_one_add
      apply bind ((ihleft hleft).mono (Nat.le_max_left _ _))
      intro left
      apply bind ((ihright hright).mono (Nat.le_max_right _ _))
      intro right
      exact bind (look (.ofExcept (op.holds left right))) fun holds => .pure _ _
  | conditional condition accept reject ihcondition ihaccept ihreject =>
      obtain ⟨hcondition, hbranches⟩ := SiteSets.include_append_iff.mp hsites
      obtain ⟨haccept, hreject⟩ := SiteSets.include_append_iff.mp hbranches
      rw [Expr.traced, Expr.eval]
      apply nested_one_add
      apply bind ((ihcondition hcondition).mono (Nat.le_max_left _ _))
      intro value
      apply bind (look (.expectBool value))
      intro accepted
      cases accepted with
      | true => exact (ihaccept haccept).mono (by omega)
      | false => exact (ihreject hreject).mono (by omega)
  | resolve site name =>
      have hsite : site ∈ sites.caches .name := hsites.caches .name (by simp [Expr.cacheSites])
      rw [Expr.traced, Expr.eval]
      exact nested (bind (.step 0 (.resolve hsite name)) fun id => .pure 0 _)
  | element site array index iharray ihindex =>
      have hsite : site ∈ sites.caches .shape := hsites.caches .shape (by simp [Expr.cacheSites])
      obtain ⟨harray, hindex⟩ := SiteSets.include_append_iff.mp
        ⟨hsites.arithmetic, fun kind => (List.append_subset.mp (hsites.caches kind)).2⟩
      rw [Expr.traced, Expr.eval]
      apply nested_one_add
      apply bind ((iharray harray).mono (Nat.le_max_left _ _))
      intro value
      apply bind (look (.expectArray value))
      intro array
      apply bind ((ihindex hindex).mono (Nat.le_max_right _ _))
      intro value
      apply bind (look (.expectIndex value))
      intro index
      apply bind (.step _ (.element hsite array index))
      intro item
      cases item with
      | some value => exact .pure _ value
      | none => exact look (.fail _)
  | length array iharray =>
      rw [Expr.traced, Expr.eval]
      apply nested_one_add
      apply bind (iharray hsites)
      intro value
      exact bind (look (.expectArray value)) fun array => .pure _ _
  | format template argument ihargument =>
      rw [Expr.traced, Expr.eval]
      exact nested_one_add (bind (ihargument hsites) fun value => .pure _ _)
  | flag id =>
      rw [Expr.traced, Expr.eval]
      exact nested (look (.flag id))

theorem eval_own (expr : Expr SiteId) :
    Composed expr.ownSites loops expr.height expr.traced expr.eval :=
  eval expr expr.ownSites.include_self

mutual

theorem exec (hloops : loops) : ∀ stmt : Stmt SiteId,
    sites.Include stmt.arithmeticSites (stmt.cacheSites ·) →
      Composed sites loops stmt.height stmt.traced stmt.exec
  | .block body, hsites => by
      rw [Stmt.traced, Stmt.exec, Stmt.height]
      exact nested_one_add (execAll hloops body hsites)
  | .write slot value, hsites => by
      rw [Stmt.traced, Stmt.exec, Stmt.height]
      apply nested_one_add
      apply bind (eval value hsites)
      intro value
      exact bind (.step _ (.write slot value)) fun _ => .pure _ _
  | .loop condition body, hsites => by
      obtain ⟨hcondition, hbody⟩ := SiteSets.include_append_iff.mp hsites
      rw [Stmt.traced, Stmt.exec, Stmt.height]
      apply nested_one_add
      apply executeLoop hloops
      exact loopStep ((eval condition hcondition).mono (Nat.le_max_left _ _))
        ((exec hloops body hbody).mono (Nat.le_max_right _ _))
  | .ret value, hsites => by
      rw [Stmt.traced, Stmt.exec, Stmt.height]
      exact nested_one_add (bind (eval value hsites) fun value => .pure _ _)
  | .eval value, hsites => by
      rw [Stmt.traced, Stmt.exec, Stmt.height]
      exact nested_one_add (bind (eval value hsites) fun _ => .pure _ _)

theorem execAll (hloops : loops) : ∀ body : List (Stmt SiteId),
    sites.Include (arithmeticSitesOfAll body) (cacheSitesOfAll · body) →
      Composed sites loops (heightOfAll body) (tracedAll body) (execAll body)
  | [], _ => by
      rw [tracedAll, AdaptiveEval.execAll]
      exact .pure _ _
  | stmt :: rest, hsites => by
      obtain ⟨hstmt, hrest⟩ := SiteSets.include_append_iff.mp hsites
      rw [tracedAll, AdaptiveEval.execAll, heightOfAll]
      apply bind ((exec hloops stmt hstmt).mono (Nat.le_max_left _ _))
      intro flow
      cases flow with
      | normal => exact (execAll hloops rest hrest).mono (Nat.le_max_right _ _)
      | ret value => exact .pure _ _

end

theorem run (hloops : loops) (root : Root SiteId) :
    Composed root.ownSites loops root.body.height root.traced root.run := by
  have hsites := root.ownSites.include_self
  revert hsites
  unfold Root.traced Root.run Body.height Root.ownSites Root.arithmeticSites Root.cacheSites
  cases root.body with
  | expr node => exact eval node
  | stmt node =>
      intro hsites
      apply bind (exec hloops node hsites)
      intro flow
      cases flow <;> exact .pure _ _

theorem iteration (hloops : loops) (condition : Expr SiteId) (body : Stmt SiteId) :
    Composed (Node.iteration condition body).ownSites loops (max condition.height body.height)
      (Traced.loopStep condition.traced body.traced)
      (AdaptiveEval.loopStep condition.eval body.exec) := by
  obtain ⟨hcondition, hbody⟩ :=
    SiteSets.include_append_iff.mp (Node.iteration condition body).ownSites.include_self
  apply loopStep
  · exact (eval condition hcondition).mono (Nat.le_max_left _ _)
  · exact (exec hloops body hbody).mono (Nat.le_max_right _ _)

theorem node (hloops : loops) (node : Node) :
    ∃ traced, Composed node.ownSites loops node.height traced node.run := by
  cases node with
  | expr node =>
      exact ⟨_, bind (eval node (Node.expr node).ownSites.include_self) fun value => .pure _ _⟩
  | stmt node =>
      exact ⟨_, bind (exec hloops node (Node.stmt node).ownSites.include_self) fun flow =>
        .pure _ _⟩
  | iteration condition body =>
      exact ⟨_, bind (iteration hloops condition body) fun progress => .pure _ _⟩
  | loop condition body budget =>
      obtain ⟨_, hloop⟩ := runLoop hloops (iteration hloops condition body) budget
      exact ⟨_, bind hloop fun progress => .pure _ _⟩
  | wholeLoop condition body =>
      exact ⟨_, bind (executeLoop hloops (iteration hloops condition body)) fun flow => .pure _ _⟩

end Eval.Composed

/-- An evaluation without loops, whatever its sites and its height. -/
def Eval.WithoutLoops {α : Type} (action : Eval α) : Prop :=
  ∃ (sites : SiteSets) (height : Nat) (traced : Traced α),
    Composed sites False height traced action

namespace Eval.WithoutLoops

theorem look {α : Type} {action : Eval α} (hlooks : action.Looks) : action.WithoutLoops :=
  ⟨{ arithmetic := [], caches := fun _ => [] }, 0, _, .look hlooks⟩

theorem write (slot : Nat) (value : Value) : (Eval.write slot value).WithoutLoops :=
  ⟨{ arithmetic := [], caches := fun _ => [] }, 0, _, .step 0 (.write slot value)⟩

theorem eval (expr : Expr SiteId) : expr.eval.WithoutLoops :=
  ⟨_, _, _, .eval_own expr⟩

end Eval.WithoutLoops

end AdaptiveEval
