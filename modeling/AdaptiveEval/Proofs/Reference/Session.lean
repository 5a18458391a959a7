import AdaptiveEval.Host
import AdaptiveEval.Proofs.Reference.Evaluator

/-!
# Sessions

A session runs a script of actions on a host: invocations of targets, nodes driven by hand in
activations, and the mapping changes, flag changes and broken assumptions between them. The
reference session runs the same script without any adaptation.
-/

namespace AdaptiveEval

/-- What can be driven by hand. The sites of a node are free to be those of any other node. -/
inductive Node where
  | expr (node : Expr SiteId)
  | stmt (node : Stmt SiteId)
  | iteration (condition : Expr SiteId) (body : Stmt SiteId)
  | loop (condition : Expr SiteId) (body : Stmt SiteId) (budget : Option Nat)
  | wholeLoop (condition : Expr SiteId) (body : Stmt SiteId)

inductive Yield where
  | value (value : Value)
  | flow (flow : Flow)
  | progress (progress : Progress)

def Node.run : Node → Eval Yield
  | .expr node => do
      let value ← node.eval
      pure (.value value)
  | .stmt node => do
      let flow ← node.exec
      pure (.flow flow)
  | .iteration condition body => do
      let progress ← loopStep condition.eval body.exec
      pure (.progress progress)
  | .loop condition body budget => do
      let progress ← runLoop (loopStep condition.eval body.exec) budget
      pure (.progress progress)
  | .wholeLoop condition body => do
      let flow ← executeLoop (loopStep condition.eval body.exec)
      pure (.flow flow)

inductive Action where
  | addEngine (options : EngineOptions)
  | addFlag (name : String)
  | addAssumption (name : String)
  | addTarget (engine : Nat) (root : RootShape) (options : Options)
      (dependencies : List Dependency)
  | map (engine : Nat) (name : String) (id : Int64)
  | setFlag (flag : Nat) (value : Bool)
  | invalidate (dependency : Dependency)
  | invoke (target : Nat) (arguments : Array Value)
  | activate (target : Nat) (arguments : Array Value)
  | resume (target : Nat) (arguments : Array Value) (frame : Frame)
  /-- Continues, perhaps under another target, from the frame that an activation has reached. -/
  | transfer (target : Nat) (arguments : Array Value) (source : Nat)
  | drive (activation : Nat) (node : Node)

inductive Outcome where
  | done
  /-- The action names something that the session does not have. -/
  | absent
  | ended (result : Except Fault Yield)

def Outcome.Ends (outcome : Outcome) : Prop :=
  outcome ≠ .ended (.error .outOfFuel)

structure Session where
  host : Host := {}
  activations : Array Activation := #[]

namespace Session

def enroll (session : Session) : Option Activation → Outcome × Session
  | some activation =>
      (.done, { session with activations := session.activations.push activation })
  | none => (.absent, session)

def perform (session : Session) (fuel : Nat) : Action → Outcome × Session
  | .addEngine options => (.done, { session with host := (session.host.addEngine options).2 })
  | .addFlag name => (.done, { session with host := (session.host.addFlag name).2 })
  | .addAssumption name => (.done, { session with host := (session.host.addAssumption name).2 })
  | .addTarget engine root options dependencies =>
      match session.host.addTarget engine root options dependencies with
      | some (_, host) => (.done, { session with host })
      | none => (.absent, session)
  | .map engine name id => (.done, { session with host := session.host.map engine name id })
  | .setFlag flag value => (.done, { session with host := session.host.setFlag flag value })
  | .invalidate dependency => (.done, { session with host := session.host.invalidate dependency })
  | .invoke target arguments =>
      match session.host.invoke fuel target arguments with
      | some (result, host) => (.ended (result.map .value), { session with host })
      | none => (.absent, session)
  | .activate target arguments => session.enroll (session.host.activate target arguments)
  | .resume target arguments frame => session.enroll (session.host.resume target arguments frame)
  | .transfer target arguments source =>
      session.enroll do
        let activation ← session.activations[source]?
        session.host.resume target arguments activation.frame
  | .drive id node =>
      match session.activations[id]? with
      | none => (.absent, session)
      | some activation =>
          match session.host.drive fuel activation node.run with
          | some (result, activation, host) =>
              (.ended result,
                { host, activations := session.activations.setIfInBounds id activation })
          | none => (.absent, session)

def run (fuel : Nat) (session : Session) (actions : List Action) : Session :=
  actions.foldl (fun session action => (session.perform fuel action).2) session

def outcomes (fuel : Nat) (session : Session) : List Action → List Outcome
  | [] => []
  | action :: rest =>
      match session.perform fuel action with
      | (outcome, session) => outcome :: session.outcomes fuel rest

theorem outcomes_concat (fuel : Nat) (session : Session) (actions : List Action)
    (action : Action) :
    session.outcomes fuel (actions ++ [action]) =
      session.outcomes fuel actions ++ [((session.run fuel actions).perform fuel action).1] := by
  induction actions generalizing session with
  | nil => rfl
  | cons first rest ih => exact congrArg ((session.perform fuel first).1 :: ·) (ih _)

/-- A session with one engine and one target, whose sites are numbered. -/
def single (engine : EngineOptions) (root : Root SiteId) (nextSite : Nat) (options : Options) :
    Session :=
  { host :=
      { engines := #[.ofOptions engine]
        targets := #[.ofRoot root 0 (Engine.ofOptions engine).registry options []]
        nextSite } }

section Single

variable {root : RootShape} {labelled : Root SiteId} {nextSite : Nat}
  (hlabel : root.label 0 = (labelled, nextSite)) (fuel : Nat) (engine : EngineOptions)
  (options : Options) (rest : List Action)

include hlabel

theorem run_addTarget :
    run fuel {} [.addEngine engine, .addTarget 0 root options []] =
      single engine labelled nextSite options := by
  have hroot : labelled = (root.label 0).1 := by rw [hlabel]
  have hnext : nextSite = (root.label 0).2 := by rw [hlabel]
  rw [hroot, hnext]
  rfl

theorem run_single :
    run fuel {} (.addEngine engine :: .addTarget 0 root options [] :: rest) =
      run fuel (single engine labelled nextSite options) rest := by
  rw [← run_addTarget hlabel fuel engine options]
  rfl

theorem outcomes_single :
    outcomes fuel {} (.addEngine engine :: .addTarget 0 root options [] :: rest) =
      .done :: .done :: outcomes fuel (single engine labelled nextSite options) rest := by
  rw [← run_addTarget hlabel fuel engine options]
  rfl

end Single

end Session

namespace Reference

def runNode : Node → Run Yield
  | .expr node => do
      let value ← eval node
      pure (.value value)
  | .stmt node => do
      let flow ← exec node
      pure (.flow flow)
  | .iteration condition body => do
      let progress ← loopStep (eval condition) (exec body)
      pure (.progress progress)
  | .loop condition body budget => do
      let progress ← runLoop (loopStep (eval condition) (exec body)) budget
      pure (.progress progress)
  | .wholeLoop condition body => do
      let flow ← executeLoop (loopStep (eval condition) (exec body))
      pure (.flow flow)

structure Target where
  engine : Nat
  slots : Nat
  maxDepth : Nat
  body : Run Value

structure Activation where
  target : Nat
  arguments : Array Value
  locals : Locals

/-- Of an engine only the mapping is left, of a flag only its value. -/
structure Session where
  engines : Array (Std.HashMap String Int64) := #[]
  flags : Array Bool := #[]
  targets : Array Target := #[]
  activations : Array Activation := #[]

namespace Session

def enroll (session : Session) : Option Activation → Outcome × Session
  | some activation =>
      (.done, { session with activations := session.activations.push activation })
  | none => (.absent, session)

def activate (session : Session) (id : Nat) (arguments : Array Value)
    (cells : Target → List (Option Value)) : Option Activation := do
  let target ← session.targets[id]?
  return { target := id, arguments, locals := { cells := cells target, depth := 0 } }

def run {α : Type} (session : Session) (fuel : Nat) (activation : Activation)
    (action : Target → Run α) : Option (Except Fault α × Locals) := do
  let target ← session.targets[activation.target]?
  let ids ← session.engines[target.engine]?
  let context : Context :=
    { arguments := activation.arguments
      maxDepth := target.maxDepth
      slots := target.slots
      ids
      flags := session.flags
      fuel }
  return action target context activation.locals

def freshCells (target : Target) : List (Option Value) :=
  List.replicate target.slots none

def perform (session : Session) (fuel : Nat) : Action → Outcome × Session
  | .addEngine _ => (.done, { session with engines := session.engines.push ∅ })
  | .addFlag _ => (.done, { session with flags := session.flags.push false })
  | .addAssumption _ => (.done, session)
  | .addTarget engine root options _ =>
      if engine < session.engines.size then
        let target : Target :=
          { engine
            slots := root.frameSize
            maxDepth := options.maxDepth
            body := runBody root.body }
        (.done, { session with targets := session.targets.push target })
      else
        (.absent, session)
  | .map engine name id =>
      (.done, { session with engines := session.engines.modify engine (·.insert name id) })
  | .setFlag flag value =>
      (.done, { session with flags := session.flags.modify flag fun _ => value })
  | .invalidate _ => (.done, session)
  | .invoke id arguments =>
      match session.activate id arguments freshCells with
      | none => (.absent, session)
      | some activation =>
          match session.run fuel activation Target.body with
          | some (result, _) => (.ended (result.map .value), session)
          | none => (.absent, session)
  | .activate id arguments => session.enroll (session.activate id arguments freshCells)
  | .resume id arguments frame =>
      session.enroll (session.activate id arguments fun _ => frame.slots.toList.map Slot.value?)
  | .transfer id arguments source =>
      session.enroll do
        let activation ← session.activations[source]?
        session.activate id arguments fun _ => activation.locals.cells
  | .drive id node =>
      match session.activations[id]? with
      | none => (.absent, session)
      | some activation =>
          match session.run fuel activation fun _ => runNode node with
          | some (result, locals) =>
              (.ended result,
                { session with
                  activations := session.activations.setIfInBounds id
                    { activation with locals } })
          | none => (.absent, session)

def outcomes (fuel : Nat) (session : Session) : List Action → List Outcome
  | [] => []
  | action :: rest =>
      match session.perform fuel action with
      | (outcome, session) => outcome :: session.outcomes fuel rest

end Session

end Reference

end AdaptiveEval
