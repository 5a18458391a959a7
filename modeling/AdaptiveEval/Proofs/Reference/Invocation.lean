import AdaptiveEval.Proofs.Transparency

/-!
# Invocations in a session

After any script whose steps end, an invocation gives what the reference evaluator makes of the
target's body on a fresh frame, as soon as the bound on loops is one under which the reference ends.
-/

namespace AdaptiveEval

/-- What an invocation gives without adaptation. -/
def Target.meaning (target : Target) (engine : Engine) (flags : Array Flag)
    (arguments : Array Value) (allowed : Nat) : Except Fault Value :=
  (Reference.runBody target.root.body
    { arguments
      maxDepth := target.options.maxDepth
      slots := target.root.frameSize
      ids := engine.registry.ids
      flags := flags.map Flag.get
      fuel := allowed }
    { cells := List.replicate target.root.frameSize none, depth := 0 }).1

namespace Session

variable {session : Session} {ceiling fuel allowed : Nat}

theorem Sound.run (hsound : session.Sound ceiling) {actions : List Action}
    (hthresholds : ∀ action ∈ actions, action.threshold ≤ ceiling)
    (hends : ∀ outcome ∈ session.outcomes fuel actions, outcome.Ends) :
    (session.run fuel actions).Sound ceiling := by
  induction actions generalizing session with
  | nil => exact hsound
  | cons action rest ih =>
      obtain ⟨hthreshold, hthresholds⟩ := List.forall_mem_cons.mp hthresholds
      obtain ⟨hfirst, hrest⟩ := List.forall_mem_cons.mp hends
      have hcovers : Lead.adaptive.Covers ceiling fuel (ceiling + fuel) := Nat.le_refl _
      exact ih (hsound.perform hcovers hthreshold hfirst).2 hthresholds hrest

theorem exists_sound_run {actions : List Action}
    (hends : ∀ outcome ∈ ({} : Session).outcomes fuel actions, outcome.Ends) :
    ∃ ceiling, (({} : Session).run fuel actions).Sound ceiling := by
  obtain ⟨ceiling, hthresholds⟩ := exists_ceiling actions
  exact ⟨ceiling, sound_empty.run hthresholds hends⟩

/-- The bound that the reference needs is enough under adaptation. -/
theorem Sound.invoke_eq (hsound : session.Sound ceiling) {id : Nat} {target : Target}
    (htarget : session.host.targets[id]? = some target) {engine : Engine}
    (hengine : session.host.engines[target.engine]? = some engine) (arguments : Array Value)
    (hends : target.meaning engine session.host.flags arguments allowed ≠ .error .outOfFuel)
    (hallowed : allowed ≤ fuel) :
    ∃ after, session.host.invoke fuel id arguments =
      some (target.meaning engine session.host.flags arguments allowed, after) := by
  have hthreshold := (hsound.targets id target htarget).1
  have hcovers : Lead.reference.Covers ceiling fuel allowed := hallowed
  let activation : Activation := { target := id, arguments, frame := target.freshFrame }
  rcases hdrive : ({ target with
      tiering := target.tiering.enter target.options.compileThreshold target.state.generation
        (session.host.broken target.dependencies) } : Target).drive target.root.run
    (session.host.context fuel engine.registry target.options arguments) target.freshFrame 0
    session.host.sites with ⟨result, frame, depth, driven, sites⟩
  obtain ⟨plainRun, hplain, hagree⟩ := hsound.drive hcovers activation htarget hengine
    Reference.Target.body (fun _ => Simulates.run target.root) _ hdrive
  have hmeaning : plainRun.1 = target.meaning engine session.host.flags arguments allowed := by
    have hlocals : activation.view.locals =
        { cells := List.replicate target.root.frameSize none, depth := 0 } := by
      change ({ cells := target.freshFrame.cells, depth := 0 } : Reference.Locals) = _
      rw [hsound.cells_freshFrame htarget]
    rw [hsound.run_view htarget hengine (hcovers.of_threshold_le hthreshold), hlocals] at hplain
    obtain rfl := Option.some.inj hplain
    rfl
  obtain ⟨hrun, -⟩ := hagree (by rwa [Lead.pick, hmeaning])
  rw [← hmeaning, hrun]
  exact ⟨_, Host.invoke_of_getElem? htarget hengine hdrive⟩

end Session

end AdaptiveEval
