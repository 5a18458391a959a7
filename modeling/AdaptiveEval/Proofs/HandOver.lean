import AdaptiveEval.Proofs.TargetOptions

/-!
# Hand-overs of loops

A loop that has completed as many iterations as the threshold says is handed over, and nothing but
the counter tells. The counter is compared with a tally, which knows no threshold: it runs every
loop in one phase and notes how many iterations each execution has completed.
-/

namespace AdaptiveEval

/-- A machine, and the completed iterations of each execution of a loop that has ended on it. -/
structure Tally where
  machine : Machine
  loops : List Nat := []

/-- A loop has ended, in whatever way. -/
def Tally.ended (tally : Tally) (completed : Nat) : Tally :=
  { tally with loops := completed :: tally.loops }

def Tallied (α : Type) : Type :=
  Context → Tally → Except Fault α × Tally

namespace Tallied

variable {α β : Type}

protected def pure (value : α) : Tallied α :=
  fun _ tally => (.ok value, tally)

protected def bind (action : Tallied α) (next : α → Tallied β) : Tallied β :=
  fun context tally =>
    match action context tally with
    | (.ok value, tally) => next value context tally
    | (.error fault, tally) => (.error fault, tally)

instance : Monad Tallied where
  pure := Tallied.pure
  bind := Tallied.bind

/-- A step without loops. -/
def step (action : Eval α) : Tallied α :=
  fun context tally =>
    match action context tally.machine with
    | (result, machine) => (result, { tally with machine })

def leave : Except Fault α × Tally → Except Fault α × Tally
  | (.error (.breach outside), tally) => (.error (.breach outside), tally)
  | (result, tally) => (result, { tally with machine := tally.machine.outside })

def nested (body : Tallied α) : Tallied α :=
  fun context tally =>
    if context.options.maxDepth ≤ tally.machine.depth then
      (.error (.stackOverflow tally.machine.depth context.options.maxDepth), tally)
    else
      leave (body context { tally with machine := tally.machine.inside })

def loopStep (condition : Eval Value) (body : Tallied Flow) : Tallied Progress := do
  let condition ← step condition
  let entered ← step (Eval.expectBool condition)
  if entered then
    let flow ← body
    match flow with
    | .normal => pure .running
    | .ret value => pure (.done (.ret value))
  else
    pure (.done .normal)

/-- Runs a loop to its end and notes the iterations that it has completed by then. -/
def iterate (iteration : Tallied Progress) : (fuel completed : Nat) → Tallied Flow
  | 0, completed => fun _ tally => (.error .outOfFuel, tally.ended completed)
  | fuel + 1, completed => fun context tally =>
      match iteration context tally with
      | (.ok .running, tally) => iterate iteration fuel (completed + 1) context tally
      | (.ok (.done flow), tally) => (.ok flow, tally.ended completed)
      | (.error fault, tally) => (.error fault, tally.ended completed)

theorem iterate_succ (iteration : Tallied Progress) (fuel completed : Nat) (context : Context)
    (tally : Tally) :
    iterate iteration (fuel + 1) completed context tally =
      match iteration context tally with
      | (.ok .running, tally) => iterate iteration fuel (completed + 1) context tally
      | (.ok (.done flow), tally) => (.ok flow, tally.ended completed)
      | (.error fault, tally) => (.error fault, tally.ended completed) := rfl

def executeLoop (iteration : Tallied Progress) : Tallied Flow :=
  fun context tally => iterate iteration context.fuel 0 context tally

end Tallied

open Tallied (step)

mutual

def Stmt.tallied : Stmt SiteId → Tallied Flow := fun stmt =>
  Tallied.nested <| match stmt with
  | .block body => talliedAll body
  | .write slot value => do
      let value ← step value.eval
      step (Eval.write slot value)
      pure .normal
  | .loop condition body => Tallied.executeLoop (Tallied.loopStep condition.eval body.tallied)
  | .ret value => do
      let value ← step value.eval
      pure (.ret value)
  | .eval value => do
      let _ ← step value.eval
      pure .normal

def talliedAll : List (Stmt SiteId) → Tallied Flow
  | [] => pure .normal
  | stmt :: rest => do
      let flow ← stmt.tallied
      match flow with
      | .normal => talliedAll rest
      | .ret value => pure (.ret value)

end

def Root.tallied (root : Root SiteId) : Tallied Value :=
  match root.body with
  | .expr node => step node.eval
  | .stmt node => do
      let flow ← node.tallied
      match flow with
      | .normal => pure .undefined
      | .ret value => pure value

def Context.handingOver (context : Context) (threshold fuel : Nat) : Context :=
  context.withBounds { context.options with osrThreshold := threshold } fuel

/-- The loops that were handed over. -/
def Tally.handOvers (tally : Tally) (threshold : Nat) : Nat :=
  tally.loops.countP (threshold ≤ ·)

/-- The machine that a threshold leads to, from a number of hand-overs on. -/
def Tally.machineAt (tally : Tally) (threshold entries : Nat) : Machine :=
  tally.machine.withEntries (entries + tally.handOvers threshold)

theorem Tally.handOvers_ended (tally : Tally) (threshold completed : Nat) :
    (tally.ended completed).handOvers threshold =
      tally.handOvers threshold + if threshold ≤ completed then 1 else 0 := by
  simp [handOvers, ended, List.countP_cons]

theorem Tally.machineAt_ended_of_le {threshold completed : Nat} (hle : threshold ≤ completed)
    (tally : Tally) (entries : Nat) :
    (tally.ended completed).machineAt threshold entries =
      tally.machineAt threshold (entries + 1) := by
  unfold machineAt
  rw [handOvers_ended, if_pos hle]
  congr 1
  omega

theorem Tally.machineAt_ended_of_lt {threshold completed : Nat} (hlt : completed < threshold)
    (tally : Tally) (entries : Nat) :
    (tally.ended completed).machineAt threshold entries = tally.machineAt threshold entries := by
  unfold machineAt
  rw [handOvers_ended, if_neg (by omega)]
  rfl

/-- A tally tells what an evaluation does under a threshold. The fuel of the tally is that of both
phases of a loop, or less if it does not run out. -/
def Tallies {α : Type} (context : Context) (threshold fuel : Nat) (action : Eval α)
    (tallied : Tallied α) : Prop :=
  ∀ (entries : Nat) (tally : Tally),
    context.fuel = threshold + fuel ∨ (tallied context tally).1 ≠ .error .outOfFuel →
    action (context.handingOver threshold fuel) (tally.machineAt threshold entries) =
      ((tallied context tally).1, (tallied context tally).2.machineAt threshold entries)

namespace Tallies

variable {α β : Type} {context : Context} {threshold fuel : Nat}

theorem pure (value : α) : Tallies context threshold fuel (pure value) (pure value) :=
  fun _ _ _ => rfl

/-- What has no loops neither hands over nor looks at the bounds of loops. -/
theorem step {action : Eval α} (haction : action.WithoutLoops) :
    Tallies context threshold fuel action (Tallied.step action) := by
  obtain ⟨_, _, _, hcomposed⟩ := haction
  intro entries tally _
  have hlimit : ({ context.options with osrThreshold := threshold } : Options).maxDepth =
      context.options.maxDepth := rfl
  exact hcomposed.apply_withBounds hlimit fuel tally.machine (entries + tally.handOvers threshold)

theorem bind {action : Eval α} {tallied : Tallied α} {next : α → Eval β}
    {talliedNext : α → Tallied β} (haction : Tallies context threshold fuel action tallied)
    (hnext : ∀ value, Tallies context threshold fuel (next value) (talliedNext value)) :
    Tallies context threshold fuel (action >>= next) (tallied >>= talliedNext) := by
  intro entries tally hends
  have hbind : (tallied >>= talliedNext) context tally =
      match tallied context tally with
      | (.ok value, tally) => talliedNext value context tally
      | (.error fault, tally) => (.error fault, tally) := rfl
  rw [hbind] at hends ⊢
  rw [Eval.bind_apply]
  have hfirst := haction entries tally
  rcases hrun : tallied context tally with ⟨fault | value, reached⟩
  · rw [hrun] at hends hfirst
    rw [hfirst (hends.imp_right fun hends hfuel => hends (by cases hfuel; rfl))]
  · rw [hrun] at hends hfirst
    rw [hfirst (Or.inr nofun)]
    exact hnext value entries reached hends

theorem nested {body : Eval α} {tallied : Tallied α}
    (hbody : Tallies context threshold fuel body tallied) :
    Tallies context threshold fuel (Eval.nested body) (Tallied.nested tallied) := by
  intro entries tally hends
  unfold Tallied.nested at hends ⊢
  by_cases hdeep : context.options.maxDepth ≤ tally.machine.depth
  · rw [if_pos hdeep]
    exact Eval.nested_of_le hdeep
  · have hshallow : ¬(context.handingOver threshold fuel).options.maxDepth ≤
        (tally.machineAt threshold entries).depth := hdeep
    rw [if_neg hdeep] at hends ⊢
    rw [Eval.nested_of_not_le hshallow]
    have hinside := hbody entries { tally with machine := tally.machine.inside }
    change Eval.leave (body _ (Tally.machineAt { tally with machine := tally.machine.inside }
      threshold entries)) = _
    rcases hrun : tallied context { tally with machine := tally.machine.inside } with
      ⟨fault | value, reached⟩
    · rw [hrun] at hends hinside
      cases fault with
      | outOfFuel => rw [hinside (hends.imp_right fun hends _ => hends rfl)]; rfl
      | _ => rw [hinside (Or.inr (by simp))]; rfl
    · rw [hrun] at hinside
      rw [hinside (Or.inr (by simp))]
      rfl

theorem loopStep {condition : Eval Value} {body : Eval Flow} {tallied : Tallied Flow}
    (hcondition : condition.WithoutLoops)
    (hbody : Tallies context threshold fuel body tallied) :
    Tallies context threshold fuel (loopStep condition body)
      (Tallied.loopStep condition tallied) := by
  apply bind (step hcondition)
  intro value
  apply bind (step (.look (.expectBool value)))
  intro entered
  cases entered with
  | false => exact pure _
  | true =>
      apply bind hbody
      intro flow
      cases flow <;> exact pure _

section Loops

variable {iteration : Eval Progress} {tallied : Tallied Progress}

/-- One iteration and the rest of the loop, from the number of hand-overs that `start` says. -/
theorem iterate (hiteration : Tallies context threshold fuel iteration tallied)
    {start entries completed allowed : Nat} {rest : Eval Flow} {whole : Prop}
    (hwhole : whole → context.fuel = threshold + fuel)
    (hended : ∀ tally : Tally, (tally.ended completed).machineAt threshold entries =
      tally.machineAt threshold start)
    (hrest : ∀ tally, whole ∨
        (tallied.iterate allowed (completed + 1) context tally).1 ≠ .error .outOfFuel →
      rest (context.handingOver threshold fuel) (tally.machineAt threshold start) =
        ((tallied.iterate allowed (completed + 1) context tally).1,
          (tallied.iterate allowed (completed + 1) context tally).2.machineAt threshold entries))
    (tally : Tally)
    (hends : whole ∨
      (tallied.iterate (allowed + 1) completed context tally).1 ≠ .error .outOfFuel) :
    (iteration >>= fun progress => match progress with
      | .running => rest
      | .done flow => Pure.pure flow)
        (context.handingOver threshold fuel) (tally.machineAt threshold start) =
      ((tallied.iterate (allowed + 1) completed context tally).1,
        (tallied.iterate (allowed + 1) completed context tally).2.machineAt threshold entries) := by
  rw [Tallied.iterate_succ] at hends ⊢
  rw [Eval.bind_apply]
  have hstep := hiteration start tally
  rcases hrun : tallied context tally with ⟨fault | (_ | flow), reached⟩
  · rw [hrun] at hends hstep
    rw [hstep (hends.imp hwhole fun hends hfuel => hends (by cases hfuel; rfl))]
    exact Prod.ext rfl (hended reached).symm
  · rw [hrun] at hends hstep
    rw [hstep (Or.inr nofun)]
    exact hrest reached hends
  · rw [hrun] at hstep
    rw [hstep (Or.inr nofun)]
    exact Prod.ext rfl (hended reached).symm

/-- A loop that was handed over is counted already; the tally counts it at its end. -/
theorem runToEnd (hiteration : Tallies context threshold fuel iteration tallied)
    {completed : Nat} (hover : threshold ≤ completed) {rest allowed : Nat} (hle : allowed ≤ rest)
    (entries : Nat) (tally : Tally)
    (hends : context.fuel = threshold + fuel ∧ allowed = rest ∨
      (tallied.iterate allowed completed context tally).1 ≠ .error .outOfFuel) :
    runToEnd iteration rest (context.handingOver threshold fuel)
        (tally.machineAt threshold (entries + 1)) =
      ((tallied.iterate allowed completed context tally).1,
        (tallied.iterate allowed completed context tally).2.machineAt threshold entries) := by
  induction allowed generalizing rest completed tally with
  | zero =>
      obtain ⟨_, rfl⟩ | hends := hends
      · exact Prod.ext rfl (Tally.machineAt_ended_of_le hover tally entries).symm
      · exact absurd rfl hends
  | succ allowed ih =>
      obtain ⟨more, rfl⟩ : ∃ more, rest = more + 1 := ⟨rest - 1, by omega⟩
      apply hiteration.iterate And.left _ _ tally hends
      · exact fun reached => Tally.machineAt_ended_of_le hover reached entries
      · intro reached hends
        exact ih (by omega) (by omega) reached (hends.imp_left fun hwhole => ⟨hwhole.1, by omega⟩)

theorem runInPhases_zero (tally : Tally) (entries : Nat) :
    AdaptiveEval.runInPhases iteration 0 fuel (context.handingOver threshold fuel)
        (tally.machineAt threshold entries) =
      AdaptiveEval.runToEnd iteration fuel (context.handingOver threshold fuel)
        (tally.machineAt threshold (entries + 1)) := by
  have hentered : tally.machineAt threshold (entries + 1) =
      tally.machine.withEntries (entries + tally.handOvers threshold + 1) := by
    unfold Tally.machineAt
    congr 1
    omega
  rw [hentered]
  rfl

theorem runInPhases_succ (threshold fuel : Nat) :
    AdaptiveEval.runInPhases iteration (threshold + 1) fuel = iteration >>= fun progress =>
      match progress with
      | .running => AdaptiveEval.runInPhases iteration threshold fuel
      | .done flow => Pure.pure flow := by
  unfold AdaptiveEval.runInPhases
  rw [runFor, bind_assoc]
  congr 1
  funext progress
  cases progress with
  | running => rfl
  | done flow => rw [pure_bind]

/-- Before the hand-over a loop has completed fewer iterations than the threshold says. -/
theorem runInPhases (hiteration : Tallies context threshold fuel iteration tallied)
    {completed remaining : Nat} (hsplit : completed + remaining = threshold) {allowed : Nat}
    (hle : allowed ≤ remaining + fuel) (entries : Nat) (tally : Tally)
    (hends : context.fuel = threshold + fuel ∧ allowed = remaining + fuel ∨
      (tallied.iterate allowed completed context tally).1 ≠ .error .outOfFuel) :
    runInPhases iteration remaining fuel (context.handingOver threshold fuel)
        (tally.machineAt threshold entries) =
      ((tallied.iterate allowed completed context tally).1,
        (tallied.iterate allowed completed context tally).2.machineAt threshold entries) := by
  induction remaining generalizing allowed completed tally with
  | zero =>
      rw [Nat.zero_add] at hle hends
      rw [runInPhases_zero]
      exact hiteration.runToEnd (by omega) hle entries tally hends
  | succ remaining ih =>
      cases allowed with
      | zero =>
          obtain ⟨_, hzero⟩ | hends := hends
          · omega
          · exact absurd rfl hends
      | succ allowed =>
          rw [runInPhases_succ]
          apply hiteration.iterate And.left _ _ tally hends
          · exact fun reached => Tally.machineAt_ended_of_lt (by omega) reached entries
          · intro reached hends
            exact ih (by omega) (by omega) reached
              (hends.imp_left fun hwhole => ⟨hwhole.1, by omega⟩)

theorem executeLoop (hcovers : context.fuel ≤ threshold + fuel)
    (hiteration : Tallies context threshold fuel iteration tallied) :
    Tallies context threshold fuel (executeLoop iteration) (Tallied.executeLoop tallied) := by
  intro entries tally hends
  rw [executeLoop_eq]
  exact hiteration.runInPhases (Nat.zero_add threshold) hcovers entries tally
    (hends.imp_left fun hwhole => ⟨hwhole, hwhole⟩)

end Loops

mutual

theorem exec (hcovers : context.fuel ≤ threshold + fuel) :
    ∀ stmt : Stmt SiteId, Tallies context threshold fuel stmt.exec stmt.tallied
  | .block body => by
      rw [Stmt.exec, Stmt.tallied]
      exact nested (execAll hcovers body)
  | .write slot value => by
      rw [Stmt.exec, Stmt.tallied]
      apply nested
      apply bind (step (.eval value))
      intro value
      exact bind (step (.write slot value)) fun _ => pure _
  | .loop condition body => by
      rw [Stmt.exec, Stmt.tallied]
      apply nested
      exact executeLoop hcovers (loopStep (.eval condition) (exec hcovers body))
  | .ret value => by
      rw [Stmt.exec, Stmt.tallied]
      exact nested (bind (step (.eval value)) fun value => pure _)
  | .eval value => by
      rw [Stmt.exec, Stmt.tallied]
      exact nested (bind (step (.eval value)) fun _ => pure _)

theorem execAll (hcovers : context.fuel ≤ threshold + fuel) :
    ∀ body : List (Stmt SiteId), Tallies context threshold fuel (execAll body) (talliedAll body)
  | [] => by
      rw [AdaptiveEval.execAll, talliedAll]
      exact pure _
  | stmt :: rest => by
      rw [AdaptiveEval.execAll, talliedAll]
      apply bind (exec hcovers stmt)
      intro flow
      cases flow with
      | normal => exact execAll hcovers rest
      | ret value => exact pure _

end

theorem run (hcovers : context.fuel ≤ threshold + fuel) (root : Root SiteId) :
    Tallies context threshold fuel root.run root.tallied := by
  unfold Root.run Root.tallied
  cases root.body with
  | expr node => exact step (.eval node)
  | stmt node =>
      apply bind (exec hcovers node)
      intro flow
      cases flow <;> exact pure _

end Tallies

namespace Host

def withOsrEntries (host : Host) (id entries : Nat) : Host :=
  host.modifyTarget id fun target =>
    { target with state := { target.state with osrEntries := entries } }

/-- The result of an invocation, and the completed iterations of each execution of a loop in it. -/
def tally? (host : Host) (fuel id : Nat) (arguments : Array Value) :
    Option (Except Fault Value × List Nat) :=
  (host.start? fuel id arguments).map fun (target, context) =>
    match target.root.tallied context { machine := target.machine host.sites } with
    | (result, tally) => (result, tally.loops)

variable {host : Host} {id : Nat} {arguments : Array Value} {target : Target} {context : Context}

/-- An invocation under any threshold ends as its tally says. -/
theorem invoke_withOsrThreshold {allowed : Nat}
    (hstart : host.start? allowed id arguments = some (target, context)) {threshold fuel : Nat}
    (hle : allowed ≤ threshold + fuel)
    (hends : allowed = threshold + fuel ∨
      (target.root.tallied context { machine := target.machine host.sites }).1 ≠
        .error .outOfFuel) :
    (host.withOsrThreshold id threshold).invoke fuel id arguments =
      some (host.ended id
        { target with options := { target.options with osrThreshold := threshold } }
        ((target.root.tallied context { machine := target.machine host.sites }).1,
          (target.root.tallied context { machine := target.machine host.sites }).2.machineAt
            threshold target.state.osrEntries)) := by
  obtain ⟨_, _, _, hcontext⟩ := start?_eq_some_iff.mp hstart
  have hfuel : context.fuel = allowed := by
    rw [← hcontext]
    rfl
  rw [← hfuel] at hle hends
  have hrun := Tallies.run hle target.root target.state.osrEntries
    { machine := target.machine host.sites } hends
  refine (invoke_withOptions hstart _ fuel).trans ?_
  exact congrArg (fun run => some (host.ended id _ run)) hrun

/-- Hand-overs change nothing but their counter, whatever the thresholds, and the counter grows by
the executions of loops that have completed as many iterations as the threshold says. -/
theorem osr_counts_long_loops {fuel threshold : Nat} {result : Except Fault Value} {after : Host}
    (htarget : host.targets[id]? = some target)
    (hrun : (host.withOsrThreshold id threshold).invoke fuel id arguments = some (result, after))
    (hends : result ≠ .error .outOfFuel) :
    ∃ loops, host.tally? (threshold + fuel) id arguments = some (result, loops) ∧
      (∃ reached, after.targets[id]? = some reached ∧
        reached.state.osrEntries = target.state.osrEntries + loops.countP (threshold ≤ ·)) ∧
      ∀ other later, threshold + fuel ≤ other + later →
        (host.withOsrThreshold id other).invoke later id arguments =
          some (result, (after.withOsrThreshold id other).withOsrEntries id
            (target.state.osrEntries + loops.countP (other ≤ ·))) := by
  obtain ⟨held, context, hstart⟩ := start?_of_withOptions hrun
  obtain ⟨hheld, engine, hengine, _⟩ := start?_eq_some_iff.mp hstart
  obtain rfl : held = target := Option.some.inj (hheld.symm.trans htarget)
  have hstart : host.start? (threshold + fuel) id arguments =
      some (held, host.context (threshold + fuel) engine.registry held.options arguments) :=
    start?_eq_some_iff.mpr ⟨htarget, engine, hengine, rfl⟩
  have hwhole := invoke_withOsrThreshold hstart (Nat.le_refl _) (Or.inl rfl)
  obtain ⟨rfl, rfl⟩ := Prod.mk.inj (Option.some.inj (hwhole.symm.trans hrun))
  have hlt : id < host.targets.size := (Array.getElem?_eq_some_iff.mp htarget).1
  refine ⟨_, by rw [tally?, hstart]; rfl,
    ⟨_, Array.getElem?_setIfInBounds_self_of_lt hlt, rfl⟩, ?_⟩
  intro other later hle
  rw [invoke_withOsrThreshold hstart hle (Or.inr hends)]
  unfold withOsrEntries withOsrThreshold withOptions ended
  rw [modifyTarget_settle, modifyTarget_settle]
  rfl

/-- A loop that executes another one twice and then fails. -/
def failingLoops : Target :=
  .ofRoot
    { name := "failing"
      frameSize := 2
      body := .stmt (.block
        [ .write 0 (.const (.int 0)),
          .loop (.conditional (.compare .less (.read 0 .any) (.const (.int 2)))
              (.const (.bool true)) (.arg 0))
            (.block
              [ .write 1 (.const (.int 0)),
                .loop (.compare .less (.read 1 .any) (.const (.int 2)))
                  (.write 1 (.arith 0 .add (.read 1 .any) (.const (.int 1)))),
                .write 0 (.arith 1 .add (.read 0 .any) (.const (.int 1))) ]) ]) }
    0 (.ofLimit defaultCacheLimit) {} []

def failingHost : Host :=
  { engines := #[.ofOptions {}], targets := #[failingLoops] }

/-- Each of the three executions has completed two iterations. -/
theorem osr_counts_long_loops_failing :
    ∃ after, (failingHost.withOsrThreshold 0 2).invoke 2 0 #[] =
        some (.error (.runtime (.argumentOutOfBounds 0 0)), after) ∧
      failingHost.tally? 4 0 #[] =
        some (.error (.runtime (.argumentOutOfBounds 0 0)), [2, 2, 2]) ∧
      (∃ reached, after.targets[0]? = some reached ∧ reached.state.osrEntries = 3) ∧
      (failingHost.withOsrThreshold 0 3).invoke 1 0 #[] =
        some (.error (.runtime (.argumentOutOfBounds 0 0)),
          (after.withOsrThreshold 0 3).withOsrEntries 0 0) := by
  have hfails : ((failingHost.withOsrThreshold 0 2).invoke 2 0 #[]).map Prod.fst =
      some (.error (.runtime (.argumentOutOfBounds 0 0))) := by cbv
  have htally : failingHost.tally? 4 0 #[] =
      some (.error (.runtime (.argumentOutOfBounds 0 0)), [2, 2, 2]) := by cbv
  have htarget : failingHost.targets[0]? = some failingLoops := rfl
  obtain ⟨⟨result, after⟩, hrun, rfl⟩ := Option.map_eq_some_iff.mp hfails
  obtain ⟨loops, hloops, hcounted, hothers⟩ := osr_counts_long_loops htarget hrun (by simp)
  obtain rfl : loops = [2, 2, 2] :=
    (Prod.mk.inj (Option.some.inj (hloops.symm.trans htally))).2
  exact ⟨after, hrun, htally, hcounted, hothers 3 1 (by decide)⟩

end Host

end AdaptiveEval
