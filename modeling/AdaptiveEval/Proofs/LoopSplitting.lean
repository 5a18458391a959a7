import AdaptiveEval.Proofs.Levels
import AdaptiveEval.Proofs.TargetChanges
import Mathlib.Algebra.Order.Ring.Nat

/-!
# Loops that are run in several calls

A loop stops at an iteration boundary once its budget is used up. Calls in turn go on where the one
before has stopped, in the same activation or in a new one with the same frame, and reach what one
call with all their iterations reaches.
-/

namespace AdaptiveEval

namespace Eval

/-- Goes on unless the loop is done. -/
def whileRunning (first rest : Eval Progress) : Eval Progress := do
  let progress ← first
  match progress with
  | .running => rest
  | .done flow => pure (.done flow)

theorem whileRunning_assoc (first second third : Eval Progress) :
    (first.whileRunning second).whileRunning third =
      first.whileRunning (second.whileRunning third) := by
  unfold whileRunning
  rw [bind_assoc]
  congr 1
  funext progress
  cases progress with
  | running => rfl
  | done flow => rw [pure_bind]

theorem pure_running_whileRunning (rest : Eval Progress) :
    whileRunning (pure .running) rest = rest :=
  pure_bind _ _

theorem whileRunning_apply (first rest : Eval Progress) (context : Context) (machine : Machine) :
    first.whileRunning rest context machine =
      match first context machine with
      | (.ok .running, machine) => rest context machine
      | (result, machine) => (result, machine) := by
  unfold whileRunning
  rw [bind_apply]
  rcases first context machine with ⟨fault | (_ | flow), reached⟩ <;> rfl

end Eval

section Iterations

variable (step : Eval Progress)

theorem runFor_succ (budget : Nat) :
    runFor step (budget + 1) = step.whileRunning (runFor step budget) := rfl

/-- A budget can be split at any iteration boundary. -/
theorem runFor_add (first rest : Nat) :
    runFor step (first + rest) = (runFor step first).whileRunning (runFor step rest) := by
  induction first with
  | zero =>
      rw [Nat.zero_add]
      exact (Eval.pure_running_whileRunning _).symm
  | succ first ih =>
      rw [Nat.succ_add, runFor_succ, runFor_succ, ih, Eval.whileRunning_assoc]

/-- Runs a loop to its end, as a call without a budget does. -/
def runOut (fuel : Nat) : Eval Progress := do
  let flow ← runToEnd step fuel
  pure (.done flow)

theorem runLoop_none_apply (context : Context) (machine : Machine) :
    runLoop step none context machine = runOut step context.fuel context machine := rfl

theorem runOut_succ (fuel : Nat) :
    runOut step (fuel + 1) = step.whileRunning (runOut step fuel) := by
  unfold runOut
  rw [runToEnd, bind_assoc]
  unfold Eval.whileRunning
  congr 1
  funext progress
  cases progress with
  | running => rfl
  | done flow => rw [pure_bind]

theorem runFor_whileRunning_runOut (budget fuel : Nat) :
    (runFor step budget).whileRunning (runOut step fuel) = runOut step (budget + fuel) := by
  induction budget with
  | zero =>
      rw [Nat.zero_add]
      exact Eval.pure_running_whileRunning _
  | succ budget ih =>
      rw [Nat.succ_add, runFor_succ, runOut_succ, Eval.whileRunning_assoc, ih]

variable {step}

/-- A loop that ends does not need more fuel. -/
theorem runOut_of_le {fuel enough : Nat} (hle : fuel ≤ enough) {context : Context}
    {machine : Machine} (hends : (runOut step fuel context machine).1 ≠ .error .outOfFuel) :
    runOut step enough context machine = runOut step fuel context machine := by
  induction fuel generalizing enough machine with
  | zero => exact absurd rfl hends
  | succ fuel ih =>
      obtain ⟨more, rfl⟩ : ∃ more, enough = more + 1 := ⟨enough - 1, by omega⟩
      rw [runOut_succ, Eval.whileRunning_apply] at hends
      rw [runOut_succ, runOut_succ, Eval.whileRunning_apply, Eval.whileRunning_apply]
      rcases hstep : step context machine with ⟨fault | (_ | flow), reached⟩
      · rfl
      · rw [hstep] at hends
        exact ih (by omega) hends
      · rfl

end Iterations

/-- Calls of a loop in turn, each with its budget, up to the first that does not stop at its
budget. -/
def runCalls (step : Eval Progress) : List (Option Nat) → Eval Progress
  | [] => pure .running
  | budget :: rest => (runLoop step budget).whileRunning (runCalls step rest)

section Calls

variable (step : Eval Progress)

theorem runCalls_append (budgets more : List (Option Nat)) :
    runCalls step (budgets ++ more) =
      (runCalls step budgets).whileRunning (runCalls step more) := by
  induction budgets with
  | nil => exact (Eval.pure_running_whileRunning _).symm
  | cons budget budgets ih =>
      rw [List.cons_append, runCalls, runCalls, ih, Eval.whileRunning_assoc]

theorem runCalls_some (budgets : List Nat) :
    runCalls step (budgets.map some) = runFor step budgets.sum := by
  induction budgets with
  | nil => rfl
  | cons budget budgets ih =>
      rw [List.map_cons, List.sum_cons, runCalls, ih, runFor_add]
      rfl

variable {step}

/-- A last call without a budget finishes what the calls before have left over. -/
theorem runCalls_some_append_none (budgets : List Nat) {context : Context} {machine : Machine}
    (hends : (runLoop step none context machine).1 ≠ .error .outOfFuel) :
    runCalls step (budgets.map some ++ [none]) context machine =
      runLoop step none context machine := by
  have hlast : runCalls step (budgets.map some ++ [none]) context machine =
      (runFor step budgets.sum).whileRunning (runOut step context.fuel) context machine := by
    rw [runCalls_append, runCalls_some, Eval.whileRunning_apply, Eval.whileRunning_apply]
    rcases runFor step budgets.sum context machine with ⟨fault | (_ | flow), reached⟩
    · rfl
    · dsimp only
      rw [runCalls, Eval.whileRunning_apply, runLoop_none_apply]
      rcases runOut step context.fuel context reached with ⟨fault | (_ | flow), last⟩ <;> rfl
    · rfl
  rw [hlast, runFor_whileRunning_runOut, runLoop_none_apply]
  exact runOut_of_le (by omega) hends

end Calls

/-- One call of a loop: whether the frame moves into a new activation before, and how many
iterations the call may take. -/
structure LoopCall where
  moved : Bool := false
  budget : Option Nat

namespace Host

variable (fuel : Nat) (step : Eval Progress)

/-- A new activation has the target, the arguments and the frame of the one it takes over. -/
def callLoop (host : Host) (activation : Activation) (call : LoopCall) :
    Option (Except Fault Progress × Activation × Host) :=
  if call.moved then do
    let renewed ← host.resume activation.target activation.arguments activation.frame
    host.drive fuel renewed (runLoop step call.budget)
  else
    host.drive fuel activation (runLoop step call.budget)

/-- Calls a loop in turn, up to the first call that does not stop at its budget. -/
def callLoopInTurn (host : Host) (activation : Activation) :
    List LoopCall → Option (Except Fault Progress × Activation × Host)
  | [] => some (.ok .running, activation, host)
  | call :: calls =>
      match host.callLoop fuel step activation call with
      | some (.ok .running, activation, host) => host.callLoopInTurn activation calls
      | ended => ended

variable {fuel step} {host : Host} {activation : Activation} {target : Target} {context : Context}

/-- An activation that is not in the midst of a node can be replaced by a new one. -/
theorem callLoop_eq_drive {call : LoopCall} (hrests : call.moved = true → activation.depth = 0) :
    host.callLoop fuel step activation call =
      host.drive fuel activation (runLoop step call.budget) := by
  unfold callLoop
  by_cases hmoved : call.moved = true
  · rw [if_pos hmoved]
    cases htarget : host.targets[activation.target]? with
    | none =>
        rw [drive_eq_map_start?, start?_of_absent htarget]
        simp [resume, htarget]
    | some target =>
        have hresume : host.resume activation.target activation.arguments activation.frame =
            some activation := by
          simp only [resume, htarget, Option.bind_eq_bind, Option.bind_some, Option.pure_def]
          rw [← hrests hmoved]
        rw [hresume]
        rfl
  · rw [if_neg hmoved]

/-- Calls in turn run on the machine that the activation stands for. -/
theorem callLoopInTurn_eq (hstart : host.start? fuel activation.target activation.arguments =
      some (target, context))
    {sites : SiteSets} {height : Nat} {traced : Traced Progress}
    (hstep : Eval.Composed sites True height traced step) {calls : List LoopCall}
    (hrests : ∀ call ∈ calls, call.moved = true → activation.depth = 0) :
    host.callLoopInTurn fuel step activation calls =
      some ((runCalls step (calls.map LoopCall.budget) context
          (activation.machine target host.sites)).1,
        host.reached activation target (runCalls step (calls.map LoopCall.budget) context
          (activation.machine target host.sites)).2) := by
  induction calls generalizing host activation target with
  | nil =>
      have hidle := reached_machine (getElem?_of_start? hstart)
      exact congrArg (fun rest => some (Except.ok Progress.running, rest)) hidle.symm
  | cons call calls ih =>
      obtain ⟨hcall, hcalls⟩ := List.forall_mem_cons.mp hrests
      obtain ⟨_, hloop⟩ := hstep.runLoop trivial call.budget
      have hbalanced := hloop.balanced context (activation.machine target host.sites)
      rw [callLoopInTurn, callLoop_eq_drive hcall, drive_eq_map_start?, hstart, List.map_cons,
        runCalls, Eval.whileRunning_apply]
      dsimp only [Option.map_some]
      rcases hrun : runLoop step call.budget context (activation.machine target host.sites) with
        ⟨fault | (_ | flow), machine⟩
      · rfl
      · -- A call that stops at its budget has left every node, so that the next one may move.
        rw [hrun] at hbalanced
        have hdepth : machine.depth = activation.depth := hbalanced.restored (by simp)
        have hlater := @ih (host.reached activation target machine).2
          (host.reached activation target machine).1 { target with state := machine.target }
          (start?_settle hstart machine.target machine.sites)
          (fun later hlater hmoved => hdepth.trans (hcalls later hlater hmoved))
        rw [reached_reached] at hlater
        exact hlater
      · rfl

end Host

/-- A call that stops after a number of iterations at the latest. -/
structure Leg where
  moved : Bool := false
  budget : Nat

def Leg.call (leg : Leg) : LoopCall :=
  { moved := leg.moved, budget := some leg.budget }

theorem map_budget_call (legs : List Leg) :
    (legs.map Leg.call).map LoopCall.budget = (legs.map Leg.budget).map some := by
  rw [List.map_map, List.map_map]
  rfl

namespace Host

variable {fuel : Nat} {step : Eval Progress} {host : Host} {activation : Activation}
  {legs : List Leg} {sites : SiteSets} {height : Nat} {traced : Traced Progress}

theorem callLoopInTurn_legs (hstep : Eval.Composed sites True height traced step)
    (hlegs : legs ≠ []) (hrests : ∀ leg ∈ legs, leg.moved = true → activation.depth = 0) :
    host.callLoopInTurn fuel step activation (legs.map Leg.call) =
      host.drive fuel activation (runLoop step (some (legs.map Leg.budget).sum)) := by
  have hcalls : ∀ call ∈ legs.map Leg.call, call.moved = true → activation.depth = 0 := by
    intro call hcall
    obtain ⟨leg, hleg, rfl⟩ := List.mem_map.mp hcall
    exact hrests leg hleg
  cases hstart : host.start? fuel activation.target activation.arguments with
  | none =>
      obtain ⟨first, rest, rfl⟩ := List.exists_cons_of_ne_nil hlegs
      rw [List.map_cons, callLoopInTurn,
        callLoop_eq_drive (hcalls first.call (List.mem_map_of_mem List.mem_cons_self)),
        drive_eq_map_start?, drive_eq_map_start?, hstart]
      rfl
  | some started =>
      rw [callLoopInTurn_eq hstart hstep hcalls, map_budget_call, runCalls_some,
        drive_eq_map_start?, hstart]
      rfl

theorem callLoopInTurn_legs_append_last (hstep : Eval.Composed sites True height traced step)
    (hrests : ∀ leg ∈ legs, leg.moved = true → activation.depth = 0) {moved : Bool}
    (hmoved : moved = true → activation.depth = 0) {result : Except Fault Progress}
    {rest : Activation × Host}
    (hwhole : host.drive fuel activation (runLoop step none) = some (result, rest))
    (hends : result ≠ .error .outOfFuel) :
    host.callLoopInTurn fuel step activation
      (legs.map Leg.call ++ [{ moved, budget := none }]) = some (result, rest) := by
  have hcalls : ∀ call ∈ legs.map Leg.call ++ [{ moved, budget := none }],
      call.moved = true → activation.depth = 0 := by
    intro call hcall
    obtain hcall | hlast := List.mem_append.mp hcall
    · obtain ⟨leg, hleg, rfl⟩ := List.mem_map.mp hcall
      exact hrests leg hleg
    · obtain rfl := List.mem_singleton.mp hlast
      exact hmoved
  rw [drive_eq_map_start?] at hwhole
  obtain ⟨⟨target, context⟩, hstart, hwhole⟩ := Option.map_eq_some_iff.mp hwhole
  have hbudgets : (legs.map Leg.call ++ [LoopCall.mk moved none]).map LoopCall.budget =
      (legs.map Leg.budget).map some ++ [none] := by
    rw [List.map_append, map_budget_call]
    rfl
  have hsplit := @runCalls_some_append_none step (legs.map Leg.budget) context
    (activation.machine target host.sites)
  dsimp only at hwhole
  rcases hrun : runLoop step none context (activation.machine target host.sites) with
    ⟨outcome, machine⟩
  rw [hrun] at hwhole hsplit
  obtain ⟨rfl, rfl⟩ := Prod.mk.inj hwhole
  rw [callLoopInTurn_eq hstart hstep hcalls, hbudgets, hsplit hends]

end Host

/-- A loop can be split at any iteration boundary: calls in turn reach what one call with the sum of
their budgets reaches, and with a last call that has no budget what the uninterrupted loop does. The
frame may move into new activations between them, unless a node was left without its end. -/
theorem Host.loop_split (host : Host) (fuel : Nat) (activation : Activation)
    (condition : Expr SiteId) (body : Stmt SiteId) {legs : List Leg} (hlegs : legs ≠ [])
    (hrests : ∀ leg ∈ legs, leg.moved = true → activation.depth = 0) :
    host.callLoopInTurn fuel (loopStep condition.eval body.exec) activation
        (legs.map Leg.call) =
      host.drive fuel activation
        (runLoop (loopStep condition.eval body.exec) (some (legs.map Leg.budget).sum)) ∧
    ∀ moved, (moved = true → activation.depth = 0) → ∀ result rest,
      host.drive fuel activation (runLoop (loopStep condition.eval body.exec) none) =
        some (result, rest) →
      result ≠ .error .outOfFuel →
      host.callLoopInTurn fuel (loopStep condition.eval body.exec) activation
        (legs.map Leg.call ++ [{ moved, budget := none }]) = some (result, rest) := by
  have hstep := Eval.Composed.iteration trivial condition body
  constructor
  · exact callLoopInTurn_legs hstep hlegs hrests
  · intro moved hmoved result rest hwhole hends
    exact callLoopInTurn_legs_append_last hstep hrests hmoved hwhole hends

namespace Host

/-- A target with two slots whose loops are handed over after one iteration. -/
def twoSlots : Host :=
  { engines := #[.ofOptions {}]
    targets := #[.ofRoot { name := "sweep", frameSize := 2, body := .stmt (.block []) } 0
      (.ofLimit defaultCacheLimit) { osrThreshold := 1 } []] }

def sweeping : Activation :=
  { target := 0, arguments := #[.int 3], frame := { slots := #[.int 0, .empty] } }

def sweepBelow (slot : Nat) (bound : Expr SiteId) : Expr SiteId :=
  .compare .less (.read slot .any) bound

def sweepNext (slot site : Nat) : Stmt SiteId :=
  .write slot (.arith site .add (.read slot .any) (.const (.int 1)))

/-- Counts the second slot up to two in each iteration, by a loop of its own. -/
def sweepBody : Stmt SiteId :=
  .block
    [ .write 1 (.const (.int 0)),
      .loop (sweepBelow 1 (.const (.int 2))) (sweepNext 1 0),
      sweepNext 0 1 ]

def sweepLegs : List Leg :=
  [{ budget := 1 }, { moved := true, budget := 0 }, { moved := true, budget := 1 }]

theorem loop_split_sweep :
    sweepLegs ≠ [] ∧ (∀ leg ∈ sweepLegs, leg.moved = true → sweeping.depth = 0) ∧
    twoSlots.callLoopInTurn 4 (loopStep (sweepBelow 0 (.arg 0)).eval sweepBody.exec) sweeping
        (sweepLegs.map Leg.call) =
      twoSlots.drive 4 sweeping
        (runLoop (loopStep (sweepBelow 0 (.arg 0)).eval sweepBody.exec) (some 2)) ∧
    ∃ rest,
      twoSlots.drive 4 sweeping
          (runLoop (loopStep (sweepBelow 0 (.arg 0)).eval sweepBody.exec) none) =
        some (.ok (.done .normal), rest) ∧
      twoSlots.callLoopInTurn 4 (loopStep (sweepBelow 0 (.arg 0)).eval sweepBody.exec) sweeping
          (sweepLegs.map Leg.call ++ [{ moved := true, budget := none }]) =
        some (.ok (.done .normal), rest) := by
  have hlegs : sweepLegs ≠ [] := by simp [sweepLegs]
  have hrests : ∀ leg ∈ sweepLegs, leg.moved = true → sweeping.depth = 0 := fun _ _ _ => rfl
  have hends : (twoSlots.drive 4 sweeping
      (runLoop (loopStep (sweepBelow 0 (.arg 0)).eval sweepBody.exec) none)).map Prod.fst =
      some (.ok (.done .normal)) := by cbv
  obtain ⟨⟨result, rest⟩, hwhole, rfl⟩ := Option.map_eq_some_iff.mp hends
  obtain ⟨hsum, hlast⟩ :=
    loop_split twoSlots 4 sweeping (sweepBelow 0 (.arg 0)) sweepBody hlegs hrests
  exact ⟨hlegs, hrests, hsum, rest, hwhole, hlast true (fun _ => rfl) _ rest hwhole (by simp)⟩

end Host

end AdaptiveEval
