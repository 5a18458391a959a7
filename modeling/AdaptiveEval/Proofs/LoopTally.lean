import AdaptiveEval.Proofs.HandOver
import AdaptiveEval.Proofs.Reference.Invocation
import AdaptiveEval.Proofs.Reference.Meaning

/-!
# The tally of an invocation

A tallied run is followed through its loops on the cells of the frame alone: from every machine with
a sound target, what lies between the loops does what the reference evaluator does. The number of
iterations that the cells lead to is the number that the tally notes.
-/

namespace AdaptiveEval

variable {α β : Type}

namespace Tallied

section Steps

theorem bind_apply (action : Tallied α) (next : α → Tallied β) (context : Context)
    (tally : Tally) :
    (action >>= next) context tally =
      match action context tally with
      | (.ok content, tally) => next content context tally
      | (.error fault, tally) => (.error fault, tally) := rfl

theorem step_apply (action : Eval α) (context : Context) (tally : Tally) :
    step action context tally =
      ((action context tally.machine).1,
        { tally with machine := (action context tally.machine).2 }) := rfl

theorem step_bind (action : Eval α) (next : α → Eval β) :
    step (action >>= next) = step action >>= fun content => step (next content) := by
  funext context tally
  rw [bind_apply, step_apply, step_apply, Eval.bind_apply]
  rcases action context tally.machine with ⟨fault | content, reached⟩ <;> rfl

theorem step_nested (body : Eval α) : step (Eval.nested body) = nested (step body) := by
  funext context tally
  rw [step_apply]
  unfold nested
  by_cases hdeep : context.options.maxDepth ≤ tally.machine.depth
  · rw [if_pos hdeep, Eval.nested_of_le hdeep]
  · rw [if_neg hdeep, Eval.nested_of_not_le hdeep, step_apply]
    rcases body context tally.machine.inside with ⟨fault | content, reached⟩
    · cases fault <;> rfl
    · rfl

theorem step_loopStep (condition : Eval Value) (body : Eval Flow) :
    step (AdaptiveEval.loopStep condition body) = loopStep condition (step body) := by
  unfold AdaptiveEval.loopStep loopStep
  rw [step_bind]
  congr 1
  funext value
  rw [step_bind]
  congr 1
  funext entered
  cases entered with
  | false => rfl
  | true =>
      rw [if_pos rfl, if_pos rfl, step_bind]
      congr 1
      funext flow
      cases flow <;> rfl

end Steps

end Tallied

mutual

def Stmt.loopFree {σ : Type} : Stmt σ → Bool
  | .block body => loopFreeAll body
  | .loop _ _ => false
  | _ => true

def loopFreeAll {σ : Type} : List (Stmt σ) → Bool
  | [] => true
  | stmt :: rest => stmt.loopFree && loopFreeAll rest

end

mutual

/-- Without loops there is nothing to note. -/
theorem Stmt.tallied_of_loopFree :
    ∀ stmt : Stmt SiteId, stmt.loopFree = true → stmt.tallied = Tallied.step stmt.exec
  | .block body, hfree => by
      rw [Stmt.loopFree] at hfree
      rw [Stmt.tallied, Stmt.exec, Tallied.step_nested, talliedAll_of_loopFree body hfree]
  | .write slot value, _ => by
      rw [Stmt.tallied, Stmt.exec, Tallied.step_nested, Tallied.step_bind]
      congr 2
      funext content
      rw [Tallied.step_bind]
      rfl
  | .ret value, _ => by
      rw [Stmt.tallied, Stmt.exec, Tallied.step_nested, Tallied.step_bind]
      rfl
  | .eval value, _ => by
      rw [Stmt.tallied, Stmt.exec, Tallied.step_nested, Tallied.step_bind]
      rfl

theorem talliedAll_of_loopFree :
    ∀ body : List (Stmt SiteId), loopFreeAll body = true →
      talliedAll body = Tallied.step (execAll body)
  | [], _ => by
      rw [talliedAll, execAll]
      rfl
  | stmt :: rest, hfree => by
      rw [loopFreeAll, Bool.and_eq_true] at hfree
      rw [talliedAll, execAll, Tallied.step_bind, stmt.tallied_of_loopFree hfree.1]
      congr 1
      funext flow
      cases flow with
      | normal => exact talliedAll_of_loopFree rest hfree.2
      | ret content => rfl

end

/-- An evaluation that follows the reference under the same bound on loops. -/
def Context.setting (context : Context) (slots : Nat) : Setting :=
  { lead := .reference, context, slots, allowed := context.fuel, covers := Nat.le_refl _ }

/-- From every machine that has the given cells and a sound target, the run returns the content,
notes the loops and leaves such a machine with the cells after it. -/
def Completes (context : Context) (slots depth : Nat) (tallied : Tallied α)
    (cells : List (Option Value)) (content : α) (after : List (Option Value)) (loops : List Nat) :
    Prop :=
  ∀ tally : Tally, tally.machine.target.Sound context.registry slots →
    tally.machine.locals = { cells, depth } →
    ∃ machine : Machine,
      tallied context tally = (.ok content, { machine, loops := loops ++ tally.loops }) ∧
        machine.target.Sound context.registry slots ∧ machine.locals = { cells := after, depth }

namespace Completes

variable {context : Context} {slots depth : Nat} {cells middle after : List (Option Value)}
  {earlier later : List Nat}

theorem step {action : Eval α} {plain : Reference.Run α} {content : α}
    (hsimulates : Simulates (context.setting slots) action plain)
    (hgives : Reference.Gives (context.setting slots).plain depth plain cells (.ok content) after) :
    Completes context slots depth (Tallied.step action) cells content after [] := by
  intro tally hsound hlocals
  have hplain : plain (context.setting slots).plain tally.machine.locals =
      (.ok content, { cells := after, depth }) := by
    rw [hlocals]
    exact hgives nofun
  have hends : (context.setting slots).lead.pick (action context tally.machine).1
      (plain (context.setting slots).plain tally.machine.locals).1 ≠ .error .outOfFuel := by
    rw [hplain]
    exact nofun
  obtain ⟨hrun, hafter⟩ := hsimulates tally.machine hsound hends
  obtain ⟨hresult, hreached⟩ := Prod.mk.inj (hplain.symm.trans hrun)
  refine ⟨(action context tally.machine).2, ?_, hafter, hreached.symm⟩
  exact Prod.ext hresult.symm rfl

theorem pure (content : α) :
    Completes context slots depth (pure content) cells content cells [] :=
  fun tally hsound hlocals => ⟨tally.machine, rfl, hsound, hlocals⟩

theorem bind {action : Tallied α} {next : α → Tallied β} {content : α} {last : β}
    (haction : Completes context slots depth action cells content middle earlier)
    (hnext : Completes context slots depth (next content) middle last after later) :
    Completes context slots depth (action >>= next) cells last after (later ++ earlier) := by
  intro tally hsound hlocals
  obtain ⟨machine, hrun, hreached, hmiddle⟩ := haction tally hsound hlocals
  obtain ⟨final, hlast, hfinal, hafter⟩ :=
    hnext { machine, loops := earlier ++ tally.loops } hreached hmiddle
  refine ⟨final, ?_, hfinal, hafter⟩
  rw [Tallied.bind_apply, hrun, List.append_assoc]
  exact hlast

theorem nested {body : Tallied α} {content : α} {loops : List Nat}
    (hroom : depth < context.options.maxDepth)
    (hbody : Completes context slots (depth + 1) body cells content after loops) :
    Completes context slots depth (Tallied.nested body) cells content after loops := by
  intro tally hsound hlocals
  obtain ⟨hcells, hdepth⟩ := Reference.Locals.mk.inj hlocals
  have hinside : tally.machine.inside.locals = { cells, depth := depth + 1 } :=
    congrArg₂ Reference.Locals.mk hcells (congrArg (· + 1) hdepth)
  obtain ⟨machine, hrun, hreached, hafter⟩ :=
    hbody { tally with machine := tally.machine.inside } hsound hinside
  obtain ⟨hcells, hinner⟩ := Reference.Locals.mk.inj hafter
  refine ⟨machine.outside, ?_, hreached,
    congrArg₂ Reference.Locals.mk hcells (congrArg (· - 1) hinner)⟩
  have hshallow : ¬context.options.maxDepth ≤ tally.machine.depth := by
    rw [hdepth]
    omega
  unfold Tallied.nested
  rw [if_neg hshallow, hrun]
  rfl

/-- A counted loop. The cells are told by the iterations completed; each iteration leads to the next
ones, until the loop is left after `count` of them. -/
theorem iterate {iteration : Tallied Progress} {cellsAt : Nat → List (Option Value)} {count : Nat}
    (hstep : ∀ index < count, Completes context slots depth iteration (cellsAt index) .running
      (cellsAt (index + 1)) [])
    {flow : Flow} (hexit : Completes context slots depth iteration (cellsAt count) (.done flow)
      (cellsAt count) [])
    (remaining : Nat) {index : Nat} (hcount : index + remaining = count) {fuel : Nat}
    (hfuel : remaining < fuel) :
    Completes context slots depth (iteration.iterate fuel index) (cellsAt index) flow
      (cellsAt count) [count] := by
  -- On the iterations that are left: those completed tell the cells, and are what is noted.
  induction remaining generalizing index fuel with
  | zero =>
      obtain rfl : index = count := hcount
      obtain ⟨fuel, rfl⟩ : ∃ rest, fuel = rest + 1 := ⟨fuel - 1, by omega⟩
      intro tally hsound hlocals
      obtain ⟨machine, hrun, hreached⟩ := hexit tally hsound hlocals
      refine ⟨machine, ?_, hreached⟩
      rw [Tallied.iterate_succ, hrun]
      rfl
  | succ remaining ih =>
      obtain ⟨fuel, rfl⟩ : ∃ rest, fuel = rest + 1 := ⟨fuel - 1, by omega⟩
      intro tally hsound hlocals
      obtain ⟨machine, hrun, hreached, hnext⟩ := hstep index (by omega) tally hsound hlocals
      rw [Tallied.iterate_succ, hrun]
      exact @ih (index + 1) (by omega) fuel (by omega) _ hreached hnext

section Statements

variable {stmt : Stmt SiteId} {rest : List (Stmt SiteId)} {flow : Flow} {loops : List Nat}

theorem stmt_of_gives (hfree : stmt.loopFree = true)
    (hgives : Reference.Gives (context.setting slots).plain depth (Reference.exec stmt) cells
      (.ok flow) after) :
    Completes context slots depth stmt.tallied cells flow after [] := by
  rw [stmt.tallied_of_loopFree hfree]
  exact step (.exec stmt) hgives

theorem talliedAll_cons (hstmt : Completes context slots depth stmt.tallied cells .normal middle
      earlier)
    (hrest : Completes context slots depth (talliedAll rest) middle flow after later) :
    Completes context slots depth (talliedAll (stmt :: rest)) cells flow after
      (later ++ earlier) := by
  rw [talliedAll]
  exact bind hstmt hrest

theorem talliedAll_ret {content : Value}
    (hstmt : Completes context slots depth stmt.tallied cells (.ret content) after loops) :
    Completes context slots depth (talliedAll (stmt :: rest)) cells (.ret content) after loops := by
  rw [talliedAll, ← List.nil_append loops]
  exact bind hstmt (pure _)

theorem block {body : List (Stmt SiteId)} (hroom : depth < context.options.maxDepth)
    (hbody : Completes context slots (depth + 1) (talliedAll body) cells flow after loops) :
    Completes context slots depth (Stmt.block body).tallied cells flow after loops := by
  rw [Stmt.tallied]
  exact nested hroom hbody

/-- A loop around a statement without loops, followed on the cells. -/
theorem loop {condition : Expr SiteId} {body : Stmt SiteId}
    (hfree : body.loopFree = true) (hroom : depth < context.options.maxDepth)
    {cellsAt : Nat → List (Option Value)} {count : Nat} (hfuel : count < context.fuel)
    (hstep : ∀ index < count, Reference.Gives (context.setting slots).plain (depth + 1)
      (Reference.loopStep (Reference.eval condition) (Reference.exec body)) (cellsAt index)
      (.ok .running) (cellsAt (index + 1)))
    (hexit : Reference.Gives (context.setting slots).plain (depth + 1)
      (Reference.loopStep (Reference.eval condition) (Reference.exec body)) (cellsAt count)
      (.ok (.done .normal)) (cellsAt count)) :
    Completes context slots depth (Stmt.loop condition body).tallied (cellsAt 0) .normal
      (cellsAt count) [count] := by
  have hsimulates : Simulates (context.setting slots)
      (loopStep condition.eval body.exec)
      (Reference.loopStep (Reference.eval condition) (Reference.exec body)) :=
    .loopStep (.eval condition) (.exec body)
  rw [Stmt.tallied, body.tallied_of_loopFree hfree, ← Tallied.step_loopStep]
  apply nested hroom
  exact iterate (fun index hindex => step hsimulates (hstep index hindex))
    (step hsimulates hexit) count (Nat.zero_add count) hfuel

theorem root_ret {root : Root SiteId} (hbody : root.body = .stmt stmt) {content : Value}
    (hstmt : Completes context slots depth stmt.tallied cells (.ret content) after loops) :
    Completes context slots depth root.tallied cells content after loops := by
  unfold Root.tallied
  rw [hbody, ← List.nil_append loops]
  exact bind hstmt (pure _)

end Statements

end Completes

theorem Host.withOsrThreshold_self {host : Host} {id : Nat} {target : Target}
    (htarget : host.targets[id]? = some target) :
    host.withOsrThreshold id target.options.osrThreshold = host := by
  have htargets : host.targets.modify id (fun held =>
      { held with options := { held.options with osrThreshold := target.options.osrThreshold } }) =
        host.targets := by
    apply Array.ext_getElem?
    intro other
    rw [Array.getElem?_modify]
    by_cases heq : id = other
    · subst heq
      rw [if_pos rfl, htarget]
      rfl
    · rw [if_neg heq]
  unfold withOsrThreshold withOptions modifyTarget
  rw [htargets]

/-- After any script, an invocation whose tally is known returns its content, and counts a hand-over
for each loop that the threshold of its target does not exceed. -/
theorem Session.Sound.invoke_of_completes {session : Session} {ceiling fuel : Nat}
    (hsound : session.Sound ceiling) {id : Nat} {target : Target}
    (htarget : session.host.targets[id]? = some target) {engine : Engine}
    (hengine : session.host.engines[target.engine]? = some engine) {arguments : Array Value}
    {content : Value} {after : List (Option Value)} {loops : List Nat}
    (hcompletes : Completes
      (session.host.context fuel engine.registry target.options arguments) target.root.frameSize 0
      target.root.tallied (List.replicate target.root.frameSize none) content after loops) :
    ∃ host reached, session.host.invoke fuel id arguments = some (.ok content, host) ∧
      host.targets[id]? = some reached ∧
      reached.state.osrEntries =
        target.state.osrEntries + loops.countP (target.options.osrThreshold ≤ ·) := by
  obtain ⟨-, held, hheld, hstate⟩ := hsound.targets id target htarget
  obtain rfl : held = engine := Option.some.inj (hheld.symm.trans hengine)
  have hlocals : (target.machine session.host.sites).locals =
      { cells := List.replicate target.root.frameSize none, depth := 0 } :=
    congrArg₂ Reference.Locals.mk (hsound.cells_freshFrame htarget) rfl
  obtain ⟨machine, hrun, -, -⟩ :=
    hcompletes { machine := target.machine session.host.sites } hstate hlocals
  rw [List.append_nil] at hrun
  have hstart : session.host.start? fuel id arguments =
      some (target, session.host.context fuel held.registry target.options arguments) :=
    Host.start?_eq_some_iff.mpr ⟨htarget, held, hengine, rfl⟩
  have hinvoke := Host.invoke_withOsrThreshold hstart
    (Nat.le_add_left fuel target.options.osrThreshold) (Or.inr (by rw [hrun]; exact nofun))
  rw [Host.withOsrThreshold_self htarget, hrun] at hinvoke
  have hlt : id < session.host.targets.size := (Array.getElem?_eq_some_iff.mp htarget).1
  exact ⟨_, _, hinvoke, Array.getElem?_setIfInBounds_self_of_lt hlt, rfl⟩

end AdaptiveEval
