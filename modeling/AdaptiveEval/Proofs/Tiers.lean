import AdaptiveEval.Proofs.TargetChanges

/-!
# Tiers over whole runs

A target keeps a tagged generation, a count of broken dependencies and a count of interpreted
invocations, nothing else about its past. These decide on its tier as its whole history would: a
compilation is given up exactly when something that it relied on has changed since.
-/

namespace AdaptiveEval

theorem countP_lt_countP_iff {α : Type} {before after : α → Bool} {items : List α}
    (hkept : ∀ item ∈ items, before item = true → after item = true) :
    items.countP before < items.countP after ↔
      ∃ item ∈ items, before item = false ∧ after item = true := by
  induction items with
  | nil => simp
  | cons item rest ih =>
      obtain ⟨hitem, hrest⟩ := List.forall_mem_cons.mp hkept
      have hle := List.countP_mono_left hrest
      simp only [List.mem_cons, exists_eq_or_imp, ← ih hrest, List.countP_cons]
      cases hbefore : before item with
      | true => simp [hitem hbefore]
      | false =>
          cases after item with
          | false => simp
          | true =>
              simp only [Bool.false_eq_true, if_false, if_true, Nat.add_zero, and_self, true_or,
                iff_true]
              omega

/-- Everything that the choice of a tier can do. -/
theorem Tiering.enter_cases (tiering : Tiering) (threshold generation broken : Nat) :
    (∃ compiledAt, tiering.tier = .compiled compiledAt ∧
      (compiledAt ≠ generation ∨ tiering.brokenAtCompile < broken) ∧
      tiering.enter threshold generation broken =
        { tiering with
          tier := .interpreted
          warmth := 0
          invocations := tiering.invocations + 1
          deoptimizations := tiering.deoptimizations + 1 }) ∨
    (tiering.tier = .compiled generation ∧ broken ≤ tiering.brokenAtCompile ∧
      tiering.enter threshold generation broken =
        { tiering with invocations := tiering.invocations + 1 }) ∨
    (tiering.tier = .interpreted ∧ threshold ≤ tiering.warmth + 1 ∧
      tiering.enter threshold generation broken =
        { tiering with
          tier := .compiled generation
          warmth := tiering.warmth + 1
          brokenAtCompile := broken
          invocations := tiering.invocations + 1
          compilations := tiering.compilations + 1 }) ∨
    (tiering.tier = .interpreted ∧ tiering.warmth + 1 < threshold ∧
      tiering.enter threshold generation broken =
        { tiering with
          warmth := tiering.warmth + 1
          invocations := tiering.invocations + 1 }) := by
  cases htier : tiering.tier with
  | compiled compiledAt =>
      by_cases hchanged : compiledAt ≠ generation ∨ tiering.brokenAtCompile < broken
      · refine Or.inl ⟨compiledAt, rfl, hchanged, ?_⟩
        simp only [enter, update, htier, if_pos hchanged, deoptimize]
      · refine Or.inr (Or.inl ?_)
        obtain ⟨hgeneration, hbroken⟩ := not_or.mp hchanged
        refine ⟨by rw [Decidable.not_not.mp hgeneration], Nat.le_of_not_lt hbroken, ?_⟩
        simp only [enter, update, htier, if_neg hchanged]
  | interpreted =>
      by_cases hwarm : threshold ≤ tiering.warmth + 1
      · refine Or.inr (Or.inr (Or.inl ⟨rfl, hwarm, ?_⟩))
        simp only [enter, update, htier, if_pos hwarm, compile]
      · refine Or.inr (Or.inr (Or.inr ⟨rfl, Nat.lt_of_not_le hwarm, ?_⟩))
        simp only [enter, update, htier, if_neg hwarm]

/-- What happens in a session: an action of its script, or a bump of a target's generation that
comes from no body. -/
inductive Event where
  | action (action : Action)
  | bump (target : Nat)

/-- An invocation as it is seen from outside. -/
structure Invocation where
  before : Tier
  /-- The tier in which the body runs. -/
  after : Tier
  /-- The generation that is current before the body runs. -/
  generation : Nat
  /-- The assumptions that are broken when the invocation starts. -/
  broken : Dependency → Bool

namespace Invocation

def startsInterpreted (invocation : Invocation) : Bool :=
  decide (invocation.before = .interpreted)

def compiles (invocation : Invocation) : Bool :=
  decide (invocation.before = .interpreted ∧ invocation.after ≠ .interpreted)

def deoptimizes (invocation : Invocation) : Bool :=
  decide (invocation.before ≠ .interpreted ∧ invocation.after = .interpreted)

/-- Logs are kept with the latest invocation first. -/
def latestCompilation (log : List Invocation) : Option Invocation :=
  log.find? compiles

/-- Invocations that started interpreted since the last deoptimization, or else since the target's
creation. -/
def interpretedStarts (log : List Invocation) : Nat :=
  (log.takeWhile fun invocation => !invocation.deoptimizes).countP startsInterpreted

/-- How an invocation has to choose its tier, given those before it. -/
structure Exact (threshold : Nat) (dependencies : List Dependency) (earlier : List Invocation)
    (invocation : Invocation) : Prop where
  start : invocation.before = (earlier.head?.map after).getD .interpreted
  fallsBack : ∀ compiledAt, invocation.before = .compiled compiledAt →
    ∃ compilation, latestCompilation earlier = some compilation ∧
      compilation.after = .compiled compiledAt ∧
      (invocation.after = .interpreted ↔
        invocation.generation ≠ compiledAt ∨
          ∃ dependency ∈ dependencies, compilation.broken dependency = false ∧
            invocation.broken dependency = true) ∧
      (invocation.after ≠ .interpreted → invocation.after = .compiled compiledAt)
  warmsUp : invocation.before = .interpreted →
    (invocation.after ≠ .interpreted ↔ max 1 threshold ≤ interpretedStarts earlier + 1) ∧
      (invocation.after ≠ .interpreted → invocation.after = .compiled invocation.generation)
  unchanged : ∀ compiledAt, invocation.after = .compiled compiledAt →
    invocation.generation = compiledAt ∧
      ∃ compilation, latestCompilation (invocation :: earlier) = some compilation ∧
        compilation.generation = compiledAt ∧
        ∀ dependency ∈ dependencies,
          invocation.broken dependency = compilation.broken dependency

end Invocation

namespace Session

def tier (session : Session) (id : Nat) : Tier :=
  (session.host.targets[id]?.map fun target => target.tiering.tier).getD .interpreted

def generation (session : Session) (id : Nat) : Nat :=
  (session.host.targets[id]?.map fun target => target.state.generation).getD 0

def advance (fuel : Nat) (session : Session) : Event → Session
  | .action action => (session.perform fuel action).2
  | .bump target => { session with host := session.host.modifyTarget target Target.bump }

/-- The invocation of a target that an event is, if it is one. -/
def invocation? (fuel id : Nat) (session : Session) : Event → Option Invocation
  | .action (.invoke target arguments) =>
      match session.perform fuel (.invoke target arguments) with
      | (.ended _, after) =>
          if target = id then
            some
              { before := session.tier id
                after := after.tier id
                generation := session.generation id
                broken := session.host.isBroken }
          else
            none
      | _ => none
  | _ => none

end Session

/-- A session with the invocations of one target so far. -/
structure Chronicle where
  session : Session := {}
  log : List Invocation := []

namespace Chronicle

def extend (fuel id : Nat) (chronicle : Chronicle) (event : Event) : Chronicle :=
  { session := chronicle.session.advance fuel event
    log := (chronicle.session.invocation? fuel id event).toList ++ chronicle.log }

def run (fuel id : Nat) (chronicle : Chronicle) (events : List Event) : Chronicle :=
  events.foldl (extend fuel id) chronicle

end Chronicle

def Target.entered (target : Target) (host : Host) : Tiering :=
  target.tiering.enter target.options.compileThreshold target.state.generation
    (host.broken target.dependencies)

def Target.invocation (target : Target) (host : Host) : Invocation :=
  { before := target.tiering.tier
    after := (target.entered host).tier
    generation := target.state.generation
    broken := host.isBroken }

open Invocation

/-- The counters of a target are those of its log. -/
structure Counted (tiering : Tiering) (log : List Invocation) : Prop where
  invocations : tiering.invocations = log.length
  compilations : tiering.compilations = log.countP compiles
  deoptimizations : tiering.deoptimizations = log.countP deoptimizes
  balance : tiering.compilations =
    tiering.deoptimizations + if tiering.tier = .interpreted then 0 else 1

section Enter

variable {tiering : Tiering} {log : List Invocation} {invocation : Invocation}
  {threshold generation broken : Nat} (hbefore : invocation.before = tiering.tier)
  (hafter : invocation.after = (tiering.enter threshold generation broken).tier)

include hbefore hafter

theorem Counted.enter (hcounted : Counted tiering log) :
    Counted (tiering.enter threshold generation broken) (invocation :: log) := by
  obtain ⟨hinvocations, hcompilations, hdeoptimizations, hbalance⟩ := hcounted
  obtain ⟨compiledAt, htier, _, henter⟩ | ⟨htier, _, henter⟩ | ⟨htier, _, henter⟩ |
      ⟨htier, _, henter⟩ := tiering.enter_cases threshold generation broken
  -- In each case the two tiers decide whether the invocation is counted as a tier change.
  all_goals
    rw [htier] at hbefore
    rw [henter] at hafter ⊢
    constructor <;>
      simp_all [compiles, deoptimizes]

/-- The warmth counts the interpreted starts, as long as the target is interpreted. -/
theorem warmth_enter (hwarmth : tiering.tier = .interpreted → tiering.warmth = interpretedStarts log)
    (hinterpreted : (tiering.enter threshold generation broken).tier = .interpreted) :
    (tiering.enter threshold generation broken).warmth = interpretedStarts (invocation :: log) := by
  rw [hinterpreted] at hafter
  obtain ⟨compiledAt, htier, _, henter⟩ | ⟨htier, _, henter⟩ | ⟨htier, _, henter⟩ |
      ⟨htier, _, henter⟩ := tiering.enter_cases threshold generation broken
  · rw [henter]
    simp [interpretedStarts, deoptimizes, hbefore, htier, hafter]
  · simp [henter, htier] at hinterpreted
  · simp [henter] at hinterpreted
  · rw [henter]
    simp [interpretedStarts, deoptimizes, startsInterpreted, hbefore, htier, hwarmth htier]

end Enter

/-- What the fields of a target say about the invocations in its log. -/
structure Standing (host : Host) (target : Target) (log : List Invocation) : Prop where
  exact : ∀ later invocation earlier, log = later ++ invocation :: earlier →
    invocation.Exact target.options.compileThreshold target.dependencies earlier
  tier : target.tiering.tier = (log.head?.map after).getD .interpreted
  warmth : target.tiering.tier = .interpreted → target.tiering.warmth = interpretedStarts log
  compiled : ∀ compiledAt, target.tiering.tier = .compiled compiledAt →
    ∃ compilation, latestCompilation log = some compilation ∧
      compilation.after = .compiled compiledAt ∧ compilation.generation = compiledAt ∧
      target.tiering.brokenAtCompile = target.dependencies.countP compilation.broken ∧
      ∀ dependency, compilation.broken dependency = true → host.isBroken dependency = true
  counted : Counted target.tiering log

namespace Standing

variable {host after : Host} {target : Target} {log : List Invocation}

theorem ofRoot (host : Host) (root : Root SiteId) (engine : Nat) (registry : Registry)
    (options : Options) (dependencies : List Dependency) :
    Standing host (.ofRoot root engine registry options dependencies) [] where
  exact := by simp
  tier := rfl
  warmth _ := rfl
  compiled := nofun
  counted := ⟨rfl, rfl, rfl, rfl⟩

theorem keep (hstanding : Standing host target log) (state : TargetState)
    (hbroken : ∀ dependency, host.isBroken dependency = true → after.isBroken dependency = true) :
    Standing after { target with state } log where
  exact := hstanding.exact
  tier := hstanding.tier
  warmth := hstanding.warmth
  compiled := by
    intro compiledAt htier
    obtain ⟨compilation, hlatest, hafter, hgeneration, hcount, hstill⟩ :=
      hstanding.compiled compiledAt htier
    exact ⟨compilation, hlatest, hafter, hgeneration, hcount,
      fun dependency hlost => hbroken dependency (hstill dependency hlost)⟩
  counted := hstanding.counted

/-- Dependencies never recover, so the count of broken ones has grown exactly when one of those
that held at the compilation has broken. -/
theorem brokenAtCompile_lt_iff {compilation : Invocation}
    (hcount : target.tiering.brokenAtCompile = target.dependencies.countP compilation.broken)
    (hstill : ∀ dependency, compilation.broken dependency = true →
      host.isBroken dependency = true) :
    target.tiering.brokenAtCompile < host.broken target.dependencies ↔
      ∃ dependency ∈ target.dependencies, compilation.broken dependency = false ∧
        host.isBroken dependency = true := by
  rw [hcount]
  exact countP_lt_countP_iff fun dependency _ => hstill dependency

/-- An invocation that starts compiled keeps its tier unless something that the compilation relied
on has changed. -/
theorem after_of_compiled (hstanding : Standing host target log) {compiledAt : Nat}
    (htier : target.tiering.tier = .compiled compiledAt) :
    ∃ compilation, latestCompilation log = some compilation ∧
      compilation.after = .compiled compiledAt ∧ compilation.generation = compiledAt ∧
      (∀ dependency, compilation.broken dependency = true →
        host.isBroken dependency = true) ∧
      (((target.invocation host).after = .interpreted ∧
        (target.state.generation ≠ compiledAt ∨
          ∃ dependency ∈ target.dependencies, compilation.broken dependency = false ∧
            host.isBroken dependency = true)) ∨
      ((target.invocation host).after = .compiled compiledAt ∧
        target.state.generation = compiledAt ∧
        ∀ dependency ∈ target.dependencies,
          host.isBroken dependency = compilation.broken dependency)) := by
  obtain ⟨compilation, hlatest, hafter, hgeneration, hcount, hstill⟩ :=
    hstanding.compiled compiledAt htier
  refine ⟨compilation, hlatest, hafter, hgeneration, hstill, ?_⟩
  have hlost := brokenAtCompile_lt_iff hcount hstill
  obtain ⟨tagged, htagged, hchanged, henter⟩ | ⟨htagged, hheld, henter⟩ |
      ⟨hinterpreted, _, _⟩ | ⟨hinterpreted, _, _⟩ :=
    target.tiering.enter_cases target.options.compileThreshold target.state.generation
      (host.broken target.dependencies)
  · obtain rfl : tagged = compiledAt := Tier.compiled.inj (htagged.symm.trans htier)
    refine Or.inl ⟨by simp only [Target.invocation, Target.entered, henter], ?_⟩
    exact hchanged.imp Ne.symm hlost.mp
  · have hcurrent : target.state.generation = compiledAt :=
      Tier.compiled.inj (htagged.symm.trans htier)
    refine Or.inr ⟨by simp only [Target.invocation, Target.entered, henter, htier], hcurrent, ?_⟩
    intro dependency hmem
    cases hcompilation : compilation.broken dependency with
    | true => exact hstill dependency hcompilation
    | false =>
        cases hnow : host.isBroken dependency with
        | false => rfl
        | true =>
            have hgrown := hlost.mpr ⟨dependency, hmem, hcompilation, hnow⟩
            omega
  · simp [htier] at hinterpreted
  · simp [htier] at hinterpreted

theorem after_of_interpreted (hstanding : Standing host target log)
    (htier : target.tiering.tier = .interpreted) :
    (target.invocation host).after =
      if max 1 target.options.compileThreshold ≤ interpretedStarts log + 1 then
        .compiled target.state.generation
      else .interpreted := by
  have hwarmth := hstanding.warmth htier
  obtain ⟨_, htagged, _⟩ | ⟨htagged, _⟩ | ⟨_, hwarm, henter⟩ | ⟨_, hcold, henter⟩ :=
    target.tiering.enter_cases target.options.compileThreshold target.state.generation
      (host.broken target.dependencies)
  · simp [htier] at htagged
  · simp [htier] at htagged
  · rw [if_pos (by omega)]
    simp only [Target.invocation, Target.entered, henter]
  · rw [if_neg (by omega)]
    simp only [Target.invocation, Target.entered, henter, htier]

theorem exact_invocation (hstanding : Standing host target log) :
    (target.invocation host).Exact target.options.compileThreshold target.dependencies log := by
  have hbefore : (target.invocation host).before = target.tiering.tier := rfl
  cases htier : target.tiering.tier with
  | interpreted =>
      have hafter := hstanding.after_of_interpreted htier
      have hcompiles : (target.invocation host).after ≠ .interpreted →
          (target.invocation host).after = .compiled target.state.generation := by
        intro hne
        rw [hafter] at hne ⊢
        split at hne
        · rw [if_pos ‹_›]
        · exact absurd rfl hne
      refine ⟨hbefore.trans hstanding.tier, ?_, fun _ => ⟨?_, hcompiles⟩, ?_⟩
      · intro compiledAt hcompiled
        simp [hbefore, htier] at hcompiled
      · rw [hafter]
        split <;> simp [*]
      · intro compiledAt hcompiled
        have hne : (target.invocation host).after ≠ .interpreted := by simp [hcompiled]
        have hcurrent : target.state.generation = compiledAt :=
          Tier.compiled.inj ((hcompiles hne).symm.trans hcompiled)
        refine ⟨hcurrent, target.invocation host, ?_, hcurrent, fun _ _ => rfl⟩
        simp [latestCompilation, compiles, hbefore, htier, hne]
  | compiled compiledAt =>
      obtain ⟨compilation, hlatest, hcompilation, hgeneration, _, hafter⟩ :=
        hstanding.after_of_compiled htier
      refine ⟨hbefore.trans hstanding.tier, ?_, fun hinterpreted => ?_, ?_⟩
      · intro tagged htagged
        obtain rfl : compiledAt = tagged :=
          Tier.compiled.inj (htier.symm.trans (hbefore.symm.trans htagged))
        refine ⟨compilation, hlatest, hcompilation, ?_⟩
        obtain ⟨hfallen, hchanged⟩ | ⟨hkept, hcurrent, hsame⟩ := hafter
        · exact ⟨iff_of_true hfallen hchanged, fun hne => absurd hfallen hne⟩
        · refine ⟨iff_of_false (by simp [hkept]) ?_, fun _ => hkept⟩
          rintro (hmoved | ⟨dependency, hmem, hheld, hlost⟩)
          · exact hmoved hcurrent
          · have heq := hsame dependency hmem
            rw [hheld] at heq
            exact absurd (hlost.symm.trans heq) (by decide)
      · simp [hbefore, htier] at hinterpreted
      · intro tagged htagged
        obtain ⟨hfallen, _⟩ | ⟨hkept, hcurrent, hsame⟩ := hafter
        · simp [hfallen] at htagged
        · obtain rfl : compiledAt = tagged := Tier.compiled.inj (hkept.symm.trans htagged)
          refine ⟨hcurrent, compilation, ?_, hgeneration, hsame⟩
          rw [← hlatest]
          simp [latestCompilation, compiles, hbefore, htier]

theorem exact_cons (hstanding : Standing host target log) :
    ∀ later invocation earlier, target.invocation host :: log = later ++ invocation :: earlier →
      invocation.Exact target.options.compileThreshold target.dependencies earlier := by
  intro later invocation earlier hlog
  cases later with
  | nil =>
      obtain ⟨rfl, rfl⟩ := List.cons.inj hlog
      exact hstanding.exact_invocation
  | cons newest later => exact hstanding.exact later invocation earlier (List.cons.inj hlog).2

/-- An invocation that ends up compiled keeps the compilation of before, or is the compilation. -/
theorem compiled_cons (hstanding : Standing host target log)
    (hbroken : ∀ dependency, host.isBroken dependency = true → after.isBroken dependency = true)
    {compiledAt : Nat} (htagged : (target.entered host).tier = .compiled compiledAt) :
    ∃ compilation, latestCompilation (target.invocation host :: log) = some compilation ∧
      compilation.after = .compiled compiledAt ∧ compilation.generation = compiledAt ∧
      (target.entered host).brokenAtCompile = target.dependencies.countP compilation.broken ∧
      ∀ dependency, compilation.broken dependency = true → after.isBroken dependency = true := by
  have hbefore : (target.invocation host).before = target.tiering.tier := rfl
  have hafter : (target.invocation host).after = .compiled compiledAt := htagged
  unfold Target.entered at htagged ⊢
  obtain ⟨_, _, _, henter⟩ | ⟨htier, _, henter⟩ | ⟨htier, _, henter⟩ | ⟨htier, _, henter⟩ :=
    target.tiering.enter_cases target.options.compileThreshold target.state.generation
      (host.broken target.dependencies)
  all_goals rw [henter] at htagged ⊢
  · simp at htagged
  · obtain ⟨compilation, hlatest, hcompilation, hgeneration, hcount, hstill⟩ :=
      hstanding.compiled compiledAt htagged
    refine ⟨compilation, ?_, hcompilation, hgeneration, hcount,
      fun dependency hlost => hbroken dependency (hstill dependency hlost)⟩
    rw [← hlatest]
    simp [latestCompilation, compiles, hbefore, htier]
  · refine ⟨target.invocation host, ?_, hafter, Tier.compiled.inj htagged, rfl, hbroken⟩
    simp [latestCompilation, compiles, hbefore, htier, hafter]
  · simp [htier] at htagged

/-- An invocation adds itself to the log. -/
theorem invoke (hstanding : Standing host target log) (state : TargetState)
    (hbroken : ∀ dependency, host.isBroken dependency = true → after.isBroken dependency = true) :
    Standing after { target with tiering := target.entered host, state }
      (target.invocation host :: log) where
  exact := hstanding.exact_cons
  tier := rfl
  warmth := warmth_enter rfl rfl hstanding.warmth
  compiled _ := hstanding.compiled_cons hbroken
  counted := hstanding.counted.enter rfl rfl

end Standing

namespace Session

variable {session : Session} {fuel id : Nat}

theorem invocation?_of_start? {arguments : Array Value} {target : Target} {context : Context}
    (hstart : session.host.start? fuel id arguments = some (target, context)) :
    session.invocation? fuel id (.action (.invoke id arguments)) =
      some (target.invocation session.host) := by
  have htarget := Host.getElem?_of_start? hstart
  have hlt : id < session.host.targets.size := (Array.getElem?_eq_some_iff.mp htarget).1
  have hperform : session.perform fuel (.invoke id arguments) =
      (.ended ((target.invoke context (session.host.broken target.dependencies)
          session.host.sites).1.map .value),
        { session with
          host := { session.host with
            targets := session.host.targets.setIfInBounds id
              (target.invoke context (session.host.broken target.dependencies)
                session.host.sites).2.1
            sites := (target.invoke context (session.host.broken target.dependencies)
              session.host.sites).2.2 } }) := by
    simp only [perform, Host.invoke_eq_map_start?, hstart]
    rfl
  have hbefore : session.tier id = target.tiering.tier := by simp [tier, htarget]
  have hgeneration : session.generation id = target.state.generation := by
    simp [generation, htarget]
  have hafter : (session.perform fuel (.invoke id arguments)).2.tier id =
      (target.entered session.host).tier := by
    rw [hperform]
    simp only [tier, Array.getElem?_setIfInBounds_self_of_lt hlt]
    rfl
  simp only [invocation?]
  rw [hperform] at hafter ⊢
  simp only [if_true, hbefore, hgeneration, hafter]
  rfl

theorem invocation?_of_idle {action : Action}
    (hidle : ∀ arguments, action = .invoke id arguments →
      session.host.start? fuel id arguments = none) :
    session.invocation? fuel id (.action action) = none := by
  cases action with
  | invoke other arguments =>
      by_cases heq : other = id
      · subst heq
        simp [invocation?, perform, Host.invoke_eq_map_start?, hidle arguments rfl]
      · simp only [invocation?, if_neg heq]
        split <;> rfl
  | _ => rfl

end Session

namespace Chronicle

variable {chronicle : Chronicle} {id : Nat}

structure Sound (id : Nat) (chronicle : Chronicle) : Prop where
  absent : chronicle.session.host.targets[id]? = none → chronicle.log = []
  standing : ∀ target, chronicle.session.host.targets[id]? = some target →
    Standing chronicle.session.host target chronicle.log

theorem sound_empty (id : Nat) : Sound id {} where
  absent _ := rfl
  standing := by simp

theorem Sound.act (hsound : chronicle.Sound id) (fuel : Nat) (action : Action) :
    (chronicle.extend fuel id (.action action)).Sound id := by
  have heffect := chronicle.session.perform_effect fuel action
  have hbroken : ∀ dependency, chronicle.session.host.isBroken dependency = true →
      (chronicle.session.perform fuel action).2.host.isBroken dependency = true :=
    fun _ => Session.isBroken_perform fuel action
  cases htarget : chronicle.session.host.targets[id]? with
  | none =>
      have hinvocation : chronicle.session.invocation? fuel id (.action action) = none := by
        refine Session.invocation?_of_idle fun arguments _ => ?_
        exact Host.start?_of_absent htarget fuel arguments
      have hlog : (chronicle.extend fuel id (.action action)).log = [] := by
        simp [extend, hinvocation, hsound.absent htarget]
      refine ⟨fun _ => hlog, fun target hadded => ?_⟩
      obtain hnone | ⟨_, _, _, _, _, _, _, hcreated, _⟩ := heffect.absent htarget
      · exact absurd (hadded.symm.trans hnone) (by simp)
      · obtain rfl := Option.some.inj (hcreated.symm.trans hadded)
        rw [hlog]
        exact .ofRoot _ _ _ _ _ _
  | some target =>
      have hstanding := hsound.standing target htarget
      obtain ⟨arguments, context, rfl, hstart, hinvoked, _⟩ | ⟨hidle, state, hkept, _⟩ :=
        heffect.target htarget
      · have hlog : (chronicle.extend fuel id (.action (.invoke id arguments))).log =
            target.invocation chronicle.session.host :: chronicle.log := by
          simp [extend, Session.invocation?_of_start? hstart]
        refine ⟨fun hnone => absurd (hnone.symm.trans hinvoked) (by simp), fun after hafter => ?_⟩
        obtain rfl := Option.some.inj (hinvoked.symm.trans hafter)
        rw [hlog]
        exact hstanding.invoke _ hbroken
      · have hlog : (chronicle.extend fuel id (.action action)).log = chronicle.log := by
          simp [extend, Session.invocation?_of_idle hidle]
        refine ⟨fun hnone => absurd (hnone.symm.trans hkept) (by simp), fun after hafter => ?_⟩
        obtain rfl := Option.some.inj (hkept.symm.trans hafter)
        rw [hlog]
        exact hstanding.keep state hbroken

theorem Sound.bump (hsound : chronicle.Sound id) (fuel bumped : Nat) :
    (chronicle.extend fuel id (.bump bumped)).Sound id := by
  have htargets : (chronicle.extend fuel id (.bump bumped)).session.host.targets =
      chronicle.session.host.targets.modify bumped Target.bump := rfl
  constructor
  · intro hnone
    refine hsound.absent ?_
    rw [htargets, Array.getElem?_modify] at hnone
    split at hnone
    · exact Option.map_eq_none_iff.mp hnone
    · exact hnone
  · intro target htarget
    rw [htargets, Array.getElem?_modify] at htarget
    split at htarget
    · obtain ⟨held, hheld, rfl⟩ := Option.map_eq_some_iff.mp htarget
      exact (hsound.standing held hheld).keep _ fun _ hstill => hstill
    · exact (hsound.standing target htarget).keep target.state fun _ hstill => hstill

theorem Sound.run (hsound : chronicle.Sound id) (fuel : Nat) (events : List Event) :
    (chronicle.run fuel id events).Sound id := by
  induction events generalizing chronicle with
  | nil => exact hsound
  | cons event rest ih =>
      have hnext : (chronicle.extend fuel id event).Sound id := by
        cases event with
        | action action => exact hsound.act fuel action
        | bump bumped => exact hsound.bump fuel bumped
      exact ih hnext

/-- **Tiers are exact.** In every run of a session, each invocation of a target chooses its tier as
the invocations before it demand, and the counters of the target are those of its log. -/
theorem tiers_exact (fuel id : Nat) (events : List Event) {target : Target}
    (htarget : (run fuel id {} events).session.host.targets[id]? = some target) :
    (∀ later invocation earlier, (run fuel id {} events).log = later ++ invocation :: earlier →
      invocation.Exact target.options.compileThreshold target.dependencies earlier) ∧
    target.tiering.compilations =
      target.tiering.deoptimizations + (if target.tiering.tier = .interpreted then 0 else 1) ∧
    target.tiering.invocations = (run fuel id {} events).log.length ∧
    target.tiering.compilations = (run fuel id {} events).log.countP compiles ∧
    target.tiering.deoptimizations = (run fuel id {} events).log.countP deoptimizes := by
  have hstanding := ((sound_empty id).run fuel events).standing target htarget
  have hcounted := hstanding.counted
  exact ⟨hstanding.exact, hcounted.balance, hcounted.invocations, hcounted.compilations,
    hcounted.deoptimizations⟩

/-- A target that compiles at its second invocation and falls back at its fourth, after the
assumption it depends on was broken, then compiles again and falls back for a bumped generation. -/
def twoCycles : List Event :=
  [ .action (.addEngine {}),
    .action (.addAssumption "stable"),
    .action (.addTarget 0 { name := "seven", frameSize := 0, body := .expr (.const (.int 7)) }
      { compileThreshold := 2 } [.assumption 0]),
    .action (.invoke 0 #[]),
    .action (.invoke 0 #[]),
    .action (.invoke 0 #[]),
    .action (.invalidate (.assumption 0)),
    .action (.invoke 0 #[]),
    .action (.invoke 0 #[]),
    .action (.invoke 0 #[]),
    .bump 0,
    .action (.invoke 0 #[]) ]

theorem tiers_exact_twoCycles :
    ∃ target, (run 0 0 {} twoCycles).session.host.targets[0]? = some target ∧
      target.tiering.invocations = 7 ∧ target.tiering.compilations = 2 ∧
      target.tiering.deoptimizations = 2 ∧
      (run 0 0 {} twoCycles).log.countP compiles = 2 ∧
      ∀ later invocation earlier, (run 0 0 {} twoCycles).log = later ++ invocation :: earlier →
        invocation.Exact 2 [.assumption 0] earlier := by
  obtain ⟨target, htarget, hfields⟩ : ∃ target,
      (run 0 0 {} twoCycles).session.host.targets[0]? = some target ∧
        (target.tiering.invocations = 7 ∧ target.tiering.compilations = 2 ∧
          target.tiering.deoptimizations = 2) ∧
        target.options.compileThreshold = 2 ∧ target.dependencies = [.assumption 0] :=
    ⟨_, rfl, by decide, rfl, rfl⟩
  obtain ⟨⟨hinvocations, hcompilations, hdeoptimizations⟩, hthreshold, hdependencies⟩ := hfields
  obtain ⟨hexact, _, _, hlog, _⟩ := tiers_exact 0 0 twoCycles htarget
  rw [hthreshold, hdependencies] at hexact
  exact ⟨target, htarget, hinvocations, hcompilations, hdeoptimizations,
    hlog.symm.trans hcompilations, hexact⟩

end Chronicle

end AdaptiveEval
