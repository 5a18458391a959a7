import AdaptiveEval.Proofs.Reference.Session

/-!
# What an action changes

An action of a session adds a target, invokes one, drives one by hand, or leaves all targets and
sites as they are. What breaks a dependency breaks it for good.
-/

namespace AdaptiveEval

/-- The machine on which an invocation starts its body. -/
def Target.machine (target : Target) (sites : Sites) : Machine :=
  { frame := target.freshFrame, depth := 0, target := target.state, sites }

/-- The machine on which an activation of a target goes on. -/
def Activation.machine (activation : Activation) (target : Target) (sites : Sites) : Machine :=
  { frame := activation.frame, depth := activation.depth, target := target.state, sites }

theorem Target.invoke_eq (target : Target) (context : Context) (broken : Nat) (sites : Sites) :
    target.invoke context broken sites =
      ((target.root.run context (target.machine sites)).1,
        { target with
          tiering := target.tiering.enter target.options.compileThreshold target.state.generation
            broken
          state := (target.root.run context (target.machine sites)).2.target },
        (target.root.run context (target.machine sites)).2.sites) := rfl

namespace Host

/-- The target of an invocation, with the context that its body gets. -/
def start? (host : Host) (fuel id : Nat) (arguments : Array Value) : Option (Target × Context) := do
  let target ← host.targets[id]?
  let engine ← host.engines[target.engine]?
  return (target, host.context fuel engine.registry target.options arguments)

theorem start?_eq_some_iff {host : Host} {fuel id : Nat} {arguments : Array Value} {target : Target}
    {context : Context} :
    host.start? fuel id arguments = some (target, context) ↔
      host.targets[id]? = some target ∧
        ∃ engine, host.engines[target.engine]? = some engine ∧
          host.context fuel engine.registry target.options arguments = context := by
  unfold start?
  constructor
  · intro hstart
    obtain ⟨held, hheld, hstart⟩ := Option.bind_eq_some_iff.mp hstart
    obtain ⟨engine, hengine, hstart⟩ := Option.bind_eq_some_iff.mp hstart
    obtain ⟨rfl, rfl⟩ := Prod.mk.inj (Option.some.inj hstart)
    exact ⟨hheld, engine, hengine, rfl⟩
  · rintro ⟨htarget, engine, hengine, rfl⟩
    simp [htarget, hengine]

theorem getElem?_of_start? {host : Host} {fuel id : Nat} {arguments : Array Value} {target : Target}
    {context : Context} (hstart : host.start? fuel id arguments = some (target, context)) :
    host.targets[id]? = some target :=
  (start?_eq_some_iff.mp hstart).1

theorem options_of_start? {host : Host} {fuel id : Nat} {arguments : Array Value} {target : Target}
    {context : Context} (hstart : host.start? fuel id arguments = some (target, context)) :
    context.options = target.options := by
  obtain ⟨_, _, _, rfl⟩ := start?_eq_some_iff.mp hstart
  rfl

theorem start?_of_absent {host : Host} {id : Nat} (habsent : host.targets[id]? = none) (fuel : Nat)
    (arguments : Array Value) : host.start? fuel id arguments = none := by
  simp [start?, habsent]

theorem invoke_eq_map_start? (host : Host) (fuel id : Nat) (arguments : Array Value) :
    host.invoke fuel id arguments =
      (host.start? fuel id arguments).map fun (target, context) =>
        match target.invoke context (host.broken target.dependencies) host.sites with
        | (result, driven, sites) =>
            (result, { host with targets := host.targets.setIfInBounds id driven, sites }) := by
  unfold invoke start?
  cases host.targets[id]? with
  | none => rfl
  | some target =>
      dsimp only [Option.bind_eq_bind, Option.bind_some]
      cases host.engines[target.engine]? <;> rfl

/-- The host after a run of one of its targets. -/
def settle (host : Host) (id : Nat) (target : Target) (sites : Sites) : Host :=
  { host with targets := host.targets.setIfInBounds id target, sites }

theorem settle_settle (host : Host) (id : Nat) (target next : Target) (sites later : Sites) :
    (host.settle id target sites).settle id next later = host.settle id next later := by
  simp only [settle, Array.setIfInBounds_setIfInBounds]

theorem settle_self {host : Host} {id : Nat} {target : Target}
    (htarget : host.targets[id]? = some target) : host.settle id target host.sites = host := by
  obtain ⟨hlt, rfl⟩ := Array.getElem?_eq_some_iff.mp htarget
  simp [settle, Array.setIfInBounds, hlt]

/-- A run leaves its target ready for the next one. -/
theorem start?_settle {host : Host} {fuel id : Nat} {arguments : Array Value} {target : Target}
    {context : Context} (hstart : host.start? fuel id arguments = some (target, context))
    (state : TargetState) (sites : Sites) :
    (host.settle id { target with state } sites).start? fuel id arguments =
      some ({ target with state }, context) := by
  obtain ⟨htarget, engine, hengine, rfl⟩ := start?_eq_some_iff.mp hstart
  obtain ⟨hlt, _⟩ := Array.getElem?_eq_some_iff.mp htarget
  apply start?_eq_some_iff.mpr
  exact ⟨Array.getElem?_setIfInBounds_self_of_lt hlt, engine, hengine, rfl⟩

/-- An activation and its host, once a run has reached the given machine. -/
def reached (host : Host) (activation : Activation) (target : Target) (machine : Machine) :
    Activation × Host :=
  ({ activation with frame := machine.frame, depth := machine.depth },
    host.settle activation.target { target with state := machine.target } machine.sites)

theorem reached_reached (host : Host) (activation : Activation) (target : Target)
    (machine later : Machine) :
    (host.reached activation target machine).2.reached (host.reached activation target machine).1
        { target with state := machine.target } later =
      host.reached activation target later := by
  simp only [reached, settle_settle]

/-- An activation that nothing has run yet. -/
theorem reached_machine {host : Host} {activation : Activation} {target : Target}
    (htarget : host.targets[activation.target]? = some target) :
    host.reached activation target (activation.machine target host.sites) = (activation, host) :=
  Prod.ext rfl (settle_self htarget)

theorem drive_eq_map_start? {α : Type} (host : Host) (fuel : Nat) (activation : Activation)
    (action : Eval α) :
    host.drive fuel activation action =
      (host.start? fuel activation.target activation.arguments).map fun (target, context) =>
        ((action context (activation.machine target host.sites)).1,
          host.reached activation target
            (action context (activation.machine target host.sites)).2) := by
  unfold drive start?
  cases host.targets[activation.target]? with
  | none => rfl
  | some target =>
      dsimp only [Option.bind_eq_bind, Option.bind_some]
      cases host.engines[target.engine]? <;> rfl

/-- A hand-driven node changes the state of one target, never its tier. -/
theorem drive_cases {α : Type} (host : Host) (fuel : Nat) (activation : Activation)
    (action : Eval α) :
    host.drive fuel activation action = none ∨
      ∃ target context, host.targets[activation.target]? = some target ∧
        host.drive fuel activation action =
          match action context (activation.machine target host.sites) with
          | (result, reached) =>
              some (result, { activation with frame := reached.frame, depth := reached.depth },
                { host with
                  targets := host.targets.setIfInBounds activation.target
                    { target with state := reached.target }
                  sites := reached.sites }) := by
  rw [drive_eq_map_start?]
  cases hstart : host.start? fuel activation.target activation.arguments with
  | none => exact Or.inl rfl
  | some started =>
      exact Or.inr ⟨started.1, started.2, getElem?_of_start? hstart, rfl⟩

section Broken

/-- Whatever is broken among the items is still there, and still broken. -/
def StaysBroken {α : Type} (valid : α → Bool) (items after : Array α) : Prop :=
  ∀ (id : Nat) (item : α), items[id]? = some item → valid item = false →
    ∃ later, after[id]? = some later ∧ valid later = false

namespace StaysBroken

variable {α : Type} {valid : α → Bool}

theorem refl (items : Array α) : StaysBroken valid items items :=
  fun _ item hitem hbroken => ⟨item, hitem, hbroken⟩

theorem push (items : Array α) (added : α) : StaysBroken valid items (items.push added) := by
  intro id item hitem hbroken
  obtain ⟨hlt, hget⟩ := Array.getElem?_eq_some_iff.mp hitem
  exact ⟨item, by rw [Array.getElem?_push_lt hlt, hget], hbroken⟩

theorem modify {change : α → α} (hchange : ∀ item, valid item = false → valid (change item) = false)
    (items : Array α) (changed : Nat) : StaysBroken valid items (items.modify changed change) := by
  intro id item hitem hbroken
  rw [Array.getElem?_modify]
  split
  · exact ⟨change item, by rw [hitem]; rfl, hchange item hbroken⟩
  · exact ⟨item, hitem, hbroken⟩

end StaysBroken

variable {host after : Host} {dependency : Dependency}

theorem isBroken_eq_true_iff :
    host.isBroken dependency = true ↔
      ∃ assumption, host.assumption? dependency = some assumption ∧ assumption.valid = false := by
  unfold isBroken
  cases host.assumption? dependency <;> simp

theorem isBroken_of_staysBroken (hbroken : host.isBroken dependency = true)
    (hflags : StaysBroken (fun flag => flag.unchanged.valid) host.flags after.flags)
    (hassumptions : StaysBroken Assumption.valid host.assumptions after.assumptions) :
    after.isBroken dependency = true := by
  obtain ⟨assumption, hheld, hvalid⟩ := isBroken_eq_true_iff.mp hbroken
  apply isBroken_eq_true_iff.mpr
  cases dependency with
  | assumption id => exact hassumptions id assumption hheld hvalid
  | flag id =>
      obtain ⟨flag, hflag, rfl⟩ := Option.map_eq_some_iff.mp hheld
      obtain ⟨later, hlater, hstill⟩ := hflags id flag hflag hvalid
      exact ⟨later.unchanged, Option.map_eq_some_iff.mpr ⟨later, hlater, rfl⟩, hstill⟩

theorem isBroken_invalidate (other : Dependency) (hbroken : host.isBroken dependency = true) :
    (host.invalidate other).isBroken dependency = true := by
  cases other with
  | assumption id =>
      exact isBroken_of_staysBroken hbroken (.refl _) (.modify (fun _ _ => rfl) _ id)
  | flag id => exact isBroken_of_staysBroken hbroken (.modify (fun _ _ => rfl) _ id) (.refl _)

theorem isBroken_setFlag (id : Nat) (value : Bool) (hbroken : host.isBroken dependency = true) :
    (host.setFlag id value).isBroken dependency = true := by
  refine isBroken_of_staysBroken hbroken (.modify (fun flag hvalid => ?_) _ id) (.refl _)
  unfold Flag.set
  split
  · exact hvalid
  · rfl

end Broken

end Host

namespace Session

/-- Everything that an action can do to the targets and the sites of a session. -/
inductive Effect (fuel : Nat) (session : Session) : Action → Session → Prop where
  | kept {action : Action} {after : Session}
      (hidle : ∀ id arguments, action = .invoke id arguments →
        session.host.start? fuel id arguments = none)
      (htargets : after.host.targets = session.host.targets)
      (hsites : after.host.sites = session.host.sites)
      (hnext : after.host.nextSite = session.host.nextSite) : Effect fuel session action after
  | added {engine : Nat} {root : RootShape} {options : Options} {dependencies : List Dependency}
      {after : Session} (registry : Registry)
      (htargets : after.host.targets = session.host.targets.push
        (.ofRoot (root.label session.host.nextSite).1 engine registry options dependencies))
      (hsites : after.host.sites = session.host.sites)
      (hnext : after.host.nextSite = (root.label session.host.nextSite).2) :
      Effect fuel session (.addTarget engine root options dependencies) after
  | invoked {id : Nat} {arguments : Array Value} {after : Session} {target : Target}
      {context : Context}
      (hstart : session.host.start? fuel id arguments = some (target, context))
      (htargets : after.host.targets = session.host.targets.setIfInBounds id
        (target.invoke context (session.host.broken target.dependencies) session.host.sites).2.1)
      (hsites : after.host.sites =
        (target.invoke context (session.host.broken target.dependencies) session.host.sites).2.2)
      (hnext : after.host.nextSite = session.host.nextSite) :
      Effect fuel session (.invoke id arguments) after
  | driven {id : Nat} {node : Node} {after : Session} {activation : Activation} {target : Target}
      {context : Context} (hactivation : session.activations[id]? = some activation)
      (htarget : session.host.targets[activation.target]? = some target)
      (htargets : after.host.targets = session.host.targets.setIfInBounds activation.target
        { target with
          state := (node.run context (activation.machine target session.host.sites)).2.target })
      (hsites : after.host.sites =
        (node.run context (activation.machine target session.host.sites)).2.sites)
      (hnext : after.host.nextSite = session.host.nextSite) :
      Effect fuel session (.drive id node) after

theorem enroll_snd_host (session : Session) (activation : Option Activation) :
    (session.enroll activation).2.host = session.host := by
  cases activation <;> rfl

theorem effect_invoke (session : Session) (fuel id : Nat) (arguments : Array Value) :
    session.Effect fuel (.invoke id arguments)
      (session.perform fuel (.invoke id arguments)).2 := by
  simp only [perform, Host.invoke_eq_map_start?]
  cases hstart : session.host.start? fuel id arguments with
  | none =>
      refine .kept ?_ rfl rfl rfl
      rintro _ _ ⟨⟩
      exact hstart
  | some found => exact .invoked hstart rfl rfl rfl

theorem effect_drive (session : Session) (fuel id : Nat) (node : Node) :
    session.Effect fuel (.drive id node) (session.perform fuel (.drive id node)).2 := by
  simp only [perform]
  cases hactivation : session.activations[id]? with
  | none => exact .kept nofun rfl rfl rfl
  | some activation =>
      dsimp only
      obtain habsent | ⟨target, context, htarget, hdrive⟩ :=
        session.host.drive_cases fuel activation node.run
      · rw [habsent]
        exact .kept nofun rfl rfl rfl
      · rw [hdrive]
        exact .driven hactivation htarget rfl rfl rfl

theorem effect_addTarget (session : Session) (fuel engine : Nat) (root : RootShape)
    (options : Options) (dependencies : List Dependency) :
    session.Effect fuel (.addTarget engine root options dependencies)
      (session.perform fuel (.addTarget engine root options dependencies)).2 := by
  simp only [perform, Host.addTarget]
  cases session.host.engines[engine]? with
  | none => exact .kept nofun rfl rfl rfl
  | some held => exact .added held.registry rfl rfl rfl

theorem Effect.of_host_eq {fuel : Nat} {session after : Session} {action : Action}
    (hidle : ∀ id arguments, action ≠ .invoke id arguments) (hhost : after.host = session.host) :
    session.Effect fuel action after := by
  refine .kept (fun id arguments hinvoke => absurd hinvoke (hidle id arguments)) ?_ ?_ ?_ <;>
    rw [hhost]

theorem perform_effect (session : Session) (fuel : Nat) (action : Action) :
    session.Effect fuel action (session.perform fuel action).2 := by
  cases action with
  | addTarget engine root options dependencies =>
      exact session.effect_addTarget fuel engine root options dependencies
  | invoke id arguments => exact session.effect_invoke fuel id arguments
  | drive id node => exact session.effect_drive fuel id node
  | invalidate dependency => cases dependency <;> exact .kept nofun rfl rfl rfl
  | activate id arguments => exact .of_host_eq nofun (session.enroll_snd_host _)
  | resume id arguments frame => exact .of_host_eq nofun (session.enroll_snd_host _)
  | transfer id arguments source => exact .of_host_eq nofun (session.enroll_snd_host _)
  | _ => exact .kept nofun rfl rfl rfl

/-- A broken dependency never recovers. -/
theorem isBroken_perform {session : Session} (fuel : Nat) (action : Action) {dependency : Dependency}
    (hbroken : session.host.isBroken dependency = true) :
    (session.perform fuel action).2.host.isBroken dependency = true := by
  cases action with
  | addFlag name => exact Host.isBroken_of_staysBroken hbroken (.push _ _) (.refl _)
  | addAssumption name => exact Host.isBroken_of_staysBroken hbroken (.refl _) (.push _ _)
  | setFlag id value => exact Host.isBroken_setFlag id value hbroken
  | invalidate other => exact Host.isBroken_invalidate other hbroken
  | addTarget engine root options dependencies =>
      simp only [perform, Host.addTarget]
      cases session.host.engines[engine]? <;> exact hbroken
  | invoke id arguments =>
      simp only [perform, Host.invoke_eq_map_start?]
      cases session.host.start? fuel id arguments <;> exact hbroken
  | drive id node =>
      simp only [perform]
      cases session.activations[id]? with
      | none => exact hbroken
      | some activation =>
          dsimp only
          obtain habsent | ⟨target, context, _, hdrive⟩ :=
            session.host.drive_cases fuel activation node.run
          · rw [habsent]
            exact hbroken
          · rw [hdrive]
            exact hbroken
  | activate id arguments =>
      simp only [perform, enroll_snd_host]
      exact hbroken
  | resume id arguments frame =>
      simp only [perform, enroll_snd_host]
      exact hbroken
  | transfer id arguments source =>
      simp only [perform, enroll_snd_host]
      exact hbroken
  | addEngine options => exact hbroken
  | map engine name id => exact hbroken

section

variable {session after : Session} {fuel id : Nat} {action : Action}

/-- An action invokes a target or leaves its tier alone, and its state too unless it drives an
activation of the target. -/
theorem Effect.target (heffect : session.Effect fuel action after) {target : Target}
    (htarget : session.host.targets[id]? = some target) :
    (∃ arguments context, action = .invoke id arguments ∧
      session.host.start? fuel id arguments = some (target, context) ∧
      after.host.targets[id]? = some
        (target.invoke context (session.host.broken target.dependencies)
          session.host.sites).2.1 ∧
      after.host.sites =
        (target.invoke context (session.host.broken target.dependencies)
          session.host.sites).2.2) ∨
    ((∀ arguments, action = .invoke id arguments →
        session.host.start? fuel id arguments = none) ∧
      ∃ state, after.host.targets[id]? = some { target with state } ∧
        (state = target.state ∨
          ∃ driven node activation, action = .drive driven node ∧
            session.activations[driven]? = some activation ∧ activation.target = id)) := by
  have hlt : id < session.host.targets.size := (Array.getElem?_eq_some_iff.mp htarget).1
  cases heffect with
  | kept hidle htargets hsites hnext =>
      exact Or.inr ⟨hidle id, target.state, by rw [htargets, htarget], Or.inl rfl⟩
  | added registry htargets hsites hnext =>
      refine Or.inr ⟨nofun, target.state, ?_, Or.inl rfl⟩
      rw [htargets, Array.getElem?_push_lt hlt, ← htarget, Array.getElem?_eq_getElem hlt]
  | @invoked other arguments _ held context hstart htargets hsites hnext =>
      by_cases heq : other = id
      · subst heq
        obtain rfl : held = target :=
          Option.some.inj ((Host.getElem?_of_start? hstart).symm.trans htarget)
        refine Or.inl ⟨arguments, context, rfl, hstart, ?_, hsites⟩
        rw [htargets, Array.getElem?_setIfInBounds_self_of_lt hlt]
      · refine Or.inr ⟨?_, target.state, ?_, Or.inl rfl⟩
        · rintro _ ⟨⟩
          exact absurd rfl heq
        · rw [htargets, Array.getElem?_setIfInBounds_ne heq, htarget]
  | @driven driven node _ activation held context hactivation hheld htargets hsites hnext =>
      by_cases heq : activation.target = id
      · subst heq
        obtain rfl : held = target := Option.some.inj (hheld.symm.trans htarget)
        refine Or.inr ⟨nofun,
          (node.run context (activation.machine held session.host.sites)).2.target, ?_,
          Or.inr ⟨driven, node, activation, rfl, hactivation, rfl⟩⟩
        rw [htargets, Array.getElem?_setIfInBounds_self_of_lt hlt]
      · refine Or.inr ⟨nofun, target.state, ?_, Or.inl rfl⟩
        rw [htargets, Array.getElem?_setIfInBounds_ne heq, htarget]

/-- Targets stay, with the graph, the dependencies and the options that they were made of. -/
theorem Effect.persists (heffect : session.Effect fuel action after) {target : Target}
    (htarget : session.host.targets[id]? = some target) :
    ∃ next, after.host.targets[id]? = some next ∧ next.root = target.root ∧
      next.dependencies = target.dependencies ∧ next.options = target.options := by
  obtain ⟨_, _, _, _, hinvoked, _⟩ | ⟨_, _, hkept, _⟩ := heffect.target htarget
  · exact ⟨_, hinvoked, rfl, rfl, rfl⟩
  · exact ⟨_, hkept, rfl, rfl, rfl⟩

/-- A target comes into being as its root describes it. -/
theorem Effect.absent (heffect : session.Effect fuel action after)
    (habsent : session.host.targets[id]? = none) :
    after.host.targets[id]? = none ∨
      ∃ engine root options dependencies registry,
        action = .addTarget engine root options dependencies ∧
        id = session.host.targets.size ∧
        after.host.targets[id]? = some
          (.ofRoot (root.label session.host.nextSite).1 engine registry options dependencies) ∧
        after.host.sites = session.host.sites := by
  cases heffect with
  | kept hidle htargets hsites hnext => exact Or.inl (by rw [htargets, habsent])
  | added registry htargets hsites hnext =>
      rw [htargets, Array.getElem?_push]
      split
      · rename_i heq
        exact Or.inr ⟨_, _, _, _, registry, rfl, heq, rfl, hsites⟩
      · exact Or.inl habsent
  | invoked hstart htargets hsites hnext =>
      left
      rw [htargets]
      simpa using habsent
  | driven hactivation hheld htargets hsites hnext =>
      left
      rw [htargets]
      simpa using habsent

end

end Session

end AdaptiveEval
