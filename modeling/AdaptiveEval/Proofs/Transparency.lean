import AdaptiveEval.Proofs.Reference.Session
import AdaptiveEval.Proofs.Reference.Simulation
import AdaptiveEval.SampleGraphs
import Mathlib.Tactic

/-!
# Transparency of adaptation

Every script has the outcomes of the reference session, whatever its invocations leave behind in
sites, caches, slots and tiers, and however its steps end.
-/

namespace AdaptiveEval

open Reference (Run)

variable {lead : Lead} {ceiling fuel allowed : Nat}

theorem map_modify {α β : Type} {view : α → β} {change : α → α} {viewed : β → β}
    (hchange : ∀ item, view (change item) = viewed (view item)) (items : Array α) (id : Nat) :
    (items.modify id change).map view = (items.map view).modify id viewed := by
  refine Array.ext_getElem? fun other => ?_
  simp only [Array.getElem?_map, Array.getElem?_modify]
  split <;> simp [Function.comp_def, hchange]

theorem Lead.Covers.of_threshold_le {threshold : Nat} (hcovers : lead.Covers ceiling fuel allowed)
    (hthreshold : threshold ≤ ceiling) : lead.Covers threshold fuel allowed := by
  cases lead <;> simp only [Covers] at * <;> omega

theorem Lead.pick_ne_outOfFuel {α : Type} (report : Except Fault α → Except Fault Yield)
    (hreport : report (.error .outOfFuel) = .error .outOfFuel) {result plain : Except Fault α}
    (hends : (lead.pick (Outcome.ended (report result)) (.ended (report plain))).Ends) :
    lead.pick result plain ≠ .error .outOfFuel := by
  intro hout
  cases lead <;> simp only [pick] at hout hends <;> rw [hout, hreport] at hends <;>
    exact hends rfl

theorem Simulates.runNode {setting : Setting} (node : Node) :
    Simulates setting node.run (Reference.runNode node) := by
  cases node with
  | expr node => exact bind (eval node) fun value => pure _
  | stmt node => exact bind (exec node) fun flow => pure _
  | iteration condition body =>
      exact bind (loopStep (eval condition) (exec body)) fun progress => pure _
  | loop condition body budget =>
      exact bind (runLoop (loopStep (eval condition) (exec body)) budget) fun progress => pure _
  | wholeLoop condition body =>
      exact bind (executeLoop (loopStep (eval condition) (exec body))) fun flow => pure _

theorem TargetState.Sound.map {registry : Registry} {slots : Nat} {state : TargetState}
    (hsound : state.Sound registry slots) (name : String) (id : Int64) :
    state.Sound (registry.map name id) slots where
  sized := hsound.sized
  behind := Nat.le_succ_of_le hsound.behind
  fresh := Registry.fresh_map_of_generation_le hsound.behind name id
  readersFit := hsound.readersFit

theorem Target.ofRoot_sound (root : Root SiteId) (engine : Nat) (registry : Registry)
    (options : Options) (dependencies : List Dependency) :
    (ofRoot root engine registry options dependencies).state.Sound registry root.frameSize where
  sized := by simp [ofRoot, Descriptor.size, Descriptor.ofSize]
  behind := Nat.zero_le _
  fresh := Registry.fresh_of_entries_eq_empty rfl
  readersFit := readersFit_of_entries_eq_empty rfl

theorem Host.addTarget_of_getElem? {host : Host} {id : Nat} {engine : Engine}
    (hengine : host.engines[id]? = some engine) (root : RootShape) (options : Options)
    (dependencies : List Dependency) :
    host.addTarget id root options dependencies =
      some (host.targets.size,
        { host with
          nextSite := (root.label host.nextSite).2
          targets := host.targets.push
            (.ofRoot (root.label host.nextSite).1 id engine.registry options dependencies) }) := by
  unfold addTarget
  rw [hengine]
  rfl

section

variable {host : Host} {id : Nat} {target : Target} {engine : Engine} {arguments : Array Value}
  {frame : Frame} {depth : Nat} {driven : Target} {sites : Sites}

theorem Host.drive_of_getElem? {α : Type} {action : Eval α} {activation : Activation}
    {result : Except Fault α} (htarget : host.targets[activation.target]? = some target)
    (hengine : host.engines[target.engine]? = some engine)
    (hdrive : target.drive action
      (host.context fuel engine.registry target.options activation.arguments) activation.frame
      activation.depth host.sites = (result, frame, depth, driven, sites)) :
    host.drive fuel activation action =
      some (result, { activation with frame, depth },
        { host with
          targets := host.targets.setIfInBounds activation.target driven
          sites }) := by
  simp only [drive, htarget, hengine, Option.bind_eq_bind, Option.bind_some, hdrive]
  rfl

/-- An invocation is a run on a fresh frame, at the tier that is chosen first. -/
theorem Host.invoke_of_getElem? {result : Except Fault Value}
    (htarget : host.targets[id]? = some target)
    (hengine : host.engines[target.engine]? = some engine)
    (hdrive : ({ target with
        tiering := target.tiering.enter target.options.compileThreshold target.state.generation
          (host.broken target.dependencies) } : Target).drive target.root.run
      (host.context fuel engine.registry target.options arguments) target.freshFrame 0
      host.sites = (result, frame, depth, driven, sites)) :
    host.invoke fuel id arguments =
      some (result, { host with targets := host.targets.setIfInBounds id driven, sites }) := by
  simp only [invoke, htarget, hengine, Option.bind_eq_bind, Option.bind_some, Target.invoke, hdrive]
  rfl

end

def Target.view (target : Target) : Reference.Target :=
  { engine := target.engine
    slots := target.root.frameSize
    maxDepth := target.options.maxDepth
    body := Reference.runBody target.root.body }

def Activation.view (activation : Activation) : Reference.Activation :=
  { target := activation.target
    arguments := activation.arguments
    locals := { cells := activation.frame.cells, depth := activation.depth } }

/-- A target whose state agrees with its own engine. -/
def Target.Sound (engines : Array Engine) (ceiling : Nat) (target : Target) : Prop :=
  target.options.osrThreshold ≤ ceiling ∧
    ∃ engine, engines[target.engine]? = some engine ∧
      target.state.Sound engine.registry target.root.frameSize

def Action.threshold : Action → Nat
  | .addTarget _ _ options _ => options.osrThreshold
  | _ => 0

namespace Session

variable {session : Session}

def view (session : Session) : Reference.Session :=
  { engines := session.host.engines.map fun engine => engine.registry.ids
    flags := session.host.flags.map Flag.value
    targets := session.host.targets.map Target.view
    activations := session.activations.map Activation.view }

/-- No bound is put on the sites, which any node may share. -/
structure Sound (ceiling : Nat) (session : Session) : Prop where
  flags : ∀ (id : Nat) (flag : Flag), session.host.flags[id]? = some flag → flag.Coherent
  targets : ∀ (id : Nat) (target : Target), session.host.targets[id]? = some target →
    target.Sound session.host.engines ceiling

theorem view_empty : view {} = {} := by
  simp [view]

theorem sound_empty : Sound ceiling {} where
  flags _ _ hflag := by simp at hflag
  targets _ _ htarget := by simp at htarget

theorem Sound.map_flags (hsound : session.Sound ceiling) :
    session.host.flags.map Flag.get = session.host.flags.map Flag.value := by
  apply Array.ext_getElem?
  intro id
  simp only [Array.getElem?_map]
  cases hflag : session.host.flags[id]? with
  | none => rfl
  | some flag => exact congrArg some (hsound.flags id flag hflag).get_eq_value

def setting (session : Session) (engine : Engine) (target : Target) (arguments : Array Value)
    (hcovers : lead.Covers target.options.osrThreshold fuel allowed) : Setting :=
  { lead
    context := session.host.context fuel engine.registry target.options arguments
    slots := target.root.frameSize
    allowed
    covers := hcovers }

theorem Sound.run_view {α : Type} (hsound : session.Sound ceiling) {engine : Engine}
    {target : Target} {activation : Activation}
    (htarget : session.host.targets[activation.target]? = some target)
    (hengine : session.host.engines[target.engine]? = some engine)
    (hcovers : lead.Covers target.options.osrThreshold fuel allowed)
    (action : Reference.Target → Run α) :
    session.view.run allowed activation.view action =
      some (action target.view (session.setting engine target activation.arguments hcovers).plain
        activation.view.locals) := by
  have htargets : session.view.targets[activation.view.target]? = some target.view := by
    simp [view, Activation.view, htarget]
  have hengines : session.view.engines[target.view.engine]? = some engine.registry.ids := by
    simp [view, Target.view, hengine]
  unfold Reference.Session.run
  rw [htargets]
  dsimp only [Option.bind_eq_bind, Option.bind_some]
  rw [hengines]
  simp only [setting, Setting.plain, Host.context, hsound.map_flags]
  rfl

theorem run_view_of_getElem?_eq_none {α : Type} {activation : Activation}
    (htarget : session.host.targets[activation.target]? = none)
    (action : Reference.Target → Run α) :
    session.view.run allowed activation.view action = none := by
  simp [Reference.Session.run, view, Activation.view, htarget]

def settle (session : Session) (id : Nat) (target : Target) (sites : Sites) : Session :=
  { session with
    host := { session.host with targets := session.host.targets.setIfInBounds id target, sites } }

theorem Sound.settle (hsound : session.Sound ceiling) {target : Target}
    (htarget : target.Sound session.host.engines ceiling) (id : Nat) (sites : Sites) :
    (session.settle id target sites).Sound ceiling where
  flags := hsound.flags
  targets other held hheld := by
    simp only [Session.settle, Array.getElem?_setIfInBounds] at hheld
    split at hheld
    · split at hheld
      · obtain rfl := Option.some.inj hheld
        exact htarget
      · simp at hheld
    · exact hsound.targets other held hheld

theorem view_settle {id : Nat} {target settled : Target}
    (htarget : session.host.targets[id]? = some target) (hview : settled.view = target.view)
    (sites : Sites) : (session.settle id settled sites).view = session.view := by
  have htargets : (session.host.targets.setIfInBounds id settled).map Target.view =
      session.host.targets.map Target.view := by
    obtain ⟨hlt, hget⟩ := Array.getElem?_eq_some_iff.mp htarget
    apply Array.ext_getElem?
    intro other
    by_cases hother : id = other
    · subst hother
      simp [hlt, hget, hview]
    · simp [hother]
  simp only [view, settle, htargets]

theorem Sound.drive {α : Type} (hsound : session.Sound ceiling)
    (hcovers : lead.Covers ceiling fuel allowed) {target : Target} (activation : Activation)
    (htarget : session.host.targets[activation.target]? = some target) {engine : Engine}
    (hengine : session.host.engines[target.engine]? = some engine) {action : Eval α}
    (plain : Reference.Target → Run α)
    (hsimulates : ∀ setting, Simulates setting action (plain target.view)) (tiering : Tiering)
    {result : Except Fault α} {frame : Frame} {depth : Nat} {driven : Target} {sites : Sites}
    (hdrive : ({ target with tiering } : Target).drive action
      (session.host.context fuel engine.registry target.options activation.arguments)
      activation.frame activation.depth session.host.sites =
        (result, frame, depth, driven, sites)) :
    ∃ plainRun, session.view.run allowed activation.view plain = some plainRun ∧
      (lead.pick result plainRun.1 ≠ .error .outOfFuel →
        plainRun = (result, { cells := frame.cells, depth }) ∧
          (session.settle activation.target driven sites).Sound ceiling ∧
          (session.settle activation.target driven sites).view = session.view) := by
  obtain ⟨hthreshold, held, hheld, hstate⟩ := hsound.targets _ _ htarget
  obtain rfl : held = engine := Option.some.inj (hheld.symm.trans hengine)
  have hcovered := hcovers.of_threshold_le hthreshold
  refine ⟨_, hsound.run_view htarget hengine hcovered plain, fun hends => ?_⟩
  simp only [Target.drive, Prod.mk.injEq] at hdrive
  obtain ⟨rfl, rfl, rfl, rfl, rfl⟩ := hdrive
  obtain ⟨hplain, hafter⟩ := hsimulates
    (session.setting held target activation.arguments hcovered)
    ⟨activation.frame, activation.depth, target.state, session.host.sites⟩ hstate hends
  refine ⟨hplain, ?_, ?_⟩
  · refine hsound.settle ?_ _ _
    exact ⟨hthreshold, held, hengine, hafter⟩
  · refine view_settle htarget ?_ _
    rfl

/-- A step and its reference have the same outcome and leave matching sessions. -/
def Agrees (ceiling : Nat) (run : Outcome × Session) (plain : Outcome × Reference.Session) : Prop :=
  plain = (run.1, run.2.view) ∧ run.2.Sound ceiling

namespace Sound

theorem addEngine (hsound : session.Sound ceiling) (options : EngineOptions) :
    Agrees ceiling (session.perform fuel (.addEngine options))
      (session.view.perform allowed (.addEngine options)) := by
  refine ⟨?_, hsound.flags, fun id target htarget => ?_⟩
  · simp [perform, Reference.Session.perform, view, Host.addEngine, Engine.ofOptions,
      Registry.ofLimit]
  · obtain ⟨hthreshold, engine, hengine, hstate⟩ := hsound.targets id target htarget
    refine ⟨hthreshold, engine, ?_, hstate⟩
    have hlt : target.engine < session.host.engines.size :=
      (Array.getElem?_eq_some_iff.mp hengine).1
    change (session.host.engines.push (.ofOptions options))[target.engine]? = some engine
    rw [Array.getElem?_push_lt hlt, ← Array.getElem?_eq_getElem hlt, hengine]

theorem addFlag (hsound : session.Sound ceiling) (name : String) :
    Agrees ceiling (session.perform fuel (.addFlag name))
      (session.view.perform allowed (.addFlag name)) := by
  refine ⟨?_, fun id flag hflag => ?_, hsound.targets⟩
  · simp [perform, Reference.Session.perform, view, Host.addFlag, Flag.ofName]
  · change (session.host.flags.push (.ofName name))[id]? = some flag at hflag
    rw [Array.getElem?_push] at hflag
    split at hflag
    · obtain rfl := Option.some.inj hflag
      exact Flag.coherent_ofName name
    · exact hsound.flags id flag hflag

theorem modifyFlag (hsound : session.Sound ceiling) {change : Flag → Flag}
    (hchange : ∀ flag : Flag, flag.Coherent → (change flag).Coherent) (id : Nat) :
    Sound ceiling
      { session with host := { session.host with flags := session.host.flags.modify id change } }
    where
  flags other flag hflag := by
    rw [Array.getElem?_modify] at hflag
    split at hflag
    · obtain ⟨held, hheld, rfl⟩ := Option.map_eq_some_iff.mp hflag
      exact hchange held (hsound.flags other held hheld)
    · exact hsound.flags other flag hflag
  targets := hsound.targets

theorem setFlag (hsound : session.Sound ceiling) (id : Nat) (value : Bool) :
    Agrees ceiling (session.perform fuel (.setFlag id value))
      (session.view.perform allowed (.setFlag id value)) := by
  have hflags : (session.host.flags.modify id (·.set value)).map Flag.value =
      (session.host.flags.map Flag.value).modify id fun _ => value :=
    map_modify (fun flag => flag.value_set value) _ id
  refine ⟨?_, hsound.modifyFlag (fun flag hcoherent => hcoherent.set value) id⟩
  simp only [Session.perform, Reference.Session.perform, view, Host.setFlag, hflags]

theorem invalidate (hsound : session.Sound ceiling) (dependency : Dependency) :
    Agrees ceiling (session.perform fuel (.invalidate dependency))
      (session.view.perform allowed (.invalidate dependency)) := by
  cases dependency with
  | assumption id => exact ⟨rfl, hsound.flags, hsound.targets⟩
  | flag id =>
      have hflags : (session.host.flags.modify id fun flag => flag.invalidate.2).map Flag.value =
          session.host.flags.map Flag.value := by
        refine Array.ext_getElem? fun other => ?_
        simp only [Array.getElem?_map, Array.getElem?_modify]
        split <;> simp [Function.comp_def]
      refine ⟨?_, hsound.modifyFlag (fun flag _ => flag.coherent_invalidate) id⟩
      simp only [Session.perform, Reference.Session.perform, view, Host.invalidate, hflags]

/-- A mapping change leaves behind every cache of its engine, and touches no other engine. -/
theorem map (hsound : session.Sound ceiling) (id : Nat) (name : String) (number : Int64) :
    Agrees ceiling (session.perform fuel (.map id name number))
      (session.view.perform allowed (.map id name number)) := by
  refine ⟨?_, hsound.flags, fun other target htarget => ?_⟩
  · have hengines : (session.host.engines.modify id fun engine =>
          { engine with registry := engine.registry.map name number }).map
            (fun engine => engine.registry.ids) =
        (session.host.engines.map fun engine => engine.registry.ids).modify id
          (·.insert name number) := by
      apply map_modify
      intro engine
      rfl
    simp only [Session.perform, Reference.Session.perform, view, Host.map, hengines]
  · obtain ⟨hthreshold, engine, hengine, hstate⟩ := hsound.targets other target htarget
    by_cases hid : id = target.engine
    · refine ⟨hthreshold, { engine with registry := engine.registry.map name number }, ?_,
        hstate.map name number⟩
      simp [Session.perform, Host.map, Array.getElem?_modify, hid, hengine]
    · refine ⟨hthreshold, engine, ?_, hstate⟩
      simp [Session.perform, Host.map, Array.getElem?_modify, hid, hengine]

theorem addTarget (hsound : session.Sound ceiling) (engine : Nat) (root : RootShape)
    {options : Options} (hthreshold : options.osrThreshold ≤ ceiling)
    (dependencies : List Dependency) :
    Agrees ceiling (session.perform fuel (.addTarget engine root options dependencies))
      (session.view.perform allowed (.addTarget engine root options dependencies)) := by
  have hsize : session.view.engines.size = session.host.engines.size := by
    simp [view]
  simp only [Session.perform, Reference.Session.perform, hsize]
  cases hengine : session.host.engines[engine]? with
  | none =>
      have habsent : session.host.addTarget engine root options dependencies = none := by
        simp [Host.addTarget, hengine]
      rw [habsent, if_neg (by simpa using hengine)]
      exact ⟨rfl, hsound⟩
  | some held =>
      rw [Host.addTarget_of_getElem? hengine, if_pos (Array.getElem?_eq_some_iff.mp hengine).1]
      refine ⟨?_, hsound.flags, fun id target htarget => ?_⟩
      · simp only [view, Array.map_push, Target.view, Target.ofRoot, Reference.runBody_label]
        rfl
      · dsimp only at htarget
        rw [Array.getElem?_push] at htarget
        split at htarget
        · obtain rfl := Option.some.inj htarget
          exact ⟨hthreshold, held, hengine, Target.ofRoot_sound _ _ _ _ _⟩
        · exact hsound.targets id target htarget

theorem enroll (hsound : session.Sound ceiling) (activation : Option Activation) :
    Agrees ceiling (session.enroll activation)
      (session.view.enroll (activation.map Activation.view)) := by
  cases activation with
  | none => exact ⟨rfl, hsound⟩
  | some activation =>
      refine ⟨?_, hsound.flags, hsound.targets⟩
      simp [Session.enroll, Reference.Session.enroll, view]

theorem cells_freshFrame (hsound : session.Sound ceiling) {id : Nat} {target : Target}
    (htarget : session.host.targets[id]? = some target) :
    target.freshFrame.cells = List.replicate target.root.frameSize none := by
  obtain ⟨_, _, _, hstate⟩ := hsound.targets id target htarget
  unfold Target.freshFrame Frame.ofDescriptor
  rw [Frame.cells_ofSize, hstate.sized]

theorem activate_view (hsound : session.Sound ceiling) (id : Nat) (arguments : Array Value) :
    session.view.activate id arguments Reference.Session.freshCells =
      (session.host.activate id arguments).map Activation.view := by
  unfold Reference.Session.activate Host.activate
  cases htarget : session.host.targets[id]? with
  | none => simp [view, htarget]
  | some target =>
      have hcells : target.freshFrame.cells = Reference.Session.freshCells target.view :=
        hsound.cells_freshFrame htarget
      simp [view, htarget, Activation.view, hcells]

end Sound

theorem resume_view (session : Session) (id : Nat) (arguments : Array Value) (frame : Frame) :
    (session.view.activate id arguments fun _ => frame.cells) =
      (session.host.resume id arguments frame).map Activation.view := by
  unfold Reference.Session.activate Host.resume
  cases htarget : session.host.targets[id]? with
  | none => simp [view, htarget]
  | some target => simp [view, htarget, Activation.view]

namespace Sound

theorem activate (hsound : session.Sound ceiling) (id : Nat) (arguments : Array Value) :
    Agrees ceiling (session.perform fuel (.activate id arguments))
      (session.view.perform allowed (.activate id arguments)) := by
  simp only [Session.perform, Reference.Session.perform, hsound.activate_view]
  exact hsound.enroll _

theorem resume (hsound : session.Sound ceiling) (id : Nat) (arguments : Array Value)
    (frame : Frame) :
    Agrees ceiling (session.perform fuel (.resume id arguments frame))
      (session.view.perform allowed (.resume id arguments frame)) := by
  have hplain := session.resume_view id arguments frame
  unfold Frame.cells at hplain
  simp only [Session.perform, Reference.Session.perform, hplain]
  exact hsound.enroll _

theorem transfer (hsound : session.Sound ceiling) (id : Nat) (arguments : Array Value)
    (source : Nat) :
    Agrees ceiling (session.perform fuel (.transfer id arguments source))
      (session.view.perform allowed (.transfer id arguments source)) := by
  have hsource : session.view.activations[source]? =
      session.activations[source]?.map Activation.view := by
    simp [view]
  simp only [Session.perform, Reference.Session.perform, hsource]
  cases session.activations[source]? with
  | none => exact hsound.enroll none
  | some activation =>
      have hplain := session.resume_view id arguments activation.frame
      change Agrees ceiling (session.enroll (session.host.resume id arguments activation.frame))
        (session.view.enroll (session.view.activate id arguments fun _ => activation.frame.cells))
      rw [hplain]
      exact hsound.enroll _

theorem invoke (hsound : session.Sound ceiling) (hcovers : lead.Covers ceiling fuel allowed)
    {id : Nat} {arguments : Array Value}
    (hends : (lead.pick (session.perform fuel (.invoke id arguments)).1
      (session.view.perform allowed (.invoke id arguments)).1).Ends) :
    Agrees ceiling (session.perform fuel (.invoke id arguments))
      (session.view.perform allowed (.invoke id arguments)) := by
  simp only [Session.perform, Reference.Session.perform, hsound.activate_view] at hends ⊢
  cases htarget : session.host.targets[id]? with
  | none =>
      simp only [Host.invoke, Host.activate, htarget]
      exact ⟨rfl, hsound⟩
  | some target =>
      obtain ⟨_, engine, hengine, _⟩ := hsound.targets id target htarget
      let activation : Activation := { target := id, arguments, frame := target.freshFrame }
      have hactivate : session.host.activate id arguments = some activation := by
        simp only [Host.activate, htarget]
        rfl
      rcases hdrive : ({ target with
          tiering := target.tiering.enter target.options.compileThreshold target.state.generation
            (session.host.broken target.dependencies) } : Target).drive target.root.run
        (session.host.context fuel engine.registry target.options arguments) target.freshFrame 0
        session.host.sites with ⟨result, frame, depth, driven, sites⟩
      obtain ⟨⟨plainResult, locals⟩, hplain, hagree⟩ :=
        hsound.drive hcovers activation htarget hengine Reference.Target.body
          (fun _ => Simulates.run target.root) _ hdrive
      simp only [hactivate, Option.map_some, hplain, Host.invoke_of_getElem? htarget hengine hdrive]
        at hends ⊢
      obtain ⟨hrun, hsettled, hview⟩ := hagree (Lead.pick_ne_outOfFuel (Except.map .value) rfl hends)
      obtain ⟨rfl, -⟩ := Prod.mk.inj hrun
      exact ⟨congrArg (Prod.mk _) hview.symm, hsettled⟩

theorem driveNode (hsound : session.Sound ceiling) (hcovers : lead.Covers ceiling fuel allowed)
    {id : Nat} {node : Node}
    (hends : (lead.pick (session.perform fuel (.drive id node)).1
      (session.view.perform allowed (.drive id node)).1).Ends) :
    Agrees ceiling (session.perform fuel (.drive id node))
      (session.view.perform allowed (.drive id node)) := by
  have hactivations : session.view.activations[id]? =
      session.activations[id]?.map Activation.view := by
    simp [view]
  simp only [Session.perform, Reference.Session.perform, hactivations] at hends ⊢
  generalize session.activations[id]? = held at hends ⊢
  cases held with
  | none => exact ⟨rfl, hsound⟩
  | some activation =>
      dsimp only [Option.map_some] at hends ⊢
      cases htarget : session.host.targets[activation.target]? with
      | none =>
          simp only [Host.drive, htarget, run_view_of_getElem?_eq_none htarget]
          exact ⟨rfl, hsound⟩
      | some target =>
          obtain ⟨_, engine, hengine, _⟩ := hsound.targets _ target htarget
          rcases hdrive : target.drive node.run
            (session.host.context fuel engine.registry target.options activation.arguments)
            activation.frame activation.depth session.host.sites with
            ⟨result, frame, depth, driven, sites⟩
          obtain ⟨⟨plainResult, locals⟩, hplain, hagree⟩ :=
            hsound.drive hcovers activation htarget hengine (fun _ => Reference.runNode node)
              (fun _ => Simulates.runNode node) target.tiering hdrive
          simp only [hplain, Host.drive_of_getElem? htarget hengine hdrive] at hends ⊢
          obtain ⟨hrun, hsettled, hview⟩ := hagree
            (Lead.pick_ne_outOfFuel (fun result => result) rfl hends)
          obtain ⟨rfl, rfl⟩ := Prod.mk.inj hrun
          refine ⟨?_, hsettled.flags, hsettled.targets⟩
          rw [← hview]
          simp [view, Session.settle, Activation.view]

theorem perform (hsound : session.Sound ceiling) (hcovers : lead.Covers ceiling fuel allowed)
    {action : Action} (hthreshold : action.threshold ≤ ceiling)
    (hends : (lead.pick (session.perform fuel action).1
      (session.view.perform allowed action).1).Ends) :
    Agrees ceiling (session.perform fuel action) (session.view.perform allowed action) := by
  cases action with
  | addEngine options => exact hsound.addEngine options
  | addFlag name => exact hsound.addFlag name
  | addAssumption name => exact ⟨rfl, hsound.flags, hsound.targets⟩
  | addTarget engine root options dependencies =>
      exact hsound.addTarget engine root hthreshold dependencies
  | map engine name id => exact hsound.map engine name id
  | setFlag flag value => exact hsound.setFlag flag value
  | invalidate dependency => exact hsound.invalidate dependency
  | invoke target arguments => exact hsound.invoke hcovers hends
  | activate target arguments => exact hsound.activate target arguments
  | resume target arguments frame => exact hsound.resume target arguments frame
  | transfer target arguments source => exact hsound.transfer target arguments source
  | drive activation node => exact hsound.driveNode hcovers hends

theorem outcomes (hcovers : lead.Covers ceiling fuel allowed) (actions : List Action) :
    ∀ session : Session, session.Sound ceiling →
      (∀ action ∈ actions, action.threshold ≤ ceiling) →
      (∀ outcome ∈ lead.pick (session.outcomes fuel actions) (session.view.outcomes allowed actions),
        outcome.Ends) →
      session.view.outcomes allowed actions = session.outcomes fuel actions := by
  induction actions with
  | nil => intros; rfl
  | cons action rest ih =>
      intro session hsound hthresholds hends
      obtain ⟨hthreshold, hthresholds⟩ := List.forall_mem_cons.mp hthresholds
      simp only [Session.outcomes, Reference.Session.outcomes] at hends ⊢
      have hfirst : (lead.pick (session.perform fuel action).1
          (session.view.perform allowed action).1).Ends := by
        cases lead <;> exact hends _ (List.mem_cons_self ..)
      obtain ⟨hplain, hafter⟩ := hsound.perform hcovers hthreshold hfirst
      rw [hplain] at hends ⊢
      refine congrArg (List.cons _) (ih _ hafter hthresholds fun outcome hmem => ?_)
      cases lead <;> exact hends outcome (List.mem_cons_of_mem _ hmem)

end Sound

theorem exists_ceiling (actions : List Action) :
    ∃ ceiling, ∀ action ∈ actions, action.threshold ≤ ceiling := by
  induction actions with
  | nil => exact ⟨0, by simp⟩
  | cons action rest ih =>
      obtain ⟨ceiling, hceiling⟩ := ih
      refine ⟨max action.threshold ceiling, List.forall_mem_cons.mpr ⟨by omega, ?_⟩⟩
      intro other hother
      exact Nat.le_trans (hceiling other hother) (Nat.le_max_right _ _)

/-- Every bound from some one on gives the outcomes. -/
def Settles (outcomes : Nat → List Outcome) (expected : List Outcome) : Prop :=
  ∃ bound, ∀ fuel, bound ≤ fuel → outcomes fuel = expected

/-- Adaptation is transparent: a script whose steps end has the outcomes of the reference session.
A script with a step that does not end has no later steps, and the earlier ones are a script of
their own. -/
theorem adaptation_transparent (actions : List Action) {expected : List Outcome}
    (hends : ∀ outcome ∈ expected, outcome.Ends) :
    List.TFAE
      [ ∃ fuel, ({} : Session).outcomes fuel actions = expected,
        Settles (fun fuel => ({} : Reference.Session).outcomes fuel actions) expected,
        ∃ fuel, ({} : Reference.Session).outcomes fuel actions = expected,
        Settles (fun fuel => ({} : Session).outcomes fuel actions) expected ] := by
  obtain ⟨ceiling, hceiling⟩ := exists_ceiling actions
  tfae_have 1 → 2 := by
    rintro ⟨fuel, hrun⟩
    refine ⟨ceiling + fuel, fun allowed hallowed => ?_⟩
    have hcovers : Lead.adaptive.Covers ceiling fuel allowed := hallowed
    have hsame := Sound.outcomes hcovers actions {} sound_empty hceiling
    rw [view_empty, hrun] at hsame
    exact hsame hends
  tfae_have 2 → 3 := fun ⟨bound, hbound⟩ => ⟨bound, hbound bound (Nat.le_refl bound)⟩
  tfae_have 3 → 4 := by
    rintro ⟨allowed, hplain⟩
    refine ⟨allowed, fun fuel hfuel => ?_⟩
    have hcovers : Lead.reference.Covers ceiling fuel allowed := hfuel
    have hsame := Sound.outcomes hcovers actions {} sound_empty hceiling
    rw [view_empty, hplain] at hsame
    exact (hsame hends).symm
  tfae_have 4 → 1 := fun ⟨bound, hbound⟩ => ⟨bound, hbound bound (Nat.le_refl bound)⟩
  tfae_finish

/-- A loop that is handed over, a failure and an index outside a progression, on one target. -/
def mixedScript : List Action :=
  [ .addEngine { cacheLimit := 1 },
    .addTarget 0 (SampleGraph.scaledSum 2) { compileThreshold := 1, osrThreshold := 1 } [],
    .invoke 0 #[.array (.progression { start := 0, length := 3, stride := 1 })],
    .invoke 0 #[.str "items"],
    .activate 0 #[],
    .drive 0 (.expr (.element 0
      (.const (.array (.progression { start := 0, length := 3, stride := 1 })))
      (.const (.int 7)))),
    .invoke 0 #[.array (.dense 0 #[.int 4, .int 5])] ]

def mixedOutcomes : List Outcome :=
  [ .done,
    .done,
    .ended (.ok (.value (.int 6))),
    .ended (.error (.runtime (.notAnArray .str))),
    .done,
    .ended (.error (.breach { index := 7, length := 3 })),
    .ended (.ok (.value (.int 18))) ]

theorem adaptation_transparent_mixed :
    (∀ outcome ∈ mixedOutcomes, outcome.Ends) ∧
      Settles (fun fuel => ({} : Session).outcomes fuel mixedScript) mixedOutcomes := by
  have hends : ∀ outcome ∈ mixedOutcomes, outcome.Ends := by
    simp [mixedOutcomes, Outcome.Ends]
  have hplain : ∃ fuel, ({} : Reference.Session).outcomes fuel mixedScript = mixedOutcomes :=
    ⟨4, by cbv⟩
  exact ⟨hends, ((adaptation_transparent mixedScript hends).out 2 3).mp hplain⟩

end Session

end AdaptiveEval
