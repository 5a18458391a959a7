import AdaptiveEval.Proofs.TargetOptions
import AdaptiveEval.SampleGraphs

/-!
# The depth limit

A limit cuts a run off or leaves it as it is. It never cuts off what fits into it, in an invocation
or on an activation that has failed before, and it is reached where it is reported.
-/

namespace AdaptiveEval

namespace Host

variable {host : Host} {fuel id : Nat} {arguments : Array Value}

/-- The frame that an invocation has when it ends. -/
def lastFrame? (host : Host) (fuel id : Nat) (arguments : Array Value) : Option Frame :=
  (host.start? fuel id arguments).map fun (target, context) =>
    (target.root.run context (target.machine host.sites)).2.frame

theorem lastFrame?_withOptions {target : Target} {context : Context}
    (hstart : host.start? fuel id arguments = some (target, context))
    (change : Options → Options) :
    (host.withOptions id change).lastFrame? fuel id arguments =
      some (target.root.run (context.withBounds (change context.options) fuel)
        (target.machine host.sites)).2.frame := by
  unfold lastFrame?
  rw [start?_withOptions hstart]
  rfl

/-- A larger limit repeats an invocation that the smaller one did not cut off. -/
theorem invoke_withMaxDepth_of_le {limit higher : Nat} (hle : limit ≤ higher)
    {result : Except Fault Value} {after : Host}
    (hrun : (host.withMaxDepth id limit).invoke fuel id arguments = some (result, after))
    (hends : ¬Overflows result) :
    (host.withMaxDepth id higher).invoke fuel id arguments =
        some (result, after.withMaxDepth id higher) ∧
      (host.withMaxDepth id higher).lastFrame? fuel id arguments =
        (host.withMaxDepth id limit).lastFrame? fuel id arguments := by
  obtain ⟨target, context, hstart⟩ := start?_of_withOptions hrun
  have hlimited :=
    invoke_withOptions hstart (fun options => { options with maxDepth := limit }) fuel
  obtain ⟨rfl, rfl⟩ := Prod.mk.inj (Option.some.inj (hlimited.symm.trans hrun))
  have hsame := (Eval.Composed.run trivial target.root).apply_withMaxDepth hle hends
  constructor
  · refine (invoke_withOptions hstart _ fuel).trans ?_
    unfold withMaxDepth withOptions ended
    rw [modifyTarget_settle]
    exact congrArg some (congrArg (host.ended id _) hsame)
  · refine (lastFrame?_withOptions hstart _).trans ?_
    refine Eq.trans ?_ (lastFrame?_withOptions hstart _).symm
    exact congrArg (fun run => some run.2.frame) hsame

/-- How the body of an invocation treats the depth. -/
theorem balanced_of_invoke {result : Except Fault Value} {after : Host}
    (hrun : host.invoke fuel id arguments = some (result, after)) :
    ∃ (target : Target) (machine : Machine), host.targets[id]? = some target ∧
      Balanced target.options.maxDepth target.root.body.height 0 (result, machine) := by
  rw [invoke_eq_map_start?] at hrun
  obtain ⟨⟨target, context⟩, hstart, hrun⟩ := Option.map_eq_some_iff.mp hrun
  have hbalanced := (Eval.Composed.run trivial target.root).balanced context
    (target.machine host.sites)
  rw [options_of_start? hstart] at hbalanced
  obtain rfl : _ = result := congrArg Prod.fst hrun
  exact ⟨target, _, getElem?_of_start? hstart, hbalanced⟩

end Host

namespace Session

/-- The limit under which an action runs its nodes. -/
def limit? (session : Session) : Action → Option Nat
  | .invoke id _ => session.host.targets[id]?.map fun target => target.options.maxDepth
  | .drive id _ => do
      let activation ← session.activations[id]?
      let target ← session.host.targets[activation.target]?
      return target.options.maxDepth
  | _ => none

/-- Driving a node by hand, with the target and the machine of the activation. -/
structure Drive (fuel : Nat) (session : Session) (id : Nat) (node : Node) where
  activation : Activation
  target : Target
  context : Context
  hactivation : session.activations[id]? = some activation
  hstart : session.host.start? fuel activation.target activation.arguments = some (target, context)

namespace Drive

variable {fuel : Nat} {session : Session} {id : Nat} {node : Node}

def run (drive : Drive fuel session id node) : Except Fault Yield × Machine :=
  node.run drive.context (drive.activation.machine drive.target session.host.sites)

theorem perform_eq (drive : Drive fuel session id node) :
    session.perform fuel (.drive id node) =
      (.ended drive.run.1,
        { host := (session.host.reached drive.activation drive.target drive.run.2).2
          activations := session.activations.setIfInBounds id
            (session.host.reached drive.activation drive.target drive.run.2).1 }) := by
  simp only [perform, drive.hactivation, Host.drive_eq_map_start?, drive.hstart, Option.map_some]
  rfl

theorem balanced (drive : Drive fuel session id node) :
    Balanced drive.target.options.maxDepth node.height drive.activation.depth drive.run := by
  obtain ⟨_, hcomposed⟩ := Eval.Composed.node trivial node
  have hbalanced := hcomposed.balanced drive.context
    (drive.activation.machine drive.target session.host.sites)
  rw [Host.options_of_start? drive.hstart] at hbalanced
  exact hbalanced

theorem limit?_eq (drive : Drive fuel session id node) :
    session.limit? (.drive id node) = some drive.target.options.maxDepth := by
  simp [limit?, drive.hactivation, Host.getElem?_of_start? drive.hstart]

end Drive

/-- A node is driven unless its activation or its target is missing. -/
theorem drive_or_absent (session : Session) (fuel id : Nat) (node : Node) :
    Nonempty (Drive fuel session id node) ∨
      session.perform fuel (.drive id node) = (.absent, session) := by
  cases hactivation : session.activations[id]? with
  | none =>
      right
      simp only [perform, hactivation]
  | some activation =>
      cases hstart : session.host.start? fuel activation.target activation.arguments with
      | none =>
          right
          simp only [perform, hactivation, Host.drive_eq_map_start?, hstart, Option.map_none]
      | some started => exact Or.inl ⟨⟨activation, started.1, started.2, hactivation, hstart⟩⟩

/-- Where an activation of a session stood before an action. -/
inductive Origin (fuel : Nat) (session : Session) (id : Nat) :
    Action → Activation → Prop where
  | kept {action : Action} {activation : Activation}
      (hbefore : session.activations[id]? = some activation) :
      Origin fuel session id action activation
  | enrolled {action : Action} {activation : Activation} {target : Target}
      (hdepth : activation.depth = 0)
      (htarget : session.host.targets[activation.target]? = some target) :
      Origin fuel session id action activation
  | driven {node : Node} (drive : Drive fuel session id node) :
      Origin fuel session id (.drive id node)
        (session.host.reached drive.activation drive.target drive.run.2).1

section Origin

variable {fuel : Nat} {session : Session} {id : Nat} {activation : Activation}

theorem origin_enroll {action : Action} {enrolled : Option Activation}
    (henrolled : ∀ activation ∈ enrolled, activation.depth = 0 ∧
      ∃ target, session.host.targets[activation.target]? = some target)
    (hafter : (session.enroll enrolled).2.activations[id]? = some activation) :
    Origin fuel session id action activation := by
  cases enrolled with
  | none => exact .kept hafter
  | some added =>
      change (session.activations.push added)[id]? = some activation at hafter
      rw [Array.getElem?_push] at hafter
      by_cases heq : id = session.activations.size
      · rw [if_pos heq] at hafter
        cases hafter
        obtain ⟨hdepth, target, htarget⟩ := henrolled activation rfl
        exact .enrolled hdepth htarget
      · rw [if_neg heq] at hafter
        exact .kept hafter

theorem origin_drive {other : Nat} {node : Node}
    (hafter : (session.perform fuel (.drive other node)).2.activations[id]? = some activation) :
    Origin fuel session id (.drive other node) activation := by
  obtain ⟨⟨drive⟩⟩ | habsent := session.drive_or_absent fuel other node
  · rw [drive.perform_eq, Array.getElem?_setIfInBounds] at hafter
    by_cases heq : other = id
    · subst heq
      have hlt := (Array.getElem?_eq_some_iff.mp drive.hactivation).1
      rw [if_pos rfl, if_pos hlt] at hafter
      cases hafter
      exact .driven drive
    · rw [if_neg heq] at hafter
      exact .kept hafter
  · rw [habsent] at hafter
    exact .kept hafter

theorem depth_of_resume {host : Host} {target : Nat} {arguments : Array Value} {frame : Frame}
    (hresume : host.resume target arguments frame = some activation) :
    activation.depth = 0 ∧ ∃ held, host.targets[activation.target]? = some held := by
  obtain ⟨held, hheld, hresume⟩ := Option.bind_eq_some_iff.mp hresume
  cases hresume
  exact ⟨rfl, held, hheld⟩

theorem perform_origin {action : Action}
    (hafter : (session.perform fuel action).2.activations[id]? = some activation) :
    Origin fuel session id action activation := by
  cases action with
  | drive other node => exact origin_drive hafter
  | activate target arguments =>
      refine origin_enroll (fun activation hactivate => ?_) hafter
      obtain ⟨held, hheld, hactivate⟩ := Option.bind_eq_some_iff.mp hactivate
      cases hactivate
      exact ⟨rfl, held, hheld⟩
  | resume target arguments frame =>
      exact origin_enroll (fun activation hresume => depth_of_resume hresume) hafter
  | transfer target arguments source =>
      refine origin_enroll (fun activation htransfer => ?_) hafter
      obtain ⟨moved, _, hresume⟩ := Option.bind_eq_some_iff.mp htransfer
      exact depth_of_resume hresume
  | addTarget engine root options dependencies =>
      simp only [perform] at hafter
      split at hafter <;> exact .kept hafter
  | invoke target arguments =>
      simp only [perform] at hafter
      split at hafter <;> exact .kept hafter
  | _ => exact .kept hafter

end Origin

/-- No activation is deeper than the limit of its target. -/
def Shallow (session : Session) : Prop :=
  ∀ (id : Nat) (activation : Activation), session.activations[id]? = some activation →
    ∃ target, session.host.targets[activation.target]? = some target ∧
      activation.depth ≤ target.options.maxDepth

theorem Shallow.perform {session : Session} (hshallow : session.Shallow) (fuel : Nat)
    (action : Action) : (session.perform fuel action).2.Shallow := by
  intro id activation hafter
  have heffect := session.perform_effect fuel action
  -- Targets keep their options, so that the limits of the session before will do.
  have hbefore : ∃ target, session.host.targets[activation.target]? = some target ∧
      activation.depth ≤ target.options.maxDepth := by
    cases perform_origin hafter with
    | kept hbefore => exact hshallow id activation hbefore
    | enrolled hdepth htarget => exact ⟨_, htarget, by omega⟩
    | driven drive =>
        obtain ⟨held, hheld, hle⟩ := hshallow id drive.activation drive.hactivation
        obtain rfl : held = drive.target :=
          Option.some.inj (hheld.symm.trans (Host.getElem?_of_start? drive.hstart))
        exact ⟨_, hheld, drive.balanced.within hle⟩
  obtain ⟨target, htarget, hle⟩ := hbefore
  obtain ⟨next, hnext, _, _, hoptions⟩ := heffect.persists htarget
  exact ⟨next, hnext, by rw [hoptions]; exact hle⟩

theorem Shallow.run {session : Session} (hshallow : session.Shallow) (fuel : Nat)
    (actions : List Action) : (session.run fuel actions).Shallow := by
  induction actions generalizing session with
  | nil => exact hshallow
  | cons action rest ih => exact ih (hshallow.perform fuel action)

section Reported

variable {session : Session} {fuel reached limit : Nat}

theorem reported_invoke {id : Nat} {arguments : Array Value}
    (hover : (session.perform fuel (.invoke id arguments)).1 =
      .ended (.error (.stackOverflow reached limit))) :
    reached = limit ∧ session.limit? (.invoke id arguments) = some limit := by
  simp only [perform] at hover
  cases hrun : session.host.invoke fuel id arguments with
  | none =>
      rw [hrun] at hover
      cases hover
  | some ended =>
      obtain ⟨result, after⟩ := ended
      rw [hrun] at hover
      obtain ⟨target, machine, htarget, hbalanced⟩ := Host.balanced_of_invoke hrun
      have hresult : result = .error (.stackOverflow reached limit) := by
        cases result with
        | ok value => cases hover
        | error fault =>
            cases hover
            rfl
      obtain ⟨rfl, rfl⟩ := hbalanced.reported (Nat.zero_le _) _ _ hresult
      exact ⟨rfl, by simp [limit?, htarget]⟩

theorem Shallow.reported_drive (hshallow : session.Shallow) {id : Nat} {node : Node}
    (hover : (session.perform fuel (.drive id node)).1 =
      .ended (.error (.stackOverflow reached limit))) :
    reached = limit ∧ session.limit? (.drive id node) = some limit := by
  obtain ⟨⟨drive⟩⟩ | habsent := session.drive_or_absent fuel id node
  · rw [drive.perform_eq] at hover
    obtain ⟨held, hheld, hle⟩ := hshallow id drive.activation drive.hactivation
    obtain rfl : held = drive.target :=
      Option.some.inj (hheld.symm.trans (Host.getElem?_of_start? drive.hstart))
    obtain ⟨rfl, rfl⟩ := drive.balanced.reported hle _ _ (Outcome.ended.inj hover)
    exact ⟨rfl, drive.limit?_eq⟩
  · rw [habsent] at hover
    cases hover

theorem enroll_fst_ne_ended (activation : Option Activation) (result : Except Fault Yield) :
    (session.enroll activation).1 ≠ .ended result := by
  cases activation <;> exact nofun

/-- A limit that cuts an action off is the one that the action runs under, and the depth is that
limit. -/
theorem Shallow.reported (hshallow : session.Shallow) {action : Action}
    (hover : (session.perform fuel action).1 = .ended (.error (.stackOverflow reached limit))) :
    reached = limit ∧ session.limit? action = some limit := by
  cases action with
  | invoke id arguments => exact reported_invoke hover
  | drive id node => exact hshallow.reported_drive hover
  | activate id arguments => exact absurd hover (enroll_fst_ne_ended _ _)
  | resume id arguments frame => exact absurd hover (enroll_fst_ne_ended _ _)
  | transfer id arguments source => exact absurd hover (enroll_fst_ne_ended _ _)
  | addTarget engine root options dependencies =>
      simp only [Session.perform] at hover
      split at hover <;> cases hover
  | _ => cases hover

end Reported

/-- An activation that is not in the midst of a node. -/
def Rested (session : Session) (id : Nat) : Prop :=
  ∀ activation, session.activations[id]? = some activation → activation.depth = 0

theorem Rested.perform {session : Session} {id : Nat} (hrested : session.Rested id) {fuel : Nat}
    {action : Action}
    (hreturns : ∀ node outside, (action, (session.perform fuel action).1) ≠
      (.drive id node, .ended (.error (.breach outside)))) :
    (session.perform fuel action).2.Rested id := by
  intro activation hafter
  cases perform_origin hafter with
  | kept hbefore => exact hrested activation hbefore
  | enrolled hdepth htarget => exact hdepth
  | @driven node drive =>
      have hbefore := hrested drive.activation drive.hactivation
      rw [← hbefore]
      refine drive.balanced.restored fun outside hbreach => hreturns node outside ?_
      rw [drive.perform_eq, hbreach]

theorem Rested.run {session : Session} {id : Nat} (hrested : session.Rested id) {fuel : Nat}
    {actions : List Action}
    (hreturns : ∀ node outside, (Action.drive id node, Outcome.ended (.error (.breach outside))) ∉
      actions.zip (session.outcomes fuel actions)) :
    (session.run fuel actions).Rested id := by
  induction actions generalizing session with
  | nil => exact hrested
  | cons action rest ih =>
      simp only [outcomes, List.zip_cons_cons, List.mem_cons, not_or] at hreturns
      refine ih (hrested.perform fun node outside heq => (hreturns node outside).1 heq.symm) ?_
      exact fun node outside => (hreturns node outside).2

/-- A node that fits is not cut off on an activation that is not in the midst of another one. -/
theorem Rested.fits {session : Session} {id : Nat} (hrested : session.Rested id) {fuel : Nat}
    {node : Node} {limit : Nat} (hlimit : session.limit? (.drive id node) = some limit)
    (hfits : node.height ≤ limit) {result : Except Fault Yield}
    (hrun : (session.perform fuel (.drive id node)).1 = .ended result) : ¬Overflows result := by
  obtain ⟨⟨drive⟩⟩ | habsent := session.drive_or_absent fuel id node
  · rw [drive.perform_eq] at hrun
    obtain rfl := Outcome.ended.inj hrun
    have hdepth := hrested drive.activation drive.hactivation
    obtain rfl := Option.some.inj (drive.limit?_eq.symm.trans hlimit)
    exact drive.balanced.fits (by omega)
  · rw [habsent] at hrun
    cases hrun

/-- The depth limit only cuts runs off, and does not accumulate. On an activation a node fits
whatever the earlier ones returned; only an index outside a progression, which stops a node where it
stands, leaves its levels taken. -/
theorem depth_limit_only_cuts_off (host : Host) (fuel : Nat) :
    (∀ id arguments limit higher result after, limit ≤ higher →
      (host.withMaxDepth id limit).invoke fuel id arguments = some (result, after) →
      ¬Overflows result →
      (host.withMaxDepth id higher).invoke fuel id arguments =
          some (result, after.withMaxDepth id higher) ∧
        (host.withMaxDepth id higher).lastFrame? fuel id arguments =
          (host.withMaxDepth id limit).lastFrame? fuel id arguments) ∧
    (∀ id arguments target result after, host.targets[id]? = some target →
      target.root.body.height ≤ target.options.maxDepth →
      host.invoke fuel id arguments = some (result, after) → ¬Overflows result) ∧
    (∀ actions id node limit result,
      (∀ earlier outside, (Action.drive id earlier, Outcome.ended (.error (.breach outside))) ∉
        actions.zip (Session.outcomes fuel { host } actions)) →
      (Session.run fuel { host } actions).limit? (.drive id node) = some limit →
      node.height ≤ limit →
      ((Session.run fuel { host } actions).perform fuel (.drive id node)).1 = .ended result →
      ¬Overflows result) ∧
    ∀ actions action reached limit,
      ((Session.run fuel { host } actions).perform fuel action).1 =
        .ended (.error (.stackOverflow reached limit)) →
      reached = limit ∧ (Session.run fuel { host } actions).limit? action = some limit := by
  refine ⟨?_, ?_, ?_, ?_⟩
  · intro id arguments limit higher result after hle hrun hends
    exact Host.invoke_withMaxDepth_of_le hle hrun hends
  · intro id arguments target result after htarget hfits hrun
    obtain ⟨held, machine, hheld, hbalanced⟩ := Host.balanced_of_invoke hrun
    obtain rfl : held = target := Option.some.inj (hheld.symm.trans htarget)
    exact hbalanced.fits (by omega)
  · intro actions id node limit result hreturns hlimit hfits hrun
    have hrested : Rested { host } id := by
      intro activation hactivation
      simp at hactivation
    exact (hrested.run hreturns).fits hlimit hfits hrun
  · intro actions action reached limit hover
    have hshallow : Shallow { host } := by
      intro id activation hactivation
      simp at hactivation
    exact (hshallow.run fuel actions).reported hover

/-- A count whose nodes are nested as deep as its limit allows. -/
def deepCount : Host :=
  (run 4 {}
    [.addEngine {}, .addTarget 0 (SampleGraph.countTo 3 1) { maxDepth := 5 } []]).host

theorem deepCount_eq :
    deepCount =
      (single {}
        { name := "count_to"
          frameSize := 1
          body := .stmt (.block
            [ .write 0 (.const (.int 0)),
              .loop (.compare .less (.read 0 .any) (.const (.int 3)))
                (.write 0 (.arith 0 .add (.read 0 .any) (.const (.int 1)))),
              .ret (.read 0 .any) ]) }
        1 { maxDepth := 5 }).host :=
  rfl

/-- Blocks inside each other. -/
def blocks (inner : Nat) : Node :=
  .stmt (Nat.repeat (fun stmt => .block [stmt]) inner (.block []))

/-- An activation on which one node is cut off and another one fails. -/
def failingNodes : List Action :=
  [.activate 0 #[], .drive 0 (blocks 5), .drive 0 (.expr (.arg 0))]

theorem depth_limit_only_cuts_off_deepCount :
    (∃ result after, ¬Overflows result ∧
      (deepCount.withMaxDepth 0 5).invoke 4 0 #[] = some (result, after) ∧
      (deepCount.withMaxDepth 0 9).invoke 4 0 #[] = some (result, after.withMaxDepth 0 9)) ∧
    (∃ target result after, deepCount.targets[0]? = some target ∧
      target.root.body.height ≤ target.options.maxDepth ∧
      deepCount.invoke 4 0 #[] = some (result, after) ∧ ¬Overflows result) ∧
    (outcomes 4 { host := deepCount } failingNodes =
      [ .done,
        .ended (.error (.stackOverflow 5 5)),
        .ended (.error (.runtime (.argumentOutOfBounds 0 0))) ] ∧
      (blocks 4).height = 5 ∧
      ∃ result, ((run 4 { host := deepCount } failingNodes).perform 4 (.drive 0 (blocks 4))).1 =
        .ended result ∧ ¬Overflows result) ∧
    ((run 4 { host := deepCount } failingNodes).perform 4 (.drive 0 (blocks 5))).1 =
      .ended (.error (.stackOverflow 5 5)) ∧
    (run 4 { host := deepCount } failingNodes).limit? (.drive 0 (blocks 5)) = some 5 := by
  obtain ⟨hcut, hfits, hdriven, hreported⟩ := depth_limit_only_cuts_off deepCount 4
  obtain ⟨hlimited, hfitting, hinvoke⟩ :
      ((deepCount.withMaxDepth 0 5).invoke 4 0 #[]).map Prod.fst = some (.ok (.int 3)) ∧
        deepCount.targets[0]?.map (fun target : Target =>
          decide (target.root.body.height ≤ target.options.maxDepth)) = some true ∧
        (deepCount.invoke 4 0 #[]).map Prod.fst = some (.ok (.int 3)) := by
    rw [deepCount_eq]
    refine ⟨?_, ?_, ?_⟩ <;> cbv
  obtain ⟨houtcomes, hfifth, hsixth⟩ :
      outcomes 4 { host := deepCount } failingNodes =
          [ .done,
            .ended (.error (.stackOverflow 5 5)),
            .ended (.error (.runtime (.argumentOutOfBounds 0 0))) ] ∧
        outcomes 4 { host := deepCount } (failingNodes ++ [.drive 0 (blocks 4)]) =
          outcomes 4 { host := deepCount } failingNodes ++ [.ended (.ok (.flow .normal))] ∧
        outcomes 4 { host := deepCount } (failingNodes ++ [.drive 0 (blocks 5)]) =
          outcomes 4 { host := deepCount } failingNodes ++
            [.ended (.error (.stackOverflow 5 5))] := by
    rw [deepCount_eq]
    refine ⟨?_, ?_, ?_⟩ <;> cbv
  rw [outcomes_concat] at hfifth hsixth
  have hrun := List.singleton_inj.mp (List.append_cancel_left hfifth)
  have hover := List.singleton_inj.mp (List.append_cancel_left hsixth)
  -- The limit is that of the target, whichever node is driven.
  have hlimit : (run 4 { host := deepCount } failingNodes).limit? (.drive 0 (blocks 4)) = some 5 :=
    (hreported failingNodes (.drive 0 (blocks 5)) 5 5 hover).2
  have hheight : (blocks 4).height = 5 := by cbv
  refine ⟨?_, ?_, ⟨houtcomes, hheight, ?_⟩, ?_⟩
  · obtain ⟨⟨result, after⟩, hreached, rfl⟩ := Option.map_eq_some_iff.mp hlimited
    have hends : ¬Overflows (.ok (.int 3) : Except Fault Value) := by simp [Overflows]
    exact ⟨_, after, hends, hreached, (hcut 0 #[] 5 9 _ after (by decide) hreached hends).1⟩
  · obtain ⟨target, htarget, hdecided⟩ := Option.map_eq_some_iff.mp hfitting
    obtain ⟨⟨result, after⟩, hreached, rfl⟩ := Option.map_eq_some_iff.mp hinvoke
    have hle := of_decide_eq_true hdecided
    have hends := hfits 0 #[] target _ after htarget hle hreached
    exact ⟨target, _, after, htarget, hle, hreached, hends⟩
  · have hreturns : ∀ earlier outside,
        (Action.drive 0 earlier, Outcome.ended (.error (.breach outside))) ∉
          failingNodes.zip (outcomes 4 { host := deepCount } failingNodes) := by
      rw [houtcomes]
      simp [failingNodes]
    have hroom : (blocks 4).height ≤ 5 := Nat.le_of_eq hheight
    exact ⟨_, hrun, hdriven failingNodes 0 (blocks 4) 5 _ hreturns hlimit hroom hrun⟩
  · exact ⟨hover, hlimit⟩

end Session

end AdaptiveEval
