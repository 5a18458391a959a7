import AdaptiveEval.Proofs.SiteNumbers
import AdaptiveEval.Proofs.Specialization.Moments

/-!
# The generation as a guard

The moments that a target passes in a session. As long as the target runs by invocations alone, its
generation stands for the sets of variants and the slot kinds that its code is specialized to: it
changes with each of them and never without.
-/

namespace AdaptiveEval

def Host.arithmeticSites (host : Host) : List SiteId :=
  host.targets.toList.flatMap fun target => target.root.arithmeticSites

/-- Each arithmetic node of each target has a site of its own, out of those handed out so far. -/
def Host.Labelled (host : Host) : Prop :=
  Spans 0 host.arithmeticSites host.nextSite

namespace Host.Labelled

variable {host : Host} {target : Target} {id : Nat} {site : SiteId}

theorem numbered (hlabelled : host.Labelled) : host.Numbered Root.arithmeticSites :=
  hlabelled

theorem root_below (hlabelled : host.Labelled) (htarget : host.targets[id]? = some target)
    (hsite : site ∈ target.root.arithmeticSites) : site < host.nextSite :=
  hlabelled.numbered.root_below htarget hsite

theorem root_nodup (hlabelled : host.Labelled) (htarget : host.targets[id]? = some target) :
    target.root.arithmeticSites.Nodup :=
  hlabelled.numbered.root_nodup htarget

theorem roots_apart (hlabelled : host.Labelled) {other : Nat} {held : Target} (hne : other ≠ id)
    (hheld : host.targets[other]? = some held) (htarget : host.targets[id]? = some target)
    (hsite : site ∈ target.root.arithmeticSites) : site ∉ held.root.arithmeticSites :=
  hlabelled.numbered.roots_apart hne hheld htarget hsite

theorem effect {session after : Session} {fuel : Nat} {action : Action}
    (hlabelled : session.host.Labelled) (heffect : session.Effect fuel action after) :
    after.host.Labelled :=
  hlabelled.numbered.effect Root.spans_label heffect

end Host.Labelled

namespace Session

section

variable {session after : Session} {fuel id : Nat} {action : Action} {site : SiteId}

/-- An action leaves a site alone that is none of the graph it runs. -/
theorem Effect.seen_eq (heffect : session.Effect fuel action after)
    (hinvoked : ∀ id arguments target context, action = .invoke id arguments →
      session.host.start? fuel id arguments = some (target, context) →
      site ∉ target.root.arithmeticSites)
    (hdriven : ∀ driven node, action = .drive driven node → site ∉ node.arithmeticSites) :
    (after.host.sites.arithmeticAt site).seen = (session.host.sites.arithmeticAt site).seen := by
  cases heffect with
  | kept hidle htargets hsites hnext => rw [hsites]
  | added registry htargets hsites hnext => rw [hsites]
  | @invoked id arguments _ target context hstart htargets hsites hnext =>
      rw [hsites, Target.invoke_eq]
      exact (Traced.Follows.run target.root).seen_eq (hinvoked _ _ _ _ rfl hstart) context _
  | @driven driven node _ activation target context hactivation htarget htargets hsites hnext =>
      obtain ⟨traced, hfollows⟩ := Traced.Follows.node node
      rw [hsites]
      exact hfollows.seen_eq (hdriven _ _ rfl) context _

theorem Effect.nextSite_le (heffect : session.Effect fuel action after) :
    session.host.nextSite ≤ after.host.nextSite := by
  cases heffect with
  | kept hidle htargets hsites hnext => exact Nat.le_of_eq hnext.symm
  | @added engine root options dependencies _ registry htargets hsites hnext =>
      rw [hnext]
      exact (root.spans_label session.host.nextSite).le
  | invoked hstart htargets hsites hnext => exact Nat.le_of_eq hnext.symm
  | driven hactivation htarget htargets hsites hnext => exact Nat.le_of_eq hnext.symm

end

end Session

def Target.moment (target : Target) (sites : Sites) : Moment :=
  (target.machine sites).snapshot.moment target.root.arithmeticSites

theorem Target.moment_ofRoot {root : Root SiteId} {sites : Sites}
    (hfresh : ∀ site ∈ root.arithmeticSites, (sites.arithmeticAt site).seen = .empty) (engine : Nat)
    (registry : Registry) (options : Options) (dependencies : List Dependency) :
    (Target.ofRoot root engine registry options dependencies).moment sites =
      .blank root.arithmeticSites.length root.frameSize := by
  have hseen : root.arithmeticSites.map (fun site => (sites.arithmeticAt site).seen) =
      List.replicate root.arithmeticSites.length .empty := by
    rw [List.map_congr_left hfresh, List.map_const']
  have hkinds : (Descriptor.ofSize root.frameSize).kinds.toList =
      List.replicate root.frameSize .uninitialized := Array.toList_replicate
  simp only [Target.moment, Target.machine, Machine.snapshot, Snapshot.moment, Moment.blank,
    Target.ofRoot, hseen, hkinds]

namespace Session

def moment? (session : Session) (id : Nat) : Option Moment :=
  session.host.targets[id]?.map fun target => target.moment session.host.sites

/-- The moments that a target passes inside an action, one after each step of its body. -/
def passed (fuel id : Nat) (session : Session) : Action → List Moment
  | .invoke invoked arguments =>
      match session.host.start? fuel invoked arguments with
      | some (target, context) =>
          if invoked = id then
            (target.root.traced.passed context (target.machine session.host.sites)).map
              fun machine => machine.snapshot.moment target.root.arithmeticSites
          else
            []
      | none => []
  | _ => []

/-- Nodes are driven by hand only in activations of other targets, and only if they are none of the
arithmetic nodes with the given sites. -/
def Spares (session : Session) (id : Nat) (sites : List SiteId) : Action → Prop
  | .drive driven node =>
      (∀ activation, session.activations[driven]? = some activation → activation.target ≠ id) ∧
        ∀ site ∈ node.arithmeticSites, site ∉ sites
  | _ => True

/-- A script that runs a target, with its arithmetic sites, by invocations alone. -/
def OnlyInvokes (fuel id : Nat) (sites : List SiteId) (session : Session) : List Action → Prop
  | [] => True
  | action :: rest =>
      session.Spares id sites action ∧
        (session.perform fuel action).2.OnlyInvokes fuel id sites rest

section

variable {session : Session} {fuel id : Nat} {action : Action} {target : Target}

theorem passed_of_idle (hidle : ∀ arguments, action = .invoke id arguments →
    session.host.start? fuel id arguments = none) : session.passed fuel id action = [] := by
  cases action with
  | invoke invoked arguments =>
      by_cases heq : invoked = id
      · subst heq
        simp [passed, hidle arguments rfl]
      · simp only [passed, if_neg heq]
        split <;> rfl
  | _ => rfl

/-- An invocation of a target takes it through the moments that its body passes. -/
theorem path_invoke (hnodup : target.root.arithmeticSites.Nodup) {arguments : Array Value}
    {context : Context} (hstart : session.host.start? fuel id arguments = some (target, context))
    (broken : Nat) :
    Path Moment.Step (target.moment session.host.sites)
      (session.passed fuel id (.invoke id arguments))
      ((target.invoke context broken session.host.sites).2.1.moment
        (target.invoke context broken session.host.sites).2.2) := by
  have hfollows := Traced.Follows.run target.root
  have hview : ∀ before after, Snapshot.Step target.root.arithmeticSites before after →
      Moment.Step (before.moment target.root.arithmeticSites)
        (after.moment target.root.arithmeticSites) := fun _ _ => Moment.step_of_snapshot hnodup
  have hpath := (hfollows.path context (target.machine session.host.sites)).map hview
  rw [hfollows.action_eq, List.map_map] at hpath
  simp only [passed, hstart, if_true]
  exact hpath

/-- Whatever else happens, no decision of the target changes. -/
theorem moment_eq_of_idle {after : Session} (hlabelled : session.host.Labelled)
    (heffect : session.Effect fuel action after)
    (htarget : session.host.targets[id]? = some target)
    (hspares : session.Spares id target.root.arithmeticSites action)
    (hidle : ∀ arguments, action = .invoke id arguments →
      session.host.start? fuel id arguments = none) :
    target.moment after.host.sites = target.moment session.host.sites := by
  have hseen : ∀ site ∈ target.root.arithmeticSites,
      (after.host.sites.arithmeticAt site).seen = (session.host.sites.arithmeticAt site).seen := by
    intro site hsite
    apply heffect.seen_eq
    · intro other arguments held context haction hstart
      have hne : other ≠ id := by
        rintro rfl
        rw [hidle arguments haction] at hstart
        cases hstart
      exact hlabelled.roots_apart hne (Host.getElem?_of_start? hstart) htarget hsite
    · rintro driven node rfl hshared
      exact hspares.2 site hshared hsite
  simp only [Target.moment, Snapshot.moment, Machine.snapshot, Target.machine, Moment.mk.injEq,
    true_and, and_true]
  exact List.map_congr_left hseen

/-- One action of a script takes a target on along its moments. -/
theorem path_perform (hlabelled : session.host.Labelled)
    (htarget : session.host.targets[id]? = some target)
    (hspares : session.Spares id target.root.arithmeticSites action) :
    ∃ next, (session.perform fuel action).2.host.targets[id]? = some next ∧
      next.root = target.root ∧
      Path Moment.Step (target.moment session.host.sites)
        (session.passed fuel id action ++ [next.moment (session.perform fuel action).2.host.sites])
        (next.moment (session.perform fuel action).2.host.sites) := by
  have heffect := session.perform_effect fuel action
  generalize (session.perform fuel action).2 = after at heffect ⊢
  obtain ⟨arguments, context, rfl, hstart, hinvoked, hsites⟩ | ⟨hidle, state, hkept, hstate⟩ :=
    heffect.target htarget
  · refine ⟨_, hinvoked, rfl, ?_⟩
    rw [hsites]
    exact (path_invoke (hlabelled.root_nodup htarget) hstart _).append (.single (.quiet _))
  · obtain rfl : state = target.state := by
      obtain hsame | ⟨driven, node, activation, rfl, hactivation, hid⟩ := hstate
      · exact hsame
      · exact absurd hid (hspares.1 activation hactivation)
    refine ⟨_, hkept, rfl, ?_⟩
    have hmoment := moment_eq_of_idle hlabelled heffect htarget hspares hidle
    rw [passed_of_idle hidle, List.nil_append]
    apply Path.single
    change Moment.Step _ (target.moment after.host.sites)
    rw [hmoment]
    exact .quiet _

end

end Session

/-- A session with the moments that one target has passed in it. -/
structure History where
  session : Session := {}
  moments : List Moment := []

namespace History

def extend (fuel id : Nat) (history : History) (action : Action) : History :=
  match history.session.perform fuel action with
  | (_, after) =>
      { session := after
        moments := history.moments ++ history.session.passed fuel id action ++
          (after.moment? id).toList }

def run (fuel id : Nat) (history : History) (actions : List Action) : History :=
  actions.foldl (extend fuel id) history

/-- What each action of a script preserves, the script preserves. -/
theorem run_induction {fuel id : Nat} {watched : List SiteId} {motive : History → Prop}
    (hextend : ∀ history action, history.session.Spares id watched action → motive history →
      motive (history.extend fuel id action))
    {history : History} {actions : List Action}
    (honly : history.session.OnlyInvokes fuel id watched actions) (hstart : motive history) :
    motive (history.run fuel id actions) := by
  induction actions generalizing history with
  | nil => exact hstart
  | cons action rest ih => exact ih honly.2 (hextend history action honly.1 hstart)

/-- What holds of the watched sites, and of the target once its arithmetic nodes have them. -/
structure Sound (id : Nat) (watched : List SiteId) (history : History) : Prop where
  labelled : history.session.host.Labelled
  fresh : ∀ site ∈ watched, history.session.host.nextSite ≤ site →
    (history.session.host.sites.arithmeticAt site).seen = .empty
  absent : history.session.host.targets[id]? = none → history.moments = []
  present : ∀ target, history.session.host.targets[id]? = some target →
    target.root.arithmeticSites = watched →
    ∃ rest, history.moments = .blank watched.length target.root.frameSize :: rest ∧
      Path Moment.Step (.blank watched.length target.root.frameSize) rest
        (target.moment history.session.host.sites)

namespace Sound

variable {history : History} {fuel id : Nat} {watched : List SiteId} {action : Action}

theorem empty (id : Nat) (watched : List SiteId) : Sound id watched {} where
  labelled := .nil 0
  fresh := by simp [Sites.arithmeticAt]
  absent _ := rfl
  present := by simp

theorem fresh_extend (hsound : Sound id watched history)
    (hspares : history.session.Spares id watched action) {site : SiteId} (hsite : site ∈ watched)
    (hnext : (history.session.perform fuel action).2.host.nextSite ≤ site) :
    ((history.session.perform fuel action).2.host.sites.arithmeticAt site).seen = .empty := by
  have heffect := history.session.perform_effect fuel action
  have hbefore : history.session.host.nextSite ≤ site := Nat.le_trans heffect.nextSite_le hnext
  -- A graph that runs has sites below the next one, so the site is none of them.
  rw [heffect.seen_eq, hsound.fresh site hsite hbefore]
  · intro other arguments held context _ hstart hshared
    have hbelow := hsound.labelled.root_below (Host.getElem?_of_start? hstart) hshared
    exact absurd hbelow (Nat.not_lt.mpr hbefore)
  · rintro driven node rfl hshared
    exact hspares.2 site hshared hsite

/-- A new target starts at a blank moment, and a target that was there goes on. -/
theorem present_extend (hsound : Sound id watched history)
    (hspares : history.session.Spares id watched action) {next : Target}
    (hnext : (history.session.perform fuel action).2.host.targets[id]? = some next)
    (hwatched : next.root.arithmeticSites = watched) :
    ∃ rest, (history.extend fuel id action).moments =
        .blank watched.length next.root.frameSize :: rest ∧
      Path Moment.Step (.blank watched.length next.root.frameSize) rest
        (next.moment (history.session.perform fuel action).2.host.sites) := by
  have heffect := history.session.perform_effect fuel action
  have hmoments : (history.extend fuel id action).moments =
      history.moments ++ history.session.passed fuel id action ++
        [next.moment (history.session.perform fuel action).2.host.sites] := by
    simp [History.extend, Session.moment?, hnext]
  rw [hmoments]
  cases htarget : history.session.host.targets[id]? with
  | none =>
      obtain hnone | ⟨engine, root, options, dependencies, registry, _, _, hcreated, hsites⟩ :=
        heffect.absent htarget
      · exact absurd (hnext.symm.trans hnone) (by simp)
      · obtain rfl := Option.some.inj (hcreated.symm.trans hnext)
        -- The sites of the new graph are only handed out now, so no action has used them.
        have hspans := root.spans_label history.session.host.nextSite
        have hfresh : ∀ site ∈ (root.label history.session.host.nextSite).1.arithmeticSites,
            (history.session.host.sites.arithmeticAt site).seen = .empty := by
          intro site hsite
          exact hsound.fresh site (hwatched ▸ hsite) (hspans.inside site hsite).1
        have hpassed : history.session.passed fuel id action = [] :=
          Session.passed_of_idle fun arguments _ => Host.start?_of_absent htarget fuel arguments
        rw [hsound.absent htarget, hpassed, hsites, Target.moment_ofRoot hfresh, ← hwatched]
        exact ⟨[], rfl, .nil _⟩
  | some target =>
      obtain ⟨held, hheld, hroot, _⟩ := heffect.persists htarget
      obtain rfl := Option.some.inj (hheld.symm.trans hnext)
      rw [hroot] at hwatched
      obtain ⟨rest, hrest, hpath⟩ := hsound.present target htarget hwatched
      rw [← hwatched] at hspares
      obtain ⟨_, hagain, _, hon⟩ := Session.path_perform hsound.labelled htarget hspares
      obtain rfl := Option.some.inj (hagain.symm.trans hnext)
      rw [hroot, hrest, List.append_assoc]
      exact ⟨_, rfl, hpath.append hon⟩

theorem extend (hsound : Sound id watched history)
    (hspares : history.session.Spares id watched action) :
    Sound id watched (history.extend fuel id action) := by
  have heffect := history.session.perform_effect fuel action
  refine ⟨hsound.labelled.effect heffect, fun _ => hsound.fresh_extend hspares, ?_,
    fun _ => hsound.present_extend hspares⟩
  intro hafter
  have hnone : (history.session.perform fuel action).2.host.targets[id]? = none := hafter
  cases htarget : history.session.host.targets[id]? with
  | none =>
      have hpassed : history.session.passed fuel id action = [] :=
        Session.passed_of_idle fun arguments _ => Host.start?_of_absent htarget fuel arguments
      simp [History.extend, Session.moment?, hnone, hpassed, hsound.absent htarget]
  | some target =>
      obtain ⟨next, hnext, _⟩ := heffect.persists htarget
      exact absurd (hnext.symm.trans hnone) (by simp)

theorem run (hsound : Sound id watched history) {actions : List Action}
    (honly : history.session.OnlyInvokes fuel id watched actions) :
    Sound id watched (history.run fuel id actions) :=
  run_induction (fun _ _ hspares hsound => hsound.extend hspares) honly hsound

end Sound

/-- **The generation is a faithful guard.** At any two moments of a target that runs by invocations
alone, the generation is the same exactly when all sets of variants and all slot kinds are, and it
counts the recorded variants and the kind changes. -/
theorem generation_faithful (fuel id : Nat) (actions : List Action) {target : Target}
    (htarget : (run fuel id {} actions).session.host.targets[id]? = some target)
    (honly : Session.OnlyInvokes fuel id target.root.arithmeticSites {} actions) :
    (∀ one ∈ (run fuel id {} actions).moments, ∀ other ∈ (run fuel id {} actions).moments,
      (one.generation = other.generation ↔ one.seen = other.seen ∧ one.kinds = other.kinds)) ∧
    ∀ earlier now later, (run fuel id {} actions).moments = earlier ++ now :: later →
      now.generation = (now.seen.map VariantSet.size).sum + Moment.kindChanges (earlier ++ [now]) := by
  have hsound := (Sound.empty id target.root.arithmeticSites).run honly
  obtain ⟨rest, hmoments, hpath⟩ := hsound.present target htarget rfl
  rw [hmoments]
  constructor
  · intro one hone other hother
    obtain hlater | hlater := Moment.later_or_later hpath hone hother
    · exact hlater.generation_eq_iff
    · rw [eq_comm, hlater.generation_eq_iff, eq_comm, @eq_comm _ one.kinds]
  · intro earlier now later hsplit
    have hadd := Moment.generation_add_of_path hpath hsplit
    rw [Moment.recorded_blank] at hadd
    simpa [Moment.blank, Moment.recorded] using hadd

/-- Sums that are kept in a slot: of integers, then without a second argument, then with an
undefined one. -/
def mixedSums : List Action :=
  [ .addEngine {},
    .addTarget 0
      { name := "sum"
        frameSize := 1
        body := .stmt (.block
          [ .write 0 (.arith () .add (.arg 0) (.arg 1)),
            .ret (.read 0 .any) ]) } {} [],
    .invoke 0 #[.int 20, .int 22],
    .invoke 0 #[.int 20],
    .invoke 0 #[.undefined, .int 22] ]

theorem generation_faithful_mixedSums :
    (run 0 0 {} mixedSums).moments.map Moment.generation =
      [0, 0, 0, 1, 2, 2, 2, 2, 2, 2, 2, 2, 3, 4, 4, 4] ∧
    (∀ one ∈ (run 0 0 {} mixedSums).moments, ∀ other ∈ (run 0 0 {} mixedSums).moments,
      (one.generation = other.generation ↔ one.seen = other.seen ∧ one.kinds = other.kinds)) ∧
    ∀ earlier now later, (run 0 0 {} mixedSums).moments = earlier ++ now :: later →
      now.generation =
        (now.seen.map VariantSet.size).sum + Moment.kindChanges (earlier ++ [now]) := by
  have hpresent : (run 0 0 {} mixedSums).session.host.targets[0]?.isSome = true := by
    decide +kernel
  obtain ⟨target, htarget⟩ := Option.isSome_iff_exists.mp hpresent
  have honly : Session.OnlyInvokes 0 0 target.root.arithmeticSites {} mixedSums :=
    ⟨trivial, trivial, trivial, trivial, trivial, trivial⟩
  exact ⟨by decide +kernel, generation_faithful 0 0 mixedSums htarget honly⟩

end History

end AdaptiveEval
