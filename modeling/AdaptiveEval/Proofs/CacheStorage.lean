import AdaptiveEval.Proofs.CacheUse
import AdaptiveEval.Proofs.Specialization.Generation

/-!
# How much a target's caches store

A target that runs by invocations alone keeps the entries of each of its caches on the chains of its
own nodes. So there are at most as many of them as the limit allows for each node, however often the
target runs and names are mapped anew.
-/

namespace AdaptiveEval

open Chain

open scoped BigOperators

namespace Session

variable {session after : Session} {fuel id : Nat} {action : Action} {kind : CacheKind}
  {site : SiteId}

/-- An action leaves the head of a node alone that is in none of the graphs it runs. -/
theorem Effect.headAt_eq (heffect : session.Effect fuel action after)
    (hinvoked : ∀ id arguments target context, action = .invoke id arguments →
      session.host.start? fuel id arguments = some (target, context) →
      site ∉ target.root.cacheSites kind)
    (hdriven : ∀ driven node, action = .drive driven node → site ∉ node.cacheSites kind) :
    after.host.sites.headAt kind site = session.host.sites.headAt kind site := by
  cases heffect with
  | kept hidle htargets hsites hnext => rw [hsites]
  | added registry htargets hsites hnext => rw [hsites]
  | @invoked id arguments _ target context hstart htargets hsites hnext =>
      rw [hsites, Target.invoke_eq]
      exact (Uses.run target.root context _ kind).heads_eq (hinvoked _ _ _ _ rfl hstart)
  | @driven driven node _ activation target context hactivation htarget htargets hsites hnext =>
      rw [hsites]
      exact (Uses.node node context _ kind).heads_eq (hdriven _ _ rfl)

/-- Nodes are driven by hand only in activations of other targets, and only if they are none of the
nodes with the given sites. -/
def SparesCaches (session : Session) (id : Nat) (sites : CacheKind → List SiteId) : Action → Prop
  | .drive driven node =>
      (∀ activation, session.activations[driven]? = some activation → activation.target ≠ id) ∧
        ∀ kind, ∀ site ∈ node.cacheSites kind, site ∉ sites kind
  | _ => True

/-- A script that runs a target, with the sites of its caches, by invocations alone. -/
def CachesByInvoking (fuel id : Nat) (sites : CacheKind → List SiteId) (session : Session) :
    List Action → Prop
  | [] => True
  | action :: rest =>
      session.SparesCaches id sites action ∧
        (session.perform fuel action).2.CachesByInvoking fuel id sites rest

/-- The entries of the caches of a target lie on the chains of its nodes. -/
structure Conserves (id : Nat) (watched : CacheKind → List SiteId) (session : Session) : Prop where
  numbered : ∀ kind, session.host.Numbered (Root.cacheSites kind)
  fresh : ∀ kind, ∀ site ∈ watched kind, session.host.nextSite ≤ site →
    session.host.sites.headAt kind site = {}
  partitioned : ∀ target, session.host.targets[id]? = some target →
    (∀ kind, target.root.cacheSites kind = watched kind) →
    ∀ kind, ((target.machine session.host.sites).store kind).Partitioned (watched kind).toFinset

namespace Conserves

variable {watched : CacheKind → List SiteId}

theorem empty (id : Nat) (watched : CacheKind → List SiteId) : Conserves id watched {} where
  numbered _ := .nil 0
  fresh kind site _ _ := by cases kind <;> simp [Sites.headAt, Sites.nameAt, Sites.elementAt]
  partitioned := by simp

theorem fresh_perform (hconserves : session.Conserves id watched)
    (hspares : session.SparesCaches id watched action) (hsite : site ∈ watched kind)
    (hnext : (session.perform fuel action).2.host.nextSite ≤ site) :
    (session.perform fuel action).2.host.sites.headAt kind site = {} := by
  have heffect := session.perform_effect fuel action
  have hbefore : session.host.nextSite ≤ site := Nat.le_trans heffect.nextSite_le hnext
  -- A graph that runs has sites below the next one, so the site is none of them.
  rw [heffect.headAt_eq, hconserves.fresh kind site hsite hbefore]
  · intro other arguments held context _ hstart hshared
    have hbelow := (hconserves.numbered kind).root_below (Host.getElem?_of_start? hstart) hshared
    exact absurd hbelow (Nat.not_lt.mpr hbefore)
  · rintro driven node rfl hshared
    exact hspares.2 kind site hshared hsite

/-- The caches of a new target are empty, and no action has used the heads of its nodes. -/
theorem partitioned_ofRoot (hconserves : session.Conserves id watched) {root : RootShape}
    (hwatched : ∀ kind, (root.label session.host.nextSite).1.cacheSites kind = watched kind)
    (engine : Nat) (registry : Registry) (options : Options) (dependencies : List Dependency)
    (kind : CacheKind) :
    (((Target.ofRoot (root.label session.host.nextSite).1 engine registry options
      dependencies).machine session.host.sites).store kind).Partitioned
        (watched kind).toFinset := by
  have hempty : (((Target.ofRoot (root.label session.host.nextSite).1 engine registry options
      dependencies).machine session.host.sites).store kind).arena.entries = #[] := by
    cases kind <;> rfl
  refine .of_entries_eq_empty hempty fun site hsite => ?_
  have hmem : site ∈ watched kind := List.mem_toFinset.mp hsite
  have hspans := root.spans_cacheSites kind session.host.nextSite
  have hfresh := hconserves.fresh kind site hmem
    (hspans.inside site ((hwatched kind).symm ▸ hmem)).1
  change Arena.Owns _ (session.host.sites.headAt kind site)
  rw [hfresh]
  exact .blank (Arena.orderly_of_entries_eq_empty hempty)

/-- An invocation accesses the caches of its own target, and at its own nodes. -/
theorem partitioned_invoke {target : Target} {context : Context} (broken : Nat)
    (hpartitioned : ∀ kind, ((target.machine session.host.sites).store kind).Partitioned
      (target.root.cacheSites kind).toFinset) (kind : CacheKind) :
    (((target.invoke context broken session.host.sites).2.1.machine
      (target.invoke context broken session.host.sites).2.2).store kind).Partitioned
        (target.root.cacheSites kind).toFinset :=
  (Uses.run target.root context (target.machine session.host.sites) kind).partitioned
    (fun _ => List.mem_toFinset.mpr) (hpartitioned kind)

/-- What runs elsewhere leaves the heads of the target's nodes alone. -/
theorem partitioned_of_idle (hconserves : session.Conserves id watched)
    (heffect : session.Effect fuel action after) {target : Target}
    (htarget : session.host.targets[id]? = some target)
    (hwatched : ∀ kind, target.root.cacheSites kind = watched kind)
    (hspares : session.SparesCaches id watched action)
    (hidle : ∀ arguments, action = .invoke id arguments →
      session.host.start? fuel id arguments = none) (kind : CacheKind) :
    ((target.machine after.host.sites).store kind).Partitioned (watched kind).toFinset := by
  refine (hconserves.partitioned target htarget hwatched kind).of_word_eq fun site hsite => ?_
  have hmem : site ∈ watched kind := List.mem_toFinset.mp hsite
  refine congrArg Head.word (heffect.headAt_eq ?_ ?_)
  · intro other arguments held context haction hstart
    have hne : other ≠ id := by
      rintro rfl
      rw [hidle arguments haction] at hstart
      cases hstart
    exact (hconserves.numbered kind).roots_apart hne (Host.getElem?_of_start? hstart) htarget
      ((hwatched kind).symm ▸ hmem)
  · rintro driven node rfl hshared
    exact hspares.2 kind site hshared hmem

theorem perform (hconserves : session.Conserves id watched)
    (hspares : session.SparesCaches id watched action) :
    (session.perform fuel action).2.Conserves id watched := by
  have heffect := session.perform_effect fuel action
  refine ⟨fun kind => (hconserves.numbered kind).effect (Root.spans_cacheSites kind) heffect,
    fun _ _ => hconserves.fresh_perform hspares, ?_⟩
  intro next hnext hwatched
  cases htarget : session.host.targets[id]? with
  | none =>
      obtain hnone | ⟨engine, root, options, dependencies, registry, _, _, hcreated, hsites⟩ :=
        heffect.absent htarget
      · exact absurd (hnext.symm.trans hnone) (by simp)
      · obtain rfl := Option.some.inj (hcreated.symm.trans hnext)
        rw [hsites]
        exact hconserves.partitioned_ofRoot hwatched engine registry options dependencies
  | some target =>
      obtain ⟨arguments, context, _, _, hinvoked, hsites⟩ | ⟨hidle, state, hkept, hstate⟩ :=
        heffect.target htarget
      · obtain rfl := Option.some.inj (hinvoked.symm.trans hnext)
        have hbefore := hconserves.partitioned target htarget hwatched
        rw [hsites, ← funext hwatched]
        rw [← funext hwatched] at hbefore
        exact partitioned_invoke _ hbefore
      · obtain rfl : state = target.state := by
          obtain hsame | ⟨driven, node, activation, rfl, hactivation, hid⟩ := hstate
          · exact hsame
          · exact absurd hid (hspares.1 activation hactivation)
        obtain rfl := Option.some.inj (hkept.symm.trans hnext)
        exact hconserves.partitioned_of_idle heffect htarget hwatched hspares hidle

theorem run (hconserves : session.Conserves id watched) {actions : List Action}
    (honly : session.CachesByInvoking fuel id watched actions) :
    (session.run fuel actions).Conserves id watched := by
  induction actions generalizing session with
  | nil => exact hconserves
  | cons action rest ih => exact ih (hconserves.perform honly.1) honly.2

end Conserves

end Session

/-- The caches of a target have the limit of the engine that it was made for. -/
structure Host.Limited (host : Host) : Prop where
  engines : ∀ engine ∈ host.engines,
    engine.registry.cacheLimit = min engine.options.cacheLimit maxLimit
  targets : ∀ target ∈ host.targets, ∃ engine, host.engines[target.engine]? = some engine ∧
    ∀ kind, (target.state.cache kind).limit.toNat = min engine.options.cacheLimit maxLimit

namespace Host.Limited

variable {host : Host}

theorem addEngine (hlimited : host.Limited) (options : EngineOptions) :
    (host.addEngine options).2.Limited where
  engines := by
    intro engine hmem
    obtain hold | rfl := Array.mem_push.mp hmem
    · exact hlimited.engines engine hold
    · rfl
  targets := by
    intro target hmem
    obtain ⟨engine, hengine, hlimit⟩ := hlimited.targets target hmem
    obtain ⟨hlt, hget⟩ := Array.getElem?_eq_some_iff.mp hengine
    exact ⟨engine, by rw [Host.addEngine, Array.getElem?_push_lt hlt, hget], hlimit⟩

theorem map (hlimited : host.Limited) (id : Nat) (name : String) (value : Int64) :
    (host.map id name value).Limited where
  engines := by
    intro engine hmem
    obtain ⟨index, hindex⟩ := Array.getElem?_of_mem hmem
    rw [Host.map, Array.getElem?_modify] at hindex
    split at hindex
    · obtain ⟨old, hold, rfl⟩ := Option.map_eq_some_iff.mp hindex
      exact hlimited.engines old (Array.mem_of_getElem? hold)
    · exact hlimited.engines engine (Array.mem_of_getElem? hindex)
  targets := by
    intro target hmem
    obtain ⟨engine, hengine, hlimit⟩ := hlimited.targets target hmem
    rw [Host.map, Array.getElem?_modify]
    split
    · rw [hengine]
      exact ⟨{ engine with registry := engine.registry.map name value }, rfl, hlimit⟩
    · exact ⟨engine, hengine, hlimit⟩

theorem addTarget (hlimited : host.Limited) {id : Nat} {engine : Engine}
    (hengine : host.engines[id]? = some engine) (root : Root SiteId) (options : Options)
    (dependencies : List Dependency) (nextSite : Nat) :
    ({ host with
        targets := host.targets.push (.ofRoot root id engine.registry options dependencies)
        nextSite } : Host).Limited where
  engines := hlimited.engines
  targets := by
    intro target hmem
    obtain hold | rfl := Array.mem_push.mp hmem
    · exact hlimited.targets target hold
    · have hcapped := hlimited.engines engine (Array.mem_of_getElem? hengine)
      refine ⟨engine, hengine, fun kind => ?_⟩
      have hlimit : ((Target.ofRoot root id engine.registry options dependencies).state.cache
          kind).limit.toNat = min engine.registry.cacheLimit maxLimit := by
        cases kind <;> exact Arena.toNat_limit_ofLimit _
      rw [hlimit, hcapped]
      omega

/-- A run of a target accesses its caches, which keeps their limits. -/
theorem settle (hlimited : host.Limited) {id : Nat} {target : Target} (hmem : target ∈ host.targets)
    {driven : Target} (hengine : driven.engine = target.engine)
    (hlimit : ∀ kind, (driven.state.cache kind).limit = (target.state.cache kind).limit)
    (sites : Sites) : (host.settle id driven sites).Limited where
  engines := hlimited.engines
  targets := by
    intro other hother
    obtain hold | rfl := Array.mem_or_eq_of_mem_setIfInBounds hother
    · exact hlimited.targets other hold
    · obtain ⟨engine, hheld, hbefore⟩ := hlimited.targets target hmem
      refine ⟨engine, hengine ▸ hheld, fun kind => ?_⟩
      rw [hlimit kind]
      exact hbefore kind

end Host.Limited

theorem Session.limited_perform {session : Session} (hlimited : session.host.Limited) (fuel : Nat)
    (action : Action) : (session.perform fuel action).2.host.Limited := by
  cases action with
  | addEngine options => exact hlimited.addEngine options
  | map engine name id => exact hlimited.map engine name id
  | addTarget engine root options dependencies =>
      simp only [perform, Host.addTarget]
      cases hengine : session.host.engines[engine]? with
      | none => exact hlimited
      | some held => exact hlimited.addTarget hengine _ options dependencies _
  | invoke id arguments =>
      simp only [perform, Host.invoke_eq_map_start?]
      cases hstart : session.host.start? fuel id arguments with
      | none => exact hlimited
      | some started =>
          obtain ⟨target, context⟩ := started
          have huses := Uses.run target.root context (target.machine session.host.sites)
          refine hlimited.settle (Array.mem_of_getElem? (Host.getElem?_of_start? hstart)) ?_
            (fun kind => ?_) _
          · rfl
          · exact (huses kind).limit_eq
  | drive id node =>
      simp only [perform]
      cases session.activations[id]? with
      | none => exact hlimited
      | some activation =>
          dsimp only
          obtain habsent | ⟨target, context, htarget, hdrive⟩ :=
            session.host.drive_cases fuel activation node.run
          · rw [habsent]
            exact hlimited
          · rw [hdrive]
            have huses := Uses.node node context (activation.machine target session.host.sites)
            refine hlimited.settle (Array.mem_of_getElem? htarget) ?_ (fun kind => ?_) _
            · rfl
            · exact (huses kind).limit_eq
  | activate id arguments =>
      simp only [perform, enroll_snd_host]
      exact hlimited
  | resume id arguments frame =>
      simp only [perform, enroll_snd_host]
      exact hlimited
  | transfer id arguments source =>
      simp only [perform, enroll_snd_host]
      exact hlimited
  | invalidate dependency => cases dependency <;> exact ⟨hlimited.engines, hlimited.targets⟩
  | _ => exact ⟨hlimited.engines, hlimited.targets⟩

theorem Session.limited_run (fuel : Nat) (actions : List Action) :
    (Session.run fuel {} actions).host.Limited := by
  have hempty : ({} : Session).host.Limited := ⟨by simp, by simp⟩
  generalize ({} : Session) = session at hempty ⊢
  induction actions generalizing session with
  | nil => exact hempty
  | cons action rest ih => exact ih _ (session.limited_perform hempty fuel action)

/-- **Cache storage does not leak.** Whatever operations an arena has served with heads of its own,
its entries are as many as the chains of the heads are long together, since each entry lies on
exactly one of them. So a target that runs by invocations alone, whatever else its session does,
never stores more names than its engine's limit for each node that resolves one, nor more shapes
than that for each node that reads an item. -/
theorem storage_bounded :
    (∀ {ι κ α : Type} [Fintype ι] [DecidableEq ι] [DecidableEq κ] (limit : Nat)
      (operations : List (Operation ι κ α)),
      let store := ((Store.ofLimit limit).run operations).2
      store.arena.size = ∑ head, store.arena.chainLength (store.heads head) ∧
        ∀ index < store.arena.size, ∃! head, store.Holds head index) ∧
    ∀ (fuel id : Nat) (actions : List Action) {target : Target} {engine : Engine},
      (Session.run fuel {} actions).host.targets[id]? = some target →
      (Session.run fuel {} actions).host.engines[target.engine]? = some engine →
      Session.CachesByInvoking fuel id (target.root.cacheSites ·) {} actions →
      target.state.nameCache.size ≤
          min engine.options.cacheLimit maxLimit * (target.root.cacheSites .name).length ∧
        target.state.shapes.size ≤
          min engine.options.cacheLimit maxLimit * (target.root.cacheSites .shape).length := by
  constructor
  · intro ι κ α _ _ _ limit operations store
    have hnew : (Store.ofLimit limit : Store ι κ α).Partitioned Finset.univ :=
      .of_entries_eq_empty rfl fun _ _ => .blank (Arena.orderly_of_entries_eq_empty rfl)
    have hpartitioned := hnew.run operations
    refine ⟨hpartitioned.size_eq_sum, fun index hlt => ?_⟩
    simpa only [Finset.mem_univ, true_and] using hpartitioned.owner index hlt
  · intro fuel id actions target engine htarget hengine honly
    have hconserves := (Session.Conserves.empty id _).run honly
    obtain ⟨held, hheld, hlimit⟩ :=
      (Session.limited_run fuel actions).targets target (Array.mem_of_getElem? htarget)
    obtain rfl := Option.some.inj (hheld.symm.trans hengine)
    have hbound : ∀ kind, (target.state.cache kind).size ≤
        min held.options.cacheLimit maxLimit * (target.root.cacheSites kind).length := by
      intro kind
      have hsize := (hconserves.partitioned target htarget (fun _ => rfl) kind).size_le
      refine Nat.le_trans hsize ?_
      change (target.state.cache kind).limit.toNat * _ ≤ _
      rw [hlimit kind]
      exact Nat.mul_le_mul_left _ (List.toFinset_card_le _)
    exact ⟨hbound .name, hbound .shape⟩

/-- With room for one entry at each node, a target that reads an item of two arrays of different
shapes, beside one that resolves a name before and after it is mapped. -/
def Session.Conserves.twoTargets : List Action :=
  [ .addEngine { cacheLimit := 1 },
    .addTarget 0
      { name := "first", frameSize := 0, body := .expr (.element () (.arg 0) (.const (.int 0))) }
      {} [],
    .addTarget 0 { name := "lookup", frameSize := 0, body := .expr (.resolve () "late") } {} [],
    .invoke 0 #[.array (.dense 0 #[.int 3])],
    .invoke 1 #[],
    .map 0 "late" 7,
    .invoke 1 #[],
    .invoke 0 #[.array (.progression { start := 0, length := 2, stride := 1 })] ]

theorem storage_bounded_twoTargets :
    let host := (Session.run 0 {} Session.Conserves.twoTargets).host
    (host.targets[0]?.map fun target =>
      (target.state.nameCache.size, target.state.shapes.size)) = some (0, 1) ∧
    ∃ target engine, host.targets[0]? = some target ∧ host.engines[target.engine]? = some engine ∧
      target.state.nameCache.size ≤
        min engine.options.cacheLimit maxLimit * (target.root.cacheSites .name).length ∧
      target.state.shapes.size ≤
        min engine.options.cacheLimit maxLimit * (target.root.cacheSites .shape).length := by
  intro host
  have hsizes : (host.targets[0]?.map fun target =>
      (target.state.nameCache.size, target.state.shapes.size)) = some (0, 1) := by
    decide +kernel
  have hpresent : (do
      let target ← host.targets[0]?
      host.engines[target.engine]?).isSome = true := by
    decide +kernel
  obtain ⟨engine, hfound⟩ := Option.isSome_iff_exists.mp hpresent
  obtain ⟨target, htarget, hengine⟩ := Option.bind_eq_some_iff.mp hfound
  have honly : Session.CachesByInvoking 0 0 (target.root.cacheSites ·) {}
      Session.Conserves.twoTargets :=
    ⟨trivial, trivial, trivial, trivial, trivial, trivial, trivial, trivial, trivial⟩
  exact ⟨hsizes, target, engine, htarget, hengine,
    storage_bounded.2 0 0 Session.Conserves.twoTargets htarget hengine honly⟩

end AdaptiveEval
