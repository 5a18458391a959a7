import AdaptiveEval.Proofs.Chain.FirstKeys
import AdaptiveEval.Proofs.NameFreshness
import Mathlib.Order.Lattice

/-!
# Which resolves hit

A name site hits exactly on the first names that were resolved at it since its cache last changed
generation, where a resolve that finds its cache behind the registry changes the generation itself.
Whether a name is mapped makes no difference.
-/

namespace AdaptiveEval

open Chain

namespace Registry

variable {registry : Registry} {cache : NameCache} {site : Head} {earlier : List String}
  {name : String}

/-- A resolve synchronizes and then makes at most one attempt to append. -/
theorem resolve_change (registry : Registry) (cache : NameCache) (site : Head) (name : String) :
    Arena.Change cache (registry.resolve cache site name).2.1 := by
  have hsync := Arena.Change.sync cache registry.epoch
  unfold resolve
  dsimp only
  split
  · exact hsync
  · exact hsync.trans (.append _ _ _ _ _)

/-- Every resolve is counted, one way or the other. -/
theorem total_resolve (registry : Registry) (cache : NameCache) (site : Head) (name : String) :
    (registry.resolve cache site name).2.2.hits + (registry.resolve cache site name).2.2.misses =
      site.hits + site.misses + 1 := by
  unfold resolve
  dsimp only
  split
  · exact Nat.add_right_comm _ _ _
  · obtain ⟨hhits, hmisses⟩ := (cache.sync registry.epoch).counts_tryAppend (site.record false)
      (cache.sync registry.epoch).generation name (registry.lookup name)
    rw [hhits, hmisses]
    exact (Nat.add_assoc _ _ _).symm

section Synchronized

variable (hlists : (cache.sync registry.epoch).Lists site earlier)

include hlists

theorem resolve_of_mem (hheld : name ∈ earlier.eraseDups.take cache.limit.toNat) :
    (registry.resolve cache site name).2 = (cache.sync registry.epoch, site.record true) := by
  rw [← Arena.limit_sync cache registry.epoch] at hheld
  obtain ⟨id, hfound⟩ := Option.isSome_iff_exists.mp
    ((hlists.lookup_isSome_iff fun _ => beq_iff_eq).mpr hheld)
  simp only [resolve, hfound]

theorem resolve_of_notMem (hmiss : name ∉ earlier.eraseDups.take cache.limit.toNat) :
    registry.resolve cache site name =
      (registry.lookup name, ((cache.sync registry.epoch).tryAppend (site.record false)
        (cache.sync registry.epoch).generation name (registry.lookup name)).2) := by
  rw [← Arena.limit_sync cache registry.epoch] at hmiss
  have hmissing : (cache.sync registry.epoch).lookup site (fun key => key == name) = none := by
    rw [← Option.not_isSome_iff_eq_none, hlists.lookup_isSome_iff fun _ => beq_iff_eq]
    exact hmiss
  simp only [resolve, hmissing]

theorem counts_resolve (name : String) :
    ((registry.resolve cache site name).2.2.hits, (registry.resolve cache site name).2.2.misses) =
      if name ∈ earlier.eraseDups.take cache.limit.toNat then (site.hits + 1, site.misses)
      else (site.hits, site.misses + 1) := by
  split
  · rename_i hheld
    rw [resolve_of_mem hlists hheld]
    rfl
  · rename_i hmiss
    obtain ⟨hhits, hmisses⟩ := (cache.sync registry.epoch).counts_tryAppend (site.record false)
      (cache.sync registry.epoch).generation name (registry.lookup name)
    rw [resolve_of_notMem hlists hmiss]
    exact Prod.ext hhits hmisses

variable (hlive : (cache.sync registry.epoch).generation ≤ maxGeneration)
  (hroom : (cache.sync registry.epoch).size < maxEntries)

include hlive hroom

theorem lists_resolve (name : String) :
    (registry.resolve cache site name).2.1.Lists (registry.resolve cache site name).2.2
      (earlier ++ [name]) := by
  by_cases hheld : name ∈ earlier.eraseDups.take cache.limit.toNat
  · rw [resolve_of_mem hlists hheld]
    rw [← Arena.limit_sync cache registry.epoch] at hheld
    exact (hlists.again hheld).record true
  · rw [resolve_of_notMem hlists hheld]
    rw [← Arena.limit_sync cache registry.epoch] at hheld
    exact ((hlists.record false).tryAppend_self hlive hroom (registry.lookup name) hheld).2

/-- A name that there is room for is cached with what the registry says, also if it is unmapped. -/
theorem lookup_resolve (hnew : name ∉ earlier)
    (hopen : earlier.eraseDups.length < cache.limit.toNat) :
    (registry.resolve cache site name).2.1.lookup (registry.resolve cache site name).2.2
      (fun key => key == name) = some (registry.lookup name) := by
  have hlimit := Arena.limit_sync cache registry.epoch
  have hmiss : name ∉ earlier.eraseDups.take (cache.sync registry.epoch).limit.toNat := fun hheld =>
    hnew (List.mem_eraseDups.mp (List.mem_of_mem_take hheld))
  rw [resolve_of_notMem hlists (hlimit ▸ hmiss)]
  exact (hlists.record false).lookup_tryAppend hlive hroom _ (hlimit ▸ hopen) hnew
    (beq_self_eq_true name)

end Synchronized

end Registry

namespace Names

/-- The name that a site is asked for in a step. -/
def Step.name? (site : Nat) : Step → Option String
  | .resolve _ other name => if other = site then some name else none
  | _ => none

/-- The step does not take the site to another cache. -/
def Step.Stays (cache site : Nat) : Step → Prop
  | .resolve used other _ => other = site → used = cache
  | _ => True

/-- A resolve at the site itself, or a step that asks it for no name. -/
theorem Step.Stays.cases {cache site : Nat} {step : Step} (hstays : step.Stays cache site) :
    step.name? site = none ∨ ∃ name, step = .resolve cache site name := by
  cases step with
  | resolve used other name =>
      by_cases hsite : other = site
      · obtain rfl := hstays hsite
        subst hsite
        exact Or.inr ⟨name, rfl⟩
      · exact Or.inl (if_neg hsite)
  | map name id => exact Or.inl rfl
  | invalidate used => exact Or.inl rfl
  | sync used generation => exact Or.inl rfl

/-- The names that were resolved at a site since a cache last changed generation, oldest first. -/
def asked (start : Names) (cache site : Nat) (steps : List Step) : List String :=
  recent step (fun names => (names.caches cache).generation) (Step.name? site) start steps

/-- What is left of those names once a resolve has synchronized the cache. -/
def askedAtSync (start : Names) (cache site : Nat) (steps : List Step) : List String :=
  if (start.run steps).registry.epoch ≤ ((start.run steps).caches cache).generation then
    start.asked cache site steps
  else
    []

/-- Heads can name the generation that a resolve brings the cache to, and one more entry fits. -/
def Open (names : Names) (cache : Nat) : Prop :=
  ((names.caches cache).sync names.registry.epoch).generation ≤ maxGeneration ∧
    ((names.caches cache).sync names.registry.epoch).size < maxEntries

instance (names : Names) (cache : Nat) : Decidable (names.Open cache) :=
  inferInstanceAs (Decidable (_ ∧ _))

/-- The cache is open whenever the site resolves a name. -/
def Roomy (start : Names) (cache site : Nat) (steps : List Step) : Prop :=
  ∀ before name after, steps = before ++ .resolve cache site name :: after →
    (start.run before).Open cache

section Steps

variable (names : Names) (cache : Nat) {site : Nat}

theorem caches_resolve (site : Nat) (name : String) :
    (names.step (.resolve cache site name)).caches cache =
      (names.registry.resolve (names.caches cache) (names.sites site) name).2.1 := by
  simp [step, setCache]

theorem sites_resolve (site : Nat) (name : String) :
    (names.step (.resolve cache site name)).sites site =
      (names.registry.resolve (names.caches cache) (names.sites site) name).2.2 := by
  simp [step]

theorem change_setCache (used : Nat) {state : NameCache}
    (hchange : Arena.Change (names.caches used) state) :
    Arena.Change (names.caches cache) ((names.setCache used state).caches cache) := by
  by_cases hused : cache = used
  · subst hused
    simpa [setCache] using hchange
  · simpa [setCache, hused] using Arena.Change.refl (names.caches cache)

theorem change_step (step : Step) :
    Arena.Change (names.caches cache) ((names.step step).caches cache) := by
  cases step with
  | map name id => exact .refl _
  | resolve used site name =>
      exact names.change_setCache cache used (names.registry.resolve_change _ _ name)
  | invalidate used => exact names.change_setCache cache used (.invalidate _)
  | sync used generation => exact names.change_setCache cache used (.sync _ _)

theorem sites_step_of_name?_eq_none {step : Step} (helsewhere : step.name? site = none) :
    (names.step step).sites site = names.sites site := by
  cases step with
  | resolve used other name =>
      have hother : site ≠ other := by
        rintro rfl
        simp [Step.name?] at helsewhere
      simp [Names.step, setCache, hother]
  | map name id => rfl
  | invalidate used => rfl
  | sync used generation => rfl

end Steps

section Runs

variable {start : Names} {cache site : Nat} {steps : List Step}

theorem run_concat (start : Names) (steps : List Step) (step : Step) :
    start.run (steps ++ [step]) = (start.run steps).step step :=
  start.run_append steps [step]

theorem asked_concat (start : Names) (cache site : Nat) (steps : List Step) (step : Step) :
    start.asked cache site (steps ++ [step]) =
      (if (((start.run steps).step step).caches cache).generation =
          ((start.run steps).caches cache).generation then start.asked cache site steps
        else []) ++ (step.name? site).toList :=
  recent_concat _ _ _ start steps step

theorem asked_concat_resolve (start : Names) (cache site : Nat) (steps : List Step)
    (name : String) :
    start.asked cache site (steps ++ [.resolve cache site name]) =
      start.askedAtSync cache site steps ++ [name] := by
  have hname : (Step.resolve cache site name).name? site = some name := if_pos rfl
  rw [asked_concat, hname, caches_resolve, Registry.generation_resolve, askedAtSync]
  simp only [max_eq_left_iff, Option.toList_some]

theorem limit_run (start : Names) (cache : Nat) (steps : List Step) :
    ((start.run steps).caches cache).limit = (start.caches cache).limit := by
  induction steps generalizing start with
  | nil => rfl
  | cons first rest ih => exact (ih _).trans (start.change_step cache first).limit_eq

theorem Roomy.of_concat {step : Step} (hroomy : start.Roomy cache site (steps ++ [step])) :
    start.Roomy cache site steps := by
  intro before name after hsplit
  refine hroomy before name (after ++ [step]) ?_
  rw [hsplit]
  simp

/-- After any steps, the synchronization of the next resolve leaves the names to which it is
compared. -/
theorem lists_sync
    (hlists : ((start.run steps).caches cache).Lists ((start.run steps).sites site)
      (start.asked cache site steps)) :
    (((start.run steps).caches cache).sync (start.run steps).registry.epoch).Lists
      ((start.run steps).sites site) (start.askedAtSync cache site steps) := by
  have hsync := hlists.change (.sync _ (start.run steps).registry.epoch)
  rw [Arena.generation_sync] at hsync
  simpa only [max_eq_left_iff, askedAtSync] using hsync

theorem lists_run (hnew : start.sites site = {}) (hempty : (start.caches cache).entries = #[])
    (hstays : ∀ step ∈ steps, step.Stays cache site) (hroomy : start.Roomy cache site steps) :
    ((start.run steps).caches cache).Lists ((start.run steps).sites site)
      (start.asked cache site steps) := by
  induction steps using List.reverseRecOn with
  | nil =>
      change (start.caches cache).Lists (start.sites site) []
      rw [hnew]
      exact .blank hempty
  | append_singleton steps step ih =>
      have hbefore := ih (fun other hother => hstays other (by simp [hother])) hroomy.of_concat
      rw [run_concat]
      obtain helsewhere | ⟨name, rfl⟩ := (hstays step (by simp)).cases
      · rw [asked_concat, helsewhere, Option.toList_none, List.append_nil,
          sites_step_of_name?_eq_none _ helsewhere]
        exact hbefore.change (change_step _ cache step)
      · obtain ⟨hlive, hroom⟩ := hroomy steps name [] rfl
        rw [asked_concat_resolve, caches_resolve, sites_resolve]
        exact Registry.lists_resolve (lists_sync hbefore) hlive hroom name

theorem total_step (names : Names) (site : Nat) (step : Step) :
    ((names.step step).sites site).hits + ((names.step step).sites site).misses =
      (names.sites site).hits + (names.sites site).misses + (step.name? site).toList.length := by
  cases hname : step.name? site with
  | none =>
      rw [sites_step_of_name?_eq_none names hname]
      rfl
  | some asked =>
      obtain ⟨cache, name, rfl⟩ : ∃ cache name, step = .resolve cache site name := by
        cases step with
        | resolve used other name =>
            have hsite : other = site := by
              by_contra hother
              simp [Step.name?, hother] at hname
            exact ⟨used, name, by rw [hsite]⟩
        | _ => simp [Step.name?] at hname
      rw [sites_resolve]
      exact names.registry.total_resolve _ _ name

theorem total_run (hnew : start.sites site = {}) (steps : List Step) :
    ((start.run steps).sites site).hits + ((start.run steps).sites site).misses =
      (steps.filterMap (Step.name? site)).length := by
  induction steps using List.reverseRecOn with
  | nil =>
      change (start.sites site).hits + (start.sites site).misses = 0
      simp [hnew]
  | append_singleton steps step ih =>
      rw [run_concat, total_step, ih]
      cases hname : step.name? site <;> simp [hname]

end Runs

theorem toNat_limit_ofLimit (limit cache : Nat) :
    ((ofLimit limit).caches cache).limit.toNat = min limit maxLimit := by
  have hlimit := @Arena.toNat_limit_ofLimit String (Option Int64) (min limit maxLimit)
  rw [Nat.min_eq_left (Nat.min_le_right limit maxLimit)] at hlimit
  exact hlimit

/-- **Sites hit exactly on their first names.** Take a site that one cache serves, within the bounds
on generations and entries, and any steps of all sites and caches. Each resolve at the site has been
counted once. The chain is as long as there are distinct names since the last generation, up to the
limit. The next resolve synchronizes the cache and then is a hit if its name is among the first
distinct names that are left, as many as the limit, and a miss if it is not. A name that is new
there and has room is cached with what the registry holds for it, which may be nothing. -/
theorem hits_exactly_on_first_names (limit : Nat) {cache site : Nat} {steps : List Step}
    (hstays : ∀ step ∈ steps, step.Stays cache site)
    (hroomy : (ofLimit limit).Roomy cache site steps) :
    let start := ofLimit limit
    let most := min limit maxLimit
    let names := start.run steps
    let now := names.sites site
    let earlier := start.askedAtSync cache site steps
    now.hits + now.misses = (steps.filterMap (Step.name? site)).length ∧
    (names.caches cache).chainLength now =
      min most (start.asked cache site steps).eraseDups.length ∧
    ∀ name,
      let next := names.step (.resolve cache site name)
      ((next.sites site).hits, (next.sites site).misses) =
        (if name ∈ earlier.eraseDups.take most then (now.hits + 1, now.misses)
        else (now.hits, now.misses + 1)) ∧
      (names.Open cache → name ∉ earlier → earlier.eraseDups.length < most →
        (next.caches cache).lookup (next.sites site) (fun key => key == name) =
          some (names.registry.lookup name)) := by
  intro start most names now earlier
  have hlists : (names.caches cache).Lists now (start.asked cache site steps) :=
    lists_run rfl rfl hstays hroomy
  have hlimit : (names.caches cache).limit.toNat = most := by
    rw [limit_run, toNat_limit_ofLimit]
  refine ⟨total_run rfl steps, ?_, fun name => ⟨?_, fun hopen hnew hroom => ?_⟩⟩
  · rw [hlists.chainLength_eq, hlimit]
  · rw [sites_resolve, ← hlimit]
    exact Registry.counts_resolve (lists_sync hlists) name
  · rw [caches_resolve, sites_resolve]
    rw [← hlimit] at hroom
    exact Registry.lookup_resolve (lists_sync hlists) hopen.1 hopen.2 hnew hroom

/-- With room for one name, the second name misses each time. The mapping drops the first one, and
the resolve that notices it takes its own name in instead. -/
def crowded : List Step :=
  [ .resolve 0 0 "first", .resolve 0 0 "first", .resolve 0 0 "second", .resolve 0 1 "third",
    .resolve 0 0 "second", .map "first" 7, .resolve 0 0 "second" ]

theorem hits_exactly_on_first_names_crowded :
    let names := (ofLimit 1).run crowded
    (names.sites 0).hits = 1 ∧ (names.sites 0).hits + (names.sites 0).misses = 5 ∧
      (names.caches 0).chainLength (names.sites 0) = 1 := by
  intro names
  have hstays : ∀ step ∈ crowded, step.Stays 0 0 := by
    simp [crowded, Step.Stays]
  have hbounds : ∀ before ∈ crowded.inits, ((ofLimit 1).run before).Open 0 := by
    decide +kernel
  have hroomy : (ofLimit 1).Roomy 0 0 crowded := by
    intro before name after hsplit
    exact hbounds before ((List.mem_inits _ _).mpr ⟨_, hsplit.symm⟩)
  obtain ⟨htotal, hlength, -⟩ := hits_exactly_on_first_names 1 hstays hroomy
  have hhits : (names.sites 0).hits = 1 := by
    decide +kernel
  exact ⟨hhits, htotal, hlength.trans (by decide +kernel)⟩

end Names

end AdaptiveEval
