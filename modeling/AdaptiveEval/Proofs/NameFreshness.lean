import AdaptiveEval.Proofs.Chain.Entries
import AdaptiveEval.Registry
import Mathlib.Logic.Function.Basic

/-!
# Freshness of cached names

A resolve first brings its cache to the registry's epoch, so a cache that is behind drops what it
holds. A cache that was moved ahead of the epoch by other means keeps its entries across a mapping
change. The main statement says that this is the only way in which a resolve can be wrong.
-/

namespace AdaptiveEval

open Chain

namespace Registry

variable {registry : Registry} {cache : NameCache}

theorem lookup_map (registry : Registry) (name other : String) (id : Int64) :
    (registry.map name id).lookup other =
      if name = other then some id else registry.lookup other := by
  simp [lookup, map, Std.HashMap.getElem?_insert]

/-- What a synchronization with the registry leaves in the cache is what the registry says. -/
def Fresh (registry : Registry) (cache : NameCache) : Prop :=
  registry.epoch ≤ cache.generation →
    ∀ entry ∈ cache.entries, entry.value = registry.lookup entry.key

theorem fresh_of_entries_eq_empty (hempty : cache.entries = #[]) : registry.Fresh cache := by
  intro _ entry hmem
  simp [hempty] at hmem

theorem fresh_map_of_generation_le (hbehind : cache.generation ≤ registry.epoch) (name : String)
    (id : Int64) : (registry.map name id).Fresh cache := by
  intro hahead
  simp only [map] at hahead
  omega

namespace Fresh

theorem sync (hfresh : registry.Fresh cache) (generation : Nat) :
    registry.Fresh (cache.sync generation) := by
  intro _ entry hmem
  obtain ⟨hmem, hle⟩ := Arena.mem_entries_sync hmem
  unfold Arena.sync at *
  split at *
  · omega
  · exact hfresh ‹_› entry hmem

theorem tryAppend (hfresh : registry.Fresh cache) (site : Head) (generation : Nat) (name : String) :
    registry.Fresh (cache.tryAppend site generation name (registry.lookup name)).2.1 := by
  intro hepoch entry hmem
  rw [Arena.generation_tryAppend] at hepoch
  rcases Arena.mem_entries_tryAppend hmem with hold | ⟨rfl, hvalue, _⟩
  · exact hfresh hepoch entry hold
  · exact hvalue

/-- The id found at a site is the registry's, whichever entry the site's head happens to name. -/
theorem lookup_sync_eq_some (hfresh : registry.Fresh cache) {site : Head} {name : String}
    {id : Option Int64}
    (hfound : (cache.sync registry.epoch).lookup site (fun key => key == name) = some id) :
    id = registry.lookup name := by
  obtain ⟨entry, hmem, hkey, rfl⟩ := Arena.exists_mem_of_lookup_eq_some hfound
  obtain ⟨hmem, hepoch⟩ := Arena.mem_entries_sync hmem
  rw [hfresh hepoch entry hmem, eq_of_beq hkey]

theorem resolve_fst (hfresh : registry.Fresh cache) (site : Head) (name : String) :
    (registry.resolve cache site name).1 = registry.lookup name := by
  unfold Registry.resolve
  dsimp only
  split
  · rename_i hfound
    exact hfresh.lookup_sync_eq_some hfound
  · rfl

theorem resolve_snd (hfresh : registry.Fresh cache) (site : Head) (name : String) :
    registry.Fresh (registry.resolve cache site name).2.1 := by
  unfold Registry.resolve
  dsimp only
  split
  · exact hfresh.sync registry.epoch
  · exact (hfresh.sync registry.epoch).tryAppend _ _ name

end Fresh

theorem generation_resolve (registry : Registry) (cache : NameCache) (site : Head) (name : String) :
    (registry.resolve cache site name).2.1.generation = max cache.generation registry.epoch := by
  unfold resolve
  dsimp only
  split <;> simp

theorem nameable_resolve (registry : Registry) (hnameable : cache.Nameable) (site : Head)
    (name : String) : (registry.resolve cache site name).2.1.Nameable := by
  unfold resolve
  dsimp only
  split
  · exact hnameable.sync registry.epoch
  · exact (hnameable.sync registry.epoch).tryAppend _ _ _ _

theorem resolve_point_fst (registry : Registry) (hnameable : cache.Nameable)
    (hepoch : registry.epoch ≤ cache.generation) {index : Nat} {entry : Entry String (Option Int64)}
    (hentry : cache.entries[index]? = some entry) (site : Head) :
    (registry.resolve cache (site.point cache.generation index) entry.key).1 = entry.value := by
  have hfound : cache.lookup (site.point cache.generation index) (fun key => key == entry.key) =
      some entry.value :=
    hnameable.lookup_point site hentry (beq_self_eq_true entry.key)
  unfold resolve
  simp only [Arena.sync_of_le hepoch, hfound]

theorem limit_resolve (registry : Registry) (cache : NameCache) (site : Head) (name : String) :
    (registry.resolve cache site name).2.1.limit = cache.limit := by
  unfold resolve
  dsimp only
  split <;> simp

theorem resolve_of_slot_eq_zero (registry : Registry) {site : Head} (hslot : site.slot = 0)
    (hepoch : registry.epoch ≤ cache.generation) (hlive : cache.generation ≤ maxGeneration)
    (hlimit : 0 < cache.limit.toNat) (hroom : cache.size < maxEntries) (name : String) :
    registry.resolve cache site name =
      (registry.lookup name, cache.push name (registry.lookup name) none,
        (site.record false).point cache.generation cache.size) := by
  have hrecorded : (site.record false).slot = 0 := hslot
  unfold resolve
  simp only [Arena.sync_of_le hepoch, Arena.lookup_of_slot_eq_zero hslot,
    Arena.tryAppend_of_slot_eq_zero hrecorded hlive hlimit hroom]

end Registry

structure Names where
  registry : Registry
  caches : Nat → NameCache
  sites : Nat → Head

namespace Names

inductive Step where
  | map (name : String) (id : Int64)
  | resolve (cache site : Nat) (name : String)
  | invalidate (cache : Nat)
  | sync (cache : Nat) (generation : UInt64)

def ofLimit (limit : Nat) : Names :=
  { registry := .ofLimit limit
    caches := fun _ => (Registry.ofLimit limit).freshCache
    sites := fun _ => {} }

def resolved (names : Names) (cache site : Nat) (name : String) : Option Int64 :=
  (names.registry.resolve (names.caches cache) (names.sites site) name).1

def setCache (names : Names) (cache : Nat) (state : NameCache) : Names :=
  { names with caches := Function.update names.caches cache state }

def step (names : Names) : Step → Names
  | .map name id => { names with registry := names.registry.map name id }
  | .resolve cache site name =>
      match names.registry.resolve (names.caches cache) (names.sites site) name with
      | (_, state, head) =>
          { names.setCache cache state with sites := Function.update names.sites site head }
  | .invalidate cache => names.setCache cache (names.caches cache).invalidate
  | .sync cache generation => names.setCache cache ((names.caches cache).sync generation.toNat)

def run (names : Names) (steps : List Step) : Names :=
  steps.foldl step names

def Fresh (names : Names) : Prop :=
  ∀ cache, names.registry.Fresh (names.caches cache)

/-- A mapping change goes unnoticed by a cache that is ahead of the registry. The cache survives
it only if it holds the new id already. -/
def Survives (names : Names) : Step → Prop
  | .map name id =>
      ∀ cache, names.registry.epoch < (names.caches cache).generation →
        ∀ entry ∈ (names.caches cache).entries, entry.key = name → entry.value = some id
  | _ => True

def Step.Quiet : Step → Prop
  | .map _ _ => False
  | _ => True

/-- Every resolve that can come before the next mapping change is right. -/
def ServesLookup (names : Names) : Prop :=
  ∀ quiet : List Step, (∀ step ∈ quiet, step.Quiet) → ∀ cache site name,
    (names.run quiet).resolved cache site name = (names.run quiet).registry.lookup name

theorem fresh_ofLimit (limit : Nat) : (ofLimit limit).Fresh :=
  fun _ => Registry.fresh_of_entries_eq_empty rfl

/-- What holds of a new cache and of all others holds of all caches. -/
theorem forall_setCache {names : Names} {cache : Nat} {state : NameCache} {P : NameCache → Prop}
    (hstate : P state) (hothers : ∀ other, P (names.caches other)) (other : Nat) :
    P ((names.setCache cache state).caches other) := by
  unfold setCache
  by_cases heq : other = cache
  · subst heq
    simpa using hstate
  · simpa [heq] using hothers other

/-- From some index on, caches and sites are as they were made. -/
def Untouched (limit bound : Nat) (names : Names) : Prop :=
  ∀ index, bound ≤ index →
    names.caches index = (Registry.ofLimit limit).freshCache ∧ names.sites index = {}

theorem Untouched.setCache {limit bound : Nat} {names : Names}
    (huntouched : names.Untouched limit bound) (cache : Nat) (state : NameCache) :
    (names.setCache cache state).Untouched limit (max bound (cache + 1)) := by
  intro index hindex
  have hne : index ≠ cache := by omega
  simp only [Names.setCache, Function.update_of_ne hne]
  exact huntouched index (by omega)

/-- What every run keeps. -/
structure Regular (limit : Nat) (names : Names) : Prop where
  nameable : ∀ cache, (names.caches cache).Nameable
  limited : ∀ cache, (names.caches cache).limit = (Registry.ofLimit limit).freshCache.limit
  untouched : ∃ bound, names.Untouched limit bound

namespace Regular

variable {limit : Nat} {names : Names}

theorem ofLimit (limit : Nat) : (Names.ofLimit limit).Regular limit where
  nameable _ := Arena.nameable_of_entries_eq_empty rfl
  limited _ := rfl
  untouched := ⟨0, fun _ _ => ⟨rfl, rfl⟩⟩

theorem setCache (hregular : names.Regular limit) {state : NameCache} (cache : Nat)
    (hnameable : state.Nameable) (hlimit : state.limit = (names.caches cache).limit) :
    (names.setCache cache state).Regular limit where
  nameable := forall_setCache hnameable hregular.nameable
  limited := forall_setCache
    (P := fun state => state.limit = (Registry.ofLimit limit).freshCache.limit)
    (hlimit.trans (hregular.limited cache)) hregular.limited
  untouched := by
    obtain ⟨bound, huntouched⟩ := hregular.untouched
    exact ⟨_, huntouched.setCache cache state⟩

theorem setSite (hregular : names.Regular limit) (site : Nat) (head : Head) :
    ({ names with sites := Function.update names.sites site head } : Names).Regular limit where
  nameable := hregular.nameable
  limited := hregular.limited
  untouched := by
    obtain ⟨bound, huntouched⟩ := hregular.untouched
    refine ⟨max bound (site + 1), fun index hindex => ?_⟩
    have hne : index ≠ site := by omega
    simp only [Function.update_of_ne hne]
    exact huntouched index (by omega)

theorem step (hregular : names.Regular limit) (step : Step) : (names.step step).Regular limit := by
  cases step with
  | map name id => exact ⟨hregular.nameable, hregular.limited, hregular.untouched⟩
  | resolve cache site name =>
      refine Regular.setSite (hregular.setCache cache ?_ ?_) site _
      · exact names.registry.nameable_resolve (hregular.nameable cache) _ name
      · exact names.registry.limit_resolve _ _ name
  | invalidate cache =>
      exact hregular.setCache cache (Arena.nameable_of_entries_eq_empty rfl) rfl
  | sync cache generation =>
      exact hregular.setCache cache ((hregular.nameable cache).sync _) (Arena.limit_sync _ _)

theorem run (hregular : names.Regular limit) (steps : List Step) :
    (names.run steps).Regular limit := by
  induction steps generalizing names with
  | nil => exact hregular
  | cons first rest ih => exact ih (hregular.step first)

end Regular

/-- Only a mapping change can make a cache stale, and it does so exactly when some cache fails to
survive it. -/
theorem fresh_step_iff {names : Names} (hfresh : names.Fresh) (step : Step) :
    (names.step step).Fresh ↔ names.Survives step := by
  cases step with
  | map name id =>
      constructor
      · intro hafter cache hahead entry hmem hkey
        have hvalue : entry.value = (names.registry.map name id).lookup entry.key :=
          hafter cache hahead entry hmem
        rw [hvalue, Registry.lookup_map, if_pos hkey.symm]
      · intro hsurvives cache hahead entry hmem
        have hbefore : entry.value = names.registry.lookup entry.key :=
          hfresh cache (Nat.le_of_succ_le hahead) entry hmem
        change entry.value = (names.registry.map name id).lookup entry.key
        rw [Registry.lookup_map]
        split
        · rename_i hkey
          exact hsurvives cache hahead entry hmem hkey.symm
        · exact hbefore
  | resolve cache site name =>
      exact iff_of_true (forall_setCache ((hfresh cache).resolve_snd _ name) hfresh) trivial
  | invalidate cache =>
      exact iff_of_true (forall_setCache (Registry.fresh_of_entries_eq_empty rfl) hfresh) trivial
  | sync cache generation =>
      exact iff_of_true (forall_setCache ((hfresh cache).sync _) hfresh) trivial

theorem run_append (names : Names) (first second : List Step) :
    names.run (first ++ second) = (names.run first).run second :=
  List.foldl_append

theorem Fresh.run_quiet {names : Names} (hfresh : names.Fresh) (quiet : List Step)
    (hquiet : ∀ step ∈ quiet, step.Quiet) : (names.run quiet).Fresh := by
  induction quiet generalizing names with
  | nil => exact hfresh
  | cons first rest ih =>
      obtain ⟨hfirst, hrest⟩ := List.forall_mem_cons.mp hquiet
      have hsurvives : names.Survives first := by
        cases first with
        | map name id => exact hfirst.elim
        | _ => trivial
      exact ih ((fresh_step_iff hfresh first).mpr hsurvives) hrest

section Borrowing

/-! A head carries no mark of the cache that it was written for. An unused cache, brought to the
generation of another one, can be filled until the head of a new site names any wanted entry of that
other cache. -/

variable {names after : Names} {bound count : Nat} {generation : UInt64}

def borrow (bound : Nat) (generation : UInt64) : Nat → List Step
  | 0 => [.sync bound generation]
  | count + 1 => borrow bound generation count ++ [.resolve bound (bound + count) ""]

theorem quiet_borrow (bound : Nat) (generation : UInt64) (count : Nat) :
    ∀ step ∈ borrow bound generation count, step.Quiet := by
  induction count with
  | zero => simp [borrow, Step.Quiet]
  | succ count ih =>
      intro step hmem
      rcases List.mem_append.mp hmem with hold | hnew
      · exact ih step hold
      · rw [List.mem_singleton.mp hnew]
        trivial

structure Borrowed (names after : Names) (bound generation count : Nat) : Prop where
  registry : after.registry = names.registry
  caches : ∀ cache, cache ≠ bound → after.caches cache = names.caches cache
  generation : (after.caches bound).generation = generation
  limit : (after.caches bound).limit = (names.caches bound).limit
  size : (after.caches bound).size = count
  sites : ∀ index, bound + count ≤ index → after.sites index = {}

theorem borrowed_sync {limit : Nat} (huntouched : names.Untouched limit bound)
    (generation : UInt64) :
    Borrowed names (names.run [.sync bound generation]) bound generation.toNat 0 := by
  obtain ⟨hcache, _⟩ := huntouched bound (Nat.le_refl bound)
  refine ⟨rfl, fun cache hne => ?_, ?_, ?_, ?_, fun index hindex => (huntouched index hindex).2⟩
  · simp [run, step, setCache, hne]
  · simp [run, step, setCache, hcache, Registry.freshCache, Arena.ofLimit]
  · simp [run, step, setCache]
  · simp only [run, List.foldl, step, setCache, Function.update_self, hcache]
    unfold Arena.sync
    split <;> rfl

theorem Borrowed.step (hborrowed : Borrowed names after bound generation.toNat count)
    (hepoch : names.registry.epoch ≤ generation.toNat) (hlive : generation.toNat ≤ maxGeneration)
    (hlimit : 0 < (names.caches bound).limit.toNat) (hroom : count < maxEntries) :
    Borrowed names (after.step (.resolve bound (bound + count) "")) bound generation.toNat
        (count + 1) ∧
      (after.step (.resolve bound (bound + count) "")).sites (bound + count) =
        (({} : Head).record false).point generation.toNat count := by
  have hempty : after.sites (bound + count) = {} := hborrowed.sites _ (Nat.le_refl _)
  have hslot : (after.sites (bound + count)).slot = 0 := by
    rw [hempty]
    rfl
  have hresolve := after.registry.resolve_of_slot_eq_zero hslot
    (hborrowed.registry ▸ hborrowed.generation ▸ hepoch) (hborrowed.generation ▸ hlive)
    (hborrowed.limit ▸ hlimit) (hborrowed.size ▸ hroom) ""
  rw [hempty, hborrowed.generation, hborrowed.size] at hresolve
  simp only [Names.step, hempty, hresolve]
  refine ⟨⟨hborrowed.registry, fun cache hne => ?_, ?_, ?_, ?_, fun index hindex => ?_⟩, ?_⟩
  · simpa [setCache, hne] using hborrowed.caches cache hne
  · simpa [setCache, Arena.push] using hborrowed.generation
  · simpa [setCache, Arena.push] using hborrowed.limit
  · simpa [setCache, Arena.push, Arena.size] using hborrowed.size
  · have hne : index ≠ bound + count := by omega
    simpa [hne] using hborrowed.sites index (by omega)
  · simp

theorem borrowed_run {limit : Nat} (huntouched : names.Untouched limit bound)
    (hepoch : names.registry.epoch ≤ generation.toNat) (hlive : generation.toNat ≤ maxGeneration)
    (hlimit : 0 < (names.caches bound).limit.toNat) :
    ∀ {count}, count ≤ maxEntries →
      Borrowed names (names.run (borrow bound generation count)) bound generation.toNat count := by
  intro count hcount
  induction count with
  | zero => exact borrowed_sync huntouched generation
  | succ count ih =>
      have hborrowed := ih (Nat.le_of_succ_le hcount)
      rw [borrow, run_append]
      exact (hborrowed.step hepoch hlive hlimit hcount).1

/-- The site that borrowed last serves the entry that its head happens to name. -/
theorem resolved_borrow {limit : Nat} (hregular : names.Regular limit) {cache index : Nat}
    {entry : Entry String (Option Int64)}
    (hepoch : names.registry.epoch ≤ (names.caches cache).generation)
    (hentry : (names.caches cache).entries[index]? = some entry) :
    ∃ quiet site, (∀ step ∈ quiet, step.Quiet) ∧ (names.run quiet).registry = names.registry ∧
      (names.run quiet).resolved cache site entry.key = entry.value := by
  obtain ⟨bound, huntouched⟩ := hregular.untouched
  have hindex : index < (names.caches cache).size := (Array.getElem?_eq_some_iff.mp hentry).1
  have hne : (names.caches cache).entries ≠ #[] := by
    intro hempty
    simp [hempty] at hentry
  have hlive := (hregular.nameable cache).live hne
  have hroom := Nat.lt_of_lt_of_le hindex (hregular.nameable cache).room
  -- The unused cache is another one, since the given one holds an entry.
  have hother : cache ≠ bound := by
    intro heq
    rw [heq, (huntouched bound (Nat.le_refl bound)).1] at hne
    exact hne rfl
  obtain ⟨generation, hgeneration⟩ : ∃ generation : UInt64,
      generation.toNat = (names.caches cache).generation := by
    refine ⟨UInt64.ofNat (names.caches cache).generation, UInt64.toNat_ofNat_of_lt' ?_⟩
    simp only [maxGeneration, UInt64.size] at hlive ⊢
    omega
  have hlimit : 0 < (names.caches bound).limit.toNat := by
    rw [hregular.limited bound, ← hregular.limited cache]
    exact (hregular.nameable cache).limited hne
  rw [← hgeneration] at hepoch hlive
  have hborrowed := borrowed_run huntouched hepoch hlive hlimit (Nat.le_of_lt hroom)
  obtain ⟨hafter, hsite⟩ := hborrowed.step hepoch hlive hlimit hroom
  refine ⟨borrow bound generation (index + 1), bound + index, quiet_borrow bound generation _, ?_⟩
  rw [borrow, run_append]
  refine ⟨hafter.registry, ?_⟩
  change (Registry.resolve _ _ _ entry.key).1 = entry.value
  rw [run, List.foldl_cons, List.foldl_nil, hafter.registry, hafter.caches cache hother, hsite,
    hgeneration]
  rw [hgeneration] at hepoch
  exact names.registry.resolve_point_fst (hregular.nameable cache) hepoch hentry _

theorem Regular.fresh_iff_servesLookup {limit : Nat} (hregular : names.Regular limit) :
    names.Fresh ↔ names.ServesLookup := by
  constructor
  · intro hfresh quiet hquiet cache site name
    exact (hfresh.run_quiet quiet hquiet cache).resolve_fst _ name
  · intro hserves cache hepoch entry hmem
    obtain ⟨index, hentry⟩ := Array.getElem?_of_mem hmem
    obtain ⟨quiet, site, hquiet, hregistry, hresolved⟩ := resolved_borrow hregular hepoch hentry
    rw [← hresolved, hserves quiet hquiet, hregistry]

end Borrowing

theorem forall_prefix_fresh_iff {names : Names} (hfresh : names.Fresh) (steps : List Step) :
    (∀ before, before <+: steps → (names.run before).Fresh) ↔
      ∀ before step after, steps = before ++ step :: after →
        (names.run before).Survives step := by
  induction steps generalizing names with
  | nil =>
      constructor
      · intro _ before step after hsplit
        simp at hsplit
      · intro _ before hpre
        rw [List.prefix_nil.mp hpre]
        exact hfresh
  | cons first rest ih =>
      constructor
      · intro hall before step after hsplit
        have hnext : (names.step first).Fresh := hall [first] ⟨rest, rfl⟩
        cases before with
        | nil =>
            obtain ⟨rfl, rfl⟩ := List.cons.inj hsplit
            exact (fresh_step_iff hfresh first).mp hnext
        | cons head before =>
            obtain ⟨rfl, hrest⟩ := List.cons.inj hsplit
            refine (ih hnext).mp ?_ before step after hrest
            intro later hpre
            exact hall (first :: later) (List.cons_prefix_cons.mpr ⟨rfl, hpre⟩)
      · intro hsurvives before hpre
        have hnext : (names.step first).Fresh :=
          (fresh_step_iff hfresh first).mpr (hsurvives [] first rest rfl)
        cases before with
        | nil => exact hfresh
        | cons head before =>
            obtain ⟨rfl, hbefore⟩ := List.cons_prefix_cons.mp hpre
            refine (ih hnext).mpr ?_ before hbefore
            intro earlier step after hsplit
            exact hsurvives (head :: earlier) step after (by rw [hsplit]; rfl)

/-- **Exactly when cached names can be trusted.** Along a run, every resolve that any further steps
short of a mapping change can lead to gives what the registry holds if and only if each mapping change
of the run survives in every cache that was moved ahead of the registry's epoch. -/
theorem servesLookup_throughout_iff (limit : Nat) (steps : List Step) :
    (∀ before, before <+: steps → ((ofLimit limit).run before).ServesLookup) ↔
      ∀ before step after, steps = before ++ step :: after →
        ((ofLimit limit).run before).Survives step := by
  rw [← forall_prefix_fresh_iff (fresh_ofLimit limit)]
  refine forall_congr' fun before => imp_congr_right fun _ => ?_
  exact ((Regular.ofLimit limit).run before).fresh_iff_servesLookup.symm

/-- A cache that was invalidated once is one generation ahead, and still serves the miss that it
cached before the name was mapped. -/
theorem resolved_stale_after_invalidate :
    let names := (ofLimit 2).run [.invalidate 0, .resolve 0 0 "late", .map "late" 7]
    names.resolved 0 0 "late" = none ∧ names.registry.lookup "late" = some 7 := by
  intro names
  constructor
  · have hcached : names.resolved 0 0 "late" = (Registry.ofLimit 2).lookup "late" := by
      subst names
      rfl
    rw [hcached]
    simp [Registry.lookup, Registry.ofLimit]
  · exact (Registry.lookup_map _ "late" "late" 7).trans (if_pos rfl)

end Names

end AdaptiveEval
