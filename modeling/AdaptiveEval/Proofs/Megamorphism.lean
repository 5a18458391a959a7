import AdaptiveEval.Proofs.Chain.FirstKeys
import AdaptiveEval.Proofs.ElementDispatch

/-!
# When an element site turns megamorphic

What a site counts and keeps is decided by the shapes that it has met since its arena last changed
generation. The site gives its chain up at the first shape that the chain has no room for, and then
stays as it is.
-/

namespace AdaptiveEval

open Chain

namespace ElementSite

variable {site : ElementSite} {shapes : ShapeArena}

theorem get_of_megamorphic (hmegamorphic : site.megamorphic = true) (array : ArrayValue)
    (index : Int64) : (site.get shapes array index).2 = (site, shapes) := by
  simp [get, hmegamorphic]

/-- An access makes at most one attempt to append. -/
theorem get_change (site : ElementSite) (shapes : ShapeArena) (array : ArrayValue)
    (index : Int64) : Arena.Change shapes (site.get shapes array index).2.2 := by
  unfold get
  split
  · exact .refl shapes
  · unfold readerFor
    dsimp only
    split
    · exact .refl shapes
    · exact .append shapes _ _ _ _

theorem generation_get (site : ElementSite) (shapes : ShapeArena) (array : ArrayValue)
    (index : Int64) : (site.get shapes array index).2.2.generation = shapes.generation := by
  unfold get
  split
  · rfl
  · unfold readerFor
    dsimp only
    split
    · rfl
    · exact Arena.generation_tryAppend _ _ _ _ _

/-- What a site holds, given the shapes that it has met since the arena changed generation. -/
structure Follows (site : ElementSite) (shapes : ShapeArena) (met : List Shape) : Prop where
  owns : shapes.Owns site.head
  lists : site.megamorphic = false →
    shapes.Lists site.head met ∧ met.eraseDups.length ≤ shapes.limit.toNat

namespace Follows

variable {met : List Shape}

theorem blank (hempty : shapes.entries = #[]) : Follows {} shapes [] where
  owns := (Arena.Lists.blank hempty).toOwns
  lists _ := ⟨.blank hempty, Nat.zero_le _⟩

theorem chainLength_eq (hfollows : site.Follows shapes met) (hopen : site.megamorphic = false) :
    shapes.chainLength site.head = met.eraseDups.length := by
  obtain ⟨hlists, hwithin⟩ := hfollows.lists hopen
  rw [hlists.chainLength_eq]
  omega

/-- What happens to the arena by other sites, or by itself. -/
theorem change (hfollows : site.Follows shapes met) {after : ShapeArena}
    (hchange : Arena.Change shapes after) :
    site.Follows after (if after.generation = shapes.generation then met else []) where
  owns := hfollows.owns.change hchange
  lists hopen := by
    obtain ⟨hlists, hwithin⟩ := hfollows.lists hopen
    refine ⟨hlists.change hchange, ?_⟩
    rw [hchange.limit_eq]
    split
    · exact hwithin
    · exact Nat.zero_le _

section Access

variable (hfollows : site.Follows shapes met) (hopen : site.megamorphic = false)
  (array : ArrayValue) (index : Int64)

include hfollows hopen

/-- A shape that was met before is found. -/
theorem get_of_mem (hmem : array.shape ∈ met) :
    (site.get shapes array index).2 = ({ site with head := site.head.record true }, shapes) := by
  obtain ⟨hlists, hwithin⟩ := hfollows.lists hopen
  have hheld : array.shape ∈ met.eraseDups.take shapes.limit.toNat := by
    rw [List.take_of_length_le hwithin]
    exact List.mem_eraseDups.mpr hmem
  obtain ⟨reader, hfound⟩ := Option.isSome_iff_exists.mp
    ((hlists.lookup_isSome_iff fun _ => decide_eq_true_iff).mpr hheld)
  simp [get, readerFor, hopen, hfound]

/-- A new shape is appended or, without room for it, turns the site megamorphic. -/
theorem get_of_notMem (hnew : array.shape ∉ met) :
    (site.get shapes array index).2 =
      match shapes.tryAppend (site.head.record false) shapes.generation array.shape
        (Reader.forShape array.shape) with
      | (append, shapes, head) => ({ head, megamorphic := decide (append = .frozen) }, shapes) := by
  obtain ⟨hlists, _⟩ := hfollows.lists hopen
  have hmissing : shapes.lookup site.head (fun key => decide (key = array.shape)) = none := by
    rw [← Option.not_isSome_iff_eq_none, hlists.lookup_isSome_iff fun _ => decide_eq_true_iff]
    exact fun hheld => hnew (List.mem_eraseDups.mp (List.mem_of_mem_take hheld))
  simp [get, readerFor, hopen, hmissing]

/-- An access is a hit on a shape that was met before and a miss on any other; only the miss for
which the chain has no room makes the site megamorphic. -/
theorem counts_get :
    ((site.get shapes array index).2.1.head.hits, (site.get shapes array index).2.1.head.misses) =
      if array.shape ∈ met then (site.head.hits + 1, site.head.misses)
      else (site.head.hits, site.head.misses + 1) := by
  split
  · rename_i hmem
    rw [hfollows.get_of_mem hopen array index hmem]
    rfl
  · rename_i hnew
    obtain ⟨hhits, hmisses⟩ := shapes.counts_tryAppend (site.head.record false) shapes.generation
      array.shape (Reader.forShape array.shape)
    rw [hfollows.get_of_notMem hopen array index hnew]
    exact Prod.ext hhits hmisses

variable (hlive : shapes.generation ≤ maxGeneration) (hroom : shapes.size < maxEntries)

include hlive hroom

theorem megamorphic_get_iff :
    (site.get shapes array index).2.1.megamorphic = true ↔
      array.shape ∉ met ∧ met.eraseDups.length = shapes.limit.toNat := by
  obtain ⟨hlists, hwithin⟩ := hfollows.lists hopen
  by_cases hmem : array.shape ∈ met
  · rw [hfollows.get_of_mem hopen array index hmem]
    simp [hopen, hmem]
  · have hmiss : array.shape ∉ met.eraseDups.take shapes.limit.toNat := fun hheld =>
      hmem (List.mem_eraseDups.mp (List.mem_of_mem_take hheld))
    obtain ⟨houtcome, _⟩ := (hlists.record false).tryAppend_self hlive hroom
      (Reader.forShape array.shape) hmiss
    rw [hfollows.get_of_notMem hopen array index hmem]
    dsimp only
    rw [houtcome, decide_eq_true_iff]
    split
    · simp only [hmem, not_false_eq_true, true_and, true_iff]
      omega
    · simp only [hmem, not_false_eq_true, true_and, reduceCtorEq, false_iff]
      omega

theorem get : (site.get shapes array index).2.1.Follows (site.get shapes array index).2.2
    (met ++ [array.shape]) := by
  obtain ⟨hlists, hwithin⟩ := hfollows.lists hopen
  have hturns := hfollows.megamorphic_get_iff hopen array index hlive hroom
  have hlimit := (site.get_change shapes array index).limit_eq
  have hafter : (site.get shapes array index).2.2.Lists (site.get shapes array index).2.1.head
      (met ++ [array.shape]) := by
    by_cases hmem : array.shape ∈ met
    · have hheld : array.shape ∈ met.eraseDups.take shapes.limit.toNat := by
        rw [List.take_of_length_le hwithin]
        exact List.mem_eraseDups.mpr hmem
      rw [hfollows.get_of_mem hopen array index hmem]
      exact (hlists.again hheld).record true
    · have hmiss : array.shape ∉ met.eraseDups.take shapes.limit.toNat := fun hheld =>
        hmem (List.mem_eraseDups.mp (List.mem_of_mem_take hheld))
      rw [hfollows.get_of_notMem hopen array index hmem]
      exact ((hlists.record false).tryAppend_self hlive hroom
        (Reader.forShape array.shape) hmiss).2
  refine ⟨hafter.toOwns, fun hstays => ⟨hafter, ?_⟩⟩
  rw [hlimit]
  by_cases hmem : array.shape ∈ met
  · rw [eraseDups_concat_of_mem hmem]
    exact hwithin
  · have hroomy : met.eraseDups.length ≠ shapes.limit.toNat := fun hfull =>
      absurd (hturns.mpr ⟨hmem, hfull⟩) (by simp [hstays])
    rw [eraseDups_concat_of_notMem hmem, List.length_append, List.length_singleton]
    omega

end Access

end Follows

end ElementSite

namespace ElementSites

variable {ρ ι : Type} [DecidableEq ι]

/-- The shape that a site meets in a step. -/
def Step.shape? (site : ι) : Step ρ ι → Option Shape
  | .get _ other array _ => if other = site then some array.shape else none
  | _ => none

/-- The step does not take the site to another arena. -/
def Step.Stays (arena : ρ) (site : ι) : Step ρ ι → Prop
  | .get used other _ _ => other = site → used = arena
  | _ => True

/-- An access of the site itself, or a step that does not meet it. -/
theorem Step.Stays.cases {arena : ρ} {site : ι} {step : Step ρ ι} (hstays : step.Stays arena site) :
    step.shape? site = none ∨ ∃ array index, step = .get arena site array index := by
  cases step with
  | get used other array index =>
      by_cases hsite : other = site
      · obtain rfl := hstays hsite
        subst hsite
        exact Or.inr ⟨array, index, rfl⟩
      · exact Or.inl (if_neg hsite)
  | invalidate used => exact Or.inl rfl
  | sync used generation => exact Or.inl rfl

variable [DecidableEq ρ]

/-- The shapes that a site has met since an arena last changed generation, oldest first. -/
def met (start : ElementSites ρ ι) (arena : ρ) (site : ι) (steps : List (Step ρ ι)) : List Shape :=
  recent step (fun state => (state.arenas arena).generation) (Step.shape? site) start steps

/-- Whenever the site reads an item, heads can name the generation of the arena, and the arena has
room for one more entry. -/
def Roomy (start : ElementSites ρ ι) (arena : ρ) (site : ι) (steps : List (Step ρ ι)) : Prop :=
  ∀ before array index after, steps = before ++ .get arena site array index :: after →
    ((start.run before).arenas arena).generation ≤ maxGeneration ∧
      ((start.run before).arenas arena).size < maxEntries

/-- Some access of the site met a shape with which the distinct ones are more than the limit. -/
def Overflowed (start : ElementSites ρ ι) (arena : ρ) (site : ι) (limit : Nat)
    (steps : List (Step ρ ι)) : Prop :=
  ∃ before array index after, steps = before ++ .get arena site array index :: after ∧
    array.shape ∉ start.met arena site before ∧
      (start.met arena site before).eraseDups.length = limit

section Steps

variable (state : ElementSites ρ ι) (arena : ρ) {site : ι}

theorem arenas_get (site : ι) (array : ArrayValue) (index : Int64) :
    (state.step (.get arena site array index)).arenas arena =
      ((state.sites site).get (state.arenas arena) array index).2.2 := by
  simp [step, setArena]

theorem sites_get (site : ι) (array : ArrayValue) (index : Int64) :
    (state.step (.get arena site array index)).sites site =
      ((state.sites site).get (state.arenas arena) array index).2.1 := by
  simp [step]

omit [DecidableEq ι] in
theorem change_setArena (used : ρ) {shapes : ShapeArena}
    (hchange : Arena.Change (state.arenas used) shapes) :
    Arena.Change (state.arenas arena) ((state.setArena used shapes).arenas arena) := by
  by_cases hused : arena = used
  · subst hused
    simpa [setArena] using hchange
  · simpa [setArena, hused] using Arena.Change.refl (state.arenas arena)

theorem change_step (step : Step ρ ι) :
    Arena.Change (state.arenas arena) ((state.step step).arenas arena) := by
  cases step with
  | get used site array index =>
      exact state.change_setArena arena used ((state.sites site).get_change _ array index)
  | invalidate used => exact state.change_setArena arena used (.invalidate _)
  | sync used generation => exact state.change_setArena arena used (.sync _ _)

theorem sites_step_of_shape?_eq_none {step : Step ρ ι} (helsewhere : step.shape? site = none) :
    (state.step step).sites site = state.sites site := by
  cases step with
  | get used other array index =>
      have hother : site ≠ other := by
        rintro rfl
        simp [Step.shape?] at helsewhere
      simp [ElementSites.step, hother]
  | invalidate used => rfl
  | sync used generation => rfl

end Steps

section Runs

variable {start : ElementSites ρ ι} {arena : ρ} {site : ι} {steps : List (Step ρ ι)}

theorem run_concat (start : ElementSites ρ ι) (steps : List (Step ρ ι)) (step : Step ρ ι) :
    start.run (steps ++ [step]) = (start.run steps).step step := by
  simp [run]

theorem met_concat (start : ElementSites ρ ι) (arena : ρ) (site : ι) (steps : List (Step ρ ι))
    (step : Step ρ ι) :
    start.met arena site (steps ++ [step]) =
      (if (((start.run steps).step step).arenas arena).generation =
          ((start.run steps).arenas arena).generation then start.met arena site steps
        else []) ++ (step.shape? site).toList :=
  recent_concat _ _ _ start steps step

theorem limit_run (start : ElementSites ρ ι) (arena : ρ) (steps : List (Step ρ ι)) :
    ((start.run steps).arenas arena).limit = (start.arenas arena).limit := by
  induction steps generalizing start with
  | nil => rfl
  | cons first rest ih => exact (ih _).trans (start.change_step arena first).limit_eq

theorem Roomy.of_concat {step : Step ρ ι} (hroomy : start.Roomy arena site (steps ++ [step])) :
    start.Roomy arena site steps := by
  intro before array index after hsplit
  refine hroomy before array index (after ++ [step]) ?_
  rw [hsplit]
  simp

/-- A step that is no access of the site. -/
theorem follows_step_of_shape?_eq_none {state : ElementSites ρ ι} {met : List Shape}
    (hfollows : (state.sites site).Follows (state.arenas arena) met) {step : Step ρ ι}
    (helsewhere : step.shape? site = none) :
    ((state.step step).sites site).Follows ((state.step step).arenas arena)
      (if ((state.step step).arenas arena).generation = (state.arenas arena).generation then met
        else []) := by
  rw [state.sites_step_of_shape?_eq_none helsewhere]
  exact hfollows.change (state.change_step arena step)

theorem follows_step_get {state : ElementSites ρ ι} {met : List Shape}
    (hfollows : (state.sites site).Follows (state.arenas arena) met)
    (hlive : (state.arenas arena).generation ≤ maxGeneration)
    (hroom : (state.arenas arena).size < maxEntries) (array : ArrayValue) (index : Int64) :
    ((state.step (.get arena site array index)).sites site).Follows
      ((state.step (.get arena site array index)).arenas arena) (met ++ [array.shape]) := by
  rw [state.sites_get, state.arenas_get]
  cases hmegamorphic : (state.sites site).megamorphic with
  | false => exact hfollows.get hmegamorphic array index hlive hroom
  | true =>
      rw [ElementSite.get_of_megamorphic hmegamorphic]
      exact ⟨hfollows.owns, fun hopen => absurd hopen (by simp [hmegamorphic])⟩

theorem follows_run (hnew : start.sites site = {}) (hempty : (start.arenas arena).entries = #[])
    (hstays : ∀ step ∈ steps, step.Stays arena site) (hroomy : start.Roomy arena site steps) :
    ((start.run steps).sites site).Follows ((start.run steps).arenas arena)
      (start.met arena site steps) := by
  induction steps using List.reverseRecOn with
  | nil =>
      change (start.sites site).Follows (start.arenas arena) []
      rw [hnew]
      exact .blank hempty
  | append_singleton steps step ih =>
      have hbefore := ih (fun other hother => hstays other (by simp [hother])) hroomy.of_concat
      rw [run_concat, met_concat]
      obtain helsewhere | ⟨array, index, rfl⟩ := (hstays step (by simp)).cases
      · rw [helsewhere, Option.toList_none, List.append_nil]
        exact follows_step_of_shape?_eq_none hbefore helsewhere
      · obtain ⟨hlive, hroom⟩ := hroomy steps array index [] rfl
        have hkept : (((start.run steps).step (.get arena site array index)).arenas
            arena).generation = ((start.run steps).arenas arena).generation := by
          rw [arenas_get, ElementSite.generation_get]
        have hshape : (Step.get arena site array index).shape? site = some array.shape := if_pos rfl
        rw [if_pos hkept, hshape]
        exact follows_step_get hbefore hlive hroom array index

theorem overflowed_concat_iff {limit : Nat} {step : Step ρ ι} :
    start.Overflowed arena site limit (steps ++ [step]) ↔
      start.Overflowed arena site limit steps ∨
        ∃ array index, step = .get arena site array index ∧
          array.shape ∉ start.met arena site steps ∧
            (start.met arena site steps).eraseDups.length = limit := by
  constructor
  · rintro ⟨before, array, index, after, hsplit, hover⟩
    obtain rfl | ⟨middle, last, rfl⟩ := List.eq_nil_or_concat' after
    · obtain ⟨rfl, hlast⟩ := List.append_inj' hsplit rfl
      exact Or.inr ⟨array, index, List.singleton_inj.mp hlast, hover⟩
    · rw [← List.cons_append, ← List.append_assoc] at hsplit
      obtain ⟨rfl, -⟩ := List.append_inj' hsplit rfl
      exact Or.inl ⟨before, array, index, middle, rfl, hover⟩
  · rintro (⟨before, array, index, after, rfl, hover⟩ | ⟨array, index, rfl, hover⟩)
    · exact ⟨before, array, index, after ++ [step], by simp, hover⟩
    · exact ⟨steps, array, index, [], rfl, hover⟩

/-- A megamorphic site is left as it is by its accesses and by all other steps. -/
theorem sites_step_of_megamorphic {state : ElementSites ρ ι}
    (hmegamorphic : (state.sites site).megamorphic = true) {step : Step ρ ι}
    (hstays : step.Stays arena site) : (state.step step).sites site = state.sites site := by
  obtain helsewhere | ⟨array, index, rfl⟩ := hstays.cases
  · exact state.sites_step_of_shape?_eq_none helsewhere
  · rw [state.sites_get, ElementSite.get_of_megamorphic hmegamorphic]

theorem run_of_megamorphic {state : ElementSites ρ ι}
    (hmegamorphic : (state.sites site).megamorphic = true)
    (howns : (state.arenas arena).Owns (state.sites site).head)
    (hstays : ∀ step ∈ steps, step.Stays arena site) :
    (state.run steps).sites site = state.sites site ∧
      ((state.run steps).arenas arena).chainLength (state.sites site).head ≤
        (state.arenas arena).chainLength (state.sites site).head := by
  induction steps generalizing state with
  | nil => exact ⟨rfl, Nat.le_refl _⟩
  | cons first rest ih =>
      obtain ⟨hfirst, hrest⟩ := List.forall_mem_cons.mp hstays
      have hchange := state.change_step arena first
      have hsame := sites_step_of_megamorphic hmegamorphic hfirst
      have hnext : ((state.step first).sites site).megamorphic = true := by
        rw [hsame]
        exact hmegamorphic
      have hheld : ((state.step first).arenas arena).Owns ((state.step first).sites site).head := by
        rw [hsame]
        exact howns.change hchange
      obtain ⟨hsites, hlength⟩ := ih hnext hheld hrest
      rw [hsame] at hsites hlength
      exact ⟨hsites, Nat.le_trans hlength (howns.chainLength_change_le hchange)⟩

/-- The flag tells of the whole past: it is up exactly when some access overflowed the chain. -/
theorem megamorphic_run_iff (hnew : start.sites site = {})
    (hempty : (start.arenas arena).entries = #[]) (hstays : ∀ step ∈ steps, step.Stays arena site)
    (hroomy : start.Roomy arena site steps) :
    ((start.run steps).sites site).megamorphic = true ↔
      start.Overflowed arena site (start.arenas arena).limit.toNat steps := by
  induction steps using List.reverseRecOn with
  | nil =>
      have hfalse : ((start.run []).sites site).megamorphic = false := by
        change (start.sites site).megamorphic = false
        rw [hnew]
      simp [hfalse, Overflowed]
  | append_singleton steps step ih =>
      have hearlier : ∀ step ∈ steps, step.Stays arena site := fun other hother =>
        hstays other (by simp [hother])
      have hbefore := ih hearlier hroomy.of_concat
      have hstep : step.Stays arena site := hstays step (by simp)
      rw [run_concat, overflowed_concat_iff, ← hbefore]
      cases hmegamorphic : ((start.run steps).sites site).megamorphic with
      | true =>
          rw [sites_step_of_megamorphic hmegamorphic hstep]
          simp [hmegamorphic]
      | false =>
          obtain helsewhere | ⟨array, index, rfl⟩ := hstep.cases
          · have hnone : ∀ array index, step ≠ .get arena site array index := by
              rintro array index rfl
              simp [Step.shape?] at helsewhere
            rw [sites_step_of_shape?_eq_none _ helsewhere]
            simp [hmegamorphic, hnone]
          · obtain ⟨hlive, hroom⟩ := hroomy steps array index [] rfl
            have hfollows := follows_run hnew hempty hearlier hroomy.of_concat
            rw [sites_get, hfollows.megamorphic_get_iff hmegamorphic array index hlive hroom,
              limit_run]
            simp

end Runs

/-- **A site turns megamorphic exactly when its cache overflows.** Take a new site that one arena
serves, within the bounds on generations and entries, and any steps of all sites and arenas. The
site is megamorphic after them exactly when one of its accesses met a shape that had no room beside
the distinct shapes since the last generation. Until then its chain is as long as there are distinct
shapes, and the next access is a hit or a miss according to whether its shape is one of them; no
other step counts. From then on nothing changes the site, and its chain does not grow. -/
theorem megamorphic_exactly_on_overflow (limits : ρ → Nat) {sites : ι → ElementSite} {arena : ρ}
    {site : ι} {steps : List (Step ρ ι)} (hnew : sites site = {})
    (hstays : ∀ step ∈ steps, step.Stays arena site)
    (hroomy : (ofLimits limits sites).Roomy arena site steps) :
    let start := ofLimits limits sites
    let state := start.run steps
    let met := start.met arena site steps
    let now := state.sites site
    (now.megamorphic = true ↔
      start.Overflowed arena site (min (limits arena) maxLimit) steps) ∧
    (now.megamorphic = false →
      (state.arenas arena).chainLength now.head = met.eraseDups.length ∧
      ∀ array index,
        let next := (state.step (.get arena site array index)).sites site
        (next.head.hits, next.head.misses) =
          if array.shape ∈ met then (now.head.hits + 1, now.head.misses)
          else (now.head.hits, now.head.misses + 1)) ∧
    (∀ step, step.shape? site = none → (state.step step).sites site = now) ∧
    (now.megamorphic = true → ∀ later, (∀ step ∈ later, step.Stays arena site) →
      (state.run later).sites site = now ∧
        ((state.run later).arenas arena).chainLength now.head ≤
          (state.arenas arena).chainLength now.head) := by
  intro start state met now
  have hempty : (start.arenas arena).entries = #[] := rfl
  have hfollows : now.Follows (state.arenas arena) met := follows_run hnew hempty hstays hroomy
  have hlimit : (start.arenas arena).limit.toNat = min (limits arena) maxLimit :=
    Arena.toNat_limit_ofLimit (limits arena)
  refine ⟨?_, fun hopen => ⟨hfollows.chainLength_eq hopen, fun array index => ?_⟩, ?_, ?_⟩
  · rw [← hlimit]
    exact megamorphic_run_iff hnew hempty hstays hroomy
  · rw [state.sites_get]
    exact hfollows.counts_get hopen array index
  · exact fun step => state.sites_step_of_shape?_eq_none
  · exact fun hmegamorphic later => run_of_megamorphic hmegamorphic hfollows.owns

/-- Two sites that share an arena with room for one shape at each. -/
def pair : ElementSites Unit Bool :=
  ofLimits (fun _ => 1) fun _ => {}

/-- An index outside its first array does not keep the array's shape from the chain. The
invalidation makes room again, and the last array is too much. -/
def turning : List (Step Unit Bool) :=
  [ .get () false (.progression { start := 0, length := 2, stride := 1 }) 7,
    .get () true (.dense 0 #[]) 0,
    .invalidate (),
    .get () false (.dense 0 #[]) 0,
    .get () false (.dense 0 #[]) 1,
    .get () false (.progression { start := 0, length := 2, stride := 1 }) 0 ]

theorem megamorphic_exactly_on_overflow_turning :
    ((pair.run turning).sites false).megamorphic = true ∧
      pair.Overflowed () false (min 1 maxLimit) turning := by
  have hstays : ∀ step ∈ turning, step.Stays () false := by
    simp [turning, Step.Stays]
  have hbounds : ∀ before ∈ turning.inits,
      ((pair.run before).arenas ()).generation ≤ maxGeneration ∧
        ((pair.run before).arenas ()).size < maxEntries := by
    decide +kernel
  have hroomy : pair.Roomy () false turning := by
    intro before array index after hsplit
    exact hbounds before ((List.mem_inits _ _).mpr ⟨_, hsplit.symm⟩)
  have hturned : ((pair.run turning).sites false).megamorphic = true := by
    decide +kernel
  obtain ⟨hiff, -⟩ := @megamorphic_exactly_on_overflow Unit Bool _ _ (fun _ => 1) (fun _ => {}) ()
    false turning rfl hstays hroomy
  rw [← pair] at hiff
  exact ⟨hturned, hiff.mp hturned⟩

end ElementSites

end AdaptiveEval
