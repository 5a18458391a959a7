import AdaptiveEval.Proofs.SiteResults
import Mathlib.Logic.Function.Basic

/-!
# Element access through shared arenas

Sites read items through arenas that they share, and a site may turn to another arena at any time.
Its head then names whatever entry stands there at the same place. No reader that it finds can be
wrong, since an arena holds for each shape only the reader of that shape.
-/

namespace AdaptiveEval

open Chain

/-- Shape arenas, and the sites that read through them. -/
structure ElementSites (ρ ι : Type) where
  arenas : ρ → ShapeArena
  sites : ι → ElementSite

namespace ElementSites

variable {ρ ι : Type}

/-- Empty arenas. The sites may be in any state, whatever words their heads carry. -/
def ofLimits (limits : ρ → Nat) (sites : ι → ElementSite) : ElementSites ρ ι :=
  { arenas := fun arena => .ofLimit (limits arena), sites }

inductive Step (ρ ι : Type) where
  | get (arena : ρ) (site : ι) (array : ArrayValue) (index : Int64)
  | invalidate (arena : ρ)
  | sync (arena : ρ) (generation : UInt64)

/-- What the general access gives for the array and the index of a step. -/
def Step.dispatch? : Step ρ ι → Option (Except Breach (Option Value))
  | .get _ _ array index => some (array.item index)
  | _ => none

/-- The reader through which a site would read an array. -/
def reader (state : ElementSites ρ ι) (arena : ρ) (site : ι) (array : ArrayValue) : Reader :=
  ((state.sites site).readerFor (state.arenas arena) array.shape).1

def outcome? (state : ElementSites ρ ι) : Step ρ ι → Option (Except Breach (Option Value))
  | .get arena site array index =>
      some ((state.sites site).get (state.arenas arena) array index).1
  | _ => none

variable [DecidableEq ρ] [DecidableEq ι]

def setArena (state : ElementSites ρ ι) (arena : ρ) (shapes : ShapeArena) : ElementSites ρ ι :=
  { state with arenas := Function.update state.arenas arena shapes }

def step (state : ElementSites ρ ι) : Step ρ ι → ElementSites ρ ι
  | .get arena site array index =>
      match (state.sites site).get (state.arenas arena) array index with
      | (_, after, shapes) =>
          { state.setArena arena shapes with sites := Function.update state.sites site after }
  | .invalidate arena => state.setArena arena (state.arenas arena).invalidate
  | .sync arena generation => state.setArena arena ((state.arenas arena).sync generation.toNat)

def run (state : ElementSites ρ ι) (steps : List (Step ρ ι)) : ElementSites ρ ι :=
  steps.foldl step state

/-- The outcomes of all accesses of a run, in turn. -/
def outcomes (state : ElementSites ρ ι) : List (Step ρ ι) → List (Except Breach (Option Value))
  | [] => []
  | step :: rest => (state.outcome? step).toList ++ (state.step step).outcomes rest

def Fits (state : ElementSites ρ ι) : Prop :=
  ∀ arena, ReadersFit (state.arenas arena)

namespace Fits

variable {state : ElementSites ρ ι}

omit [DecidableEq ρ] [DecidableEq ι] in
theorem ofLimits (limits : ρ → Nat) (sites : ι → ElementSite) :
    (ElementSites.ofLimits limits sites).Fits :=
  fun _ => readersFit_of_entries_eq_empty rfl

omit [DecidableEq ι] in
theorem setArena (hfits : state.Fits) (arena : ρ) {shapes : ShapeArena}
    (hshapes : ReadersFit shapes) : (state.setArena arena shapes).Fits := by
  intro other
  by_cases hother : other = arena
  · subst hother
    simpa [ElementSites.setArena] using hshapes
  · simpa [ElementSites.setArena, hother] using hfits other

theorem step (hfits : state.Fits) (step : Step ρ ι) : (state.step step).Fits := by
  cases step with
  | get arena site array index =>
      exact hfits.setArena arena ((hfits arena).get_snd (state.sites site) array index)
  | invalidate arena => exact hfits.setArena arena (readersFit_of_entries_eq_empty rfl)
  | sync arena generation =>
      refine hfits.setArena arena fun entry hmem => ?_
      exact hfits arena entry (Arena.mem_entries_sync hmem).1

theorem run (hfits : state.Fits) (steps : List (Step ρ ι)) : (state.run steps).Fits := by
  induction steps generalizing state with
  | nil => exact hfits
  | cons first rest ih => exact ih (hfits.step first)

omit [DecidableEq ρ] [DecidableEq ι] in
theorem outcome? (hfits : state.Fits) (step : Step ρ ι) : state.outcome? step = step.dispatch? := by
  cases step with
  | get arena site array index =>
      exact congrArg some ((hfits arena).get_fst (state.sites site) array index)
  | invalidate arena => rfl
  | sync arena generation => rfl

theorem outcomes (hfits : state.Fits) (steps : List (Step ρ ι)) :
    state.outcomes steps = steps.filterMap Step.dispatch? := by
  induction steps generalizing state with
  | nil => rfl
  | cons first rest ih =>
      rw [ElementSites.outcomes, hfits.outcome? first, ih (hfits.step first), List.filterMap_cons]
      cases first.dispatch? <;> rfl

end Fits

/-- **Cached access is general access.** For arenas of any limits and sites in any state, every
sequence of accesses, invalidations and synchronizations, in which sites turn to any of the arenas,
gives for each access what the general access gives: the item, no item, or the breach of a
progression. At each moment the reader that serves a site is the one for the shape of the array, so
that none ever has to fall back. -/
theorem cached_access_eq_dispatch (limits : ρ → Nat) (sites : ι → ElementSite)
    (steps : List (Step ρ ι)) :
    (ofLimits limits sites).outcomes steps = steps.filterMap Step.dispatch? ∧
      ∀ arena site array,
        ((ofLimits limits sites).run steps).reader arena site array = .forShape array.shape := by
  have hfits : (ofLimits limits sites).Fits := .ofLimits limits sites
  refine ⟨hfits.outcomes steps, fun arena site array => ?_⟩
  exact ((hfits.run steps) arena).readerFor_fst _ array.shape

end ElementSites

end AdaptiveEval
