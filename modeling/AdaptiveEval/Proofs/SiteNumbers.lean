import AdaptiveEval.Proofs.NodeSites
import AdaptiveEval.Proofs.TargetChanges
import Mathlib.Data.List.Nodup

/-!
# Sites across targets

The sites of one kind that the graphs of a host have. Whatever the kind, no two nodes share a site,
and none has a site that is still to be handed out.
-/

namespace AdaptiveEval

/-- The sites that a view shows of the graph of each target come from those handed out so far, and
each of them occurs once. -/
def Host.Numbered (view : Root SiteId → List SiteId) (host : Host) : Prop :=
  Spans 0 (host.targets.toList.flatMap fun target => view target.root) host.nextSite

namespace Host.Numbered

variable {view : Root SiteId → List SiteId} {host : Host} {target : Target} {id : Nat}
  {site : SiteId}

theorem root_below (hnumbered : host.Numbered view) (htarget : host.targets[id]? = some target)
    (hsite : site ∈ view target.root) : site < host.nextSite := by
  have hmem : target ∈ host.targets.toList := by simpa using Array.mem_of_getElem? htarget
  exact (hnumbered.inside site (List.mem_flatMap.mpr ⟨target, hmem, hsite⟩)).2

theorem root_nodup (hnumbered : host.Numbered view) (htarget : host.targets[id]? = some target) :
    (view target.root).Nodup := by
  have hmem : target ∈ host.targets.toList := by simpa using Array.mem_of_getElem? htarget
  exact (List.nodup_flatMap.mp (Spans.nodup hnumbered)).1 target hmem

theorem roots_apart (hnumbered : host.Numbered view) {other : Nat} {held : Target}
    (hne : other ≠ id) (hheld : host.targets[other]? = some held)
    (htarget : host.targets[id]? = some target) (hsite : site ∈ view target.root) :
    site ∉ view held.root := by
  have hpairs := List.pairwise_iff_getElem.mp (List.nodup_flatMap.mp (Spans.nodup hnumbered)).2
  obtain ⟨hother, rfl⟩ := Array.getElem?_eq_some_iff.mp hheld
  obtain ⟨hid, rfl⟩ := Array.getElem?_eq_some_iff.mp htarget
  intro hshared
  rcases Nat.lt_or_gt_of_ne hne with hlt | hlt
  · exact hpairs other id hother hid hlt hshared hsite
  · exact hpairs id other hid hother hlt hsite hshared

theorem setIfInBounds (hnumbered : host.Numbered view) {after : Host} {driven : Target}
    (htarget : host.targets[id]? = some target)
    (htargets : after.targets = host.targets.setIfInBounds id driven)
    (hroot : driven.root = target.root) (hnext : after.nextSite = host.nextSite) :
    after.Numbered view := by
  have hsites : (after.targets.toList.flatMap fun target => view target.root) =
      host.targets.toList.flatMap fun target => view target.root := by
    obtain ⟨hlt, hget⟩ := List.getElem?_eq_some_iff.mp (Array.getElem?_toList.trans htarget)
    rw [htargets, List.flatMap_def, List.flatMap_def, Array.toList_setIfInBounds, List.map_set,
      hroot, ← hget, ← List.map_set, List.set_getElem_self]
  rw [Numbered, hsites, hnext]
  exact hnumbered

/-- Naming the sites of a new graph keeps them apart from all others. -/
theorem effect {session after : Session} {fuel : Nat} {action : Action}
    (hspans : ∀ (root : RootShape) (first : Nat),
      Spans first (view (root.label first).1) (root.label first).2)
    (hnumbered : session.host.Numbered view) (heffect : session.Effect fuel action after) :
    after.host.Numbered view := by
  cases heffect with
  | kept hidle htargets hsites hnext =>
      rw [Numbered, htargets, hnext]
      exact hnumbered
  | @added engine root options dependencies _ registry htargets hsites hnext =>
      rw [Numbered, htargets, hnext, Array.toList_push, List.flatMap_append,
        List.flatMap_singleton]
      exact hnumbered.append (hspans root session.host.nextSite)
  | invoked hstart htargets hsites hnext =>
      exact hnumbered.setIfInBounds (Host.getElem?_of_start? hstart) htargets rfl hnext
  | driven hactivation htarget htargets hsites hnext =>
      exact hnumbered.setIfInBounds htarget htargets rfl hnext

end Host.Numbered

end AdaptiveEval
