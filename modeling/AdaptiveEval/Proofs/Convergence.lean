import AdaptiveEval.Proofs.Specialization.Generation
import AdaptiveEval.Proofs.Tiers

/-!
# Convergence

A target cannot be compiled and given up for ever. Its decisions bound its generation, and each
deoptimization uses up a generation or a dependency that broke since the compilation.
-/

namespace AdaptiveEval

/-- Every deoptimization so far is paid for: by a generation, or by a broken dependency. -/
structure Tiering.Paid (tiering : Tiering) (generation broken : Nat) : Prop where
  interpreted : tiering.tier = .interpreted →
    tiering.deoptimizations ≤ generation + broken ∧
      tiering.compilations = tiering.deoptimizations
  compiled : ∀ compiledAt, tiering.tier = .compiled compiledAt →
    tiering.deoptimizations ≤ compiledAt + tiering.brokenAtCompile ∧
      compiledAt ≤ generation ∧ tiering.brokenAtCompile ≤ broken ∧
      tiering.compilations = tiering.deoptimizations + 1

namespace Tiering.Paid

variable {tiering : Tiering} {generation broken : Nat}

theorem mono (hpaid : tiering.Paid generation broken) {later lost : Nat}
    (hgeneration : generation ≤ later) (hbroken : broken ≤ lost) : tiering.Paid later lost where
  interpreted htier := by
    obtain ⟨hle, hcompilations⟩ := hpaid.interpreted htier
    exact ⟨by omega, hcompilations⟩
  compiled compiledAt htier := by
    obtain ⟨hle, hat, hlost, hcompilations⟩ := hpaid.compiled compiledAt htier
    exact ⟨hle, by omega, by omega, hcompilations⟩

/-- A compilation is given up for something that has changed since, and that pays for it. -/
theorem enter (hpaid : tiering.Paid generation broken) (threshold : Nat) :
    (tiering.enter threshold generation broken).Paid generation broken := by
  obtain ⟨compiledAt, htier, hchanged, henter⟩ | ⟨htier, hheld, henter⟩ | ⟨htier, _, henter⟩ |
      ⟨htier, _, henter⟩ := tiering.enter_cases threshold generation broken
  -- Both counters only grow, so the one that has changed has grown.
  · obtain ⟨hle, hat, hlost, hcompilations⟩ := hpaid.compiled compiledAt htier
    rw [henter]
    refine ⟨fun _ => ⟨?_, hcompilations⟩, nofun⟩
    dsimp only
    omega
  · rw [henter]
    exact ⟨hpaid.interpreted, hpaid.compiled⟩
  · obtain ⟨hle, hcompilations⟩ := hpaid.interpreted htier
    rw [henter]
    refine ⟨nofun, ?_⟩
    rintro compiledAt ⟨⟩
    exact ⟨hle, Nat.le_refl _, Nat.le_refl _, by rw [hcompilations]⟩
  · rw [henter]
    exact ⟨hpaid.interpreted, hpaid.compiled⟩

theorem deoptimizations_le (hpaid : tiering.Paid generation broken) :
    tiering.deoptimizations ≤ generation + broken ∧
      tiering.compilations ≤ tiering.deoptimizations + 1 := by
  cases htier : tiering.tier with
  | interpreted =>
      obtain ⟨hle, hcompilations⟩ := hpaid.interpreted htier
      omega
  | compiled compiledAt =>
      obtain ⟨hle, hat, hlost, hcompilations⟩ := hpaid.compiled compiledAt htier
      omega

end Tiering.Paid

namespace History

def Paid (id : Nat) (watched : List SiteId) (history : History) : Prop :=
  ∀ target, history.session.host.targets[id]? = some target →
    target.root.arithmeticSites = watched →
    target.tiering.Paid target.state.generation (history.session.host.broken target.dependencies)

theorem Paid.extend {history : History} {fuel id : Nat} {watched : List SiteId} {action : Action}
    (hpaid : Paid id watched history) (hsound : Sound id watched history)
    (hspares : history.session.Spares id watched action) :
    Paid id watched (history.extend fuel id action) := by
  intro next hafter hwatched
  have hnext : (history.session.perform fuel action).2.host.targets[id]? = some next := hafter
  have heffect := history.session.perform_effect fuel action
  cases htarget : history.session.host.targets[id]? with
  | none =>
      obtain hnone | ⟨_, _, _, _, _, _, _, hcreated, _⟩ := heffect.absent htarget
      · exact absurd (hnext.symm.trans hnone) (by simp)
      · obtain rfl := Option.some.inj (hcreated.symm.trans hnext)
        exact ⟨fun _ => ⟨Nat.zero_le _, rfl⟩, nofun⟩
  | some target =>
      obtain ⟨_, hheld, hroot, _⟩ := heffect.persists htarget
      obtain rfl := Option.some.inj (hheld.symm.trans hnext)
      rw [hroot] at hwatched
      have hbefore := hpaid target htarget hwatched
      have hbroken : history.session.host.broken target.dependencies ≤
          (history.session.perform fuel action).2.host.broken target.dependencies :=
        List.countP_mono_left fun _ _ => Session.isBroken_perform fuel action
      rw [← hwatched] at hspares
      obtain ⟨_, hagain, _, hpath⟩ := Session.path_perform hsound.labelled htarget hspares
      obtain rfl := Option.some.inj (hagain.symm.trans hnext)
      have hgeneration := (Moment.later_of_path hpath).generation_le
      obtain ⟨_, context, _, _, hinvoked, _⟩ | ⟨_, state, hkept, _⟩ := heffect.target htarget
      · obtain rfl := Option.some.inj (hinvoked.symm.trans hnext)
        exact (hbefore.enter target.options.compileThreshold).mono hgeneration hbroken
      · obtain rfl := Option.some.inj (hkept.symm.trans hnext)
        exact hbefore.mono hgeneration hbroken

theorem Paid.run {history : History} {fuel id : Nat} {watched : List SiteId}
    {actions : List Action} (hpaid : Paid id watched history) (hsound : Sound id watched history)
    (honly : history.session.OnlyInvokes fuel id watched actions) :
    Paid id watched (history.run fuel id actions) := by
  have hboth := run_induction
    (motive := fun history => Sound id watched history ∧ Paid id watched history)
    (fun _ _ hspares hboth => ⟨hboth.1.extend hspares, hboth.2.extend hboth.1 hspares⟩)
    honly ⟨hsound, hpaid⟩
  exact hboth.2

/-- **Deoptimization converges.** However long a target is invoked, whatever breaks or is mapped
meanwhile, the size of its graph and the number of its dependencies bound its generation, its
deoptimizations and its compilations. -/
theorem deoptimization_converges (fuel id : Nat) (actions : List Action) {target : Target}
    (htarget : (run fuel id {} actions).session.host.targets[id]? = some target)
    (honly : Session.OnlyInvokes fuel id target.root.arithmeticSites {} actions) :
    (∀ moment ∈ (run fuel id {} actions).moments,
      moment.generation ≤ 4 * target.root.arithmeticSites.length + 2 * target.root.frameSize) ∧
    target.state.generation ≤
      4 * target.root.arithmeticSites.length + 2 * target.root.frameSize ∧
    target.tiering.deoptimizations ≤
      4 * target.root.arithmeticSites.length + 2 * target.root.frameSize +
        target.dependencies.length ∧
    target.tiering.compilations ≤
      4 * target.root.arithmeticSites.length + 2 * target.root.frameSize +
        target.dependencies.length + 1 := by
  have hempty := Sound.empty id target.root.arithmeticSites
  have hsound := hempty.run honly
  obtain ⟨rest, hmoments, hpath⟩ := hsound.present target htarget rfl
  have hpairs := Moment.pairwise_later hpath
  have hnow : target.state.generation ≤ _ := (Moment.later_of_path hpath).generation_le_of_blank
  have hpaid : Paid id target.root.arithmeticSites {} := by simp [Paid]
  have htiers := (hpaid.run hempty honly target htarget rfl).deoptimizations_le
  have hbroken : (run fuel id {} actions).session.host.broken target.dependencies ≤
      target.dependencies.length := List.countP_le_length
  have hdeoptimizations : target.tiering.deoptimizations ≤
      4 * target.root.arithmeticSites.length + 2 * target.root.frameSize +
        target.dependencies.length :=
    calc target.tiering.deoptimizations
        ≤ target.state.generation +
          (run fuel id {} actions).session.host.broken target.dependencies := htiers.1
      _ ≤ _ := Nat.add_le_add hnow hbroken
  refine ⟨fun moment hmem => ?_, hnow, hdeoptimizations, by omega⟩
  rw [hmoments] at hmem
  obtain rfl | hlater := List.mem_cons.mp hmem
  · exact Nat.zero_le _
  · exact ((List.pairwise_cons.mp hpairs).1 moment hlater).generation_le_of_blank

/-- A sum that is compiled at once, and given up for new variants and kinds, then for a broken
assumption. -/
def settlingSum : List Action :=
  [ .addEngine {},
    .addFlag "verbose",
    .addAssumption "stable",
    .addTarget 0
      { name := "sum"
        frameSize := 1
        body := .stmt (.block
          [ .write 0 (.arith () .add (.arg 0) (.arg 1)),
            .ret (.read 0 .any) ]) } { compileThreshold := 1 } [.assumption 0],
    .invoke 0 #[.int 20, .int 22],
    .invoke 0 #[.int 20, .int 22],
    .map 0 "sum" 1,
    .invoke 0 #[.int 20],
    .setFlag 0 true,
    .invoke 0 #[.undefined, .int 22],
    .invoke 0 #[.int 20, .int 22],
    .invoke 0 #[.int 20, .int 22],
    .invalidate (.assumption 0),
    .invoke 0 #[.int 20, .int 22],
    .invoke 0 #[.int 20, .int 22] ]

theorem deoptimization_converges_settlingSum :
    ∃ target, (run 0 0 {} settlingSum).session.host.targets[0]? = some target ∧
      (target.state.generation = 4 ∧ target.tiering.deoptimizations = 3 ∧
        target.tiering.compilations = 4) ∧
      (∀ moment ∈ (run 0 0 {} settlingSum).moments, moment.generation ≤ 6) ∧
      target.state.generation ≤ 6 ∧ target.tiering.deoptimizations ≤ 7 ∧
      target.tiering.compilations ≤ 8 := by
  have hview : (run 0 0 {} settlingSum).session.host.targets[0]?.map (fun target =>
      (target.state.generation, target.tiering.deoptimizations, target.tiering.compilations,
        target.root.arithmeticSites.length, target.root.frameSize, target.dependencies.length)) =
      some (4, 3, 4, 1, 1, 1) := by decide +kernel
  obtain ⟨target, htarget, hfields⟩ := Option.map_eq_some_iff.mp hview
  simp only [Prod.mk.injEq] at hfields
  obtain ⟨hgeneration, hdeoptimizations, hcompilations, hsites, hslots, hdependencies⟩ := hfields
  have honly : Session.OnlyInvokes 0 0 target.root.arithmeticSites {} settlingSum := by
    simp [Session.OnlyInvokes, Session.Spares, settlingSum]
  have hbounds := deoptimization_converges 0 0 settlingSum htarget honly
  rw [hsites, hslots, hdependencies] at hbounds
  exact ⟨target, htarget, ⟨hgeneration, hdeoptimizations, hcompilations⟩, hbounds⟩

end History

end AdaptiveEval
