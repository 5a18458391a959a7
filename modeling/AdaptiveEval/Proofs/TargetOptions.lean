import AdaptiveEval.Proofs.Levels
import AdaptiveEval.Proofs.TargetChanges

/-!
# Targets under other options

A target whose options are changed runs its body from the same machine. What an invocation leaves
behind is therefore told by that one run, up to the options themselves.
-/

namespace AdaptiveEval

namespace Host

section Settle

variable (host : Host) (id : Nat) (change : Target → Target) (target : Target) (sites : Sites)

/-- A run replaces its target as a whole. -/
theorem settle_modifyTarget :
    (host.modifyTarget id change).settle id target sites = host.settle id target sites := by
  have htargets : (host.targets.modify id change).setIfInBounds id target =
      host.targets.setIfInBounds id target := by
    apply Array.ext_getElem?
    intro other
    rw [Array.getElem?_setIfInBounds, Array.getElem?_setIfInBounds, Array.getElem?_modify,
      Array.size_modify]
    by_cases heq : id = other
    · rw [if_pos heq, if_pos heq]
    · rw [if_neg heq, if_neg heq, if_neg heq]
  simp only [settle, modifyTarget, htargets]

theorem modifyTarget_settle :
    (host.settle id target sites).modifyTarget id change =
      host.settle id (change target) sites := by
  have htargets : (host.targets.setIfInBounds id target).modify id change =
      host.targets.setIfInBounds id (change target) := by
    apply Array.ext_getElem?
    intro other
    rw [Array.getElem?_modify, Array.getElem?_setIfInBounds, Array.getElem?_setIfInBounds]
    by_cases heq : id = other
    · rw [if_pos heq, if_pos heq, if_pos heq]
      split <;> rfl
    · rw [if_neg heq, if_neg heq, if_neg heq]
  simp only [settle, modifyTarget, htargets]

end Settle

def withOptions (host : Host) (id : Nat) (change : Options → Options) : Host :=
  host.modifyTarget id fun target => { target with options := change target.options }

def withMaxDepth (host : Host) (id limit : Nat) : Host :=
  host.withOptions id fun options => { options with maxDepth := limit }

def withOsrThreshold (host : Host) (id threshold : Nat) : Host :=
  host.withOptions id fun options => { options with osrThreshold := threshold }

/-- What an invocation returns and leaves behind, once its body has run. -/
def ended (host : Host) (id : Nat) (target : Target) (run : Except Fault Value × Machine) :
    Except Fault Value × Host :=
  (run.1,
    host.settle id
      { target with
        tiering := target.tiering.enter target.options.compileThreshold target.state.generation
          (host.broken target.dependencies)
        state := run.2.target }
      run.2.sites)

section

variable {host : Host} {fuel id : Nat} {arguments : Array Value} {target : Target}
  {context : Context}

theorem start?_withOptions
    (hstart : host.start? fuel id arguments = some (target, context)) (change : Options → Options)
    (later : Nat) :
    (host.withOptions id change).start? later id arguments =
      some ({ target with options := change target.options },
        context.withBounds (change context.options) later) := by
  obtain ⟨htarget, engine, hengine, rfl⟩ := start?_eq_some_iff.mp hstart
  apply start?_eq_some_iff.mpr
  refine ⟨?_, engine, hengine, rfl⟩
  simp only [withOptions, modifyTarget, Array.getElem?_modify, if_true, htarget, Option.map_some]

theorem start?_of_withOptions {change : Options → Options} {fuel : Nat}
    {run : Except Fault Value × Host}
    (hrun : (host.withOptions id change).invoke fuel id arguments = some run) :
    ∃ target context, host.start? fuel id arguments = some (target, context) := by
  rw [invoke_eq_map_start?] at hrun
  obtain ⟨⟨changed, context⟩, hstart, _⟩ := Option.map_eq_some_iff.mp hrun
  obtain ⟨hchanged, engine, hengine, _⟩ := start?_eq_some_iff.mp hstart
  simp only [withOptions, modifyTarget, Array.getElem?_modify, if_true] at hchanged
  obtain ⟨target, htarget, rfl⟩ := Option.map_eq_some_iff.mp hchanged
  exact ⟨target, _, start?_eq_some_iff.mpr ⟨htarget, engine, hengine, rfl⟩⟩

theorem invoke_withOptions
    (hstart : host.start? fuel id arguments = some (target, context)) (change : Options → Options)
    (later : Nat) :
    (host.withOptions id change).invoke later id arguments =
      some (host.ended id { target with options := change target.options }
        (target.root.run (context.withBounds (change context.options) later)
          (target.machine host.sites))) := by
  rw [invoke_eq_map_start?, start?_withOptions hstart, Option.map_some]
  dsimp only [Target.invoke_eq]
  exact congrArg (fun after => some (_, after)) (settle_modifyTarget host id _ _ _)

end

end Host

end AdaptiveEval
