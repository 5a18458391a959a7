import AdaptiveEval.Proofs.Composition
import AdaptiveEval.Proofs.Reference.Simulation

/-!
# Levels of depth and bounds of loops

The steps of nodes know nothing of the depth, of the bounds of a context and of the hand-overs. So
the depth that a node enters at is restored, a limit that leaves room for its height is never
reached, and a larger limit repeats every run that was not cut off.
-/

namespace AdaptiveEval

def Context.withBounds (context : Context) (options : Options) (fuel : Nat) : Context :=
  { context with options, fuel }

def Context.withMaxDepth (context : Context) (limit : Nat) : Context :=
  { context with options := { context.options with maxDepth := limit } }

namespace Machine

def withDepth (machine : Machine) (depth : Nat) : Machine :=
  { machine with depth }

def withEntries (machine : Machine) (entries : Nat) : Machine :=
  { machine with target := { machine.target with osrEntries := entries } }

/-- The machine inside a node. -/
def inside (machine : Machine) : Machine :=
  machine.withDepth (machine.depth + 1)

/-- The machine after a node. -/
def outside (machine : Machine) : Machine :=
  machine.withDepth (machine.depth - 1)

end Machine

/-- The faults that neither the depth limit nor the fuel has to do with. -/
def Fault.Ordinary : Fault → Prop
  | .runtime _ => True
  | .breach _ => True
  | _ => False

namespace Eval

variable {α β : Type}

section Nested

/-- Leaves the level of a node, which an index outside a progression does not. -/
def leave : Except Fault α × Machine → Except Fault α × Machine
  | (.error (.breach outside), machine) => (.error (.breach outside), machine)
  | (result, machine) => (result, machine.outside)

variable {body : Eval α} {context : Context} {machine : Machine}

theorem nested_of_le (hdeep : context.options.maxDepth ≤ machine.depth) :
    nested body context machine =
      (.error (.stackOverflow machine.depth context.options.maxDepth), machine) := by
  unfold nested
  rw [if_pos hdeep]

theorem nested_of_not_le (hshallow : ¬context.options.maxDepth ≤ machine.depth) :
    nested body context machine = leave (body context machine.inside) := by
  unfold nested
  rw [if_neg hshallow]
  rfl

end Nested

/-- A step that looks neither at the bounds nor at the counters, and leaves the counters alone. -/
structure Local (action : Eval α) : Prop where
  steady : ∀ (context : Context) (options : Options) (fuel : Nat) (machine : Machine)
    (depth entries : Nat),
    action (context.withBounds options fuel) ((machine.withDepth depth).withEntries entries) =
      ((action context machine).1,
        ((action context machine).2.withDepth depth).withEntries entries)
  ordinary : ∀ (context : Context) (machine : Machine) (fault : Fault),
    (action context machine).1 = .error fault → fault.Ordinary

namespace Local

section

variable {action : Eval α} (hlocal : action.Local) (context : Context) (machine : Machine)
include hlocal

theorem snd_eq : (action context machine).2 =
    ((action context machine).2.withDepth machine.depth).withEntries machine.target.osrEntries :=
  congrArg Prod.snd (hlocal.steady context context.options context.fuel machine machine.depth
    machine.target.osrEntries)

theorem depth_eq : (action context machine).2.depth = machine.depth := by
  rw [hlocal.snd_eq]
  rfl

end

theorem of_looks {action : Eval α} (hlooks : action.Looks) : action.Local := by
  obtain ⟨look, hlook⟩ := hlooks
  constructor
  · intro context options fuel machine depth entries
    rw [hlook, hlook]
    rfl
  · intro context machine fault
    rw [hlook]
    cases look context.arguments context.flags machine.frame with
    | ok value => exact nofun
    | error error =>
        rintro ⟨⟩
        trivial

theorem write (slot : Nat) (value : Value) : (Eval.write slot value).Local where
  steady _ _ _ machine _ _ := by
    unfold Eval.write
    dsimp only [Machine.withDepth, Machine.withEntries]
    cases machine.frame.write machine.target.descriptor machine.target.generation slot value <;> rfl
  ordinary context machine fault := by
    unfold Eval.write
    cases machine.frame.write machine.target.descriptor machine.target.generation slot value with
    | ok written => exact nofun
    | error error =>
        rintro ⟨⟩
        trivial

theorem arith (site : SiteId) (op : ArithmeticOp) (left right : Value) :
    (Eval.arith site op left right).Local where
  steady _ _ _ machine _ _ := by
    unfold Eval.arith
    dsimp only [Machine.withDepth, Machine.withEntries]
    cases ((machine.sites.arithmeticAt site).evaluate op left right machine.target.generation).1 <;>
      rfl
  ordinary context machine := by
    unfold Eval.arith
    exact (of_looks (.ofExcept _)).ordinary context _

theorem resolve (site : SiteId) (name : String) : (Eval.resolve site name).Local :=
  ⟨fun _ _ _ _ _ _ => rfl, nofun⟩

theorem element (site : SiteId) (array : ArrayValue) (index : Int64) :
    (Eval.element site array index).Local where
  steady _ _ _ _ _ _ := rfl
  ordinary context machine fault := by
    unfold Eval.element
    dsimp only
    cases ((machine.sites.elementAt site).get machine.target.shapes array index).1 with
    | ok item => exact nofun
    | error outside =>
        rintro ⟨⟩
        trivial

theorem of_primitive {sites : SiteSets} {action : Eval α} (hprimitive : Primitive sites action) :
    action.Local := by
  cases hprimitive with
  | look hlooks => exact of_looks hlooks
  | write slot value => exact write slot value
  | arith hsite op left right => exact arith _ op left right
  | resolve hsite name => exact resolve _ name
  | element hsite array index => exact element _ array index

end Local

end Eval

/-- The depth limit has cut the run off. -/
def Overflows {α : Type} (result : Except Fault α) : Prop :=
  ∃ depth limit, result = .error (.stackOverflow depth limit)

/-- What a run of the given height, from the given depth on, does to the depth. -/
structure Balanced {α : Type} (limit height depth : Nat) (run : Except Fault α × Machine) :
    Prop where
  within : depth ≤ limit → run.2.depth ≤ limit
  restored : (∀ outside, run.1 ≠ .error (.breach outside)) → run.2.depth = depth
  reported : depth ≤ limit → ∀ reached bound, run.1 = .error (.stackOverflow reached bound) →
    reached = limit ∧ bound = limit
  fits : depth + height ≤ limit → ¬Overflows run.1

namespace Balanced

variable {α : Type} {limit height : Nat}

theorem of_depth_eq {depth : Nat} {run : Except Fault α × Machine} (hdepth : run.2.depth = depth)
    (hends : ¬Overflows run.1) : Balanced limit height depth run where
  within hle := by
    rw [hdepth]
    exact hle
  restored _ := hdepth
  reported _ reached bound hrun := absurd ⟨reached, bound, hrun⟩ hends
  fits _ := hends

theorem leave {depth : Nat} {run : Except Fault α × Machine}
    (hrun : Balanced limit height (depth + 1) run) (hroom : depth < limit) :
    Balanced limit (height + 1) depth (Eval.leave run) := by
  obtain ⟨hwithin, hrestored, hreported, hfits⟩ := hrun
  rcases run with ⟨fault | value, reached⟩
  · cases fault with
    | breach outside =>
        refine ⟨fun _ => hwithin (by omega), fun hreturns => absurd rfl (hreturns outside), ?_, ?_⟩
        · exact fun _ _ _ => nofun
        · rintro _ ⟨_, _, ⟨⟩⟩
    | _ =>
        have hdepth : reached.depth = depth + 1 := hrestored fun _ => by simp
        have houtside : reached.outside.depth = depth := by
          change reached.depth - 1 = depth
          omega
        refine ⟨fun hle => ?_, fun _ => houtside, fun _ => hreported (by omega),
          fun hroom => hfits (by omega)⟩
        change reached.outside.depth ≤ limit
        omega
  · have hdepth : reached.depth = depth + 1 := hrestored fun _ => by simp
    refine of_depth_eq ?_ nofun
    change reached.depth - 1 = depth
    omega

theorem nested {context : Context} {machine : Machine} {body : Eval α}
    (hbody : Balanced context.options.maxDepth height machine.inside.depth
      (body context machine.inside)) :
    Balanced context.options.maxDepth (height + 1) machine.depth
      (Eval.nested body context machine) := by
  by_cases hdeep : context.options.maxDepth ≤ machine.depth
  · rw [Eval.nested_of_le hdeep]
    refine ⟨fun hle => hle, fun _ => rfl, ?_, fun hfits => by omega⟩
    rintro hle _ _ ⟨⟩
    exact ⟨by omega, rfl⟩
  · rw [Eval.nested_of_not_le hdeep]
    exact hbody.leave (by omega)

end Balanced

namespace Eval.Composed

variable {α : Type} {sites : SiteSets} {loops : Prop} {height : Nat} {traced : Traced α}
  {action : Eval α}

theorem balanced (hcomposed : Composed sites loops height traced action) (context : Context)
    (machine : Machine) :
    Balanced context.options.maxDepth height machine.depth (action context machine) := by
  induction hcomposed generalizing machine with
  | pure height value => exact .of_depth_eq rfl nofun
  | @step height _ action hprimitive =>
      have hlocal := Local.of_primitive hprimitive
      refine .of_depth_eq (hlocal.depth_eq context machine) ?_
      rintro ⟨reached, bound, hrun⟩
      exact hlocal.ordinary context machine _ hrun
  | @bind height _ _ _ action _ next _ _ ihaction ihnext =>
      have hfirst := ihaction machine
      rw [bind_apply]
      rcases hrun : action context machine with ⟨fault | value, reached⟩
      · rw [hrun] at hfirst
        refine ⟨hfirst.within, fun hreturns => hfirst.restored fun outside hbreach => ?_, ?_, ?_⟩
        · cases hbreach
          exact hreturns outside rfl
        · rintro hle _ _ ⟨⟩
          exact hfirst.reported hle _ _ rfl
        · rintro hroom ⟨_, _, ⟨⟩⟩
          exact hfirst.fits hroom ⟨_, _, rfl⟩
      · rw [hrun] at hfirst
        have hdepth : reached.depth = machine.depth := hfirst.restored nofun
        rw [← hdepth]
        exact ihnext value reached
  | nested _ ih => exact .nested (ih _)
  | bounded hloops _ ih => exact ih _ _ machine
  | outOfFuel height hloops => exact .of_depth_eq rfl (by rintro ⟨_, _, ⟨⟩⟩)
  | enterOsr height hloops => exact .of_depth_eq rfl nofun

/-- A larger limit repeats a run that the smaller one did not cut off. -/
theorem apply_withMaxDepth (hcomposed : Composed sites loops height traced action)
    {context : Context} {limit : Nat} (hle : context.options.maxDepth ≤ limit) {machine : Machine}
    (hends : ¬Overflows (action context machine).1) :
    action (context.withMaxDepth limit) machine = action context machine := by
  induction hcomposed generalizing machine with
  | pure height value => rfl
  | @step height _ action hprimitive =>
      have hlocal := Local.of_primitive hprimitive
      have hsteady := hlocal.steady context { context.options with maxDepth := limit } context.fuel
        machine machine.depth machine.target.osrEntries
      rw [← hlocal.snd_eq] at hsteady
      exact hsteady
  | @bind height _ _ _ action _ next _ _ ihaction ihnext =>
      rw [bind_apply] at hends
      rw [bind_apply, bind_apply]
      rcases hrun : action context machine with ⟨fault | value, reached⟩
      · have hfirst : ¬Overflows (action context machine).1 := by
          rw [hrun] at hends ⊢
          rintro ⟨depth, bound, hover⟩
          cases hover
          exact hends ⟨depth, bound, rfl⟩
        rw [ihaction hfirst, hrun]
      · have hfirst : ¬Overflows (action context machine).1 := by
          rw [hrun]
          rintro ⟨_, _, ⟨⟩⟩
        rw [hrun] at hends
        rw [ihaction hfirst, hrun]
        exact ihnext value hends
  | @nested height _ _ body _ ih =>
      by_cases hdeep : context.options.maxDepth ≤ machine.depth
      · rw [nested_of_le hdeep] at hends
        exact absurd ⟨_, _, rfl⟩ hends
      · have hlimit : ¬(context.withMaxDepth limit).options.maxDepth ≤ machine.depth := by
          change ¬limit ≤ machine.depth
          omega
        rw [nested_fst hdeep] at hends
        rw [nested_of_not_le hdeep, nested_of_not_le hlimit]
        exact congrArg leave (ih hends)
  | bounded hloops _ ih => exact ih _ _ hends
  | outOfFuel height hloops => rfl
  | enterOsr height hloops => rfl

/-- An evaluation without loops does not depend on their bounds, and counts no hand-over. -/
theorem apply_withBounds (hcomposed : Composed sites False height traced action) {context : Context}
    {options : Options} (hlimit : options.maxDepth = context.options.maxDepth) (fuel : Nat)
    (machine : Machine) (entries : Nat) :
    action (context.withBounds options fuel) (machine.withEntries entries) =
      ((action context machine).1, (action context machine).2.withEntries entries) := by
  induction hcomposed generalizing machine with
  | pure height value => rfl
  | @step height _ action hprimitive =>
      have hlocal := Local.of_primitive hprimitive
      have hsteady := hlocal.steady context options fuel machine machine.depth entries
      have hsame : (action context machine).2.withDepth machine.depth =
          (action context machine).2 := by
        rw [← hlocal.depth_eq context machine]
        rfl
      rw [hsame] at hsteady
      exact hsteady
  | @bind height _ _ _ action _ next _ _ ihaction ihnext =>
      rw [bind_apply, bind_apply, ihaction machine]
      rcases action context machine with ⟨fault | value, reached⟩
      · rfl
      · exact ihnext value reached
  | @nested height _ _ body _ ih =>
      have hbound : (context.withBounds options fuel).options.maxDepth =
          context.options.maxDepth := hlimit
      by_cases hdeep : context.options.maxDepth ≤ machine.depth
      · have hdeeper : (context.withBounds options fuel).options.maxDepth ≤
            (machine.withEntries entries).depth := by
          rw [hbound]
          exact hdeep
        rw [nested_of_le hdeep, nested_of_le hdeeper, hbound]
        rfl
      · have hshallow : ¬(context.withBounds options fuel).options.maxDepth ≤
            (machine.withEntries entries).depth := by
          rw [hbound]
          exact hdeep
        have hbody := ih machine.inside
        rw [nested_of_not_le hdeep, nested_of_not_le hshallow]
        change leave (body _ (machine.inside.withEntries entries)) = _
        rw [hbody]
        rcases body context machine.inside with ⟨fault | value, reached⟩
        · cases fault <;> rfl
        · rfl
  | bounded hloops => exact hloops.elim
  | outOfFuel height hloops => exact hloops.elim
  | enterOsr height hloops => exact hloops.elim

end Eval.Composed

end AdaptiveEval
