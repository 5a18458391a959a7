import AdaptiveEval.Arithmetic.Site
import AdaptiveEval.Assumption
import AdaptiveEval.ElementAccess
import AdaptiveEval.Frame
import AdaptiveEval.Proofs.Chain.Entries

/-!
# What sites and slots answer

The state of a site, of a slot or of a flag decides how an answer is found, never which answer it
is. The shape arena needs an invariant for this: it holds no reader of another shape.
-/

namespace AdaptiveEval

open Chain

/-- The variants seen so far choose between two ways to one result. -/
theorem ArithmeticSite.evaluate_fst (site : ArithmeticSite) (op : ArithmeticOp)
    (left right : Value) (generation : Nat) :
    (site.evaluate op left right generation).1 = op.combine left right := by
  unfold evaluate
  cases hfast : site.fastPath? op left right with
  | some value =>
      unfold fastPath? at hfast
      split at hfast
      · split at hfast <;> simp_all [ArithmeticOp.combine, Variant.select?, Variant.apply]
      · simp at hfast
  | none =>
      unfold ArithmeticOp.combine
      cases Variant.select? left right <;> rfl

theorem Reader.forShape_read (array : ArrayValue) (index : Int64) :
    (Reader.forShape array.shape).read array index = array.item index := by
  cases array <;> rfl

def ReadersFit (shapes : ShapeArena) : Prop :=
  ∀ entry ∈ shapes.entries, entry.value = Reader.forShape entry.key

theorem readersFit_of_entries_eq_empty {shapes : ShapeArena} (hempty : shapes.entries = #[]) :
    ReadersFit shapes := by
  intro entry hmem
  simp [hempty] at hmem

namespace ReadersFit

variable {shapes : ShapeArena}

theorem lookup_eq_some (hfit : ReadersFit shapes) {head : Head} {shape : Shape} {reader : Reader}
    (hfound : shapes.lookup head (fun key => decide (key = shape)) = some reader) :
    reader = Reader.forShape shape := by
  obtain ⟨entry, hmem, hkey, rfl⟩ := Arena.exists_mem_of_lookup_eq_some hfound
  rw [hfit entry hmem, of_decide_eq_true hkey]

theorem tryAppend (hfit : ReadersFit shapes) (head : Head) (generation : Nat) (shape : Shape) :
    ReadersFit (shapes.tryAppend head generation shape (Reader.forShape shape)).2.1 := by
  intro entry hmem
  rcases Arena.mem_entries_tryAppend hmem with hold | ⟨rfl, hvalue, _⟩
  · exact hfit entry hold
  · exact hvalue

theorem readerFor_fst (hfit : ReadersFit shapes) (site : ElementSite) (shape : Shape) :
    (site.readerFor shapes shape).1 = Reader.forShape shape := by
  unfold ElementSite.readerFor
  split
  · rename_i hfound
    exact hfit.lookup_eq_some hfound
  · rfl

theorem readerFor_snd (hfit : ReadersFit shapes) (site : ElementSite) (shape : Shape) :
    ReadersFit (site.readerFor shapes shape).2.2 := by
  unfold ElementSite.readerFor
  split
  · exact hfit
  · exact hfit.tryAppend _ _ shape

/-- A cached reader and the general access find the same item, also past the bound of the chain. -/
theorem get_fst (hfit : ReadersFit shapes) (site : ElementSite) (array : ArrayValue)
    (index : Int64) : (site.get shapes array index).1 = array.item index := by
  unfold ElementSite.get
  split
  · rfl
  · simp only [hfit.readerFor_fst, Reader.forShape_read]

theorem get_snd (hfit : ReadersFit shapes) (site : ElementSite) (array : ArrayValue)
    (index : Int64) : ReadersFit (site.get shapes array index).2.2 := by
  unfold ElementSite.get
  split
  · exact hfit
  · exact hfit.readerFor_snd site array.shape

end ReadersFit

@[simp]
theorem Slot.value?_store (kind : SlotKind) (value : Value) :
    (Slot.store kind value).value? = some value := by
  cases kind <;> cases value <;> rfl

namespace Flag

/-- A flag whose assumption still holds has the value it started with. -/
def Coherent (flag : Flag) : Prop :=
  flag.unchanged.valid = true → flag.value = false

variable {flag : Flag}

theorem coherent_ofName (name : String) : (ofName name).Coherent :=
  fun _ => rfl

theorem Coherent.get_eq_value (hcoherent : flag.Coherent) : flag.get = flag.value := by
  unfold get
  split
  · rename_i hvalid
    exact (hcoherent hvalid).symm
  · rfl

@[simp]
theorem value_set (flag : Flag) (value : Bool) : (flag.set value).value = value := by
  unfold set
  split
  · assumption
  · rfl

theorem Coherent.set (hcoherent : flag.Coherent) (value : Bool) : (flag.set value).Coherent := by
  unfold Flag.set
  split
  · exact hcoherent
  · intro hvalid
    simp [Assumption.invalidate] at hvalid

@[simp]
theorem value_invalidate (flag : Flag) : flag.invalidate.2.value = flag.value := rfl

theorem coherent_invalidate (flag : Flag) : flag.invalidate.2.Coherent := by
  intro hvalid
  simp [invalidate, Assumption.invalidate] at hvalid

end Flag

end AdaptiveEval
