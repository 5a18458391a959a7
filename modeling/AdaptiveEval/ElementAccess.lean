import AdaptiveEval.Chain.Arena
import AdaptiveEval.Value.Basic

/-!
# Element access

A site caches a reader for each shape that it meets. A shape past the chain's bound turns the site
megamorphic for good: it then reads every array through the general access.
-/

namespace AdaptiveEval

open Chain

/-- Item access specialized to a shape; any other array falls back to the general access. -/
inductive Reader where
  | dense
  | progression
  | custom
  deriving DecidableEq

namespace Reader

def forShape : Shape → Reader
  | .dense => .dense
  | .progression => .progression
  | .custom _ => .custom

def read (reader : Reader) (array : ArrayValue) (index : Int64) : Except Breach (Option Value) :=
  match reader, array with
  | .dense, .dense _ items => .ok (ArrayValue.denseItem? items index)
  | .progression, .progression terms =>
      (terms.item index).map fun number => some (.int number)
  | .custom, .custom _ _ _ _ item => .ok (item index)
  | _, array => array.item index

end Reader

abbrev ShapeArena := Arena Shape Reader

structure ElementSite where
  head : Head := {}
  megamorphic : Bool := false
  deriving DecidableEq, Inhabited

namespace ElementSite

/-- Finds the reader for an array's shape; only a full chain makes the site megamorphic. -/
def readerFor (site : ElementSite) (shapes : ShapeArena) (shape : Shape) :
    Reader × ElementSite × ShapeArena :=
  match shapes.lookup site.head (fun key => decide (key = shape)) with
  | some reader => (reader, { site with head := site.head.record true }, shapes)
  | none =>
      let reader := Reader.forShape shape
      let (append, shapes, head) :=
        shapes.tryAppend (site.head.record false) shapes.generation shape reader
      (reader, { head, megamorphic := decide (append = .frozen) }, shapes)

/-- Reads an item. The site and the arena change before the read, also when it fails. -/
def get (site : ElementSite) (shapes : ShapeArena) (array : ArrayValue) (index : Int64) :
    Except Breach (Option Value) × ElementSite × ShapeArena :=
  if site.megamorphic then
    (array.item index, site, shapes)
  else
    let (reader, site, shapes) := site.readerFor shapes array.shape
    (reader.read array index, site, shapes)

end ElementSite

end AdaptiveEval
