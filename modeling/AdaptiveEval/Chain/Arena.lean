/-!
# Cache chains

Bounded chains of cached pairs, newest first. The entries of all chains live in one arena; a site
owns only a head, one word that names its newest entry and the generation of that entry. Advancing
the generation empties the arena, and heads of older generations read as empty.
-/

namespace AdaptiveEval.Chain

/-- A head keeps the slot of its entry in the lower 24 bits of its word. -/
def slotCount : Nat := 0x1000000

def maxLimit : Nat := 255

/-- The last generation that a head can name in the other 40 bits. -/
def maxGeneration : Nat := 0xffffffffff

/-- Slot zero marks an empty head. -/
def maxEntries : Nat := slotCount - 1

/-- Generations stay at the last word instead of wrapping. -/
def lastGeneration : Nat := 0xffffffffffffffff

/-- The word is bounded; the counters of lookups are not, where those of 64 bits would wrap after
`2 ^ 64` lookups. -/
structure Head where
  word : UInt64 := 0
  hits : Nat := 0
  misses : Nat := 0
  deriving DecidableEq, Inhabited

namespace Head

def pack (generation index : Nat) : UInt64 :=
  UInt64.ofNat (generation * slotCount + (index + 1))

def generation (head : Head) : Nat :=
  head.word.toNat / slotCount

def slot (head : Head) : Nat :=
  head.word.toNat % slotCount

def point (head : Head) (generation index : Nat) : Head :=
  { head with word := pack generation index }

def record (head : Head) (hit : Bool) : Head :=
  if hit then
    { head with hits := head.hits + 1 }
  else
    { head with misses := head.misses + 1 }

end Head

/-- An entry counts itself and the entries behind it. -/
structure Entry (κ α : Type) where
  key : κ
  value : α
  next : Option Nat
  length : UInt8

structure Arena (κ α : Type) where
  limit : UInt8
  generation : Nat
  entries : Array (Entry κ α)

inductive Append where
  | appended
  | frozen
  | present
  | stale
  deriving DecidableEq

def Append.name : Append → String
  | .appended => "Appended"
  | .frozen => "Frozen"
  | .present => "Present"
  | .stale => "Stale"

namespace Arena

variable {κ α : Type}

/-- Limits past the longest chain are capped to it. -/
def ofLimit (limit : Nat) : Arena κ α :=
  { limit := UInt8.ofNat (min limit maxLimit), generation := 0, entries := #[] }

def size (arena : Arena κ α) : Nat :=
  arena.entries.size

def isEmpty (arena : Arena κ α) : Bool :=
  arena.size == 0

/-- An arena past the last nameable generation caches nothing. -/
def isExhausted (arena : Arena κ α) : Bool :=
  decide (maxGeneration < arena.generation)

/-- The newest entry of a head that belongs to the live generation. -/
def locate (arena : Arena κ α) (head : Head) : Option Nat :=
  if head.slot = 0 ∨ head.generation ≠ arena.generation ∨ arena.isExhausted then
    none
  else if head.slot - 1 < arena.entries.size then
    some (head.slot - 1)
  else
    none

def follow (entries : Array (Entry κ α)) : Nat → Option Nat → List (Entry κ α)
  | 0, _ => []
  | _ + 1, none => []
  | steps + 1, some index =>
      match entries[index]? with
      | none => []
      | some entry => entry :: follow entries steps entry.next

def chain (arena : Arena κ α) (head : Head) : List (Entry κ α) :=
  follow arena.entries arena.entries.size (arena.locate head)

def lookup (arena : Arena κ α) (head : Head) (accepts : κ → Bool) : Option α :=
  ((arena.chain head).find? fun entry => accepts entry.key).map Entry.value

def lengthAt (arena : Arena κ α) (index : Option Nat) : UInt8 :=
  ((index.bind fun index => arena.entries[index]?).map Entry.length).getD 0

def chainLength (arena : Arena κ α) (head : Head) : Nat :=
  (arena.lengthAt (arena.locate head)).toNat

def isFrozen (arena : Arena κ α) (head : Head) : Bool :=
  decide (arena.limit.toNat ≤ arena.chainLength head)

def push (arena : Arena κ α) (key : κ) (value : α) (next : Option Nat) : Arena κ α :=
  { arena with
    entries := arena.entries.push { key, value, next, length := arena.lengthAt next + 1 } }

/-- Puts a pair in front of a head's chain, provided that the arena is still at the generation
for which the value was computed. -/
def tryAppend [DecidableEq κ] (arena : Arena κ α) (head : Head) (generation : Nat) (key : κ)
    (value : α) : Append × Arena κ α × Head :=
  if arena.generation ≠ generation ∨ arena.isExhausted then
    (.stale, arena, head)
  else if (arena.chain head).any fun entry => decide (entry.key = key) then
    (.present, arena, head)
  else if arena.isFrozen head ∨ maxEntries ≤ arena.size then
    (.frozen, arena, head)
  else
    (.appended, arena.push key value (arena.locate head),
      head.point arena.generation arena.size)

def reset (arena : Arena κ α) (generation : Nat) : Arena κ α :=
  { arena with generation, entries := #[] }

def invalidate (arena : Arena κ α) : Arena κ α :=
  arena.reset (if arena.generation < lastGeneration then arena.generation + 1 else arena.generation)

/-- Follows an external counter forward; an older generation changes nothing. -/
def sync (arena : Arena κ α) (generation : Nat) : Arena κ α :=
  if arena.generation < generation then arena.reset generation else arena

end Arena

end AdaptiveEval.Chain
