import TaskMachine.Json.Scanner

/-!
# Reading typed values

A `Reader α` takes a value of type `α` out of a document.  Where it cannot, the
fault says whether the text is no JSON there (`Fault.malformed`) or JSON of
another shape (`Fault.mismatch`); of several faults the one that stands earliest
in the document is reported, see `Outcome.both`.

Three circumstances change what is asked of a document, see `Circumstance`: it
may come straight from text, be a value that was read before, or be a part that
was set aside while looking for a tag.

Here are the readers of scalars, lists and maps, `Reader.str`, `Reader.list`,
`Reader.map` and others, and how a reader is run, `Reader.fromText` and
`Reader.fromJson`.  Nothing knows of a particular type.
-/

namespace TaskMachine

/-- Why a document does not yield a value. -/
inductive Fault where
  /-- The text is not JSON, or has a number or string without a value. -/
  | malformed
  /-- The document has another shape than the type; where the type says more
  about the reason than that, it gives a text. -/
  | mismatch (reason : Option String)
deriving DecidableEq, Repr

namespace Fault

/-- Another shape, with nothing more to say. -/
def unlike : Fault := .mismatch none

end Fault

/-- Where a document comes from. -/
inductive Circumstance where
  /-- Straight from text.  What a type leaves unread is noticed as text that
  does not end where it should. -/
  | text
  /-- From a value read before. -/
  | value
  /-- From a part that was set aside before its type was known. -/
  | aside
deriving DecidableEq, Repr

/-- Reads a value of a type out of a document. -/
abbrev Reader (α : Type) := Circumstance → Document → Except Fault α

namespace Circumstance

/-- The fault of an array or object that goes on where the type ends. -/
def excess : Circumstance → Fault
  | .text => .malformed
  | .value | .aside => .unlike

end Circumstance

namespace Document

/-- The fault of a document that is not what is wanted.  A wrong bracket is seen
before its contents, every other thing only once it has been read. -/
def refusal (isWanted : Document → Bool) : Document → Fault
  | .broken | .unreadable => .malformed
  | .tooDeep inner => if isWanted inner then .malformed else .unlike
  | _ => .unlike

/-- Whether a document is an array. -/
def isArr : Document → Bool
  | .arr _ _ => true
  | _ => false

/-- Whether a document is an object. -/
def isObj : Document → Bool
  | .obj _ _ => true
  | _ => false

/-- The fault of a document where a scalar is wanted. -/
def notScalar (document : Document) : Fault := document.refusal fun _ => false

end Document

/-! ### Faults by place -/

/-- The result of reading a part of a structure: a value, or a fault and the
place in the document where it shows. -/
def Outcome (α : Type) := Except (Nat × Fault) α

namespace Outcome

variable {α β : Type}

/-- A fault at a place. -/
def fault (place : Nat) (fault : Fault) : Outcome α := .error (place, fault)

/-- A result at a place. -/
def at' (place : Nat) : Except Fault α → Outcome α
  | .ok value => .ok value
  | .error fault => .error (place, fault)

/-- Two results together.  Of two faults the earlier counts, and the first of
two at one place. -/
def both (first : Outcome α) (second : Outcome β) : Outcome (α × β) :=
  match first, second with
  | .ok a, .ok b => .ok (a, b)
  | .error e, .ok _ => .error e
  | .ok _, .error e => .error e
  | .error e, .error e' => .error (if e'.1 < e.1 then e' else e)

/-- A result computed from another. -/
def map (f : α → β) : Outcome α → Outcome β
  | .ok value => .ok (f value)
  | .error e => .error e

/-- The result without its place. -/
def forget : Outcome α → Except Fault α
  | .ok value => .ok value
  | .error e => .error e.2

end Outcome

/-- The first place, counted from a start, where a check fails. -/
def firstFault (check : α → Option Fault) : (place : Nat) → List α → Outcome Unit
  | _, [] => .ok ()
  | place, item :: rest =>
    match check item with
    | some fault => .fault place fault
    | none => firstFault check (place + 1) rest

/-- The end of an array or object of so many parts. -/
def Closing.outcome (length : Nat) : Closing → Outcome Unit
  | .closed => .ok ()
  | .stuck _ => .fault length .malformed

namespace Reader

variable {α β : Type}

/-! ### Scalars -/

/-- A truth value. -/
def bool : Reader Bool
  | _, .bool value => .ok value
  | _, document => .error document.notScalar

/-- A string. -/
def str : Reader String
  | _, .str value => .ok value
  | _, document => .error document.notScalar

/-- An integer that is not negative. -/
def natural : Reader Nat
  | _, .number (.integer value) =>
    if 0 ≤ value then .ok value.toNat else .error .unlike
  | _, document => .error document.notScalar

/-- An integer that is not negative and lies below a bound. -/
def naturalBelow (bound : Nat) : Reader Nat := fun circumstance document => do
  let value ← natural circumstance document
  if value < bound then return value else throw .unlike

/-- An integer of eight bits. -/
def uint8 : Reader UInt8 := fun circumstance document =>
  (naturalBelow UInt8.size circumstance document).map UInt8.ofNat

/-- An integer of thirty-two bits. -/
def uint32 : Reader UInt32 := fun circumstance document =>
  (naturalBelow UInt32.size circumstance document).map UInt32.ofNat

/-- An integer of sixty-four bits. -/
def uint64 : Reader UInt64 := fun circumstance document =>
  (naturalBelow UInt64.size circumstance document).map UInt64.ofNat

/-- Any number, as a double. -/
def double : Reader Double
  | _, .number value => .ok value.toDouble
  | _, document => .error document.notScalar

/-- Any JSON value. -/
def json : Reader Json := fun _ document =>
  document.value?.elim (.error .malformed) .ok

/-! ### Containers -/

/-- A value, or `null` for none. -/
def nullable (reader : Reader α) : Reader (Option α)
  | _, .null => .ok none
  | circumstance, document => (reader circumstance document).map some

/-- An array of values. -/
def list (reader : Reader α) : Reader (List α)
  | circumstance, .arr items closing => do
    let values ← items.mapM (reader circumstance)
    (closing.outcome items.length).forget
    return values
  | _, document => .error (document.refusal Document.isArr)

/-- An object of values under any keys.  Of two fields with one key the later
one counts, but both have to be right. -/
def map (reader : Reader α) : Reader (SortedMap α)
  | circumstance, .obj fields closing => do
    let entries ← fields.mapM fun field => do
      return (field.1, ← reader circumstance field.2)
    (closing.outcome fields.length).forget
    return .ofList entries
  | _, document => .error (document.refusal Document.isObj)

/-- The value that a document has by one reader, checked or converted. -/
def andThen (reader : Reader α) (next : α → Except Fault β) : Reader β :=
  fun circumstance document => reader circumstance document >>= next

/-- Reads what was set aside: the document has to be right throughout, and
whatever is missing in its shape is not told apart. -/
def untagged (reader : Document → Option α) : Reader α := fun _ document =>
  if document.isReadable then
    (reader document).elim (.error .unlike) .ok
  else .error .malformed

/-! ### Running a reader -/

/-- Reads a text that holds one document and nothing else. -/
def fromText (reader : Reader α) (text : String) : Except Fault α := do
  let (document, alone) := Document.ofText text
  let value ← reader .text document
  if alone then return value else throw .malformed

/-- Reads a JSON value. -/
def fromJson (reader : Reader α) (value : Json) : Except Fault α :=
  reader .value (.ofJson value)

end Reader

end TaskMachine
