import TaskMachine.Json.Document
import TaskMachine.Json.Numeral

/-!
# Scanning text

`Document.ofText` takes a text apart into a document.  It never fails: where
the text stops being JSON the document says so.

The scanner works on lists of characters and hands on what is left of the text,
or `none` once the text went wrong, which ends every enclosing array and object
at that place.  The limit on nesting marks what lies too deep but scans on, so
that a part nobody reads can still be skipped.
-/

namespace TaskMachine

namespace Scanner

/-- The blanks of the format. -/
def isBlank (c : Char) : Bool := c == ' ' || c == '\n' || c == '\t' || c == '\r'

/-- The text from its first character that is no blank. -/
def skipBlanks (text : List Char) : List Char := text.dropWhile isBlank

/-- The value of a hexadecimal digit in either case. -/
def hexDigit? (c : Char) : Option Nat :=
  if '0' ≤ c && c ≤ '9' then some (c.toNat - '0'.toNat)
  else if 'a' ≤ c && c ≤ 'f' then some (c.toNat - 'a'.toNat + 10)
  else if 'A' ≤ c && c ≤ 'F' then some (c.toNat - 'A'.toNat + 10)
  else none

/-- The value of four hexadecimal digits. -/
def hexUnit? (a b c d : Char) : Option Nat := do
  let a ← hexDigit? a
  let b ← hexDigit? b
  let c ← hexDigit? c
  let d ← hexDigit? d
  return ((a * 16 + b) * 16 + c) * 16 + d

/-- The first halves of surrogate pairs. -/
def isHighHalf (unit : Nat) : Bool := 0xd800 ≤ unit && unit < 0xdc00

/-- The second halves of surrogate pairs. -/
def isLowHalf (unit : Nat) : Bool := 0xdc00 ≤ unit && unit < 0xe000

/-- The character of a surrogate pair. -/
def joinHalves (high low : Nat) : Char :=
  Char.ofNat (0x10000 + (high - 0xd800) * 0x400 + (low - 0xdc00))

/-- The character that a letter behind a backslash stands for. -/
def escaped? : Char → Option Char
  | '"' => some '"'
  | '\\' => some '\\'
  | '/' => some '/'
  | 'b' => some '\x08'
  | 'f' => some '\x0c'
  | 'n' => some '\n'
  | 'r' => some '\r'
  | 't' => some '\t'
  | _ => none

/-- What a string is spelled with: characters, and escaped code units that may
be halves of one. -/
inductive Piece where
  | char (value : Char)
  | unit (value : Nat)
deriving DecidableEq, Repr

/-- The pieces of the string whose opening quote is just behind, and the text
after its closing quote; `none` where it is not closed, holds a control
character or an escape that does not exist. -/
def pieces? : List Char → Option (List Piece × List Char)
  | [] => none
  | '"' :: rest => some ([], rest)
  | '\\' :: 'u' :: a :: b :: c :: d :: rest => do
    let unit ← hexUnit? a b c d
    let (pieces, rest) ← pieces? rest
    return (.unit unit :: pieces, rest)
  | '\\' :: c :: rest => do
    let c ← escaped? c
    let (pieces, rest) ← pieces? rest
    return (.char c :: pieces, rest)
  | c :: rest =>
    if c.toNat < 32 then none
    else do
      let (pieces, rest) ← pieces? rest
      return (.char c :: pieces, rest)

/-- The characters of pieces; `none` where half of a surrogate pair stands
alone. -/
def join? : List Piece → Option (List Char)
  | [] => some []
  | .char c :: rest => (join? rest).map (c :: ·)
  -- A first half takes the next unit with it, or the string has no value.
  | .unit high :: .unit low :: rest =>
    if isHighHalf high then
      if isLowHalf low then (join? rest).map (joinHalves high low :: ·) else none
    else if isLowHalf high then none
    else (join? (.unit low :: rest)).map (Char.ofNat high :: ·)
  | .unit unit :: rest =>
    if isHighHalf unit || isLowHalf unit then none
    else (join? rest).map (Char.ofNat unit :: ·)

/-- The string whose opening quote is just behind, `none` inside for one
without a value, and the text after its closing quote. -/
def string? (text : List Char) : Option (Option (List Char) × List Char) :=
  (pieces? text).map fun (pieces, rest) => (join? pieces, rest)

/-- The digits at the start of a text, and what follows them. -/
def digits (text : List Char) : List Char × List Char :=
  (text.takeWhile Char.isDigit, text.dropWhile Char.isDigit)

/-- The values of digits. -/
def digitValues (digits : List Char) : List Nat :=
  digits.map fun c => c.toNat - '0'.toNat

/-- The number that digits write. -/
def natural (digits : List Char) : Nat :=
  (digitValues digits).foldl (fun n digit => 10 * n + digit) 0

/-- The digits behind a decimal point; no digits where there is no point, and
`none` where no digit follows it. -/
def fraction? : List Char → Option (Option (List Char) × List Char)
  | '.' :: rest =>
    let (places, rest) := digits rest
    if places.isEmpty then none else some (some places, rest)
  | text => some (none, text)

/-- The sign of an exponent, and what follows it. -/
def exponentSign : List Char → Bool × List Char
  | '-' :: rest => (true, rest)
  | '+' :: rest => (false, rest)
  | text => (false, text)

/-- The exponent; `none` inside where there is none, and outside where its
digits are missing. -/
def exponent? : List Char → Option (Option Int × List Char)
  | c :: rest =>
    if c == 'e' || c == 'E' then
      let (negative, rest) := exponentSign rest
      let (places, rest) := digits rest
      if places.isEmpty then none
      else
        let size : Int := natural places
        some (some (if negative then -size else size), rest)
    else some (none, c :: rest)
  | [] => some (none, [])

/-- The number behind an optional minus sign; `none` where it is not spelled
right. -/
def number? (negative : Bool) (text : List Char) :
    Option (Document × List Char) := do
  let (whole, rest) := digits text
  if whole.isEmpty || (whole.head? == some '0' && 1 < whole.length) then none
  else
    let (places, rest) ← fraction? rest
    let (exponent, rest) ← exponent? rest
    let numeral : Numeral :=
      { negative := negative
        whole := digitValues whole
        places := places.map digitValues
        exponent := exponent }
    return (numeral.number?.elim .unreadable .number, rest)

/-- A document and what is left of the text, if it went right so far. -/
abbrev Step := Document × Option (List Char)

/-- The step of a scan that may have gone wrong. -/
def Step.ofOption : Option (Document × List Char) → Step
  | some (document, rest) => (document, some rest)
  | none => (.broken, none)

/-- A word that stands for a value. -/
def word (name : String) (document : Document) (text : List Char) : Step :=
  if name.toList.isPrefixOf text then
    (document, some (text.drop name.length))
  else (.broken, none)

/-- Marks an array or object that lies below the last level. -/
def bounded (levels : Nat) (document : Document) : Document :=
  if levels = 0 then .tooDeep document else document

/-- The string behind an opening quote as a document. -/
def stringDocument (text : List Char) : Option (Document × List Char) :=
  (string? text).map fun scanned =>
    (scanned.1.elim .unreadable fun chars => .str (String.ofList chars), scanned.2)

/-- The fields behind a key: one more, or the end of what can be read if the
key has no value. -/
def consField (key : Option (List Char)) (value : Document)
    (fields : List (String × Document)) (closing : Closing) :
    List (String × Document) × Closing :=
  match key with
  | some chars => ((String.ofList chars, value) :: fields, closing)
  | none =>
    ([], .stuck (value.isSkippable && Document.skippableFields fields &&
      closing.isSkippable))

mutual

/-- The document at the start of a text, with so many levels left for arrays
and objects. -/
def value : Nat → (levels : Nat) → List Char → Step
  | 0, _, _ => (.broken, none)
  | fuel + 1, levels, text =>
    match skipBlanks text with
    | '\x7b' :: rest =>
      let (fields, closing, rest) := object fuel (levels - 1) rest
      (bounded levels (.obj fields closing), rest)
    | '[' :: rest =>
      let (items, closing, rest) := array fuel (levels - 1) rest
      (bounded levels (.arr items closing), rest)
    | '"' :: rest => .ofOption (stringDocument rest)
    | '-' :: rest => .ofOption (number? true rest)
    | 'n' :: rest => word "null" .null ('n' :: rest)
    | 't' :: rest => word "true" (.bool true) ('t' :: rest)
    | 'f' :: rest => word "false" (.bool false) ('f' :: rest)
    | rest => .ofOption (number? false rest)

/-- The rest of an array behind its opening bracket. -/
def array : Nat → (levels : Nat) → List Char →
    List Document × Closing × Option (List Char)
  | 0, _, _ => ([], .stuck false, none)
  | fuel + 1, levels, text =>
    match skipBlanks text with
    | ']' :: rest => ([], .closed, some rest)
    | rest => items fuel levels rest

/-- The items from the next one on. -/
def items : Nat → (levels : Nat) → List Char →
    List Document × Closing × Option (List Char)
  | 0, _, _ => ([], .stuck false, none)
  | fuel + 1, levels, text =>
    match value fuel levels text with
    | (item, none) => ([item], .stuck false, none)
    | (item, some rest) =>
      match skipBlanks rest with
      | ']' :: rest => ([item], .closed, some rest)
      | ',' :: rest =>
        let (more, closing, rest) := items fuel levels rest
        (item :: more, closing, rest)
      | _ => ([item], .stuck false, none)

/-- The rest of an object behind its opening brace. -/
def object : Nat → (levels : Nat) → List Char →
    List (String × Document) × Closing × Option (List Char)
  | 0, _, _ => ([], .stuck false, none)
  | fuel + 1, levels, text =>
    match skipBlanks text with
    | '\x7d' :: rest => ([], .closed, some rest)
    | rest => fields fuel levels rest

/-- The fields from the next one on. -/
def fields : Nat → (levels : Nat) → List Char →
    List (String × Document) × Closing × Option (List Char)
  | 0, _, _ => ([], .stuck false, none)
  | fuel + 1, levels, text =>
    match skipBlanks text with
    | '"' :: rest =>
      match string? rest with
      | none => ([], .stuck false, none)
      | some (key, rest) =>
        match skipBlanks rest with
        | ':' :: rest =>
          match value fuel levels rest with
          | (field, none) =>
            let (all, closing) := consField key field [] (.stuck false)
            (all, closing, none)
          | (field, some rest) =>
            match skipBlanks rest with
            | '\x7d' :: rest =>
              let (all, closing) := consField key field [] .closed
              (all, closing, some rest)
            | ',' :: rest =>
              let (more, closing, rest) := fields fuel levels rest
              let (all, closing) := consField key field more closing
              (all, closing, rest)
            | _ =>
              let (all, closing) := consField key field [] (.stuck false)
              (all, closing, none)
        | _ =>
          let (all, closing) := consField key .broken [] (.stuck false)
          (all, closing, none)
    | _ => ([], .stuck false, none)

end

end Scanner

/-- Arrays and objects are read up to this many inside one another. -/
def Document.maxDepth : Nat := 127

/-- The document of a text, and whether nothing but blanks follows it. -/
def Document.ofText (text : String) : Document × Bool :=
  let chars := text.toList
  let (document, rest) := Scanner.value (3 * chars.length + 3) maxDepth chars
  (document, rest.elim false fun rest => (Scanner.skipBlanks rest).isEmpty)

namespace Json

/-- The JSON value that a text spells, if it spells one. -/
def ofText? (text : String) : Option Json :=
  match Document.ofText text with
  | (document, true) => document.value?
  | (_, false) => none

/-! Halves of a pair are joined and never stand alone; minus zero is a double;
nothing follows the value. -/

example : (ofText? "\"\\ud83d\\ude00\"").map raw = some (.str "😀") := by
  decide +kernel
example : ofText? "\"\\ude00\"" = none := by decide +kernel
example : (ofText? " [-0] ").map raw =
    some (.arr [.number (.double (.zero true))]) := by decide +kernel
example : ofText? "[] 1" = none := by decide +kernel

end Json

end TaskMachine
