import TaskMachine.Json.Value

/-!
# Printing JSON

Two layouts of the same text: `Json.compact` on one line without blanks, and
`Json.pretty` with one item or field a line, indented by two spaces a level.
Empty arrays and objects are closed at once in both.
-/

namespace TaskMachine

namespace Json

/-- The text of a character inside quotes.  The quote, the backslash and the
control characters are escaped, everything else stands for itself. -/
def escape (c : Char) : String :=
  match c with
  | '"' => "\\\""
  | '\\' => "\\\\"
  | '\n' => "\\n"
  | '\r' => "\\r"
  | '\t' => "\\t"
  | _ =>
    if c.toNat = 8 then "\\b"
    else if c.toNat = 12 then "\\f"
    else if c.toNat < 32 then
      "\\u00" ++ String.ofList [(c.toNat / 16).digitChar, (c.toNat % 16).digitChar]
    else c.toString

/-- A string in quotes. -/
def quote (text : String) : String :=
  "\"" ++ String.join (text.toList.map escape) ++ "\""

example : quote "a\"\n\x01é" = "\"a\\\"\\n\\u0001é\"" := by decide +kernel

/-- The blanks at the start of a line. -/
def indent (level : Nat) : String := String.ofList (List.replicate (2 * level) ' ')

namespace Raw

mutual

/-- The text on one line. -/
def compact : Raw → String
  | .null => "null"
  | .bool value => if value then "true" else "false"
  | .number value => value.text
  | .str value => quote value
  | .arr items => "[" ++ ",".intercalate (compactItems items) ++ "]"
  | .obj fields => "\x7b" ++ ",".intercalate (compactFields fields) ++ "\x7d"

/-- The texts of items. -/
def compactItems : List Raw → List String
  | [] => []
  | item :: rest => item.compact :: compactItems rest

/-- The texts of fields. -/
def compactFields : List (String × Raw) → List String
  | [] => []
  | (key, value) :: rest =>
    (quote key ++ ":" ++ value.compact) :: compactFields rest

end

/-- Lines between two brackets, each indented to a level. -/
def block (opening closing : String) (level : Nat) (lines : List String) : String :=
  if lines.isEmpty then opening ++ closing
  else
    opening ++ "\n" ++
      ",\n".intercalate (lines.map (indent (level + 1) ++ ·)) ++
      "\n" ++ indent level ++ closing

mutual

/-- The text over several lines, for a value that starts at a level. -/
def pretty (level : Nat) : Raw → String
  | .arr items => block "[" "]" level (prettyItems (level + 1) items)
  | .obj fields => block "\x7b" "\x7d" level (prettyFields (level + 1) fields)
  | .null => "null"
  | .bool value => if value then "true" else "false"
  | .number value => value.text
  | .str value => quote value

/-- The texts of items that start at a level. -/
def prettyItems (level : Nat) : List Raw → List String
  | [] => []
  | item :: rest => item.pretty level :: prettyItems level rest

/-- The texts of fields that start at a level. -/
def prettyFields (level : Nat) : List (String × Raw) → List String
  | [] => []
  | (key, value) :: rest =>
    (quote key ++ ": " ++ value.pretty level) :: prettyFields level rest

end

end Raw

/-- The text of a value on one line, without blanks. -/
def compact (value : Json) : String := value.raw.compact

/-- The text of a value over several lines. -/
def pretty (value : Json) : String := value.raw.pretty 0

end Json

end TaskMachine
