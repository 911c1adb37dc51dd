import TaskMachine.SortedMap

/-!
# What a command needs from outside

`Surroundings m` are the operations on files and variables that commands use, in
some monad.  `Variables.ofLines` reads variables from the lines in which a
process is given them, and `Variables.ofBlock?` from the bytes of these lines,
which need not be Unicode.
-/

namespace TaskMachine

/-- The operations on files and variables that commands use.  A fault is the
system's text for it. -/
structure Surroundings (m : Type → Type) where
  readText : (path : String) → m (Except String String)
  writeText : (path text : String) → m (Except String Unit)
  /-- Makes a directory and those it lies in, as far as they are not there. -/
  makeDirectories : (path : String) → m (Except String Unit)
  /-- All variables; none if a name or a value among them is not Unicode. -/
  environment : m (Option (SortedMap String))

namespace Variables

/-- The name and the value in a line.  A name is never empty, so an equals sign
at the start of the line belongs to it, and the next one ends it; a line where
none ends it has no variable. -/
def ofLine? (line : String) : Option (String × String) :=
  match line.toList with
  | [] => none
  | first :: rest =>
    match rest.dropWhile (· != '=') with
    | [] => none
    | _ :: value =>
      some (String.ofList (first :: rest.takeWhile (· != '=')), String.ofList value)

/-- The variables of some lines.  Of two with one name the later one counts. -/
def ofLines (lines : List String) : SortedMap String :=
  .ofList (lines.filterMap ofLine?)

/-- Whether the bytes of a line have a variable, as `ofLine?` says of a text. -/
def isLine (line : List UInt8) : Bool := (line.drop 1).contains '='.toUInt8

/-- The variables in the bytes of lines, each of which ends in a zero.  There are
none if a line with a variable is not Unicode; other lines do not matter. -/
def ofBlock? (block : List UInt8) : Option (SortedMap String) :=
  let lines := (block.splitOn 0).filter isLine
  (lines.mapM fun line => String.fromUTF8? line.toByteArray).map ofLines

example : ofLine? "A=B=c" = some ("A", "B=c") := by decide +kernel
example : ofLine? "=A=c" = some ("=A", "c") := by decide +kernel
example : ofLine? "=c" = none := by decide +kernel
example : ofBlock? [255, 0, 65, 61, 66, 0] = some (.ofList [("A", "B")]) := by decide +kernel
example : ofBlock? [65, 61, 66, 0, 67, 61, 255, 0] = none := by decide +kernel

end Variables

end TaskMachine
