/-!
# Command line arguments

`Arguments.parse` reads the words of a command line.  Words are taken in order,
and the first one that asks for help or the version, or that fits nowhere, ends
the reading; what is missing shows at the end.

Options of the program stand before or after the name of the command, and the
one after it wins.
-/

namespace TaskMachine

/-- What the program is asked to do. -/
inductive Command where
  /-- To compile state machines, all of them if none is named, and to write
  them into a directory or print them. -/
  | compile (manifest : String) (resources : List String) (outDir : Option String)
  /-- To check every state machine. -/
  | check (manifest : String)
deriving DecidableEq, Repr

/-- What a command line says. -/
inductive Arguments where
  /-- It does not say anything that makes sense. -/
  | misuse
  | help
  | version
  | run (handlerPrefix : Option String) (command : Command)
deriving DecidableEq, Repr

namespace Arguments

/-- The words read so far of a program or command. -/
structure Found where
  handlerPrefix : Option String := none
  logJson : Bool := false
  resources : List String := []
  outDir : Option String := none
  manifest : Option String := none
deriving DecidableEq, Repr

/-- The commands that options can stand behind. -/
inductive Level where
  | compile | check
deriving DecidableEq, Repr

/-- What an option is followed by. -/
inductive Takes where
  | nothing
  | value
deriving DecidableEq, Repr

/-- The options of the program. -/
def sharedOptions : List (String × Takes) :=
  [("handler-prefix", .value), ("log-json", .nothing)]

/-- The options that can stand behind a command, or before any. -/
def options : Option Level → List (String × Takes)
  | none | some .check => sharedOptions
  | some .compile => sharedOptions ++ [("resource", .value), ("out-dir", .value)]

namespace Found

/-- The words with a switch; it can be set once. -/
def setSwitch (found : Found) : Option Found :=
  if found.logJson then none else some { found with logJson := true }

/-- The words with the value of an option.  Only resources can be given more
than once, and the name of a directory is not empty. -/
def setValue (found : Found) (name value : String) : Option Found :=
  if name = "resource" then
    some { found with resources := found.resources ++ [value] }
  else if name = "out-dir" then
    if found.outDir.isSome || value.isEmpty then none
    else some { found with outDir := some value }
  else if found.handlerPrefix.isSome then none
  else some { found with handlerPrefix := some value }

/-- The words with the name of the manifest, which is not empty. -/
def setManifest (found : Found) (path : String) : Option Found :=
  if found.manifest.isSome || path.isEmpty then none
  else some { found with manifest := some path }

/-- The command that a level was given. -/
def command? (found : Found) : Level → Option Command
  | .compile => found.manifest.map fun path =>
    .compile path found.resources found.outDir
  | .check => found.manifest.map .check

end Found

/-- Whether a word is an option and not a value; a dash alone is a value. -/
def isOption (word : String) : Bool :=
  match word.toList with
  | '-' :: _ :: _ => true
  | _ => false

/-- The name behind two dashes, and the value behind an equals sign. -/
def splitOption (chars : List Char) : String × Option String :=
  let name := chars.takeWhile (· != '=')
  match chars.dropWhile (· != '=') with
  | _ :: value => (String.ofList name, some (String.ofList value))
  | [] => (String.ofList name, none)

/-- The names of the manifest behind two dashes alone. -/
def positionals (found : Found) : List String → Option Found
  | [] => some found
  | word :: rest => (found.setManifest word).bind fun found => positionals found rest

/-- The level a word names. -/
def level? (word : String) : Option Level :=
  if word = "compile" then some .compile
  else if word = "check" then some .check
  else none

/-- What letters behind a single dash ask for. -/
def letters (level : Option Level) : List Char → Arguments
  | 'h' :: _ => .help
  | 'V' :: _ => if level.isNone then .version else .misuse
  | _ => .misuse

/-- Whether the words behind `help` name nothing but a command. -/
def isHelpTopic : List String → Bool
  | [] => true
  | [word] => (level? word).isSome || word = "help"
  | _ => false

/-- What is known when the words are used up: the words of the program, and
those of a command if there is one. -/
def finish (outer : Found) (level : Option Level) (found : Found) : Arguments :=
  match level with
  | none => .misuse
  | some level =>
    match found.command? level with
    | none => .misuse
    | some command =>
      .run (found.handlerPrefix.or outer.handlerPrefix) command

/-- Reads words.  `outer` are the words of the program once a command has been
named, `found` those of the program or command at hand. -/
def scan (outer : Found) (level : Option Level) (found : Found) :
    List String → Arguments
  | [] => finish outer level found
  | word :: rest =>
    match word.toList with
    -- Behind two dashes alone there are no options.
    | ['-', '-'] =>
      match level with
      | none => .misuse
      | some _ =>
        (positionals found rest).elim .misuse fun found =>
          finish outer level found
    | '-' :: '-' :: chars =>
      let (name, value) := splitOption chars
      if name = "help" then
        if value.isSome then .misuse else .help
      else if name = "version" && level.isNone then
        if value.isSome then .misuse else .version
      else
        match (options level).lookup name with
        | none => .misuse
        | some .nothing =>
          if value.isSome then .misuse
          else
            match found.setSwitch with
            | none => .misuse
            | some found => scan outer level found rest
        | some .value =>
          match value with
          | some value =>
            match found.setValue name value with
            | none => .misuse
            | some found => scan outer level found rest
          | none =>
            match rest with
            | [] => .misuse
            | value :: rest =>
              if isOption value then .misuse
              else
                match found.setValue name value with
                | none => .misuse
                | some found => scan outer level found rest
    | '-' :: char :: chars => letters level (char :: chars)
    -- A word: the command before there is one, the manifest after that.
    | _ =>
      match level with
      | none =>
        if word = "help" then
          if isHelpTopic rest then .help else .misuse
        else
          match level? word with
          | none => .misuse
          | some level => scan found (some level) {} rest
      | some _ =>
        match found.setManifest word with
        | none => .misuse
        | some found => scan outer level found rest

/-- Reads the words of a command line. -/
def parse (words : List String) : Arguments := scan {} none {} words

/-! The option behind the command wins; a command has its own options. -/

example : parse ["--handler-prefix", "a", "check", "m", "--handler-prefix=b"] =
    .run (some "b") (.check "m") := by decide +kernel
example : parse ["check", "m", "--resource", "S"] = .misuse := by decide +kernel
example : parse ["compile", "--", "--help"] =
    .run none (.compile "--help" [] none) := by decide +kernel

end Arguments

end TaskMachine
