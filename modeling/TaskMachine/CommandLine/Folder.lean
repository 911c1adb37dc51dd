import TaskMachine.CommandLine.Surroundings

/-!
# A folder as a value

A `Folder` is a directory with everything below it, with operations on files that
answer like those of the system, `Folder.surroundings`.

A path is taken apart into a `Route` first: the names it goes through and the one
it ends at, if it ends at one.  A `Spot` is a directory together with the way
down to it, so that a changed entry can be put back into the whole.

A folder has no links, permissions or limits on space.  Its paths start at the
folder itself, also those that begin with a slash, and do not leave it.
-/

namespace TaskMachine

/-- Why an operation on files fails. -/
inductive FileFault where
  | notFound
  | exists
  | notADirectory
  | isADirectory
  | nameTooLong
  /-- A name with a zero character in it. -/
  | zeroInName
deriving DecidableEq, Repr

namespace FileFault

/-- The system's text for a fault. -/
def message : FileFault → String
  | .notFound => "No such file or directory (os error 2)"
  | .exists => "File exists (os error 17)"
  | .notADirectory => "Not a directory (os error 20)"
  | .isADirectory => "Is a directory (os error 21)"
  | .nameTooLong => "File name too long (os error 36)"
  | .zeroInName => "file name contained an unexpected NUL byte"

end FileFault

/-- What stands under a name. -/
inductive Entry where
  | file (text : String)
  | directory (entries : List (String × Entry))
deriving Inhabited

namespace Entry

/-- Puts an entry under a name, in place of the one that is there. -/
def put (name : String) (entry : Entry) :
    List (String × Entry) → List (String × Entry)
  | [] => [(name, entry)]
  | first :: rest =>
    if name == first.1 then (name, entry) :: rest else first :: put name entry rest

/-- What was put under a name is found there, and under every other name what
was there before. -/
theorem lookup_put (name other : String) (entry : Entry) :
    (entries : List (String × Entry)) →
      (put name entry entries).lookup other =
        if other = name then some entry else entries.lookup other
  | [] => by
    by_cases h : other = name
    · simp [put, h]
    · simp [put, List.lookup_cons, h, beq_false_of_ne h]
  | (key, old) :: rest => by
    have ih := lookup_put name other entry rest
    by_cases same : name = key
    · subst same
      by_cases h : other = name
      · simp [put, h]
      · simp [put, List.lookup_cons, h, beq_false_of_ne h]
    · by_cases h : other = key
      · subst h
        simp [put, same, Ne.symm same]
      · simp [put, List.lookup_cons, same, beq_false_of_ne h, ih]

mutual

/-- The paths of an entry and of everything below it, with the texts of files. -/
def paths (path : String) : Entry → List (String × Option String)
  | .file text => [(path, some text)]
  | .directory entries => (path, none) :: pathsBelow (path ++ "/") entries

/-- The paths of entries that stand behind a start. -/
def pathsBelow (start : String) : List (String × Entry) → List (String × Option String)
  | [] => []
  | (name, entry) :: rest => entry.paths (start ++ name) ++ pathsBelow start rest

end

end Entry

/-- A directory on the way down from a folder: its entries, and the directories
above it from the nearest on, each with the name that leads from it. -/
structure Spot where
  entries : List (String × Entry)
  above : List (String × List (String × Entry)) := []
deriving Inhabited

namespace Spot

/-- A name has at most this many bytes. -/
def longestName : Nat := 255

/-- What stands under a name. -/
def find? (spot : Spot) (name : String) : Except FileFault (Option Entry) :=
  if longestName < name.utf8ByteSize then .error .nameTooLong
  else .ok (spot.entries.lookup name)

/-- The directory above; the folder itself is its own. -/
def up (spot : Spot) : Spot :=
  match spot.above with
  | [] => spot
  | (_, entries) :: above => ⟨entries, above⟩

/-- The directory under a name. -/
def enter (spot : Spot) (name : String) : Except FileFault Spot :=
  if name = ".." then .ok spot.up
  else do
    match ← spot.find? name with
    | some (.directory entries) => return ⟨entries, (name, spot.entries) :: spot.above⟩
    | some (.file _) => throw .notADirectory
    | none => throw .notFound

/-- The directory at the end of some names. -/
def walk (spot : Spot) (names : List String) : Except FileFault Spot :=
  names.foldlM enter spot

/-- The entries of the whole folder with an entry in this place. -/
def put (spot : Spot) (name : String) (entry : Entry) : List (String × Entry) :=
  spot.above.foldl (fun below (name, entries) => Entry.put name (.directory below) entries)
    (Entry.put name entry spot.entries)

end Spot

/-- Where a path leads. -/
structure Route where
  /-- The names of the directories on the way. -/
  through : List String
  /-- The name it ends at; none if it ends at the directory it came to. -/
  last : Option String
  /-- Whether a slash follows the last name. -/
  slash : Bool := false
deriving DecidableEq, Repr

namespace Route

/-- The parts of a text between its slashes. -/
def parts : List Char → List (List Char)
  | [] => [[]]
  | c :: rest =>
    if c == '/' then [] :: parts rest
    else
      match parts rest with
      | part :: others => (c :: part) :: others
      | [] => [[c]]

/-- The route along names.  It ends at the last one, unless that leads up. -/
def ofNames (names : List String) : Route :=
  match names.getLast? with
  | none | some ".." => ⟨names, none, false⟩
  | some name => ⟨names.dropLast, some name, false⟩

/-- The route of a path.  Empty parts and dots stay in place, but a path that
ends in a dot ends at a directory. -/
def ofPath (path : String) : Route :=
  let parts := (parts path.toList).map String.ofList
  let filled := parts.filter (· != "")
  let names := filled.filter (· != ".")
  if filled.getLast? = some "." then ⟨names, none, false⟩
  else { ofNames names with slash := parts.getLast? = some "" }

/-- All names of a route. -/
def names (route : Route) : List String := route.through ++ route.last.toList

end Route

/-- A directory with everything below it. -/
structure Folder where
  entries : List (String × Entry) := []
deriving Inhabited

namespace Folder

/-- A path has fewer bytes than this. -/
def pathBound : Nat := 4096

/-- The route of a path that the system takes. -/
def route (path : String) : Except FileFault Route :=
  if path.isEmpty then .error .notFound
  else if path.toList.contains '\x00' then .error .zeroInName
  else if pathBound ≤ path.utf8ByteSize then .error .nameTooLong
  else .ok (Route.ofPath path)

/-- The folder itself as a place in it. -/
def top (folder : Folder) : Spot := { entries := folder.entries }

/-- The text of a file. -/
def readText (folder : Folder) (path : String) : Except FileFault String := do
  let route ← route path
  let spot ← folder.top.walk route.through
  match route.last with
  | none => throw .isADirectory
  | some name =>
    match ← spot.find? name with
    | none => throw .notFound
    | some (.directory _) => throw .isADirectory
    | some (.file text) => if route.slash then throw .notADirectory else return text

/-- The folder with a file. -/
def writeText (folder : Folder) (path text : String) : Except FileFault Folder := do
  let route ← route path
  let spot ← folder.top.walk route.through
  match route.last with
  | none => throw .isADirectory
  | some name =>
    match ← spot.find? name with
    | some (.directory _) => throw .isADirectory
    | some (.file _) | none =>
      if route.slash then throw .isADirectory
      else return ⟨spot.put name (.file text)⟩

/-- The folder with a new directory.  A route that ends at no name ends at a
directory that is there already. -/
def makeDirectory (folder : Folder) (route : Route) : Except FileFault Folder := do
  let spot ← folder.top.walk route.through
  match route.last with
  | none => throw .exists
  | some name =>
    match ← spot.find? name with
    | some _ => throw .exists
    | none => return ⟨spot.put name (.directory [])⟩

/-- Whether a route leads to a directory. -/
def isDirectory (folder : Folder) (route : Route) : Bool :=
  match folder.top.walk route.names with
  | .ok _ => true
  | .error _ => false

/-- The fault of making a directory, none if the directory is there anyway. -/
def faultUnlessThere (folder : Folder) (route : Route) (fault : FileFault) :
    Option FileFault :=
  if folder.isDirectory route then none else some fault

/-- The folder with a directory, after those above it were made if they are
missing, and the fault that ended this.  What was made before a fault stays. -/
def makeAfter (above : Folder → Option FileFault × Folder) (route : Route)
    (folder : Folder) : Option FileFault × Folder :=
  match folder.makeDirectory route with
  | .ok folder => (none, folder)
  | .error .notFound =>
    match above folder with
    | (some fault, folder) => (some fault, folder)
    | (none, folder) =>
      match folder.makeDirectory route with
      | .ok folder => (none, folder)
      | .error fault => (folder.faultUnlessThere route fault, folder)
  | .error fault => (folder.faultUnlessThere route fault, folder)

/-- The folder with a directory and those above it, given the names from the
last to the first. -/
def makeAll : List String → Folder → Option FileFault × Folder
  | [], folder => (none, folder)
  | name :: above, folder =>
    makeAfter (makeAll above) (.ofNames (name :: above).reverse) folder

/-- The folder with the directory of a path and those above it. -/
def makeDirectories (folder : Folder) (path : String) :
    Option FileFault × Folder :=
  if path.isEmpty then (none, folder)
  else
    match route path with
    | .error fault => (some fault, folder)
    | .ok route => makeAfter (makeAll (route.names.reverse.drop 1)) route folder

/-- The paths of everything in the folder, with the texts of files. -/
def paths (folder : Folder) : List (String × Option String) :=
  Entry.pathsBelow "" folder.entries

/-- The operations of commands on a folder, with some variables. -/
def surroundings (environment : Option (SortedMap String)) : Surroundings (StateM Folder) where
  readText path := do
    return ((← get).readText path).mapError FileFault.message
  writeText path text := do
    match (← get).writeText path text with
    | .ok folder =>
      set folder
      return .ok ()
    | .error fault => return .error fault.message
  makeDirectories path := do
    let (fault, folder) := (← get).makeDirectories path
    set folder
    return fault.elim (.ok ()) fun fault => .error fault.message
  environment := return environment

/-- A folder with files, and the directories they lie in. -/
def ofFiles (files : List (String × String)) : Folder :=
  files.foldl (fun folder (path, text) =>
    let (_, folder) := makeAll (Route.ofPath path).through.reverse folder
    (folder.writeText path text).toOption.getD folder) {}

/-! A dot at the end asks for a directory that is there; what was made on the way
to it stays. -/

/-- The fault of making a directory beside a file `f`, and the paths then. -/
private def beside (path : String) : Option FileFault × List String :=
  let (fault, folder) := (ofFiles [("f", "")]).makeDirectories path
  (fault, folder.paths.map Prod.fst)

example : beside "a/b" = (none, ["f", "a", "a/b"]) := by decide +kernel
example : beside "a/b/." = (some .notFound, ["f", "a"]) := by decide +kernel
example : beside "a/../a/." = (none, ["f", "a"]) := by decide +kernel
example : beside "f/" = (some .exists, ["f"]) := by decide +kernel
example : beside "f/." = (some .notADirectory, ["f"]) := by decide +kernel

end Folder

end TaskMachine
