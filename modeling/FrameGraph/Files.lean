/-!
# Files

A tree of text files and directories, and the operations that a compile needs of it: reading,
writing, and making directories. Paths are resolved one name at a time, and every failure has the
wording of the operating system.
-/

namespace FrameGraph

inductive FileError
  | notFound
  | alreadyExists
  | notDirectory
  | isDirectory
  | nameTooLong
  | nulInPath
  deriving DecidableEq, Repr

namespace FileError

def message : FileError → String
  | notFound => "No such file or directory (os error 2)"
  | alreadyExists => "File exists (os error 17)"
  | notDirectory => "Not a directory (os error 20)"
  | isDirectory => "Is a directory (os error 21)"
  | nameTooLong => "File name too long (os error 36)"
  | nulInPath => "file name contained an unexpected NUL byte"

end FileError

/-- The names from the root of a tree down to an entry. -/
abbrev FilePath := List String

/-- A tree of files: entries by path, with the text of a file or nothing for a directory, and the
directory that relative paths start from. The root is always a directory. -/
structure Files where
  entries : List (FilePath × Option String) := []
  here : FilePath := []
  deriving DecidableEq, Repr, Inhabited

/-- What stands at a path. -/
inductive Place
  | directory (path : FilePath)
  | file (path : FilePath) (text : String)
  /-- Nothing yet, in a directory that exists. -/
  | vacant (path : FilePath)

namespace Files

/-- Follows names from a directory. -/
def walk (t : Files) (directory : FilePath) : List String → Except FileError Place
  | [] => .ok (.directory directory)
  | "." :: names => walk t directory names
  | ".." :: names => walk t directory.dropLast names
  | name :: names =>
    let path := directory ++ [name]
    if 255 < name.utf8ByteSize then .error .nameTooLong
    else
      match t.entries.lookup path with
      | some none => walk t path names
      | some (some text) => if names.isEmpty then .ok (.file path text) else .error .notDirectory
      | none => if names.isEmpty then .ok (.vacant path) else .error .notFound

/-- The names in the text of a path. -/
def names (path : String) : List String := (path.splitOn "/").filter (!·.isEmpty)

def endsInSlash (path : String) : Bool := path.endsWith "/"

/-- Follows some of the names of a path. The empty path leads nowhere. -/
def follow (t : Files) (path : String) (names : List String) : Except FileError Place :=
  if path.isEmpty then .error .notFound
  else if path.contains '\x00' then .error .nulInPath
  else if 4096 ≤ path.utf8ByteSize then .error .nameTooLong
  else walk t (if path.startsWith "/" then [] else t.here) names

/-- Where a path leads. -/
def locate (t : Files) (path : String) : Except FileError Place := t.follow path (names path)

def isDirectory (t : Files) (path : String) : Bool :=
  match t.locate path with
  | .ok (.directory _) => true
  | _ => false

/-- The text of a file. -/
def read (t : Files) (path : String) : Except FileError String :=
  match t.locate path with
  | .error err => .error err
  | .ok (.directory _) => .error .isDirectory
  | .ok (.vacant _) => .error .notFound
  | .ok (.file _ text) => if endsInSlash path then .error .notDirectory else .ok text

/-- Replaces or adds an entry. -/
def put (path : FilePath) (entry : Option String) :
    List (FilePath × Option String) → List (FilePath × Option String)
  | [] => [(path, entry)]
  | (p, e) :: rest => if p = path then (path, entry) :: rest else (p, e) :: put path entry rest

@[simp] theorem lookup_put (path other : FilePath) (entry : Option String)
    (entries : List (FilePath × Option String)) :
    (put path entry entries).lookup other =
      if other = path then some entry else entries.lookup other := by
  induction entries with
  | nil =>
    split
    · next h => rw [h, put, List.lookup_cons_self]
    · next h => rw [put, List.lookup_cons, beq_false_of_ne h]
  | cons e rest ih =>
    obtain ⟨p, old⟩ := e
    simp only [put]
    by_cases hp : p = path
    · subst hp
      simp only [if_true]
      split
      · next h => rw [h, List.lookup_cons_self]
      · next h => simp only [List.lookup_cons, beq_false_of_ne h]
    · simp only [hp, if_false]
      by_cases h : other = p
      · subst h
        simp [hp]
      · simp only [List.lookup_cons, beq_false_of_ne h, ih]

/-- Whether a path ends in a name with a slash after it, so that only a directory can be meant. -/
def namesDirectory (path : String) : Bool :=
  endsInSlash path && match (names path).getLast? with
    | none => false
    | some name => name != "." && name != ".."

/-- Writes a file, in the place of what it held. A path that names a directory is refused before
its last name is looked up. -/
def write (t : Files) (path text : String) : Except FileError Files :=
  if namesDirectory path then
    match t.follow path (names path).dropLast with
    | .error err => .error err
    | .ok (.directory _) => .error .isDirectory
    | .ok (.vacant _) => .error .notFound
    | .ok (.file ..) => .error .notDirectory
  else
    match t.locate path with
    | .error err => .error err
    | .ok (.directory _) => .error .isDirectory
    | .ok (.vacant p) | .ok (.file p _) => .ok { t with entries := put p (some text) t.entries }

/-- Makes one directory. -/
def makeDirectory (t : Files) (path : String) : Except FileError Files :=
  match t.locate path with
  | .error err => .error err
  | .ok (.vacant p) => .ok { t with entries := put p none t.entries }
  | .ok _ => .error .alreadyExists

/-- Makes the directory at the end of `down` (names from the last to the first) and those above it
that are missing, and gives the tree as far as it comes. What `ending` adds to the path stands
behind the last name only. -/
def makeAll (t : Files) (slash ending : String) :
    (down : List String) → Files × Except FileError Unit
  | [] => (t, .ok ())
  | name :: up =>
    let path := slash ++ "/".intercalate (name :: up).reverse ++ ending
    match t.makeDirectory path with
    | .ok t => (t, .ok ())
    | .error .notFound =>
      match makeAll t slash "" up with
      | (t, .error err) => (t, .error err)
      | (t, .ok ()) =>
        match t.makeDirectory path with
        | .ok t => (t, .ok ())
        | .error err => (t, if t.isDirectory path then .ok () else .error err)
    | .error err => (t, if t.isDirectory path then .ok () else .error err)

/-- Makes a directory and those above it. The empty path needs none, and one that ends in a dot
cannot be made: it is there or it is not. -/
def makeDirectories (t : Files) (path : String) : Files × Except FileError Unit :=
  if path.contains '\x00' then (t, .error .nulInPath)
  else
    let all := names path
    let slash := if path.startsWith "/" then "/" else ""
    let ending := if all.getLast? = some "." then "/." else ""
    t.makeAll slash ending (all.filter (· != ".")).reverse

/-- The path of a name in a directory. -/
def join (directory name : String) : String :=
  if directory.isEmpty || endsInSlash directory then directory ++ name
  else directory ++ "/" ++ name

/-- Writes texts under their names into a directory, which is made first, up to the first
failure. -/
def writeInto (t : Files) (directory : String) (texts : List (String × String)) :
    Files × Except FileError Unit :=
  match t.makeDirectories directory with
  | (t, .error err) => (t, .error err)
  | (t, .ok ()) => go t texts
where
  go (t : Files) : List (String × String) → Files × Except FileError Unit
    | [] => (t, .ok ())
    | (name, text) :: rest =>
      match t.write (join directory name) text with
      | .error err => (t, .error err)
      | .ok t => go t rest

/-- A tree that holds the given files, with the directories above them, in the directory `here`. -/
def ofTexts (here : FilePath) (texts : List (String × String)) : Files :=
  let above := (List.range here.length).map fun n => (here.take (n + 1), none)
  let root : Files := { entries := above, here }
  texts.foldl (fun t (path, text) =>
    let above := "/".intercalate (names path).dropLast
    let t := (t.makeDirectories above).1
    (t.write path text).toOption.getD t) root

/-- The files under `here` with their texts, by relative path. -/
def texts (t : Files) : List (String × String) :=
  t.entries.filterMap fun (path, entry) => do
    let text ← entry
    if t.here.isPrefixOf path then some ("/".intercalate (path.drop t.here.length), text) else none

end Files

end FrameGraph
