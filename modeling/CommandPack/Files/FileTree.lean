import CommandPack.Files.FilePath
import CommandPack.KeyedList

namespace CommandPack

abbrev Location := List String

inductive FileNode
  | directory
  | file (content : String)
deriving DecidableEq, Repr

inductive FileFault
  | missing
  | exists
  | notDirectory
  | isDirectory
  | nameTooLong
  /-- The path holds a character that no path can hold. -/
  | zeroCharacter
deriving DecidableEq, Repr

def FileFault.message : FileFault → String
  | .missing => "No such file or directory (os error 2)"
  | .exists => "File exists (os error 17)"
  | .notDirectory => "Not a directory (os error 20)"
  | .isDirectory => "Is a directory (os error 21)"
  | .nameTooLong => "File name too long (os error 36)"
  | .zeroCharacter => "file name contained an unexpected NUL byte"

structure FileError where
  path : String
  fault : FileFault
deriving DecidableEq, Repr

def FileError.message (e : FileError) : String :=
  "I/O error at '" ++ e.path ++ "': " ++ e.fault.message

/-- An operation that succeeds has succeeded in its first step. -/
theorem exists_of_bind_eq_ok {ε α β : Type} {x : Except ε α} {f : α → Except ε β} {b : β}
    (h : x >>= f = .ok b) : ∃ a, x = .ok a ∧ f a = .ok b := by
  cases x with
  | error e => nomatch h
  | ok a => exact ⟨a, rfl, h⟩

/-- Everything below the root, by location. There are no links, and the working directory is the
root. -/
structure FileTree where
  nodes : KeyedList Location FileNode

namespace FileTree

def empty : FileTree := ⟨.empty⟩

instance : Inhabited FileTree := ⟨empty⟩

def node? (t : FileTree) (loc : Location) : Option FileNode :=
  if loc = [] then some .directory else t.nodes.get? loc

def put (t : FileTree) (loc : Location) (n : FileNode) : FileTree := ⟨t.nodes.insert loc n⟩

/-- The longest name of a file, in bytes. -/
def maxName : Nat := 255

def maxPath : Nat := 4095

/-- From one directory to the next by one segment. A step out of the root stays there. -/
def step (t : FileTree) (here : Location) (segment : String) : Except FileFault Location :=
  if segment = "" ∨ segment = "." then .ok here
  else if segment = ".." then .ok here.dropLast
  else if maxName < segment.utf8ByteSize then .error .nameTooLong
  else
    match t.node? (here ++ [segment]) with
    | none => .error .missing
    | some (.file _) => .error .notDirectory
    | some .directory => .ok (here ++ [segment])

def walk (t : FileTree) (segments : List String) : Except FileFault Location :=
  segments.foldlM t.step []

def pathSegments (path : String) : List String :=
  (Text.segments '/' path.toList).map String.ofList

/-- What a path names in the directory that holds it: a name, perhaps with a slash behind, or a
way to a directory that must be there already. -/
inductive Leaf
  | name (parents : List String) (last : String) (slash : Bool)
  | directory (parents : List String)
  | root
  | empty
deriving DecidableEq, Repr

def leafOf (path : String) : Leaf :=
  if path = "" then .empty
  else
    let reversed := (pathSegments path).reverse
    match reversed.dropWhile (· = "") with
    | [] => .root
    | last :: parents =>
      if last = "." ∨ last = ".." then .directory parents.reverse
      else .name parents.reverse last (reversed.head? = some "")

def checkPath (path : String) : Except FileFault Unit :=
  if path.toList.contains '\x00' then .error .zeroCharacter
  else if maxPath < path.utf8ByteSize then .error .nameTooLong
  else .ok ()

/-- The location that a path names, or the fault of the way there. The last name need not
exist. -/
def locate (t : FileTree) (parents : List String) (last : String) : Except FileFault Location := do
  let here ← t.walk parents
  if maxName < last.utf8ByteSize then .error .nameTooLong else .ok (here ++ [last])

def makeDirectory (t : FileTree) (path : String) : Except FileFault FileTree := do
  checkPath path
  match leafOf path with
  | .empty => .error .missing
  | .root => .error .exists
  | .directory parents => do
    let _ ← t.walk parents
    .error .exists
  | .name parents last _ => do
    let loc ← t.locate parents last
    match t.node? loc with
    | some _ => .error .exists
    | none => .ok (t.put loc .directory)

def isDirectory (t : FileTree) (path : String) : Bool :=
  path ≠ "" && (do checkPath path; t.walk (pathSegments path)).isOk

/-- Makes the first of the given directories, where the following ones are the directories above
it. Those that lack are made first, and stay even if a later one fails. -/
def makeWithParents (t : FileTree) : List String → FileTree × Option FileFault
  | [] => (t, none)
  | path :: above =>
    match t.makeDirectory path with
    | .ok t => (t, none)
    | .error .missing =>
      match t.makeWithParents above with
      | (t, some fault) => (t, some fault)
      | (t, none) =>
        match t.makeDirectory path with
        | .ok t => (t, none)
        | .error fault => (t, if t.isDirectory path then none else some fault)
    | .error fault => (t, if t.isDirectory path then none else some fault)

def makeDirectories (t : FileTree) (path : String) : FileTree × Option FileFault :=
  if path = "" then (t, none) else t.makeWithParents (path :: FilePath.ancestors path)

def writeFile (t : FileTree) (path content : String) : Except FileFault FileTree := do
  checkPath path
  match leafOf path with
  | .empty => .error .missing
  | .root => .error .isDirectory
  | .directory parents => do
    let _ ← t.walk parents
    .error .isDirectory
  | .name parents last slash => do
    let here ← t.walk parents
    if slash then .error .isDirectory
    else if maxName < last.utf8ByteSize then .error .nameTooLong
    else
      match t.node? (here ++ [last]) with
      | some .directory => .error .isDirectory
      | _ => .ok (t.put (here ++ [last]) (.file content))

/-- Every file and directory with its path, in the order of the paths. A directory has a slash
behind its path and no content. -/
def listing (t : FileTree) : List (String × Option String) :=
  (t.nodes.entries.map fun (loc, n) =>
    match n with
    | .directory => ("/".intercalate loc ++ "/", none)
    | .file content => ("/".intercalate loc, some content)).mergeSort fun a b => a.1 ≤ b.1

end FileTree
end CommandPack
