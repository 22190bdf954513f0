import CommandPack.Buffers
import CommandPack.Files.FilePlan
import CommandPack.Settings
import CommandPack.Value

namespace CommandPack

/-- A place for packs and the namespace of one of them. -/
structure Layout where
  directory : String
  space : String
  settings : Settings
deriving DecidableEq, Repr

structure WrittenFiles where
  functions : List String
  hooks : List String
deriving DecidableEq, Repr

def WrittenFiles.count (w : WrittenFiles) : Nat := w.functions.length + w.hooks.length

/-- A hook file: a list with one function, added to those that are there. -/
def hookTag (space context : String) : String :=
  (Value.record [("replace", .flag false),
    ("values", .list [.text (space ++ ":" ++ context)])]).written

namespace Layout

def functionsDir (l : Layout) : String :=
  FilePath.join (FilePath.join l.directory l.space) l.settings.functionsDir

def functionPath (l : Layout) (context : String) : String :=
  FilePath.join l.functionsDir (l.settings.fileName context)

def hooksDir (l : Layout) : String :=
  FilePath.join (FilePath.join l.directory "minecraft") "tags/functions"

def hooks (l : Layout) : List (String × String) :=
  [("load", l.settings.defaultContext), ("tick", tickContext)]

def hookPath (l : Layout) (hook : String) : String := FilePath.join l.hooksDir (hook ++ ".json")

/-- A context is written as one file, below directories that its name may ask for. -/
def functionPlan (l : Layout) (context : String) (lines : List String) : FilePlan :=
  let path := l.functionPath context
  ((FilePath.parent? path).map FileAction.makeDirectories).toList ++
    [.write path (Buffers.joinLines lines)]

def functionsPlan (l : Layout) (b : Buffers) : FilePlan :=
  .makeDirectories l.functionsDir :: b.entries.flatMap fun e => l.functionPlan e.1 e.2

def hooksPlan (l : Layout) : FilePlan :=
  .makeDirectories l.hooksDir ::
    l.hooks.map fun h => .write (l.hookPath h.1) (hookTag l.space h.2)

/-- The hooks come first if they are wanted. -/
def plan (l : Layout) (hooks : Bool) (b : Buffers) : FilePlan :=
  (if hooks then l.hooksPlan else []) ++ l.functionsPlan b

def files (l : Layout) (hooks : Bool) (b : Buffers) : WrittenFiles where
  functions := b.keys.map l.functionPath
  hooks := if hooks then l.hooks.map fun h => l.hookPath h.1 else []

def write (l : Layout) (hooks : Bool) (b : Buffers) (t : FileTree) :
    FileTree × Except FileError WrittenFiles :=
  match (l.plan hooks b).perform t with
  | (t, some e) => (t, .error e)
  | (t, none) => (t, .ok (l.files hooks b))

end Layout
end CommandPack
