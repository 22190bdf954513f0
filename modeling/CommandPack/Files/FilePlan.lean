import CommandPack.Files.FileTree

namespace CommandPack

inductive FileAction
  | makeDirectories (path : String)
  | write (path content : String)
deriving DecidableEq, Repr

/-- Operations to be done in order, up to the first that fails. What was done before a failure
stays. -/
abbrev FilePlan := List FileAction

namespace FileAction

/-- Does one operation. The tree can change even if it fails. -/
def perform (a : FileAction) (t : FileTree) : FileTree × Option FileError :=
  match a with
  | .makeDirectories path =>
    let (t, fault) := t.makeDirectories path
    (t, fault.map (⟨path, ·⟩))
  | .write path content =>
    match t.writeFile path content with
    | .ok t => (t, none)
    | .error fault => (t, some ⟨path, fault⟩)

end FileAction

def FilePlan.perform : FilePlan → FileTree → FileTree × Option FileError
  | [], t => (t, none)
  | a :: as, t =>
    match a.perform t with
    | (t, some e) => (t, some e)
    | (t, none) => FilePlan.perform as t

theorem FilePlan.perform_append (p q : FilePlan) (t : FileTree) :
    FilePlan.perform (p ++ q) t =
      match FilePlan.perform p t with
      | (t, some e) => (t, some e)
      | (t, none) => FilePlan.perform q t := by
  induction p generalizing t with
  | nil => rfl
  | cons a as ih =>
    simp only [List.cons_append, FilePlan.perform]
    split <;> simp_all

end CommandPack
