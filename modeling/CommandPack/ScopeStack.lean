import CommandPack.Text.Bytes

namespace CommandPack

/-- The open scopes, with their joined text beside them. Closing a scope cuts its fragment off the
end by size and never searches for it, so scopes with equal fragments stay apart. -/
structure ScopeStack where
  /-- Fragments of the open scopes, innermost first. -/
  frames : List String
  /-- What stands in front of a line. -/
  text : String
deriving DecidableEq, Repr

namespace ScopeStack

def empty : ScopeStack := ⟨[], ""⟩

instance : Inhabited ScopeStack := ⟨empty⟩

def depth (s : ScopeStack) : Nat := s.frames.length

def isEmpty (s : ScopeStack) : Bool := s.frames.isEmpty

/-- Where the text ends once a last fragment is taken away. -/
def cut (text fragment : String) : Option (List Char) :=
  Text.takeBytes? (Text.byteSize text.toList - Text.byteSize fragment.toList) text.toList

def push (s : ScopeStack) (fragment : String) : ScopeStack :=
  ⟨fragment :: s.frames, s.text ++ fragment⟩

def pop (s : ScopeStack) : Option String × ScopeStack :=
  match s.frames with
  | [] => (none, s)
  | f :: fs => (some f, ⟨fs, ((cut s.text f).map String.ofList).getD s.text⟩)

def popTimes : Nat → ScopeStack → ScopeStack
  | 0, s => s
  | n + 1, s => popTimes n s.pop.2

/-- Closes scopes until at most `depth` are open. -/
def truncate (s : ScopeStack) (depth : Nat) : ScopeStack := popTimes (s.depth - depth) s

@[simp] theorem depth_push (s : ScopeStack) (fragment : String) :
    (s.push fragment).depth = s.depth + 1 := rfl

/-- Whatever a fragment is, a cut of its size takes away what was added for it. -/
theorem cut_append (text fragment : String) : cut (text ++ fragment) fragment = some text.toList := by
  have size : Text.byteSize (text ++ fragment).toList - Text.byteSize fragment.toList =
      Text.byteSize text.toList := by simp
  rw [cut, size, String.toList_append, Text.takeBytes?_append]

/-- Closing a scope undoes opening it. -/
@[simp] theorem pop_push (s : ScopeStack) (fragment : String) :
    (s.push fragment).pop = (some fragment, s) := by
  simp [push, pop, cut_append]

end ScopeStack
end CommandPack
