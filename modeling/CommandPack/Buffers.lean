import CommandPack.KeyedList

namespace CommandPack

/-- The lines written so far, by context. A context exists from the first time it is mentioned, even
if no line follows, and becomes one file. -/
abbrev Buffers := KeyedList String (List String)

namespace Buffers

def empty : Buffers := KeyedList.empty

def touch (b : Buffers) (context : String) : Buffers := b.upsert context [] id

def append (b : Buffers) (context line : String) : Buffers :=
  b.upsert context [] (· ++ [line])

def prepend (b : Buffers) (context line : String) : Buffers :=
  b.upsert context [] (line :: ·)

def joinLines (lines : List String) : String := "\n".intercalate lines

def content? (b : Buffers) (context : String) : Option String :=
  (b.get? context).map joinLines

def lineCount (b : Buffers) : Nat := (b.entries.flatMap Prod.snd).length

/-- The same contexts with the same lines, in any order of contexts. -/
def agree (a b : Buffers) : Bool :=
  a.size == b.size && a.entries.all fun e => b.get? e.1 == some e.2

/-- Touches each context in turn and appends its lines, so a repeated name goes on. -/
def ofList (contexts : List (String × List String)) : Buffers :=
  contexts.foldl (fun b c => c.2.foldl (·.append c.1 ·) (b.touch c.1)) empty

@[grind =] theorem get?_touch (b : Buffers) (context name : String) :
    (b.touch context).get? name =
      if name = context then some ((b.get? context).getD []) else b.get? name :=
  KeyedList.get?_upsert ..

@[grind =] theorem get?_append (b : Buffers) (context line name : String) :
    (b.append context line).get? name =
      if name = context then some ((b.get? context).getD [] ++ [line]) else b.get? name :=
  KeyedList.get?_upsert ..

@[grind =] theorem get?_prepend (b : Buffers) (context line name : String) :
    (b.prepend context line).get? name =
      if name = context then some (line :: (b.get? context).getD []) else b.get? name :=
  KeyedList.get?_upsert ..

/-- Two lines added to the same contexts are the same if they leave the same lines there. -/
theorem line_of_append_eq {b : Buffers} {context line line' : String}
    (h : b.append context line = b.append context line') : line = line' := by
  have hlines := congrArg (·.get? context) h
  simp only [get?_append, if_true, Option.some.injEq] at hlines
  exact List.singleton_inj.mp (List.append_cancel_left hlines)

end Buffers
end CommandPack
