import CommandPack.Buffers
import CommandPack.Draft
import CommandPack.Text.Segments

namespace CommandPack.Game

/-- What the game keeps: a number for every score. Numbers wrap around. -/
abbrev Scoreboard := Score → Int32

def Scoreboard.set (b : Scoreboard) (s : Score) (n : Int32) : Scoreboard :=
  fun t => if t = s then n else b t

def words (line : String) : List String := (Text.segments ' ' line.toList).map String.ofList

def readNatural? (cs : List Char) : Option Nat :=
  if cs.isEmpty || !cs.all Char.isDigit then none else some (Text.ofDigits cs)

def readInteger? : List Char → Option Int
  | '-' :: cs => (readNatural? cs).map fun n => -(n : Int)
  | cs => (readNatural? cs).map Int.ofNat

def readRange? (word : String) : Option (Int × Int) :=
  match Text.segments '.' word.toList with
  | [first, [], last] => do return (← readInteger? first, ← readInteger? last)
  | _ => none

def operation? : String → Option (Int32 → Int32 → Int32)
  | "=" => some fun _ source => source
  | "*=" => some fun target source => target * source
  | ">" => some max
  | "<" => some min
  | _ => none

def comparison? : String → Option (Int32 → Int32 → Bool)
  | "<" => some fun a b => a < b
  | "<=" => some fun a b => a ≤ b
  | "=" => some fun a b => a = b
  | ">=" => some fun a b => b ≤ a
  | ">" => some fun a b => b < a
  | _ => none

def change : List String → Scoreboard → Option Scoreboard
  | ["set", h, o, n], b => (readInteger? n.toList).map fun n => b.set ⟨h, o⟩ (.ofInt n)
  | ["add", h, o, n], b =>
    (readInteger? n.toList).map fun n => b.set ⟨h, o⟩ (b ⟨h, o⟩ + .ofInt n)
  | ["remove", h, o, n], b =>
    (readInteger? n.toList).map fun n => b.set ⟨h, o⟩ (b ⟨h, o⟩ - .ofInt n)
  | ["operation", h, o, sign, h', o'], b =>
    (operation? sign).map fun operate => b.set ⟨h, o⟩ (operate (b ⟨h, o⟩) (b ⟨h', o'⟩))
  | _, _ => none

/-- What a command makes of the scores, given what functions do. Other commands have no meaning
here. -/
def execute (call : String → Scoreboard → Option Scoreboard) :
    List String → Scoreboard → Option Scoreboard
  | "execute" :: "if" :: "score" :: h :: o :: "matches" :: range :: "run" :: rest, b =>
    (readRange? range).bind fun (first, last) =>
      if first ≤ (b ⟨h, o⟩).toInt ∧ (b ⟨h, o⟩).toInt ≤ last then execute call rest b else some b
  | "execute" :: "if" :: "score" :: h :: o :: sign :: h' :: o' :: "run" :: rest, b =>
    (comparison? sign).bind fun holds =>
      if holds (b ⟨h, o⟩) (b ⟨h', o'⟩) then execute call rest b else some b
  | "scoreboard" :: "players" :: rest, b => change rest b
  | ["scoreboard", "objectives", "add", _, "dummy"], b => some b
  | ["function", name], b => call name b
  | _, _ => none

def executeAll (call : String → Scoreboard → Option Scoreboard) (lines : List String)
    (b : Scoreboard) : Option Scoreboard :=
  lines.foldlM (fun b line => execute call (words line) b) b

abbrev Functions := String → Option (List String)

/-- Calls a function. Calls may be nested `depth` deep. -/
def call (fs : Functions) : Nat → String → Scoreboard → Option Scoreboard
  | 0, _, _ => none
  | depth + 1, name, b => (fs name).bind fun lines => executeAll (call fs depth) lines b

def functions (space : String) (b : Buffers) : Functions := fun name =>
  (b.entries.find? fun e => FunctionRef.text ⟨space, e.1⟩ = name).map Prod.snd

/-- A function is found by the text that calls it. -/
theorem functions_text (space : String) (b : Buffers) (context : String) :
    functions space b (FunctionRef.text ⟨space, context⟩) = b.get? context := by
  have htext (c : String) :
      FunctionRef.text ⟨space, c⟩ = FunctionRef.text ⟨space, context⟩ ↔ c = context :=
    String.append_right_inj _
  simp only [functions, htext, KeyedList.get?]
  induction b.entries with
  | nil => rfl
  | cons e es ih =>
    by_cases he : e.1 = context
    · simp [KeyedList.lookup, he]
    · simp [KeyedList.lookup, he, ih]

theorem readNatural?_digits (n : Nat) : readNatural? (Text.digits n) = some n := by
  have hne : (Text.digits n).isEmpty = false := by
    simpa using Text.digits_ne_nil n
  have hall : (Text.digits n).all Char.isDigit = true :=
    List.all_eq_true.mpr fun c hc => Text.isDigit_of_mem_digits hc
  rw [readNatural?, hne, hall, Text.ofDigits_digits]
  rfl

theorem readInteger?_natural (n : Nat) : readInteger? (Text.natural n).toList = some n := by
  rw [Text.natural, String.toList_ofList]
  unfold readInteger?
  split
  · rename_i cs hdigits
    have hsign : '-' ∈ Text.digits n := hdigits ▸ List.mem_cons_self
    exact absurd (Text.isDigit_of_mem_digits hsign) (by decide)
  · rw [readNatural?_digits]
    rfl

/-- Whole numbers are read back from their text. -/
theorem readInteger?_integer (n : Int) : readInteger? (Text.integer n).toList = some n := by
  cases n with
  | ofNat n => exact readInteger?_natural n
  | negSucc n =>
    have hchars : (Text.integer (.negSucc n)).toList = '-' :: Text.digits (n + 1) := by
      simp [Text.integer, Text.natural]
    rw [hchars, readInteger?, readNatural?_digits]
    rfl

theorem readRange?_text (s : Span) : readRange? s.text = some (s.first.toInt, s.last.toInt) := by
  have hchars : s.text.toList = (Text.integer s.first.toInt).toList ++ '.' ::
      ([] ++ '.' :: (Text.integer s.last.toInt).toList) := by
    simp [Span.text]
  have hdot (n : Int) := Text.notMem_integer (c := '.') (by decide) (by decide) n
  have hsegments : Text.segments '.' s.text.toList =
      [(Text.integer s.first.toInt).toList, [], (Text.integer s.last.toInt).toList] := by
    rw [hchars, Text.segments_append_sep, Text.segments_append_sep,
      Text.segments_of_notMem (hdot _), Text.segments_of_notMem (hdot _)]
    rfl
  simp only [readRange?, hsegments, readInteger?_integer]
  rfl

end CommandPack.Game
