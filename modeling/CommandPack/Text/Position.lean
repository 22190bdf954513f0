import CommandPack.Text.Decimal

namespace CommandPack.Text

structure Position where
  line : Nat
  column : Nat
deriving DecidableEq, Repr

namespace Position

def lineMark : List Char := " at line ".toList

def columnMark : List Char := " column ".toList

/-- Numbers of lines and columns have 64 bits. -/
def limit : Nat := 0x10000000000000000

/-- What stands before the last place where `mark` is found, and what stands behind it. -/
def splitLast? (mark : List Char) : List Char → Option (List Char × List Char)
  | [] => none
  | c :: cs =>
    match splitLast? mark cs with
    | some (before, behind) => some (c :: before, behind)
    | none => if mark.isPrefixOf (c :: cs) then some ([], (c :: cs).drop mark.length) else none

def number? (cs : List Char) : Option Nat :=
  if cs.isEmpty || !cs.all Char.isDigit || limit ≤ ofDigits cs then none else some (ofDigits cs)

def read? (cs : List Char) : Option Position :=
  let behind := cs.dropWhile Char.isDigit
  if columnMark.isPrefixOf behind then
    match number? (cs.takeWhile Char.isDigit), number? (behind.drop columnMark.length) with
    | some line, some column => some ⟨line, column⟩
    | _, _ => none
  else none

def chars (p : Position) : List Char := lineMark ++ digits p.line ++ columnMark ++ digits p.column

def cut? (message : List Char) : Option (List Char × Position) :=
  match splitLast? lineMark message with
  | none => none
  | some (before, behind) => (read? behind).map (before, ·)

/-- The message with its position in plain digits. Lines are counted from one, so a position on
line zero is none and is left out. -/
def tidy (message : List Char) : List Char :=
  match cut? message with
  | none => message
  | some (before, p) => if p.line = 0 then before else before ++ p.chars

def tidied (message : String) : String := String.ofList (tidy message.toList)

end Position
end CommandPack.Text
