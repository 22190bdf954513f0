import CommandPack.Text.Decimal

namespace CommandPack

structure Score where
  holder : String
  objective : String
deriving DecidableEq, Repr

def Score.text (s : Score) : String := s.holder ++ " " ++ s.objective

/-- The score that holds a constant: its holder is the number itself. -/
def Score.constant (objective : String) (n : Int32) : Score := ⟨Text.integer n.toInt, objective⟩

/-- Numbers between two bounds, both included. Bounds in the wrong order are written as given. -/
structure Span where
  first : Int32
  last : Int32
deriving DecidableEq, Repr

def Span.text (s : Span) : String := Text.integer s.first.toInt ++ ".." ++ Text.integer s.last.toInt

inductive ScoreChange (σ : Type)
  | set (n : Int32)
  | add (n : Int32)
  | copy (other : σ)
  | multiply (n : Int32)
  /-- Raises the score to `n` if it is lower. -/
  | atLeast (n : Int32)
  /-- Lowers the score to `n` if it is higher. -/
  | atMost (n : Int32)
deriving DecidableEq, Repr

namespace ScoreChange

def constants {σ : Type} : ScoreChange σ → List Int32
  | .multiply n | .atLeast n | .atMost n => [n]
  | .set _ | .add _ | .copy _ => []

def resolve {σ τ : Type} (f : σ → Option τ) : ScoreChange σ → Option (ScoreChange τ)
  | .set n => some (.set n)
  | .add n => some (.add n)
  | .copy other => (f other).map .copy
  | .multiply n => some (.multiply n)
  | .atLeast n => some (.atLeast n)
  | .atMost n => some (.atMost n)

def operation (target : Score) (sign : String) (source : Score) : String :=
  "scoreboard players operation " ++ target.text ++ " " ++ sign ++ " " ++ source.text

/-- The command that makes the change. A negative amount is removed, so amounts have no sign;
bounds and factors are read from the scores of constants. -/
def command (target : Score) (constObjective : String) : ScoreChange Score → String
  | .set n => "scoreboard players set " ++ target.text ++ " " ++ Text.integer n.toInt
  | .add n =>
    "scoreboard players " ++ (if n < 0 then "remove " else "add ") ++ target.text ++ " " ++
      Text.natural n.toInt.natAbs
  | .copy other => operation target "=" other
  | .multiply n => operation target "*=" (.constant constObjective n)
  | .atLeast n => operation target ">" (.constant constObjective n)
  | .atMost n => operation target "<" (.constant constObjective n)

end ScoreChange
end CommandPack
