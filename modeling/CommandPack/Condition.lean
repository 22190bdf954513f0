import CommandPack.Comparator
import CommandPack.Score

namespace CommandPack

inductive Operand (σ : Type)
  | score (s : σ)
  | literal (n : Int32)
  | span (s : Span)
  | condition (left : Operand σ) (comparator : Comparator) (right : Operand σ)
deriving DecidableEq, Repr

/-- A condition compares two operands, and an operand may be a condition again; the written form has
no brackets. `σ` is how scores are named. -/
structure Condition (σ : Type) where
  left : Operand σ
  comparator : Comparator
  right : Operand σ
deriving DecidableEq, Repr

namespace Operand

/-- Literals in the order in which they are written, with repetitions. -/
def literals {σ : Type} : Operand σ → List Int32
  | .score _ => []
  | .literal n => [n]
  | .span _ => []
  | .condition l _ r => l.literals ++ r.literals

def text (constObjective : String) : Operand Score → String
  | .score s => s.text
  | .literal n => (Score.constant constObjective n).text
  | .span s => s.text
  | .condition l c r => l.text constObjective ++ " " ++ c.spelling ++ " " ++ r.text constObjective

def resolve {σ τ : Type} (f : σ → Option τ) : Operand σ → Option (Operand τ)
  | .score s => (f s).map .score
  | .literal n => some (.literal n)
  | .span s => some (.span s)
  | .condition l c r =>
    match l.resolve f, r.resolve f with
    | some l, some r => some (.condition l c r)
    | _, _ => none

end Operand

namespace Condition

variable {σ τ : Type}

def operand (c : Condition σ) : Operand σ := .condition c.left c.comparator c.right

def withLiteral (s : σ) (c : Comparator) (n : Int32) : Condition σ := ⟨.score s, c, .literal n⟩

def within (s : σ) (span : Span) : Condition σ := ⟨.score s, .matching, .span span⟩

def between (s : σ) (c : Comparator) (other : σ) : Condition σ := ⟨.score s, c, .score other⟩

/-- Both conditions: they are equated, the second one written in full on the right. -/
def and (a b : Condition σ) : Condition σ := ⟨a.operand, .equal, b.operand⟩

def literals (c : Condition σ) : List Int32 := c.operand.literals

def text (constObjective : String) (c : Condition Score) : String := c.operand.text constObjective

def resolve (f : σ → Option τ) (c : Condition σ) : Option (Condition τ) :=
  match c.left.resolve f, c.right.resolve f with
  | some l, some r => some ⟨l, c.comparator, r⟩
  | _, _ => none

def guard (constObjective : String) (c : Condition Score) : String :=
  "execute if score " ++ c.text constObjective ++ " run "

theorem operand_resolve (f : σ → Option τ) (c : Condition σ) :
    c.operand.resolve f = (c.resolve f).map operand := by
  cases c
  simp only [operand, resolve, Operand.resolve]
  split <;> simp_all [operand]

end Condition
end CommandPack
