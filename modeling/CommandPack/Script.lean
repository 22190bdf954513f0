import CommandPack.Draft

namespace CommandPack

/-- Steps name the scores, selectors, boss bars and functions they use by slots, which earlier steps
fill. -/
abbrev Slot := String

structure Handles where
  scores : KeyedList Slot Score := .empty
  selectors : KeyedList Slot Selector := .empty
  bars : KeyedList Slot BossBar := .empty
  functions : KeyedList Slot FunctionRef := .empty

namespace Handles

def score? (h : Handles) (slot : Slot) : Option Score := h.scores.get? slot

/-- The score of a slot when one score is also known as `$`. -/
def scoreOrSelf? (h : Handles) (self : Score) (slot : Slot) : Option Score :=
  if slot = "$" then some self else h.score? slot

def selector? (h : Handles) (slot : Slot) : Option Selector := h.selectors.get? slot

def bar? (h : Handles) (slot : Slot) : Option BossBar := h.bars.get? slot

def function? (h : Handles) (slot : Slot) : Option FunctionRef := h.functions.get? slot

def keepScore (h : Handles) (slot : Option Slot) (s : Score) : Handles :=
  { h with scores := h.scores.insert (slot.getD s.holder) s }

def keepSelector (h : Handles) (slot : Slot) (s : Selector) : Handles :=
  { h with selectors := h.selectors.insert slot s }

def keepBar (h : Handles) (slot : Option Slot) (b : BossBar) : Handles :=
  { h with bars := h.bars.insert (slot.getD b.id) b }

def keepFunction (h : Handles) (slot : Option Slot) (f : FunctionRef) : Handles :=
  { h with functions := h.functions.insert (slot.getD f.name) f }

end Handles

inductive Action
  | emit (line : String)
  | emitTo (context line : String)
  | declareFirst (context line : String)
  | declare (context line : String)
  /-- The variable of a name, kept in a slot; the name itself is the default slot. -/
  | variable (name : String) (slot : Option Slot)
  | freshVariable (slot : Option Slot)
  | change (target : Slot) (c : ScoreChange Slot)
  /-- Keeps a score between two bounds. -/
  | clamp (target : Slot) (low high : Int32)
  | constant (n : Int32)
  | selector (slot : Slot) (s : Selector)
  | act (selector : Slot) (deed : Selector.Deed)
  | bossBar (id title : String) (slot : Option Slot)
  | setBar (bar : Slot) (p : BossBar.Property Slot Slot)
  | call (function : Slot)
  | summon (entity : Entity) (x y z : String)

/-- A step with a script inside: how the inner script is entered. -/
inductive Opening
  | scope (fragment : String)
  /-- Scopes inside each other, the first one outermost. -/
  | nest (fragments : List String)
  | when (c : Condition Slot)
  /-- Like `when`, with a score that the condition also knows as `$`. -/
  | whenScore (score : Slot) (c : Condition Slot)
  | forEach (selector : Slot)
  | function (name : String) (slot : Option Slot)
  | anonymousFunction (slot : Option Slot)
  | tick (slot : Option Slot)

/-- A list of steps. A failing step ends the list it stands in, and with it the step around that
list, unless the step is marked as caught. -/
inductive Script
  | done
  | act (a : Action) (caught : Bool) (rest : Script)
  | inside (o : Opening) (caught : Bool) (body rest : Script)

namespace Script

def append : Script → Script → Script
  | .done, t => t
  | .act a caught rest, t => .act a caught (rest.append t)
  | .inside o caught body rest, t => .inside o caught body (rest.append t)

instance : Append Script := ⟨append⟩

def ofActions : List Action → Script
  | [] => .done
  | a :: as => .act a false (ofActions as)

def concat : List Script → Script
  | [] => .done
  | s :: ss => s ++ concat ss

def within (o : Opening) (body : Script) : Script := .inside o false body .done

@[simp] theorem act_append (a : Action) (caught : Bool) (rest t : Script) :
    Script.act a caught rest ++ t = .act a caught (rest ++ t) := rfl

@[simp] theorem inside_append (o : Opening) (caught : Bool) (body rest t : Script) :
    Script.inside o caught body rest ++ t = .inside o caught body (rest ++ t) := rfl

end Script
end CommandPack
