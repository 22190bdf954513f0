import CommandPack.Proofs.Journal

namespace CommandPack

inductive Line
  | written (w : Written)
  | variableObjective
  | constantObjective
  /-- The call of the context that declares the constants. -/
  | constantsCall
  | constant (n : Int32)

def Line.text (i : Imprint) : Line → String
  | .written w => w.lead ++ w.command.text i.settings
  | .variableObjective => addObjectiveCommand i.settings.varObjective
  | .constantObjective => addObjectiveCommand i.settings.constObjective
  | .constantsCall => FunctionRef.callCommand ⟨i.space, i.settings.constsContext⟩
  | .constant n =>
    "scoreboard players set " ++ (Score.constant i.settings.constObjective n).text ++ " " ++
      Text.integer n.toInt

inductive Event
  | touch (context : String)
  | append (context : String) (line : Line)
  | prepend (context : String) (line : Line)

def Event.apply (i : Imprint) (b : Buffers) : Event → Buffers
  | .touch context => b.touch context
  | .append context line => b.append context (line.text i)
  | .prepend context line => b.prepend context (line.text i)

/-- What was declared so far. A declaration that is asked for is made only by the first entry that
needs it. -/
structure Register where
  variableObjective : Once := {}
  constants : ConstantPool := {}

namespace Entry

/-- The events of an entry. The objective of the constants is put in front after the call of
their context, so it stands before the call. -/
def events (s : Settings) (r : Register) : Entry → List Event
  | .touch context => [.touch context]
  | .append context w => [.append context (.written w)]
  | .prepend context w => [.prepend context (.written w)]
  | .objective =>
    if r.variableObjective.claimed then [] else [.prepend s.defaultContext .variableObjective]
  | .constant n =>
    (if r.constants.objective.claimed then []
      else [.prepend s.defaultContext .constantsCall, .prepend s.defaultContext .constantObjective]) ++
    if n ∈ r.constants.values then [] else [.append s.constsContext (.constant n)]

def register (r : Register) : Entry → Register
  | .objective => { r with variableObjective := r.variableObjective.claim.2 }
  | .constant n => { r with constants := (r.constants.register n).2 }
  | .touch _ | .append _ _ | .prepend _ _ => r

end Entry

def eventsOf (s : Settings) : Register → List Entry → List Event
  | _, [] => []
  | r, e :: es => e.events s r ++ eventsOf s (e.register r) es

def registerAfter (r : Register) (es : List Entry) : Register := es.foldl Entry.register r

/-- The second part of a journal finds declared what the first part declared. -/
theorem eventsOf_append (s : Settings) (r : Register) (es fs : List Entry) :
    eventsOf s r (es ++ fs) = eventsOf s r es ++ eventsOf s (registerAfter r es) fs := by
  induction es generalizing r with
  | nil => rfl
  | cons e es ih =>
    simp only [List.cons_append, eventsOf, ih, List.append_assoc]
    rfl

theorem registerAfter_append (r : Register) (es fs : List Entry) :
    registerAfter r (es ++ fs) = registerAfter (registerAfter r es) fs :=
  List.foldl_append

/-- What an event makes of the lines of a context; a context that does not exist has none. -/
def Event.onto (context : String) (ls : Option (List Line)) : Event → Option (List Line)
  | .touch c => if c = context then some (ls.getD []) else ls
  | .append c line => if c = context then some (ls.getD [] ++ [line]) else ls
  | .prepend c line => if c = context then some (line :: ls.getD []) else ls

def Event.context : Event → String
  | .touch c | .append c _ | .prepend c _ => c

/-- Events of other contexts leave the lines of a context alone. -/
theorem foldl_onto_of_ne {context : String} {evs : List Event}
    (hevs : ∀ e ∈ evs, e.context ≠ context) (ls : Option (List Line)) :
    evs.foldl (Event.onto context) ls = ls := by
  induction evs generalizing ls with
  | nil => rfl
  | cons e evs ih =>
    have hsame : e.onto context ls = ls := by
      cases e <;> exact if_neg (hevs _ List.mem_cons_self)
    rw [List.foldl_cons, hsame]
    exact ih (fun e he => hevs e (List.mem_cons_of_mem _ he)) ls

theorem Event.get?_apply (i : Imprint) (e : Event) {b : Buffers} {context : String}
    {ls : Option (List Line)} (h : b.get? context = ls.map (·.map (Line.text i))) :
    (e.apply i b).get? context = (e.onto context ls).map (·.map (Line.text i)) := by
  cases e with
  | touch c =>
    simp only [apply, onto, Buffers.get?_touch, eq_comm (a := context)]
    split
    · rename_i hc
      rw [hc, h]
      cases ls <;> rfl
    · exact h
  | append c line =>
    simp only [apply, onto, Buffers.get?_append, eq_comm (a := context)]
    split
    · rename_i hc
      rw [hc, h]
      cases ls <;> simp
    · exact h
  | prepend c line =>
    simp only [apply, onto, Buffers.get?_prepend, eq_comm (a := context)]
    split
    · rename_i hc
      rw [hc, h]
      cases ls <;> rfl
    · exact h

/-- Contexts do not influence each other: the lines of one are followed through the events alone. -/
theorem get?_foldl_apply (i : Imprint) (evs : List Event) {b : Buffers} {context : String}
    {ls : Option (List Line)} (h : b.get? context = ls.map (·.map (Line.text i))) :
    (evs.foldl (Event.apply i) b).get? context =
      (evs.foldl (Event.onto context) ls).map (·.map (Line.text i)) := by
  induction evs generalizing b ls with
  | nil => exact h
  | cons e evs ih => exact ih (e.get?_apply i h)

structure Evaluation where
  result : Except BuildError Unit
  events : List Event
  register : Register
  memory : Memory

/-- Evaluates a script from the place where it stands, what was declared before it and what is
remembered. -/
def Script.evaluate (s : Script) (p : Site) (r : Register) (m : Memory) : Evaluation where
  result := (s.read p m).result
  events := eventsOf p.imprint.settings r (s.read p m).entries
  register := registerAfter r (s.read p m).entries
  memory := (s.read p m).memory

end CommandPack
