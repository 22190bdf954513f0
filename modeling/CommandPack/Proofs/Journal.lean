import CommandPack.Script.Run

namespace CommandPack

/-- What stays the same through a whole run. -/
structure Imprint where
  space : String
  settings : Settings

/-- A command that a step writes, before it becomes text. -/
inductive Command
  | raw (text : String)
  | change (target : Score) (c : ScoreChange Score)
  | deed (selector : Selector) (d : Selector.Deed)
  | makeBar (bar : BossBar)
  | setBar (bar : BossBar) (p : BossBar.Property Score Selector)
  | call (f : FunctionRef)
  | summon (entity : Entity) (x y z : String) (tag : Option String)

def Command.text (s : Settings) : Command → String
  | .raw text => text
  | .change target c => c.command target s.constObjective
  | .deed selector d => d.command selector
  | .makeBar bar => bar.command
  | .setBar bar p => p.command bar
  | .call f => f.callCommand
  | .summon entity x y z tag => entity.command x y z tag

/-- A line that a step writes: a command behind the text of the scopes around it. The conditions
among those scopes are kept beside the text. -/
structure Written where
  lead : String
  guards : List (Condition Score)
  command : Command

/-- Where a script stands. A site is handed down to the scripts inside and never changed, so nothing
has to be put back. -/
structure Site where
  imprint : Imprint
  context : String
  lead : String
  guards : List (Condition Score)

/-- What a script asks for. Declarations are only asked for here; whether one is made depends on
what was declared before. -/
inductive Entry
  | touch (context : String)
  | append (context : String) (line : Written)
  | prepend (context : String) (line : Written)
  /-- A variable is made, so their objective is needed. -/
  | objective
  /-- A constant is used. -/
  | constant (n : Int32)

namespace Site

def line (p : Site) (c : Command) : Written := ⟨p.lead, p.guards, c⟩

def write (p : Site) (c : Command) : Entry := .append p.context (p.line c)

def change (p : Site) (target : Score) (c : ScoreChange Score) : List Entry :=
  c.constants.map .constant ++ [p.write (.change target c)]

def within (p : Site) (fragment : String) : Site := { p with lead := p.lead ++ fragment }

def guarded (p : Site) (c : Condition Score) : Site :=
  { p with
    lead := p.lead ++ c.guard p.imprint.settings.constObjective
    guards := p.guards ++ [c] }

/-- At the start of a function: nothing of the place it is opened in is left. -/
def function (p : Site) (name : String) : Site := ⟨p.imprint, name, "", []⟩

theorem foldl_within (fragments : List String) (p : Site) :
    fragments.foldl within p = { p with lead := fragments.foldl (· ++ ·) p.lead } := by
  induction fragments generalizing p with
  | nil => rfl
  | cons f fs ih => exact ih (p.within f)

end Site

structure Memory where
  generated : Nat := 0
  handles : Handles := {}

structure Reading (ρ : Type) where
  result : ρ
  entries : List Entry
  memory : Memory

namespace Memory

def withHandles (m : Memory) (h : Handles) : Memory := { m with handles := h }

def withFound {α : Type} (m : Memory) (found : Option α) (entries : α → List Entry) :
    Reading Outcome :=
  match found with
  | none => ⟨.unknownSlot, [], m⟩
  | some a => ⟨.finished none, entries a, m⟩

theorem mem_withFound {α : Type} {m : Memory} {found : Option α} {entries : α → List Entry}
    {e : Entry} :
    e ∈ (m.withFound found entries).entries ↔ ∃ x, found = some x ∧ e ∈ entries x := by
  cases found <;> simp [withFound]

end Memory

def Action.read (a : Action) (p : Site) (m : Memory) : Reading Outcome :=
  match a with
  | .emit line => ⟨.finished none, [p.write (.raw line)], m⟩
  | .emitTo context line => ⟨.finished none, [.append context (p.line (.raw line))], m⟩
  | .declareFirst context line => ⟨.finished none, [.prepend context ⟨"", [], .raw line⟩], m⟩
  | .declare context line => ⟨.finished none, [.append context ⟨"", [], .raw line⟩], m⟩
  | .variable name slot =>
    match BuildError.checkName .holder name with
    | .error e => ⟨.failed e, [], m⟩
    | .ok () =>
      let s : Score := ⟨name, p.imprint.settings.varObjective⟩
      ⟨.finished (some (.score s)), [.objective], m.withHandles (m.handles.keepScore slot s)⟩
  | .freshVariable slot =>
    let s : Score := ⟨generatedName "v" m.generated, p.imprint.settings.varObjective⟩
    ⟨.finished (some (.score s)), [.objective], ⟨m.generated + 1, m.handles.keepScore slot s⟩⟩
  | .change target c =>
    m.withFound (do return (← m.handles.score? target, ← c.resolve m.handles.score?))
      fun (s, c) => p.change s c
  | .clamp target low high =>
    m.withFound (m.handles.score? target) fun s =>
      p.change s (.atLeast low) ++ p.change s (.atMost high)
  | .constant n => ⟨.finished none, [.constant n], m⟩
  | .selector slot s =>
    ⟨.finished (some (.selector s)), [], m.withHandles (m.handles.keepSelector slot s)⟩
  | .act slot deed => m.withFound (m.handles.selector? slot) fun s => [p.write (.deed s deed)]
  | .bossBar id title slot =>
    match BuildError.checkName .bossBar id with
    | .error e => ⟨.failed e, [], m⟩
    | .ok () =>
      let b : BossBar := ⟨p.imprint.space, id, title⟩
      ⟨.finished (some (.bar b)), [p.write (.makeBar b)], m.withHandles (m.handles.keepBar slot b)⟩
  | .setBar slot property =>
    m.withFound
        (do return (← m.handles.bar? slot,
          ← property.resolve m.handles.score? m.handles.selector?))
      fun (b, property) => [p.write (.setBar b property)]
  | .call slot => m.withFound (m.handles.function? slot) fun f => [p.write (.call f)]
  | .summon entity x y z =>
    match entity.tag with
    | .error reason => ⟨.failed (.payload entity.id reason), [], m⟩
    | .ok tag => ⟨.finished none, [p.write (.summon entity x y z tag)], m⟩

namespace Opening

def condition? (o : Opening) (h : Handles) : Option (Condition Score) :=
  match o with
  | .when c => c.resolve h.score?
  | .whenScore slot c => (h.score? slot).bind fun self => c.resolve (h.scoreOrSelf? self)
  | _ => none

/-- Where the script inside stands, or the outcome of a step that is not entered. -/
def entrance (o : Opening) (p : Site) (m : Memory) : Except Outcome (Reading Site) :=
  match o with
  | .scope fragment => .ok ⟨p.within fragment, [], m⟩
  | .nest fragments => .ok ⟨fragments.foldl Site.within p, [], m⟩
  | .when _ | .whenScore _ _ =>
    match o.condition? m.handles with
    | none => .error .unknownSlot
    | some c => .ok ⟨p.guarded c, c.literals.map .constant, m⟩
  | .forEach slot =>
    match m.handles.selector? slot with
    | none => .error .unknownSlot
    | some s => .ok ⟨p.within s.guard, [], m⟩
  | .function name _ =>
    match BuildError.checkName .context name with
    | .error e => .error (.failed e)
    | .ok () => .ok ⟨p.function name, [.touch name], m⟩
  | .anonymousFunction _ =>
    let name := generatedName "fn" m.generated
    .ok ⟨p.function name, [.touch name], { m with generated := m.generated + 1 }⟩
  | .tick _ => .ok ⟨p.function tickContext, [.touch tickContext], m⟩

/-- The three ways in which a step is entered. -/
inductive Entered (o : Opening) (p : Site) (m : Memory) : Reading Site → Prop
  | inScope (lead : String) (hc : o.condition? m.handles = none) (hf : o.functionSlot? = none) :
    Entered o p m ⟨{ p with lead := lead }, [], m⟩
  | guarded (c : Condition Score) (hc : o.condition? m.handles = some c)
    (hf : o.functionSlot? = none) :
    Entered o p m ⟨p.guarded c, c.literals.map .constant, m⟩
  | function (name : String) (generated : Nat) (slot : Option Slot)
    (hc : o.condition? m.handles = none) (hf : o.functionSlot? = some slot) :
    Entered o p m ⟨p.function name, [.touch name], ⟨generated, m.handles⟩⟩

/-- A step that is entered is entered in one of the three ways. -/
theorem entered_of_entrance {o : Opening} {p : Site} {m : Memory} {entered : Reading Site}
    (h : o.entrance p m = .ok entered) : o.Entered p m entered := by
  cases o with
  | scope fragment =>
    cases h
    exact .inScope _ rfl rfl
  | nest fragments =>
    cases h
    rw [Site.foldl_within]
    exact .inScope _ rfl rfl
  | when c =>
    simp only [entrance] at h
    cases hc : condition? (.when c) m.handles with
    | none => simp only [hc, reduceCtorEq] at h
    | some d =>
      simp only [hc] at h
      cases h
      exact .guarded d hc rfl
  | whenScore slot c =>
    simp only [entrance] at h
    cases hc : condition? (.whenScore slot c) m.handles with
    | none => simp only [hc, reduceCtorEq] at h
    | some d =>
      simp only [hc] at h
      cases h
      exact .guarded d hc rfl
  | forEach slot =>
    simp only [entrance] at h
    cases hs : m.handles.selector? slot with
    | none => simp only [hs, reduceCtorEq] at h
    | some s =>
      simp only [hs] at h
      cases h
      exact .inScope _ rfl rfl
  | function name slot =>
    simp only [entrance] at h
    cases hn : BuildError.checkName .context name with
    | error e => simp only [hn, reduceCtorEq] at h
    | ok u =>
      simp only [hn] at h
      cases h
      exact .function name _ slot rfl rfl
  | anonymousFunction slot =>
    cases h
    exact .function _ _ slot rfl rfl
  | tick slot =>
    cases h
    exact .function _ _ slot rfl rfl

def remember (o : Opening) (inner : Site) (m : Memory) : Memory :=
  match o.functionSlot? with
  | some slot =>
    m.withHandles (m.handles.keepFunction slot ⟨inner.imprint.space, inner.context⟩)
  | none => m

def read (o : Opening) (inside : Site → Memory → Reading (Except BuildError Unit)) (p : Site)
    (m : Memory) : Reading Outcome :=
  match o.entrance p m with
  | .error outcome => ⟨outcome, [], m⟩
  | .ok entered =>
    let body := inside entered.result entered.memory
    match body.result with
    | .error e => ⟨.failed e, entered.entries ++ body.entries, body.memory⟩
    | .ok () =>
      ⟨.finished none, entered.entries ++ body.entries, o.remember entered.result body.memory⟩

end Opening

def Reading.andThen (step : Reading Outcome) (caught : Bool)
    (rest : Memory → Reading (Except BuildError Unit)) : Reading (Except BuildError Unit) :=
  match step.result.stop? caught with
  | some e => ⟨.error e, step.entries, step.memory⟩
  | none =>
    ⟨(rest step.memory).result, step.entries ++ (rest step.memory).entries,
      (rest step.memory).memory⟩

def Script.read : Script → Site → Memory → Reading (Except BuildError Unit)
  | .done, _, m => ⟨.ok (), [], m⟩
  | .act a caught rest, p, m => (a.read p m).andThen caught (rest.read p)
  | .inside o caught body rest, p, m => (o.read body.read p m).andThen caught (rest.read p)

end CommandPack
