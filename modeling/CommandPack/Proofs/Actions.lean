import CommandPack.Proofs.Journal
import CommandPack.Proofs.Names

namespace CommandPack

def Action.addressed : Action → List String
  | .emitTo context _ | .declareFirst context _ | .declare context _ => [context]
  | _ => []

inductive Action.Writes (space : String) (h : Handles) : Action → Command → Prop
  | emit (line : String) : Writes space h (.emit line) (.raw line)
  | emitTo (context line : String) : Writes space h (.emitTo context line) (.raw line)
  | declareFirst (context line : String) : Writes space h (.declareFirst context line) (.raw line)
  | declare (context line : String) : Writes space h (.declare context line) (.raw line)
  | change {target : Slot} {c : ScoreChange Slot} {s : Score} {d : ScoreChange Score}
    (hs : h.score? target = some s) (hd : c.resolve h.score? = some d) :
    Writes space h (.change target c) (.change s d)
  | low {target : Slot} {s : Score} (low high : Int32) (hs : h.score? target = some s) :
    Writes space h (.clamp target low high) (.change s (.atLeast low))
  | high {target : Slot} {s : Score} (low high : Int32) (hs : h.score? target = some s) :
    Writes space h (.clamp target low high) (.change s (.atMost high))
  | deed {slot : Slot} {s : Selector} (d : Selector.Deed) (hs : h.selector? slot = some s) :
    Writes space h (.act slot d) (.deed s d)
  | makeBar {id : String} (title : String) (slot : Option Slot)
    (hid : NameKind.bossBar.Accepts id) :
    Writes space h (.bossBar id title slot) (.makeBar ⟨space, id, title⟩)
  | setBar {slot : Slot} {q : BossBar.Property Slot Slot} {b : BossBar}
    {r : BossBar.Property Score Selector} (hb : h.bar? slot = some b)
    (hr : q.resolve h.score? h.selector? = some r) :
    Writes space h (.setBar slot q) (.setBar b r)
  | call {slot : Slot} {f : FunctionRef} (hf : h.function? slot = some f) :
    Writes space h (.call slot) (.call f)
  | summon {entity : Entity} {tag : Option String} (x y z : String)
    (htag : entity.tag = .ok tag) :
    Writes space h (.summon entity x y z) (.summon entity x y z tag)

/-- What an action can ask for. A line stands behind the text of the scopes around the action or
behind nothing, in the context where the action stands or in one that it names. -/
inductive Action.Asks (p : Site) (m : Memory) : Action → Entry → Prop
  | line {a : Action} {context lead : String} {guards : List (Condition Score)} {c : Command}
    (hplace : context = p.context ∨ context ∈ a.addressed) (hlead : lead = p.lead ∨ lead = "")
    (hcommand : a.Writes p.imprint.space m.handles c) :
    Asks p m a (.append context ⟨lead, guards, c⟩)
  | front (context line : String) :
    Asks p m (.declareFirst context line) (.prepend context ⟨"", [], .raw line⟩)
  | constant (a : Action) (n : Int32) : Asks p m a (.constant n)
  | «variable» (name : String) (slot : Option Slot) : Asks p m (.variable name slot) .objective
  | freshVariable (slot : Option Slot) : Asks p m (.freshVariable slot) .objective

/-- What comes of reading an action, apart from its entries. Only a new variable, a selector and a
boss bar leave something in a slot. -/
inductive Action.Remembers (i : Imprint) (m : Memory) : Action → Reading Outcome → Prop
  | same (a : Action) {outcome : Outcome} {es : List Entry}
    (hscore : ∀ v, outcome ≠ .finished (some (.score v))) : Remembers i m a ⟨outcome, es, m⟩
  | «variable» {name : String} {es : List Entry} (slot : Option Slot)
    (hname : NameKind.holder.Accepts name) :
    Remembers i m (.variable name slot)
      ⟨.finished (some (.score ⟨name, i.settings.varObjective⟩)), es,
        m.withHandles (m.handles.keepScore slot ⟨name, i.settings.varObjective⟩)⟩
  | freshVariable {es : List Entry} (slot : Option Slot) :
    Remembers i m (.freshVariable slot)
      ⟨.finished (some (.score ⟨generatedName "v" m.generated, i.settings.varObjective⟩)), es,
        m.generated + 1,
        m.handles.keepScore slot ⟨generatedName "v" m.generated, i.settings.varObjective⟩⟩
  | selector {es : List Entry} (slot : Slot) (s : Selector) :
    Remembers i m (.selector slot s)
      ⟨.finished (some (.selector s)), es, m.withHandles (m.handles.keepSelector slot s)⟩
  | bossBar {id : String} {es : List Entry} (title : String) (slot : Option Slot)
    (hid : NameKind.bossBar.Accepts id) :
    Remembers i m (.bossBar id title slot)
      ⟨.finished (some (.bar ⟨i.space, id, title⟩)), es,
        m.withHandles (m.handles.keepBar slot ⟨i.space, id, title⟩)⟩

section Read

variable {a : Action} {p : Site} {m : Memory} {e : Entry}

/-- Every case of reading an action is taken apart here; what else is said of the entries of an
action follows from it. -/
theorem Action.asks_of_mem_read (h : e ∈ (a.read p m).entries) : a.Asks p m e := by
  have hwrite {c : Command} (hc : a.Writes p.imprint.space m.handles c) (h : e ∈ [p.write c]) :
      a.Asks p m e := by
    obtain rfl := List.mem_singleton.mp h
    exact .line (.inl rfl) (.inl rfl) hc
  have hchange {s : Score} {c : ScoreChange Score}
      (hc : a.Writes p.imprint.space m.handles (.change s c)) (h : e ∈ p.change s c) :
      a.Asks p m e := by
    rcases List.mem_append.mp h with h | h
    · obtain ⟨n, -, rfl⟩ := List.mem_map.mp h
      exact .constant a n
    · exact hwrite hc h
  cases a with
  | emit line => exact hwrite (.emit line) h
  | emitTo context line =>
    obtain rfl := List.mem_singleton.mp h
    exact .line (.inr List.mem_cons_self) (.inl rfl) (.emitTo context line)
  | declareFirst context line =>
    obtain rfl := List.mem_singleton.mp h
    exact .front context line
  | declare context line =>
    obtain rfl := List.mem_singleton.mp h
    exact .line (.inr List.mem_cons_self) (.inr rfl) (.declare context line)
  | «variable» name slot =>
    simp only [read] at h
    cases hn : BuildError.checkName .holder name with
    | error e' =>
      simp only [hn] at h
      exact absurd h List.not_mem_nil
    | ok u =>
      simp only [hn] at h
      obtain rfl := List.mem_singleton.mp h
      exact .variable name slot
  | freshVariable slot =>
    obtain rfl := List.mem_singleton.mp h
    exact .freshVariable slot
  | change target c =>
    obtain ⟨⟨s, d⟩, hfound, h⟩ := Memory.mem_withFound.mp h
    obtain ⟨s', hs, hd⟩ := Option.bind_eq_some_iff.mp hfound
    obtain ⟨d', hd, hsame⟩ := Option.bind_eq_some_iff.mp hd
    cases hsame
    exact hchange (.change hs hd) h
  | clamp target low high =>
    obtain ⟨s, hs, h⟩ := Memory.mem_withFound.mp h
    rcases List.mem_append.mp h with h | h
    · exact hchange (.low low high hs) h
    · exact hchange (.high low high hs) h
  | constant n =>
    obtain rfl := List.mem_singleton.mp h
    exact .constant _ n
  | selector slot s => exact absurd h List.not_mem_nil
  | act slot deed =>
    obtain ⟨s, hs, h⟩ := Memory.mem_withFound.mp h
    exact hwrite (.deed deed hs) h
  | bossBar id title slot =>
    simp only [read] at h
    cases hn : BuildError.checkName .bossBar id with
    | error e' =>
      simp only [hn] at h
      exact absurd h List.not_mem_nil
    | ok u =>
      simp only [hn] at h
      exact hwrite (.makeBar title slot (BuildError.accepts_of_checkName hn)) h
  | setBar slot property =>
    obtain ⟨⟨b, r⟩, hfound, h⟩ := Memory.mem_withFound.mp h
    obtain ⟨b', hb, hr⟩ := Option.bind_eq_some_iff.mp hfound
    obtain ⟨r', hr, hsame⟩ := Option.bind_eq_some_iff.mp hr
    cases hsame
    exact hwrite (.setBar hb hr) h
  | call slot =>
    obtain ⟨f, hf, h⟩ := Memory.mem_withFound.mp h
    exact hwrite (.call hf) h
  | summon entity x y z =>
    simp only [read] at h
    cases ht : entity.tag with
    | error reason =>
      simp only [ht] at h
      exact absurd h List.not_mem_nil
    | ok tag =>
      simp only [ht] at h
      exact hwrite (.summon x y z ht) h

/-- Like `asks_of_mem_read`, for what is left when an action was read. -/
theorem Action.remembers_read (a : Action) (p : Site) (m : Memory) :
    a.Remembers p.imprint m (a.read p m) := by
  have hfound {α : Type} (found : Option α) (entries : α → List Entry) :
      a.Remembers p.imprint m (m.withFound found entries) := by
    cases found with
    | none => exact .same a nofun
    | some x => exact .same a nofun
  cases a with
  | «variable» name slot =>
    simp only [read]
    cases hn : BuildError.checkName .holder name with
    | error e => exact .same _ nofun
    | ok u => exact .variable slot (BuildError.accepts_of_checkName hn)
  | freshVariable slot => exact .freshVariable slot
  | selector slot s => exact .selector slot s
  | bossBar id title slot =>
    simp only [read]
    cases hn : BuildError.checkName .bossBar id with
    | error e => exact .same _ nofun
    | ok u => exact .bossBar title slot (BuildError.accepts_of_checkName hn)
  | summon entity x y z =>
    simp only [read]
    cases entity.tag with
    | error reason => exact .same _ nofun
    | ok tag => exact .same _ nofun
  | change _ _ | clamp _ _ _ | act _ _ | setBar _ _ | call _ => exact hfound _ _
  | emit _ | emitTo _ _ | declareFirst _ _ | declare _ _ | constant _ => exact .same _ nofun

def Entry.line? : Entry → Option Written
  | .append _ w | .prepend _ w => some w
  | .touch _ | .objective | .constant _ => none

/-- A line of an action is one of its commands, behind the scopes around the action or behind
nothing. -/
theorem Action.writes_of_mem_read (h : e ∈ (a.read p m).entries) {w : Written}
    (hw : e.line? = some w) :
    (w.lead = p.lead ∨ w.lead = "") ∧ a.Writes p.imprint.space m.handles w.command := by
  cases asks_of_mem_read h with
  | line hplace hlead hcommand =>
    obtain rfl := Option.some.inj hw
    exact ⟨hlead, hcommand⟩
  | front context line =>
    obtain rfl := Option.some.inj hw
    exact ⟨.inr rfl, .declareFirst context line⟩
  | constant _ _ | «variable» _ _ | freshVariable _ => nomatch hw

end Read

/-- Entering a step writes no line. -/
theorem Opening.line?_of_mem_entrance {o : Opening} {p : Site} {m : Memory}
    {entered : Reading Site} (h : o.entrance p m = .ok entered) {e : Entry}
    (he : e ∈ entered.entries) : e.line? = none := by
  cases entered_of_entrance h with
  | inScope lead hc hf => exact absurd he List.not_mem_nil
  | guarded c hc hf =>
    obtain ⟨n, -, rfl⟩ := List.mem_map.mp he
    rfl
  | function name generated slot hc hf =>
    obtain rfl := List.mem_singleton.mp he
    rfl

end CommandPack
