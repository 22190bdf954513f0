import CommandPack.Proofs.DefaultLines
import CommandPack.Proofs.Game.Targets
import CommandPack.Proofs.GeneratedNames
import CommandPack.Proofs.LoadOrder

namespace CommandPack

open Game

/-! ## Variables that a run hands out -/

namespace Moment

def before : Moment → Workspace
  | .act _ before | .enter _ before _ | .leave _ before _ => before

/-- The variable that a step hands out. -/
def handed? : Moment → Option Score
  | .act a before =>
    match (a.perform before).1 with
    | .finished (some (.score v)) => some v
    | _ => none
  | .enter _ _ _ | .leave _ _ _ => none

end Moment

namespace Action

variable {a : Action} {p : Site} {m : Memory} {v : Score} {slot : Slot}

/-- A variable has the name that was asked for, or a generated one. -/
theorem variable_of_result (h : (a.read p m).result = .finished (some (.score v))) :
    v.objective = p.imprint.settings.varObjective ∧
    ((NameKind.holder.Accepts v.holder ∧ ∃ slot, a = .variable v.holder slot) ∨
      ∃ slot, a = .freshVariable slot ∧ v.holder = generatedName "v" m.generated) := by
  have hread := a.remembers_read p m
  generalize a.read p m = r at h hread
  cases hread with
  | same _ hscore => exact absurd h (hscore v)
  | «variable» slot hname =>
    cases h
    exact ⟨rfl, .inl ⟨hname, slot, rfl⟩⟩
  | freshVariable slot =>
    cases h
    exact ⟨rfl, .inr ⟨slot, rfl, rfl⟩⟩
  | selector _ _ | bossBar _ _ _ => nomatch h

/-- A slot holds a variable that it held before, or the one that is handed out. -/
theorem score?_read (h : (a.read p m).memory.handles.score? slot = some v) :
    m.handles.score? slot = some v ∨ (a.read p m).result = .finished (some (.score v)) := by
  have hread := a.remembers_read p m
  generalize a.read p m = r at h hread ⊢
  cases hread with
  | same _ hscore => exact .inl h
  | «variable» kept hname =>
    refine (KeyedList.of_get?_insert h).imp_right ?_
    rintro rfl
    rfl
  | freshVariable kept =>
    refine (KeyedList.of_get?_insert h).imp_right ?_
    rintro rfl
    rfl
  | selector _ _ | bossBar _ _ _ => exact .inl h

end Action

theorem Moment.handed?_act {a : Action} {w : Workspace} {v : Score} :
    (Moment.act a w).handed? = some v ↔
      (a.read (w.draft.site []) w.memory).result = .finished (some (.score v)) := by
  rw [handed?, a.perform_eq_record w []]
  split
  · rename_i v' hresult
    simp only at hresult
    rw [hresult]
    simp
  · rename_i hother
    exact ⟨fun h => (nomatch h), fun h => absurd h (hother v)⟩

/-- What a run leaves in a slot is a variable that it handed out. -/
def HandedOut (ms : List Moment) (h : Handles) : Prop :=
  ∀ slot v, h.score? slot = some v → v ∈ ms.filterMap Moment.handed?

/-! ## What lines write -/

def Action.isRaw : Action → Bool
  | .emit _ | .emitTo _ _ | .declareFirst _ _ | .declare _ _ => true
  | _ => false

/-- A command that changes no other scores than these, and is no raw text. -/
def Command.WritesOnly (V : Score → Prop) (c : Command) : Prop :=
  (∀ text, c ≠ .raw text) ∧ ∀ v ∈ c.changes?, V v

def Entry.WritesOnly (V : Score → Prop) : Entry → Prop
  | .append _ w => w.command.WritesOnly V
  | .prepend _ _ => False
  | .touch _ | .objective | .constant _ => True

theorem Entry.WritesOnly.mono {V V' : Score → Prop} {e : Entry} (h : e.WritesOnly V)
    (hV : ∀ v, V v → V' v) : e.WritesOnly V' := by
  cases e with
  | append context w => exact ⟨h.1, fun v hv => hV v (h.2 v hv)⟩
  | prepend context w => exact h
  | touch _ | objective | constant _ => trivial

/-- An action that is no raw line writes only to variables that it finds in slots. -/
theorem Action.writesOnly_read {a : Action} {p : Site} {m : Memory} {V : Score → Prop}
    (ha : a.isRaw = false) (hm : ∀ slot v, m.handles.score? slot = some v → V v) :
    ∀ e ∈ (a.read p m).entries, e.WritesOnly V := by
  have hchange {target : Slot} {s : Score} (hs : m.handles.score? target = some s)
      (c : ScoreChange Score) : (Command.change s c).WritesOnly V :=
    ⟨nofun, fun v hv => Option.some.inj hv ▸ hm target s hs⟩
  intro e he
  cases asks_of_mem_read he with
  | line hplace hlead hcommand =>
    cases hcommand with
    | change hs hd => exact hchange hs _
    | low low high hs | high low high hs => exact hchange hs _
    | deed _ _ | makeBar _ _ _ | setBar _ _ | call _ | summon _ _ _ _ => exact ⟨nofun, nofun⟩
    | emit _ | emitTo _ _ | declareFirst _ _ | declare _ _ => simp [isRaw] at ha
  | front context line => simp [isRaw] at ha
  | constant _ _ | «variable» _ _ | freshVariable _ => trivial

/-! ## Whole runs -/

/-- Leaving a step keeps the variables that the script inside left. -/
theorem Opening.score?_perform {o : Opening} {w v : Workspace} (he : o.enter w = .ok v)
    (body : Script) (slot : Slot) :
    (o.perform body.run w).2.handles.score? slot = (body.run v).2.handles.score? slot := by
  rcases handles_perform he body with hsame | ⟨kept, hkept⟩
  · rw [hsame]
  · rw [hkept]
    rfl

/-- Entering a step writes no score. -/
theorem Opening.writesOnly_entrance {o : Opening} {p : Site} {m : Memory} {entered : Reading Site}
    (h : o.entrance p m = .ok entered) (V : Score → Prop) : ∀ e ∈ entered.entries, e.WritesOnly V := by
  cases entered_of_entrance h with
  | inScope _ _ _ => exact fun e he => absurd he List.not_mem_nil
  | guarded c _ _ =>
    intro e he
    obtain ⟨n, -, rfl⟩ := List.mem_map.mp he
    trivial
  | function name _ _ _ _ => exact fun e he => List.mem_singleton.mp he ▸ trivial

/-- Through these moments the settings stay, slots hold only variables that were handed out, and
unless a line is raw it writes only such a variable. -/
structure VariablesOnly (settings : Settings) (ms : List Moment) (w : Workspace) : Prop where
  settings_eq : w.draft.settings = settings
  before_eq : ∀ x ∈ ms, x.before.draft.settings = settings
  handed : HandedOut ms w.handles
  writes : (∀ a before, .act a before ∈ ms → a.isRaw = false) →
    ∀ e ∈ ms.flatMap Moment.entries, e.WritesOnly (· ∈ ms.filterMap Moment.handed?)

namespace VariablesOnly

variable {settings : Settings} {ms : List Moment} {w v : Workspace}

theorem concat (h : VariablesOnly settings ms w) {x : Moment}
    (hx : x.before.draft.settings = settings) (hsettings : v.draft.settings = settings)
    (hhanded : ∀ slot s, v.handles.score? slot = some s →
      w.handles.score? slot = some s ∨ x.handed? = some s)
    (hwrites : (∀ a before, x = .act a before → a.isRaw = false) →
      ∀ e ∈ x.entries, e.WritesOnly (· ∈ ms.filterMap Moment.handed?)) :
    VariablesOnly settings (ms ++ [x]) v := by
  have hmem {s : Score} : s ∈ (ms ++ [x]).filterMap Moment.handed? ↔
      s ∈ ms.filterMap Moment.handed? ∨ x.handed? = some s := by
    simp [List.filterMap_append]
  refine ⟨hsettings, ?_, ?_, ?_⟩
  · intro y hy
    rcases List.mem_append.mp hy with hy | hy
    · exact h.before_eq y hy
    · rw [List.mem_singleton.mp hy]
      exact hx
  · intro slot s hs
    exact hmem.mpr ((hhanded slot s hs).imp_left (h.handed slot s))
  · intro hraw e he
    rw [List.flatMap_append, List.flatMap_singleton, List.mem_append] at he
    have hearlier : e.WritesOnly (· ∈ ms.filterMap Moment.handed?) := by
      rcases he with he | he
      · exact h.writes (fun a before ha => hraw a before (List.mem_append_left _ ha)) e he
      · refine hwrites (fun a before hact => hraw a before ?_) e he
        exact List.mem_append_right _ (List.mem_singleton.mpr hact.symm)
    exact hearlier.mono fun s hs => hmem.mpr (.inl hs)

theorem act (h : VariablesOnly settings ms w) (a : Action) :
    VariablesOnly settings (ms ++ [.act a w]) (a.perform w).2 := by
  have hrecord := a.perform_eq_record w []
  refine h.concat h.settings_eq ?_ ?_ ?_
  · rw [hrecord]
    exact h.settings_eq
  · intro slot s hs
    rw [hrecord] at hs
    exact (Action.score?_read hs).imp_right Moment.handed?_act.mpr
  · intro hraw
    exact Action.writesOnly_read (hraw a w rfl) h.handed

theorem enter (h : VariablesOnly settings ms w) {o : Opening} (he : o.enter w = .ok v) :
    VariablesOnly settings (ms ++ [.enter o w v]) v := by
  obtain ⟨entered, hentered, hs⟩ := Opening.stands_of_enter he []
  refine h.concat h.settings_eq ?_ ?_ ?_
  · have hsame := congrArg (fun u : Workspace => u.draft.settings) hs.recorded
    exact hsame.trans h.settings_eq
  · intro slot s hv
    exact .inl (Opening.handles_enter he ▸ hv)
  · intro _
    simp only [Moment.entries, hentered]
    exact Opening.writesOnly_entrance hentered _

end VariablesOnly

theorem Script.variablesOnly_run (s : Script) {w : Workspace} {settings : Settings}
    (hw : VariablesOnly settings [] w) : VariablesOnly settings (s.moments w) (s.run w).2 := by
  refine s.moments_induction (P := VariablesOnly settings) ?_ ?_ ?_ hw
  · exact fun ms a v h => h.act a
  · exact fun ms o v u h he => h.enter he
  · intro ms inner o v u body hv he h
    refine h.concat hv.settings_eq ?_ ?_ ?_
    · rw [Opening.draft_perform he body]
      exact h.settings_eq
    · intro slot s hs
      rw [Opening.score?_perform he body slot] at hs
      exact .inl hs
    · exact fun _ e he => absurd he List.not_mem_nil

namespace VariablesOnly

variable {settings : Settings} {ms : List Moment} {w : Workspace} {v : Score}

/-- A variable has the objective of the variables, and an accepted name that a step asked for or a
generated one. -/
theorem variable_of_mem (h : VariablesOnly settings ms w) (hv : v ∈ ms.filterMap Moment.handed?) :
    v.objective = settings.varObjective ∧
    ((NameKind.holder.Accepts v.holder ∧
        ∃ slot before, .act (.variable v.holder slot) before ∈ ms) ∨
      ∃ k, v.holder = generatedName "v" k) := by
  obtain ⟨x, hx, hhanded⟩ := List.mem_filterMap.mp hv
  cases x with
  | act a before =>
    have hsettings : before.draft.settings = settings := h.before_eq _ hx
    obtain ⟨hobjective, hname⟩ := Action.variable_of_result (Moment.handed?_act.mp hhanded)
    refine ⟨hobjective.trans (congrArg Settings.varObjective hsettings), ?_⟩
    rcases hname with ⟨haccepted, slot, rfl⟩ | ⟨slot, -, hname⟩
    · exact .inl ⟨haccepted, slot, before, hx⟩
    · exact .inr ⟨_, hname⟩
  | enter o before entered | leave o before after => nomatch hhanded

/-- A step that asks for an accepted name is handed that variable. -/
theorem mem_of_variable (h : VariablesOnly settings ms w) {name : String} {slot : Option Slot}
    {before : Workspace} (hmem : .act (.variable name slot) before ∈ ms)
    (hname : NameKind.holder.Accepts name) :
    ⟨name, settings.varObjective⟩ ∈ ms.filterMap Moment.handed? := by
  have hsettings : before.draft.settings = settings := h.before_eq _ hmem
  have hcheck : BuildError.checkName .holder name = .ok () := by
    rw [BuildError.checkName, NameKind.check_eq_ok.mpr hname]
    rfl
  refine List.mem_filterMap.mpr ⟨_, hmem, Moment.handed?_act.mpr ?_⟩
  simp only [Action.read, hcheck]
  rw [← hsettings]
  rfl

end VariablesOnly

/-! ## The names of constants -/

theorem toList_integer (n : Int) :
    (Text.integer n).toList = (if n < 0 then ['-'] else []) ++ Text.digits n.natAbs := by
  cases n with
  | ofNat k =>
    have hsign : ¬ Int.ofNat k < 0 := Int.not_lt.mpr (Int.natCast_nonneg k)
    rw [if_neg hsign]
    simp [Text.integer, Text.natural]
  | negSucc k =>
    rw [if_pos (Int.negSucc_lt_zero k)]
    simp [Text.integer, Text.natural]

theorem integer_injective {m n : Int32} (h : Text.integer m.toInt = Text.integer n.toInt) :
    m = n := by
  have hread : some m.toInt = some n.toInt := by
    rw [← readInteger?_integer, h, readInteger?_integer]
  exact Int32.toInt_inj.mp (Option.some.inj hread)

/-- A number is accepted as the name of a variable. -/
theorem accepts_integer (n : Int32) : NameKind.holder.Accepts (Text.integer n.toInt) := by
  have hne : (Text.integer n.toInt).toList ≠ [] := by
    rw [toList_integer]
    exact List.append_ne_nil_of_right_ne_nil _ (Text.digits_ne_nil _)
  have hplain : ∀ c ∈ (Text.integer n.toInt).toList, Name.isPlain c = true := by
    intro c hc
    rw [toList_integer, List.mem_append] at hc
    rcases hc with hc | hc
    · have hsign : c = '-' := by
        split at hc
        · exact List.mem_singleton.mp hc
        · exact absurd hc List.not_mem_nil
      exact hsign ▸ by decide
    · exact Name.isPlain_of_isDigit (Text.isDigit_of_mem_digits hc)
  have hlength : (Text.integer n.toInt).toList.length ≤ maxHolderLength := by
    have hlow : -2 ^ 31 ≤ n.toInt := Int32.le_toInt n
    have hhigh : n.toInt < 2 ^ 31 := Int32.toInt_lt n
    have hdigits : (Text.digits n.toInt.natAbs).length ≤ 10 :=
      Text.length_digits_le (by decide) (by omega)
    rw [toList_integer, List.length_append, maxHolderLength]
    split
    · rw [List.length_singleton]
      omega
    · rw [List.length_nil]
      omega
  have hreserved : Name.isGenerated (Text.integer n.toInt).toList ≠ true := by
    intro hgenerated
    have hlead := List.isPrefixOf_iff_prefix.mp hgenerated
    have hmem : '_' ∈ (Text.integer n.toInt).toList := hlead.subset List.mem_cons_self
    exact Text.notMem_integer (by decide) (by decide) n.toInt hmem
  have hholder := Name.holderFault?_of_plain hne hplain hlength
  rw [NameKind.Accepts, NameKind.fault?, hholder, Name.reservedFault?, if_neg hreserved]
  rfl

/-- No number starts like a generated name. -/
theorem integer_ne_generatedName (n : Int32) (kind : String) (k : Nat) :
    Text.integer n.toInt ≠ generatedName kind k :=
  NameKind.Accepts.ne_generatedName (.inl (accepts_integer n)) kind k

/-! ## Packs -/

namespace Pack

/-- Lines that write a score, in the contexts that a run leaves. -/
theorem variablesOnly (p : Pack) :
    VariablesOnly p.settings (p.script.moments p.start) (p.script.run p.start).2 := by
  refine p.script.variablesOnly_run ⟨rfl, fun x hx => absurd hx List.not_mem_nil, ?_, ?_⟩
  · intro slot v hv
    nomatch show none = some v from hv
  · exact fun _ e he => absurd he List.not_mem_nil

def asked (p : Pack) : List Entry := (p.script.moments p.start).flatMap Moment.entries

def handedOut (p : Pack) : List Score := (p.script.moments p.start).filterMap Moment.handed?

variable (p : Pack)

theorem lines_run (context : String) :
    (((p.script.run p.start).2.draft.buffers.get? context).getD []) =
      (linesOf p.settings p.asked context).map (Line.text ⟨p.space, p.settings⟩) := by
  obtain ⟨⟨q, n, hdraft⟩, -⟩ := p.script.run_posts p.start context
  rw [hdraft]
  exact Draft.getD_post_start p.space p.settings p.asked context

/-- The pool of a run holds the constants that the run asks for. -/
theorem mem_constants_iff (n : Int32) :
    n ∈ (p.script.run p.start).2.draft.constants.values ↔ .constant n ∈ p.asked := by
  obtain ⟨⟨q, k, hdraft⟩, -⟩ := p.script.run_posts p.start ""
  rw [hdraft]
  exact mem_values_iff p.asked n

/-- A variable has the score of a constant exactly if both objectives are one and a step asks for
the number as a name. -/
theorem constant_mem_handedOut_iff (n : Int32) :
    Score.constant p.settings.constObjective n ∈ p.handedOut ↔
      p.settings.varObjective = p.settings.constObjective ∧
        ∃ slot before, .act (.variable (Text.integer n.toInt) slot) before ∈
          p.script.moments p.start := by
  constructor
  · intro hmem
    obtain ⟨hobjective, ⟨-, hasked⟩ | ⟨k, hname⟩⟩ := p.variablesOnly.variable_of_mem hmem
    · exact ⟨hobjective.symm, hasked⟩
    · exact absurd hname (integer_ne_generatedName n "v" k)
  · rintro ⟨hobjective, slot, before, hasked⟩
    have hmem := p.variablesOnly.mem_of_variable hasked (accepts_integer n)
    rw [hobjective] at hmem
    exact hmem

theorem isPlain_of_mem_handedOut {v : Score} (hv : v ∈ p.handedOut) : IsPlain v := by
  obtain ⟨-, -, -, hobjectives, -⟩ := Settings.accepts_of_fault? p.accepted
  obtain ⟨hobjective, ⟨haccepted, -⟩ | ⟨k, hname⟩⟩ := p.variablesOnly.variable_of_mem hv
  · exact ⟨haccepted.space_notMem, hobjective ▸ hobjectives.space_notMem⟩
  · refine ⟨?_, hobjective ▸ hobjectives.space_notMem⟩
    rw [hname]
    exact notMem_generatedName (by decide) (by decide) (by decide) k

/-- Without raw lines, a line writes a score only if it declares a constant or changes a variable
that was handed out. -/
theorem target?_of_mem_lines (hraw : ∀ a ∈ p.script.actions, a.isRaw = false) {context : String}
    {l : Line} (hl : l ∈ linesOf p.settings p.asked context) {t : Score}
    (ht : l.target? ⟨p.space, p.settings⟩ = some t) :
    (∃ n, l = .constant n ∧ t = .constant p.settings.constObjective n) ∨ t ∈ p.handedOut := by
  have hwrites := p.variablesOnly.writes fun a before ha =>
    hraw a (Script.mem_actions_of_mem_moments ha)
  cases l with
  | written w =>
    rcases written_mem_of_mem hl with happend | hprepend
    · obtain ⟨htext, honly⟩ := hwrites _ happend
      have hplain : ∀ s ∈ w.command.changes?, IsPlain s := fun s hs =>
        p.isPlain_of_mem_handedOut (honly s hs)
      have hchanges : w.command.changes? = some t :=
        (Command.target?_text htext hplain p.settings).symm.trans ht
      exact .inr (honly t hchanges)
    · exact (hwrites _ hprepend).elim
  | constant n =>
    obtain ⟨-, -, -, -, hobjective⟩ := Settings.accepts_of_fault? p.accepted
    rw [Line.target?_constant (i := ⟨p.space, p.settings⟩) hobjective.space_notMem] at ht
    exact .inl ⟨n, rfl, (Option.some.inj ht).symm⟩
  | variableObjective =>
    rw [Line.target?_variableObjective] at ht
    nomatch ht
  | constantObjective =>
    rw [Line.target?_constantObjective] at ht
    nomatch ht
  | constantsCall =>
    rw [Line.target?_constantsCall] at ht
    nomatch ht

/-- Constants are written once, by their declarations. The contexts that a run leaves consist of
lines, each a command behind the text of the scopes around it. A variable that was handed out has the
score of a constant exactly if both objectives are one and a step asks for the number as a name. A
declared constant that no variable shares its score with is written by a single line, its declaration
in the context of the constants; no other line of any context writes that score. Raw lines may write
anything, so there are none. -/
theorem constant_written_once (hraw : ∀ a ∈ p.script.actions, a.isRaw = false) :
    let after := (p.script.run p.start).2.draft
    let i : Imprint := ⟨p.space, p.settings⟩
    let o := p.settings.constObjective
    let lines := linesOf p.settings p.asked
    (∀ context, (after.buffers.get? context).getD [] =
      (lines context).map fun l => l.lead ++ l.command i) ∧
    (∀ n, Score.constant o n ∈ p.handedOut ↔ p.settings.varObjective = o ∧
      ∃ slot before, .act (.variable (Text.integer n.toInt) slot) before ∈
        p.script.moments p.start) ∧
    ∀ n ∈ after.constants.values, ∃ front back,
      lines p.settings.constsContext = front ++ .constant n :: back ∧
      (Line.constant n).target? i = some (.constant o n) ∧
      (Score.constant o n ∉ p.handedOut →
        (∀ l ∈ front ++ back, l.target? i ≠ some (.constant o n)) ∧
        ∀ context, context ≠ p.settings.constsContext → ∀ l ∈ lines context,
          l.target? i ≠ some (.constant o n)) := by
  intro after i o lines
  obtain ⟨-, -, -, -, hobjective⟩ := Settings.accepts_of_fault? p.accepted
  refine ⟨?_, p.constant_mem_handedOut_iff, ?_⟩
  · intro context
    rw [p.lines_run context]
    exact List.map_congr_left fun l _ => l.text_eq_lead_append i
  · intro n hn
    obtain ⟨front, back, hlines, honce⟩ := exists_declaration (s := p.settings)
      ((p.mem_constants_iff n).mp hn)
    -- Where a line writes the score of `n`, it is the declaration of `n`.
    have honly (hapart : Score.constant o n ∉ p.handedOut) {context : String} {l : Line}
        (hl : l ∈ lines context) (ht : l.target? i = some (.constant o n)) : l = .constant n := by
      rcases p.target?_of_mem_lines hraw hl ht with ⟨m, rfl, hsame⟩ | hmem
      · rw [integer_injective (congrArg Score.holder hsame)]
      · exact absurd hmem hapart
    refine ⟨front, back, hlines, Line.target?_constant (i := i) hobjective.space_notMem n, ?_⟩
    intro hapart
    constructor
    · intro l hl ht
      have hmem : l ∈ lines p.settings.constsContext := by
        rw [show lines p.settings.constsContext = _ from hlines]
        rcases List.mem_append.mp hl with hl | hl
        · exact List.mem_append_left _ hl
        · exact List.mem_append_right _ (List.mem_cons_of_mem _ hl)
      exact honce (honly hapart hmem ht ▸ hl)
    · intro context hne l hl ht
      exact hne (constant_mem_of_mem (honly hapart hl ht ▸ hl)).1

def numbered : Pack where
  space := "demo"
  settings := {}
  script :=
    .act (.variable "5" none) false <|
    .act (.freshVariable (some "x")) false <|
    .inside (.when ⟨.score "x", .less, .literal 5⟩) false
      (.act (.change "5" (.set 7)) false <|
      .inside (.function "consts" none) false (.act (.change "5" (.multiply 3)) false .done) .done) <|
    .act (.change "x" (.multiply 5)) false .done
  accepted := Settings.fault?_demo

theorem constant_written_once_numbered :
    (∀ a ∈ numbered.script.actions, a.isRaw = false) ∧
    numbered.handedOut = [⟨"5", "var"⟩, ⟨"__v0", "var"⟩] ∧
    5 ∈ (numbered.script.run numbered.start).2.draft.constants.values ∧
    (numbered.script.run numbered.start).2.draft.buffers.get? "consts" =
      some ["scoreboard players set 5 const 5", "scoreboard players set 3 const 3",
        "scoreboard players operation 5 var *= 3 const"] ∧
    ∀ context, context ≠ "consts" → ∀ l ∈ linesOf numbered.settings numbered.asked context,
      l.target? ⟨numbered.space, numbered.settings⟩ ≠ some (.constant "const" 5) := by
  have hraw : ∀ a ∈ numbered.script.actions, a.isRaw = false := by decide +kernel
  have hdeclared : 5 ∈ (numbered.script.run numbered.start).2.draft.constants.values := by
    decide +kernel
  obtain ⟨-, -, hconstants⟩ := numbered.constant_written_once hraw
  obtain ⟨front, back, -, -, halone⟩ := hconstants 5 hdeclared
  have hapart : Score.constant numbered.settings.constObjective 5 ∉ numbered.handedOut := by
    decide +kernel
  exact ⟨hraw, by decide +kernel, hdeclared, by decide +kernel, (halone hapart).2⟩

def shared : Pack where
  space := "demo"
  settings := { varObjective := "score", constObjective := "score" }
  script :=
    .act (.variable "5" none) false <|
    .act (.change "5" (.set 7)) false <|
    .act (.variable "x" none) false <|
    .act (.change "x" (.multiply 5)) false .done
  accepted := by decide +kernel

/-- The constant 5 is set to 7 by the variable of that name, and then read as a factor. -/
theorem constant_overwritten :
    (∀ a ∈ shared.script.actions, a.isRaw = false) ∧
    shared.build.toOption.map (·.entries) = some
      [("default", ["scoreboard objectives add score dummy", "function demo:consts",
        "scoreboard objectives add score dummy", "scoreboard players set 5 score 7",
        "scoreboard players operation x score *= 5 score"]),
      ("consts", ["scoreboard players set 5 score 5"])] ∧
    5 ∈ (shared.script.run shared.start).2.draft.constants.values ∧
    Score.constant "score" 5 ∈ shared.handedOut ∧
    ¬ ∀ l ∈ linesOf shared.settings shared.asked "default",
      l.target? ⟨shared.space, shared.settings⟩ ≠ some (Score.constant "score" 5) := by
  decide +kernel

end Pack

end CommandPack
