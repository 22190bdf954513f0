import CommandPack.Proofs.CalledContexts
import CommandPack.Proofs.ConstantScores
import CommandPack.Proofs.Files.OwnFiles
import CommandPack.Proofs.OneLine

namespace CommandPack

/-! ## What is remembered from step to step -/

structure Imprint.Single (i : Imprint) : Prop where
  space : OneLine i.space
  default : OneLine i.settings.defaultContext
  consts : OneLine i.settings.constsContext
  varObjective : OneLine i.settings.varObjective
  constObjective : OneLine i.settings.constObjective

theorem Pack.single_imprint (p : Pack) : Imprint.Single ⟨p.space, p.settings⟩ := by
  obtain ⟨hspace, hdefault, hconsts, hvar, hconst⟩ := Settings.accepts_of_fault? p.accepted
  exact ⟨hspace.oneLine, hdefault.oneLine, hconsts.oneLine, hvar.oneLine, hconst.oneLine⟩

theorem FunctionName.oneLine {context : String} (h : FunctionName context) : OneLine context := by
  rcases h with h | ⟨k, rfl⟩
  · exact h.oneLine
  · exact oneLine_generatedName (by decide) k

/-- What holds of all values holds of them with one more that it holds of. -/
theorem KeyedList.forall_get?_insert {κ ν : Type} [DecidableEq κ] {m : KeyedList κ ν}
    {P : ν → Prop} (hm : ∀ k v, m.get? k = some v → P v) (k : κ) {v : ν} (hv : P v) :
    ∀ k' v', (m.insert k v).get? k' = some v' → P v' := by
  intro k' v' h
  rcases of_get?_insert h with h | rfl
  · exact hm k' v' h
  · exact hv

namespace Handles.Single

variable {h : Handles}

theorem empty : Handles.Single {} where
  scores _ _ hs := nomatch show none = some _ from hs
  selectors _ _ hs := nomatch show none = some _ from hs
  bars _ _ hb := nomatch show none = some _ from hb
  functions _ _ hf := nomatch show none = some _ from hf

theorem keepScore (hh : h.Single) (slot : Option Slot) {s : Score} (hs : OneLine s.text) :
    (h.keepScore slot s).Single :=
  { hh with scores := KeyedList.forall_get?_insert hh.scores _ hs }

theorem keepSelector (hh : h.Single) (slot : Slot) {s : Selector} (hs : OneLine s.text) :
    (h.keepSelector slot s).Single :=
  { hh with selectors := KeyedList.forall_get?_insert hh.selectors _ hs }

theorem keepBar (hh : h.Single) (slot : Option Slot) {b : BossBar} (hb : OneLine b.text) :
    (h.keepBar slot b).Single :=
  { hh with bars := KeyedList.forall_get?_insert hh.bars _ hb }

theorem keepFunction (hh : h.Single) (slot : Option Slot) {f : FunctionRef} (hf : OneLine f.text) :
    (h.keepFunction slot f).Single :=
  { hh with functions := KeyedList.forall_get?_insert hh.functions _ hf }

end Handles.Single

/-- What an action keeps is made of names and of texts that it takes as they are given. -/
theorem Action.single_read {a : Action} {p : Site} {m : Memory} (hi : p.imprint.Single)
    (hm : m.handles.Single) (ha : ∀ t ∈ a.verbatim, OneLine t) :
    (a.read p m).memory.handles.Single := by
  have hvariable {name : String} (hname : OneLine name) :
      OneLine (Score.text ⟨name, p.imprint.settings.varObjective⟩) :=
    oneLine_append.mpr ⟨oneLine_append.mpr ⟨hname, by decide⟩, hi.varObjective⟩
  have hread := a.remembers_read p m
  generalize a.read p m = r at hread ⊢
  cases hread with
  | same _ _ => exact hm
  | «variable» slot hname => exact hm.keepScore slot (hvariable hname.oneLine)
  | freshVariable slot =>
    exact hm.keepScore slot (hvariable (oneLine_generatedName (by decide) m.generated))
  | selector slot s => exact hm.keepSelector slot (Selector.oneLine_text ha)
  | bossBar title slot hid => exact hm.keepBar slot (BossBar.oneLine_text hi.space hid.oneLine)

/-! ## Where scripts stand -/

namespace Opening

variable {o : Opening} {p : Site} {m : Memory}

theorem oneLine_foldl_append {fragments : List String} (h : ∀ t ∈ fragments, OneLine t)
    {lead : String} (hlead : OneLine lead) : OneLine (fragments.foldl (· ++ ·) lead) := by
  induction fragments generalizing lead with
  | nil => exact hlead
  | cons f fs ih =>
    obtain ⟨hf, hfs⟩ := List.forall_mem_cons.mp h
    exact ih hfs (oneLine_append.mpr ⟨hlead, hf⟩)

/-- The text of scopes is made of fragments as they are given and of what slots hold. -/
theorem oneLine_lead (hi : p.imprint.Single) (hm : m.handles.Single)
    (ho : ∀ t ∈ o.verbatim, OneLine t) (hlead : OneLine p.lead) {entered : Reading Site}
    (h : o.entrance p m = .ok entered) : OneLine entered.result.lead := by
  cases o with
  | scope fragment =>
    cases h
    exact oneLine_append.mpr ⟨hlead, ho fragment List.mem_cons_self⟩
  | nest fragments =>
    cases h
    rw [Site.foldl_within]
    exact oneLine_foldl_append ho hlead
  | when c | whenScore slot c =>
    cases entered_of_entrance h with
    | guarded d hd _ =>
      have hscores : ∀ s ∈ d.scores, OneLine s.text := by
        intro s hs
        obtain ⟨slot, hslot⟩ := found_of_condition? hd s hs
        exact hm.scores slot s hslot
      exact oneLine_append.mpr ⟨hlead, Condition.oneLine_guard hi.constObjective hscores⟩
    | inScope lead hd _ =>
      simp only [entrance, hd, reduceCtorEq] at h
    | function name generated slot _ hf => cases hf
  | forEach slot =>
    simp only [entrance] at h
    cases hs : m.handles.selector? slot with
    | none => simp only [hs, reduceCtorEq] at h
    | some s =>
      simp only [hs] at h
      cases h
      exact oneLine_append.mpr ⟨hlead, Selector.oneLine_guard (hm.selectors slot s hs)⟩
  | function name slot =>
    simp only [entrance] at h
    cases hn : BuildError.checkName .context name with
    | error e => simp only [hn, reduceCtorEq] at h
    | ok u =>
      simp only [hn] at h
      cases h
      exact List.not_mem_nil
  | anonymousFunction slot | tick slot =>
    cases h
    exact List.not_mem_nil

end Opening

/-! ## Runs -/

/-- The texts that are taken as they are given at a moment. -/
def Moment.verbatim : Moment → List String
  | .act a _ => a.verbatim
  | .enter o _ _ => o.verbatim
  | .leave _ _ _ => []

/-- Nothing that was written or is kept after these moments has a line feed. -/
structure SingleLines (i : Imprint) (ms : List Moment) (w : Workspace) : Prop where
  imprint : w.draft.imprint = i
  lead : OneLine w.draft.place.scopes.text
  context : OneLine w.draft.place.context
  handles : w.handles.Single
  written : ∀ e ∈ ms.flatMap Moment.entries, ∀ l, e.line? = some l →
    OneLine ((Line.written l).text i)

namespace SingleLines

variable {i : Imprint} {ms : List Moment} {w v : Workspace} {x : Moment}

theorem start {i : Imprint} (hi : i.Single) :
    SingleLines i [] { draft := .start i.space i.settings } where
  imprint := rfl
  lead := List.not_mem_nil
  context := hi.default
  handles := .empty
  written _ he := absurd he List.not_mem_nil

theorem written_concat (h : SingleLines i ms w)
    (hx : ∀ e ∈ x.entries, ∀ l, e.line? = some l → OneLine ((Line.written l).text i)) :
    ∀ e ∈ (ms ++ [x]).flatMap Moment.entries, ∀ l, e.line? = some l →
      OneLine ((Line.written l).text i) := by
  intro e he
  rw [List.flatMap_append, List.flatMap_singleton, List.mem_append] at he
  exact he.elim (h.written e) (hx e)

/-- The line of an action stands behind the scopes that are open, or behind nothing. -/
theorem act (hi : i.Single) (h : SingleLines i ms w) {a : Action}
    (ha : ∀ t ∈ a.verbatim, OneLine t) : SingleLines i (ms ++ [.act a w]) (a.perform w).2 := by
  have hsite : w.draft.imprint.Single := h.imprint ▸ hi
  have hwritten := h.written_concat (x := .act a w) (by
    intro e he l hl
    obtain ⟨hlead, hcommand⟩ := Action.writes_of_mem_read he hl
    have htext := hcommand.oneLine hsite.space h.handles ha hi.constObjective
    refine oneLine_append.mpr ⟨?_, htext⟩
    rcases hlead with hlead | hlead <;> rw [hlead]
    · exact h.lead
    · exact List.not_mem_nil)
  rw [a.perform_eq_record w []]
  exact ⟨h.imprint, h.lead, h.context, Action.single_read hsite h.handles ha, hwritten⟩

theorem enter (hi : i.Single) (h : SingleLines i ms w) {o : Opening} (he : o.enter w = .ok v)
    (ho : ∀ t ∈ o.verbatim, OneLine t) : SingleLines i (ms ++ [.enter o w v]) v := by
  obtain ⟨entered, hentered, hv⟩ := Opening.stands_of_enter he []
  have hsite : w.draft.imprint.Single := h.imprint ▸ hi
  have hlead := Opening.oneLine_lead hsite h.handles ho h.lead hentered
  have himprint := congrArg (fun u : Workspace => u.draft.imprint) hv.recorded
  refine ⟨himprint.trans h.imprint, ?_, ?_, ?_, h.written_concat ?_⟩
  · rwa [← hv.site] at hlead
  · rw [hv.context]
    rcases Opening.functionName_of_entrance hentered with hsame | hname
    · rw [hsame]
      exact h.context
    · exact hname.oneLine
  · rw [Opening.handles_enter he]
    exact h.handles
  · intro e hmem l hl
    simp only [Moment.entries, hentered] at hmem
    rw [Opening.line?_of_mem_entrance hentered hmem] at hl
    cases hl

theorem leave (hi : i.Single) {inner : List Moment} (h : SingleLines i ms w) {o : Opening}
    (he : o.enter w = .ok v) {body : Script} (hin : SingleLines i (ms ++ inner) (body.run v).2) :
    SingleLines i (ms ++ inner ++ [.leave o w (o.perform body.run w).2])
      (o.perform body.run w).2 := by
  have hdraft := o.draft_perform he body
  have hplace := o.perform_place body w
  refine ⟨?_, ?_, ?_, ?_, hin.written_concat fun e he => absurd he List.not_mem_nil⟩
  · rw [hdraft]
    exact hin.imprint
  · rw [hplace]
    exact h.lead
  · rw [hplace]
    exact h.context
  · rcases Opening.handles_perform he body with hsame | ⟨slot, hkept⟩
    · rw [hsame]
      exact hin.handles
    · rw [hkept, ← Opening.handle_run body v]
      have hspace : OneLine (body.run v).2.draft.imprint.space := hin.imprint ▸ hi.space
      exact hin.handles.keepFunction slot (FunctionRef.oneLine_text hspace hin.context)

end SingleLines

/-- If the texts that are taken as they are given at the moments of a run have no line feed, nothing
that the run writes or keeps has one. -/
theorem Script.singleLines_run (s : Script) {i : Imprint} (hi : i.Single)
    (h : ∀ t ∈ (s.moments { draft := .start i.space i.settings }).flatMap Moment.verbatim,
      OneLine t) :
    SingleLines i (s.moments { draft := .start i.space i.settings })
      (s.run { draft := .start i.space i.settings }).2 := by
  have hsplit {ms later : List Moment}
      (h : ∀ t ∈ (ms ++ later).flatMap Moment.verbatim, OneLine t) :
      (∀ t ∈ ms.flatMap Moment.verbatim, OneLine t) ∧
        ∀ t ∈ later.flatMap Moment.verbatim, OneLine t := by
    rwa [List.flatMap_append, List.forall_mem_append] at h
  refine s.moments_induction (P := fun ms v =>
    (∀ t ∈ ms.flatMap Moment.verbatim, OneLine t) → SingleLines i ms v) ?_ ?_ ?_
    (fun _ => .start hi) h
  · intro ms a w hw hall
    obtain ⟨hms, ha⟩ := hsplit hall
    rw [List.flatMap_singleton] at ha
    exact (hw hms).act hi ha
  · intro ms o w v hw he hall
    obtain ⟨hms, ho⟩ := hsplit hall
    rw [List.flatMap_singleton] at ho
    exact (hw hms).enter hi he ho
  · intro ms inner o w v body hw he hin hall
    obtain ⟨hinner, -⟩ := hsplit hall
    obtain ⟨hms, -⟩ := hsplit hinner
    exact (hw hms).leave hi he (hin hinner)

/-! ## Files -/

def Buffers.splitLines (text : String) : List String :=
  (Text.segments '\n' text.toList).map String.ofList

/-- Lines without line feeds can be read back from their file, if there are any. -/
theorem Buffers.splitLines_joinLines {lines : List String} (h : ∀ l ∈ lines, OneLine l)
    (hne : lines ≠ []) : splitLines (joinLines lines) = lines := by
  have hpieces : ∀ s ∈ lines.map String.toList, '\n' ∉ s := by
    intro s hs
    obtain ⟨l, hl, rfl⟩ := List.mem_map.mp hs
    exact h l hl
  have hjoined : (joinLines lines).toList = ['\n'].intercalate (lines.map String.toList) :=
    String.toList_intercalate
  rw [splitLines, hjoined, Text.segments_intercalate hpieces (by simpa using hne), List.map_map]
  exact List.map_id'' (fun _ => String.ofList_toList) lines

/-- Every line of a context comes from a command or is a declaration. -/
theorem Line.oneLine {i : Imprint} (hi : i.Single) {es : List Entry}
    (h : ∀ e ∈ es, ∀ w, e.line? = some w → OneLine ((Line.written w).text i)) {context : String}
    {l : Line} (hl : l ∈ linesOf i.settings es context) : OneLine (l.text i) := by
  have hobjective {objective : String} (ho : OneLine objective) :
      OneLine (addObjectiveCommand objective) := by
    unfold addObjectiveCommand
    simp only [oneLine_append, ho, and_true]
    decide +kernel
  cases l with
  | written w =>
    rcases written_mem_of_mem hl with hmem | hmem <;> exact h _ hmem w rfl
  | variableObjective => exact hobjective hi.varObjective
  | constantObjective => exact hobjective hi.constObjective
  | constantsCall =>
    exact FunctionRef.oneLine_callCommand (FunctionRef.oneLine_text hi.space hi.consts)
  | constant n =>
    have hscore := Score.oneLine_constant hi.constObjective n
    exact ScoreChange.oneLine_command (c := .set n) hscore hi.constObjective (by simp)

namespace Pack

/-- One command is one line. If the texts that steps of the run take as they are given have no line
feed, then after the run, whether it failed or not, no line of a context has one. The titles of bars
and all texts in entity data are free. The file of a context with lines can be read back as just
these lines. -/
theorem lines_read_back (p : Pack)
    (h : ∀ t ∈ (p.script.moments p.start).flatMap Moment.verbatim, OneLine t) :
    let b := (p.script.run p.start).2.draft.buffers
    ∀ context lines, b.get? context = some lines →
      (∀ line ∈ lines, OneLine line) ∧
      b.content? context = some (Buffers.joinLines lines) ∧
      (lines ≠ [] → Buffers.splitLines (Buffers.joinLines lines) = lines) ∧
      ∀ directory hooks,
        ((p.layout directory).functionPath context, Buffers.joinLines lines) ∈
          ((p.layout directory).plan hooks b).writes := by
  intro b context lines hlines
  have hrun := p.script.singleLines_run p.single_imprint h
  have hone : ∀ line ∈ lines, OneLine line := by
    intro line hline
    have hcontext := p.lines_run context
    rw [show b.get? context = some lines from hlines, Option.getD_some] at hcontext
    rw [hcontext] at hline
    obtain ⟨l, hl, rfl⟩ := List.mem_map.mp hline
    exact Line.oneLine p.single_imprint hrun.written hl
  refine ⟨hone, ?_, Buffers.splitLines_joinLines hone, fun directory hooks => ?_⟩
  · rw [Buffers.content?, hlines]
    rfl
  · rw [Layout.writes_plan]
    exact ((p.layout directory).mem_written hooks b).mpr
      (.inr ⟨(context, lines), b.get?_eq_some_iff.mp hlines, rfl⟩)

def brokenTexts : Pack where
  space := "demo"
  settings := {}
  script :=
    .act (.selector "all" { filters := { team := some "red" }, atPlace := true }) false <|
    .act (.bossBar "clock" "Tick\nTock" none) false <|
    .inside (.forEach "all") false
      (.act (.summon ⟨"zombie", some (.free (.record [("na\nme", .text "\n\\")]))⟩ "~" "~1" "~")
        false .done) <|
    .act (.freshVariable (some "x")) false <|
    .act (.change "x" (.multiply (-3))) false .done
  accepted := Settings.fault?_demo

theorem lines_read_back_broken_texts :
    let b := (brokenTexts.script.run brokenTexts.start).2.draft.buffers
    (∀ t ∈ (brokenTexts.script.moments brokenTexts.start).flatMap Moment.verbatim, OneLine t) ∧
    b.get? "default" = some
      ["scoreboard objectives add const dummy", "function demo:consts",
        "scoreboard objectives add var dummy", "bossbar add demo:clock \"Tick\\nTock\"",
        "execute as @a[team=red] at @s run summon zombie ~ ~1 ~ " ++
          "\x7b\"na\\nme\":\"\\n\\\\\"\x7d",
        "scoreboard players operation __v0 var *= -3 const"] ∧
    ∀ lines, b.get? "default" = some lines →
      (∀ line ∈ lines, OneLine line) ∧ Buffers.splitLines (Buffers.joinLines lines) = lines := by
  intro b
  have hverbatim : ∀ t ∈ (brokenTexts.script.moments brokenTexts.start).flatMap Moment.verbatim,
      OneLine t := by decide +kernel
  have hsome : b.get? "default" ≠ some [] := by decide +kernel
  refine ⟨hverbatim, by decide +kernel, fun lines hlines => ?_⟩
  obtain ⟨hone, -, hsplit, -⟩ := brokenTexts.lines_read_back hverbatim "default" lines hlines
  exact ⟨hone, hsplit fun hnil => hsome (hnil ▸ hlines)⟩

end Pack

end CommandPack
