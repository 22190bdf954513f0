import CommandPack.Proofs.ConstantUses
import CommandPack.Proofs.Lines

namespace CommandPack

/-! ## What a run asks for -/

def Entry.written (context : String) : Entry → List Line
  | .append c w => if c = context then [.written w] else []
  | .touch _ | .prepend _ _ | .objective | .constant _ => []

namespace Moment

def entries : Moment → List Entry
  | .act a before => (a.read (before.draft.site []) before.memory).entries
  | .enter o before _ =>
    match o.entrance (before.draft.site []) before.memory with
    | .error _ => []
    | .ok entered => entered.entries
  | .leave _ _ _ => []

/-- The lines appended to a context at a moment, behind the text of the scopes that are open then. -/
def appended (context : String) : Moment → List String
  | .act a before =>
    ((a.read (before.draft.site []) before.memory).entries.flatMap (Entry.written context)).map
      (Line.text before.draft.imprint)
  | .enter _ _ _ | .leave _ _ _ => []

def fronted : Moment → List String
  | .act (.declareFirst context _) _ => [context]
  | _ => []

end Moment

theorem written_map_constant (context : String) (ns : List Int32) :
    (ns.map Entry.constant).flatMap (Entry.written context) = [] := by
  induction ns with
  | nil => rfl
  | cons n ns ih => exact ih

/-- Entering a step appends no line. -/
theorem Opening.written_entrance {o : Opening} {p : Site} {m : Memory} {entered : Reading Site}
    (h : o.entrance p m = .ok entered) (context : String) :
    entered.entries.flatMap (Entry.written context) = [] := by
  cases entered_of_entrance h with
  | inScope lead hc hf => rfl
  | guarded c hc hf => exact written_map_constant context c.literals
  | function name generated slot hc hf => rfl

/-- A draft after the entries of these moments were posted to `d`, at any place. -/
def Draft.Posted (d : Draft) (context : String) (ms : List Moment) (d' : Draft) : Prop :=
  (∃ p n, d' = { d.post (ms.flatMap Moment.entries) with place := p, generated := n }) ∧
  ms.flatMap (Moment.appended context) =
    ((ms.flatMap Moment.entries).flatMap (Entry.written context)).map (Line.text d.imprint)

namespace Draft.Posted

variable {d d' : Draft} {context : String} {ms : List Moment} {w v : Workspace}

theorem nil (d : Draft) (context : String) : d.Posted context [] d :=
  ⟨⟨d.place, d.generated, rfl⟩, rfl⟩

theorem imprint (h : d.Posted context ms d') : d'.imprint = d.imprint := by
  obtain ⟨⟨p, n, rfl⟩, -⟩ := h
  rfl

theorem leave (h : d.Posted context ms d') (o : Opening) (w v : Workspace) (p : Place) :
    d.Posted context (ms ++ [.leave o w v]) (d'.returnTo p) := by
  obtain ⟨⟨-, n, rfl⟩, happended⟩ := h
  rw [Posted, List.flatMap_append, List.flatMap_append, happended]
  simp only [List.flatMap_singleton, Moment.entries, Moment.appended, List.append_nil]
  exact ⟨⟨p, n, rfl⟩, trivial⟩

/-- What a moment asks for is posted, and its lines are appended. -/
theorem record (h : d.Posted context ms w.draft) (x : Moment) (m : Memory)
    (hx : x.appended context =
      (x.entries.flatMap (Entry.written context)).map (Line.text w.draft.imprint)) :
    d.Posted context (ms ++ [x]) (w.record x.entries m).draft := by
  have himprint := h.imprint
  obtain ⟨⟨p, n, hw⟩, happended⟩ := h
  constructor
  · refine ⟨p, m.generated, ?_⟩
    rw [List.flatMap_append, List.flatMap_singleton, post_append, Workspace.record, hw]
    rfl
  · simp only [List.flatMap_append, List.flatMap_singleton, List.map_append, happended, hx,
      himprint]

theorem act (h : d.Posted context ms w.draft) (a : Action) :
    d.Posted context (ms ++ [.act a w]) (a.perform w).2.draft := by
  rw [a.perform_eq_record w []]
  exact h.record (.act a w) _ rfl

theorem enter (h : d.Posted context ms w.draft) {o : Opening} (he : o.enter w = .ok v) :
    d.Posted context (ms ++ [.enter o w v]) v.draft := by
  obtain ⟨entered, hentered, hv⟩ := Opening.stands_of_enter he []
  have hentries : (Moment.enter o w v).entries = entered.entries := by
    simp only [Moment.entries, hentered]
  have hrecord := h.record (.enter o w v) entered.memory (by
    rw [hentries, Opening.written_entrance hentered]
    rfl)
  rw [hentries, ← hv.recorded] at hrecord
  obtain ⟨⟨p, n, hdraft⟩, happended⟩ := hrecord
  exact ⟨⟨v.draft.place, n, congrArg (Draft.returnTo · v.draft.place) hdraft⟩, happended⟩

end Draft.Posted

/-- A run posts what its moments ask for, in their order. -/
theorem Script.run_posts (s : Script) (w : Workspace) (context : String) :
    w.draft.Posted context (s.moments w) (s.run w).2.draft := by
  refine s.moments_induction (P := fun ms v => w.draft.Posted context ms v.draft)
    (fun _ a _ h => h.act a) (fun _ _ _ _ h he => h.enter he) ?_ (.nil w.draft context)
  intro ms inner o outer v body _ he hinner
  have hleave := hinner.leave o outer (o.perform body.run outer).2 outer.draft.place
  rwa [← o.draft_perform he body] at hleave

/-! ## What was needed first -/

/-- What makes declarations in front of the default context necessary. -/
inductive Need
  | variables | constants
deriving DecidableEq, Repr

def Entry.need? : Entry → Option Need
  | .objective => some .variables
  | .constant _ => some .constants
  | .touch _ | .append _ _ | .prepend _ _ => none

/-- A variable that is made needs their objective, and every use of a constant needs the constants.
A refused name needs nothing. -/
def Action.needs (a : Action) (h : Handles) : List Need :=
  match a with
  | .variable name _ => if NameKind.holder.Accepts name then [.variables] else []
  | .freshVariable _ => [.variables]
  | _ => (a.uses h).map fun _ => .constants

def Moment.needs : Moment → List Need
  | .act a before => a.needs before.handles
  | .enter o before _ => (o.uses before.handles).map fun _ => .constants
  | .leave _ _ _ => []

theorem filterMap_need? {es : List Entry} (h : .objective ∉ es) :
    es.filterMap Entry.need? = (es.flatMap Entry.uses).map fun _ => Need.constants := by
  induction es with
  | nil => rfl
  | cons e es ih =>
    obtain ⟨he, hes⟩ := not_or.mp (List.mem_cons.not.mp h)
    rw [List.flatMap_cons, List.map_append, ← ih hes]
    cases e with
    | objective => exact absurd rfl he
    | constant n | touch c | append c w | prepend c w => rfl

/-- The needs of an action are those of what it asks for. -/
theorem Action.needs_read (a : Action) (p : Site) (m : Memory) :
    (a.read p m).entries.filterMap Entry.need? = a.needs m.handles := by
  have huses (h : ∀ e ∈ (a.read p m).entries, e ≠ .objective) :
      (a.read p m).entries.filterMap Entry.need? =
        (a.uses m.handles).map fun _ => Need.constants := by
    rw [filterMap_need? fun hm => h _ hm rfl, a.uses_read]
  cases a with
  | «variable» name slot =>
    simp only [read, needs, ← NameKind.check_eq_ok, BuildError.checkName]
    cases NameKind.holder.check name with
    | error e => rfl
    | ok u => rfl
  | freshVariable slot => rfl
  | _ =>
    refine huses fun e he hobjective => ?_
    have hask := Action.asks_of_mem_read (hobjective ▸ he)
    cases hask

/-- A step that is not entered uses no constant. -/
theorem Opening.uses_of_not_entered {o : Opening} {p : Site} {m : Memory} {outcome : Outcome}
    (h : o.entrance p m = .error outcome) : o.uses m.handles = [] := by
  cases hc : o.condition? m.handles with
  | none => simp only [uses, hc]
  | some c =>
    cases o with
    | when d => simp only [entrance, hc, reduceCtorEq] at h
    | whenScore slot d => simp only [entrance, hc, reduceCtorEq] at h
    | scope _ | nest _ | forEach _ | function _ _ | anonymousFunction _ | tick _ => cases hc

theorem Opening.objective_notMem_entrance {o : Opening} {p : Site} {m : Memory}
    {entered : Reading Site} (h : o.entrance p m = .ok entered) : .objective ∉ entered.entries := by
  cases entered_of_entrance h with
  | inScope lead hc hf => exact List.not_mem_nil
  | guarded c hc hf => simp
  | function name generated slot hc hf => simp

/-- The needs of a moment are those of what it asks for. -/
theorem Moment.needs_entries (x : Moment) : x.entries.filterMap Entry.need? = x.needs := by
  cases x with
  | act a before => exact a.needs_read _ _
  | leave o before after => rfl
  | enter o before entered =>
    simp only [entries, needs]
    cases he : o.entrance (before.draft.site []) before.memory with
    | error outcome =>
      have huses : o.uses before.handles = [] := Opening.uses_of_not_entered he
      rw [huses]
      rfl
    | ok r =>
      have huses : r.entries.flatMap Entry.uses = o.uses before.handles :=
        (Opening.entries_entrance he).1
      rw [filterMap_need? (Opening.objective_notMem_entrance he), huses]

theorem filterMap_need?_moments (ms : List Moment) :
    (ms.flatMap Moment.entries).filterMap Entry.need? = ms.flatMap Moment.needs := by
  induction ms with
  | nil => rfl
  | cons x ms ih =>
    rw [List.flatMap_cons, List.filterMap_append, ih, x.needs_entries, List.flatMap_cons]

/-! ## The block in front -/

def Need.lines : Need → List Line
  | .variables => [.variableObjective]
  | .constants => [.constantObjective, .constantsCall]

/-- The block in front after these needs. A need that arises again adds nothing, and a need that
arises later stands in front of an earlier one. -/
def frontBlock (needs : List Need) : List Line := needs.eraseDups.reverse.flatMap Need.lines

/-- A new need puts its lines on top of the block. -/
theorem frontBlock_concat (needs : List Need) (n : Need) :
    frontBlock (needs ++ [n]) =
      (if n ∈ needs then [] else n.lines) ++ frontBlock needs := by
  rw [frontBlock, eraseDups_concat]
  split
  · rfl
  · rw [List.reverse_append, List.flatMap_append]
    exact congrArg (· ++ _) (List.flatMap_singleton ..)

theorem variables_mem_iff (es : List Entry) :
    .variables ∈ es.filterMap Entry.need? ↔ .objective ∈ es := by
  rw [List.mem_filterMap]
  constructor
  · rintro ⟨e, he, hneed⟩
    cases e with
    | objective => exact he
    | _ => simp [Entry.need?] at hneed
  · exact fun h => ⟨.objective, h, rfl⟩

theorem constants_mem_iff (es : List Entry) :
    .constants ∈ es.filterMap Entry.need? ↔ ∃ n, .constant n ∈ es := by
  rw [List.mem_filterMap]
  constructor
  · rintro ⟨e, he, hneed⟩
    cases e with
    | constant n => exact ⟨n, he⟩
    | _ => simp [Entry.need?] at hneed
  · exact fun ⟨n, hn⟩ => ⟨.constant n, hn, rfl⟩

/-- What an entry puts above the lines of the default context is its part of the block. -/
theorem above_default (s : Settings) (es : List Entry) {e : Entry}
    (he : ∀ w, e ≠ .prepend s.defaultContext w) :
    e.above s (registerAfter {} es) s.defaultContext ++ frontBlock (es.filterMap Entry.need?) =
      frontBlock ((es ++ [e]).filterMap Entry.need?) := by
  rw [List.filterMap_append]
  cases e with
  | objective =>
    have hneed : [Entry.objective].filterMap Entry.need? = [Need.variables] := rfl
    rw [hneed, frontBlock_concat]
    congr 1
    simp only [Entry.above, variables_mem_iff, ← objective_claimed_iff, true_and]
    cases (registerAfter {} es).variableObjective.claimed <;> rfl
  | constant n =>
    have hneed : [Entry.constant n].filterMap Entry.need? = [Need.constants] := rfl
    rw [hneed, frontBlock_concat]
    congr 1
    simp only [Entry.above, constants_mem_iff, ← constants_claimed_iff, true_and]
    cases (registerAfter {} es).constants.objective.claimed <;> rfl
  | prepend c w =>
    have hc : c ≠ s.defaultContext := fun hc => he w (hc ▸ rfl)
    change _ = frontBlock (_ ++ [])
    rw [List.append_nil, Entry.above, if_neg hc, List.nil_append]
  | touch c | append c w =>
    change _ = frontBlock (_ ++ [])
    rw [List.append_nil]
    rfl

/-- Nothing is declared below the block. -/
theorem below_default {s : Settings} (hne : s.constsContext ≠ s.defaultContext) (r : Register)
    (e : Entry) : e.below s r s.defaultContext = e.written s.defaultContext := by
  cases e with
  | constant n => exact if_neg fun h => hne h.1
  | append c w | touch c | prepend c w | objective => rfl

/-- If nothing else is put in front of the default context, its lines are the block and what was
appended to it. -/
theorem linesOf_default {s : Settings} (hne : s.constsContext ≠ s.defaultContext)
    {es : List Entry} (hes : ∀ w, .prepend s.defaultContext w ∉ es) :
    linesOf s es s.defaultContext =
      frontBlock (es.filterMap Entry.need?) ++ es.flatMap (Entry.written s.defaultContext) := by
  induction es using List.reverseRecOn with
  | nil => rfl
  | append_singleton es e ih =>
    have hlast : ∀ w, e ≠ .prepend s.defaultContext w := fun w hw =>
      hes w (List.mem_append_right _ (hw ▸ List.mem_cons_self))
    have hearlier : ∀ w, .prepend s.defaultContext w ∉ es := fun w hw =>
      hes w (List.mem_append_left _ hw)
    rw [linesOf_concat, ih hearlier, below_default hne, ← List.append_assoc,
      above_default s es hlast, List.flatMap_append, List.flatMap_singleton, List.append_assoc]

/-! ## Runs on a new draft -/

theorem foldl_onto_some (context : String) (evs : List Event) (ls : List Line) :
    evs.foldl (Event.onto context) (some ls) = some (evs.foldl (Event.write context) ls) := by
  induction evs generalizing ls with
  | nil => rfl
  | cons ev evs ih =>
    have hev : ev.onto context (some ls) = some (ev.write context ls) := by
      cases ev <;> simp only [Event.onto, Event.write, Option.getD_some] <;> split <;> rfl
    rw [List.foldl_cons, hev, ih]
    rfl

/-- The default context of a new draft holds its lines after every journal. -/
theorem Draft.get?_default_post (space : String) (settings : Settings) (es : List Entry) :
    ((Draft.start space settings).post es).buffers.get? settings.defaultContext =
      some ((linesOf settings es settings.defaultContext).map (Line.text ⟨space, settings⟩)) := by
  have hstart : (Draft.start space settings).buffers.get? settings.defaultContext =
      (some []).map (·.map (Line.text ⟨space, settings⟩)) := by
    simp only [Draft.start, Buffers.get?_touch, if_true]
    rfl
  have hget := get?_foldl_apply ⟨space, settings⟩ (eventsOf settings {} es) hstart
  rw [foldl_onto_some] at hget
  exact hget

def Imprint.front (i : Imprint) (needs : List Need) : List String :=
  let addVariables := addObjectiveCommand i.settings.varObjective
  let addConstants := addObjectiveCommand i.settings.constObjective
  let callConstants := FunctionRef.callCommand ⟨i.space, i.settings.constsContext⟩
  match needs.eraseDups with
  | [] => []
  | [.variables] => [addVariables]
  | [.constants] => [addConstants, callConstants]
  | .variables :: _ => [addConstants, callConstants, addVariables]
  | .constants :: _ => [addVariables, addConstants, callConstants]

theorem nodup_eraseDups {α : Type} [DecidableEq α] (us : List α) : us.eraseDups.Nodup := by
  induction us using List.reverseRecOn with
  | nil => simp
  | append_singleton us u ih =>
    rw [eraseDups_concat]
    split
    · exact ih
    · rename_i hu
      refine List.nodup_append.mpr ⟨ih, by simp, ?_⟩
      intro x hx y hy
      rw [List.mem_singleton.mp hy]
      exact fun hxu => hu (List.mem_eraseDups.mp (hxu ▸ hx))

/-- There are two needs, so the order of their first times is all there is to know. -/
theorem text_frontBlock (i : Imprint) (needs : List Need) :
    (frontBlock needs).map (Line.text i) = i.front needs := by
  have hnodup := nodup_eraseDups needs
  rw [frontBlock, Imprint.front]
  match needs.eraseDups, hnodup with
  | [], _ => rfl
  | [.variables], _ | [.constants], _ => rfl
  | [.variables, .constants], _ | [.constants, .variables], _ => rfl
  | .variables :: .variables :: _, h | .constants :: .constants :: _, h => simp at h
  | .variables :: .constants :: x :: _, h | .constants :: .variables :: x :: _, h =>
    cases x <;> simp at h

/-- Only an action that says so puts a line in front of a context. -/
theorem Moment.fronted_of_prepend_mem {x : Moment} {context : String} {w : Written}
    (h : .prepend context w ∈ x.entries) : context ∈ x.fronted := by
  cases x with
  | act a before =>
    have hask := Action.asks_of_mem_read h
    cases hask
    exact List.mem_cons_self
  | leave o before after => exact absurd h List.not_mem_nil
  | enter o before entered =>
    simp only [entries] at h
    cases he : o.entrance (before.draft.site []) before.memory with
    | error outcome =>
      simp only [he] at h
      exact absurd h List.not_mem_nil
    | ok r =>
      simp only [he] at h
      cases Opening.entered_of_entrance he with
      | inScope lead hc hf => exact absurd h List.not_mem_nil
      | guarded c hc hf => simp at h
      | function name generated slot hc hf => simp at h

/-- After a run on a new draft, whether it failed or not, the default context holds the block of
declarations that were needed, and below it the lines that were appended to it, in the order in
which they were appended and behind the scopes that were open then. The block depends only on what
was needed first. Nothing else may be put in front of the context. -/
theorem Script.default_lines (s : Script) (space : String) (settings : Settings)
    (hne : settings.constsContext ≠ settings.defaultContext)
    (hfront : settings.defaultContext ∉
      (s.moments { draft := .start space settings }).flatMap Moment.fronted) :
    let ms := s.moments { draft := .start space settings }
    (s.run { draft := .start space settings }).2.draft.buffers.get? settings.defaultContext =
      some (Imprint.front ⟨space, settings⟩ (ms.flatMap Moment.needs) ++
        ms.flatMap (Moment.appended settings.defaultContext)) := by
  intro ms
  obtain ⟨⟨p, n, hdraft⟩, happended⟩ :=
    s.run_posts { draft := .start space settings } settings.defaultContext
  have hes : ∀ w, .prepend settings.defaultContext w ∉ ms.flatMap Moment.entries := by
    intro w hw
    obtain ⟨x, hx, hw⟩ := List.mem_flatMap.mp hw
    exact hfront (List.mem_flatMap.mpr ⟨x, hx, Moment.fronted_of_prepend_mem hw⟩)
  have hlines := Draft.get?_default_post space settings (ms.flatMap Moment.entries)
  rw [linesOf_default hne hes, filterMap_need?_moments, List.map_append, text_frontBlock] at hlines
  rw [hdraft, happended]
  exact hlines

def Script.deepNeeds : Script :=
  .act (.variable "no name" none) true <|
  .act (.emit "say one") false <|
  .inside (.scope "execute as @a run ") false
    (.inside (.function "deep" none) false
      (.inside (.scope "execute at @s run ") false
        (.act (.constant 3) false <|
        .act (.emitTo "default" "say two") false <|
        .act (.declareFirst "deep" "say front") false <|
        .act (.freshVariable (some "x")) false .done) <|
      .act (.change "x" (.multiply 3)) false .done) <|
    .act (.change "x" (.set 7)) false .done) <|
  .act (.declare "default" "say three") false <|
  .act (.variable "no name" none) false <|
  .act (.emit "say never") false .done

theorem Script.default_lines_deep :
    let start : Workspace := { draft := .start "demo" {} }
    "consts" ≠ "default" ∧
    "default" ∉ (deepNeeds.moments start).flatMap Moment.fronted ∧
    (deepNeeds.moments start).flatMap Moment.needs = [.constants, .variables, .constants] ∧
    (deepNeeds.run start).2.draft.buffers.get? "default" =
      some ["scoreboard objectives add var dummy", "scoreboard objectives add const dummy",
        "function demo:consts", "say one", "execute at @s run say two",
        "execute as @a run scoreboard players set __v0 var 7", "say three"] := by
  intro start
  have hne : ({} : Settings).constsContext ≠ ({} : Settings).defaultContext := by decide
  have hfront : ({} : Settings).defaultContext ∉
      (deepNeeds.moments start).flatMap Moment.fronted := by decide +kernel
  have hneeds : (deepNeeds.moments start).flatMap Moment.needs =
      [.constants, .variables, .constants] := by decide +kernel
  refine ⟨hne, hfront, hneeds, (deepNeeds.default_lines "demo" {} hne hfront).trans ?_⟩
  rw [show (deepNeeds.moments { draft := .start "demo" {} }).flatMap Moment.needs = _ from hneeds]
  decide +kernel

end CommandPack
