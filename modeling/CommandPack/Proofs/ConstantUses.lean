import CommandPack.Proofs.Actions
import CommandPack.Proofs.Moments

namespace CommandPack

/-! ## What a run uses and where it writes -/

/-- The constants that an action uses; an action on an empty slot uses none. -/
def Action.uses (a : Action) (h : Handles) : List Int32 :=
  match a with
  | .constant n => [n]
  | .change target c =>
    match h.score? target, c.resolve h.score? with
    | some _, some c => c.constants
    | _, _ => []
  | .clamp target low high =>
    match h.score? target with
    | some _ => [low, high]
    | none => []
  | _ => []

def Opening.uses (o : Opening) (h : Handles) : List Int32 :=
  match o.condition? h with
  | some c => c.literals
  | none => []

namespace Moment

/-- The constants used at a moment. The literals of a condition are used on entering. -/
def uses : Moment → List Int32
  | .act a before => a.uses before.handles
  | .enter o before _ => o.uses before.handles
  | .leave _ _ _ => []

def addressed : Moment → List String
  | .act a _ => a.addressed
  | .enter o _ entered =>
    match o.functionSlot? with
    | some _ => [entered.draft.place.context]
    | none => []
  | .leave _ _ _ => []

end Moment

namespace Entry

def uses : Entry → List Int32
  | .constant n => [n]
  | .touch _ | .append _ _ | .prepend _ _ | .objective => []

def contexts : Entry → List String
  | .touch context | .append context _ | .prepend context _ => [context]
  | .objective | .constant _ => []

end Entry

theorem uses_map_constant (ns : List Int32) : (ns.map Entry.constant).flatMap Entry.uses = ns := by
  induction ns with
  | nil => rfl
  | cons n ns ih => exact congrArg (n :: ·) ih

theorem contexts_map_constant (ns : List Int32) :
    (ns.map Entry.constant).flatMap Entry.contexts = [] := by
  induction ns with
  | nil => rfl
  | cons n ns ih => exact ih

/-- The constants that an action uses are those that its reading asks for. -/
theorem Action.uses_read (a : Action) (p : Site) (m : Memory) :
    (a.read p m).entries.flatMap Entry.uses = a.uses m.handles := by
  cases a with
  | change target c =>
    simp only [read, uses]
    cases m.handles.score? target with
    | none => rfl
    | some s =>
      cases c.resolve m.handles.score? with
      | none => rfl
      | some c =>
        change (p.change s c).flatMap Entry.uses = c.constants
        rw [Site.change, List.flatMap_append, uses_map_constant]
        exact List.append_nil _
  | clamp target low high =>
    simp only [read, uses]
    cases m.handles.score? target <;> rfl
  | «variable» name slot =>
    simp only [read]
    cases BuildError.checkName .holder name <;> rfl
  | act slot deed =>
    simp only [read]
    cases m.handles.selector? slot <;> rfl
  | bossBar id title slot =>
    simp only [read]
    cases BuildError.checkName .bossBar id <;> rfl
  | setBar slot property =>
    simp only [read]
    cases m.handles.bar? slot with
    | none => rfl
    | some b => cases property.resolve m.handles.score? m.handles.selector? <;> rfl
  | call slot =>
    simp only [read]
    cases m.handles.function? slot <;> rfl
  | summon entity x y z =>
    simp only [read]
    cases entity.tag <;> rfl
  | emit _ | emitTo _ _ | declareFirst _ _ | declare _ _ | freshVariable _ | constant _
  | selector _ _ => rfl

def Untouched (context : String) (es : List Entry) : Prop := context ∉ es.flatMap Entry.contexts

theorem untouched_append {context : String} {es fs : List Entry} :
    Untouched context (es ++ fs) ↔ Untouched context es ∧ Untouched context fs := by
  simp only [Untouched, List.flatMap_append, List.mem_append, not_or]

/-- An action writes where it stands or where it says. -/
theorem Action.untouched_read (a : Action) (p : Site) (m : Memory) {context : String}
    (hc : context ≠ p.context) (ha : context ∉ a.addressed) :
    Untouched context (a.read p m).entries := by
  intro hmem
  obtain ⟨e, he, hcontext⟩ := List.mem_flatMap.mp hmem
  cases asks_of_mem_read he with
  | line hplace hlead hcommand =>
    obtain rfl := List.mem_singleton.mp hcontext
    exact hplace.elim hc ha
  | front context' line => exact ha hcontext
  | constant _ _ | «variable» _ _ | freshVariable _ => exact List.not_mem_nil hcontext

/-- A step uses the literals of its condition on entering, and names a context only if it opens a
function. -/
theorem Opening.entries_entrance {o : Opening} {p : Site} {m : Memory} {entered : Reading Site}
    (h : o.entrance p m = .ok entered) :
    entered.entries.flatMap Entry.uses = o.uses m.handles ∧
    match o.functionSlot? with
    | some _ => entered.entries = [.touch entered.result.context]
    | none => entered.entries.flatMap Entry.contexts = [] ∧ entered.result.context = p.context := by
  cases entered_of_entrance h with
  | inScope lead hc hf => simp only [uses, hc, hf, List.flatMap_nil, and_self]
  | guarded c hc hf =>
    simp only [uses, hc, hf]
    exact ⟨uses_map_constant c.literals, contexts_map_constant c.literals, rfl⟩
  | function name generated slot hc hf =>
    simp only [uses, hc, hf]
    exact ⟨rfl, rfl⟩

/-! ## Pool and lines -/

/-- What the context of the constants holds after these uses; before the first use it does not
exist. -/
def declarations (us : List Int32) : Option (List Line) :=
  if us = [] then none else some (us.eraseDups.map .constant)

theorem declarations_concat (us : List Int32) (n : Int32) :
    declarations (us ++ [n]) =
      if n ∈ us then declarations us else some ((declarations us).getD [] ++ [.constant n]) := by
  have hlines : (declarations us).getD [] = us.eraseDups.map .constant := by
    unfold declarations
    split
    · rename_i hus
      rw [hus]
      rfl
    · rfl
  rw [hlines, declarations, if_neg (by simp), eraseDups_concat]
  by_cases hn : n ∈ us
  · rw [if_pos hn, if_pos hn, declarations, if_neg (List.ne_nil_of_mem hn)]
  · rw [if_neg hn, if_neg hn, List.map_append]
    rfl

/-- One line for each number that is used, in the order of the first uses. -/
theorem map_text_declarations (i : Imprint) (us : List Int32) :
    (declarations us).map (·.map (Line.text i)) =
      if us = [] then none
      else some (us.eraseDups.map fun n =>
        "scoreboard players set " ++ Text.integer n.toInt ++ " " ++ i.settings.constObjective ++ " " ++
          Text.integer n.toInt) := by
  have hline (n : Int32) : (Line.constant n).text i = "scoreboard players set " ++
      Text.integer n.toInt ++ " " ++ i.settings.constObjective ++ " " ++ Text.integer n.toInt := by
    change "scoreboard players set " ++ (Text.integer n.toInt ++ " " ++ i.settings.constObjective) ++
      " " ++ Text.integer n.toInt = _
    rw [← String.append_assoc, ← String.append_assoc]
  by_cases hus : us = []
  · rw [declarations, if_pos hus, if_pos hus]
    rfl
  · rw [declarations, if_neg hus, if_neg hus, Option.map_some, List.map_map]
    exact congrArg some (List.map_congr_left fun n _ => hline n)

/-- The pool of a draft and the lines of the context that declares the constants both are what
these uses make them. -/
structure Draft.InStep (d : Draft) (us : List Int32) : Prop where
  values : d.constants.values = us.eraseDups
  objective : d.constants.objective.claimed = !us.isEmpty
  lines : d.buffers.get? d.settings.constsContext =
    (declarations us).map (·.map (Line.text d.imprint))

namespace Draft.InStep

variable {d : Draft} {us : List Int32}

theorem start (space : String) (settings : Settings)
    (hne : settings.constsContext ≠ settings.defaultContext) :
    (Draft.start space settings).InStep [] := by
  refine ⟨rfl, rfl, ?_⟩
  simp only [Draft.start, Buffers.get?_touch, if_neg hne]
  rfl

/-- An entry keeps its promise about the lines if its events do. -/
theorem lines_post (h : d.InStep us) {e : Entry} {vs : List Int32}
    (he : (e.events d.settings d.register).foldl (Event.onto d.settings.constsContext)
      (declarations us) = declarations vs) :
    (d.post [e]).buffers.get? d.settings.constsContext =
      (declarations vs).map (·.map (Line.text d.imprint)) := by
  have hget := get?_foldl_apply d.imprint (e.events d.settings d.register) h.lines
  rw [he] at hget
  simpa only [Draft.post, eventsOf, List.append_nil] using hget

/-- A use of a constant lets pool and lines grow by it if it is new, and changes neither if it is
not. -/
theorem post_constant (h : d.InStep us) (hne : d.settings.constsContext ≠ d.settings.defaultContext)
    (n : Int32) : (d.post [.constant n]).InStep (us ++ [n]) := by
  have hmem : n ∈ d.register.constants.values ↔ n ∈ us := by
    rw [show d.register.constants.values = us.eraseDups from h.values, List.mem_eraseDups]
  refine ⟨?_, ?_, h.lines_post ?_⟩
  · change (d.constants.register n).2.values = _
    rw [ConstantPool.values_register, eraseDups_concat, h.values]
    simp only [List.mem_eraseDups]
  · simp [Draft.post, registerAfter, Entry.register, ConstantPool.register]
  · have hfront : ∀ ev ∈ (if d.register.constants.objective.claimed then []
        else [Event.prepend d.settings.defaultContext .constantsCall,
          .prepend d.settings.defaultContext .constantObjective]),
        ev.context ≠ d.settings.constsContext := by
      intro ev hev
      split at hev
      · exact absurd hev List.not_mem_nil
      · simp only [List.mem_cons, List.not_mem_nil, or_false] at hev
        rcases hev with rfl | rfl <;> exact hne.symm
    rw [Entry.events, List.foldl_append, foldl_onto_of_ne hfront, declarations_concat]
    simp only [hmem]
    split
    · rfl
    · exact if_pos rfl

/-- An entry that uses no constant leaves pool and lines alone if it names another context. -/
theorem post_other (h : d.InStep us) {e : Entry}
    (hevents : ∀ ev ∈ e.events d.settings d.register, ev.context ≠ d.settings.constsContext)
    (hregister : (e.register d.register).constants = d.register.constants) :
    (d.post [e]).InStep us := by
  have hpool : (d.post [e]).constants = d.constants := hregister
  exact ⟨hpool ▸ h.values, hpool ▸ h.objective, h.lines_post (foldl_onto_of_ne hevents _)⟩

theorem post_entry (h : d.InStep us) (hne : d.settings.constsContext ≠ d.settings.defaultContext)
    (e : Entry) (he : Untouched d.settings.constsContext [e]) :
    (d.post [e]).InStep (us ++ e.uses) := by
  cases e with
  | constant n => exact h.post_constant hne n
  | touch context | append context line | prepend context line =>
    rw [Entry.uses, List.append_nil]
    refine h.post_other ?_ rfl
    rintro ev hev hcontext
    rw [List.mem_singleton.mp hev] at hcontext
    exact he (List.mem_singleton.mpr hcontext.symm)
  | objective =>
    rw [Entry.uses, List.append_nil]
    refine h.post_other ?_ rfl
    intro ev hev
    simp only [Entry.events] at hev
    split at hev
    · exact absurd hev List.not_mem_nil
    · rw [List.mem_singleton.mp hev]
      exact hne.symm

theorem post (h : d.InStep us) (hne : d.settings.constsContext ≠ d.settings.defaultContext)
    (es : List Entry) (hes : Untouched d.settings.constsContext es) :
    (d.post es).InStep (us ++ es.flatMap Entry.uses) := by
  induction es generalizing d us with
  | nil => simpa using h
  | cons e es ih =>
    have hsplit : Untouched d.settings.constsContext ([e] ++ es) := hes
    obtain ⟨he, hes⟩ := untouched_append.mp hsplit
    rw [post_cons, List.flatMap_cons, ← List.append_assoc]
    exact ih (h.post_entry hne e he) hne hes

theorem record {w : Workspace} (h : w.draft.InStep us)
    (hne : w.draft.settings.constsContext ≠ w.draft.settings.defaultContext)
    {es : List Entry} (hes : Untouched w.draft.settings.constsContext es) (m : Memory) :
    (w.record es m).draft.InStep (us ++ es.flatMap Entry.uses) := by
  obtain ⟨hvalues, hobjective, hlines⟩ := h.post hne es hes
  exact ⟨hvalues, hobjective, hlines⟩

theorem of_returnTo {p : Place} (h : (d.returnTo p).InStep us) : d.InStep us :=
  ⟨h.values, h.objective, h.lines⟩

theorem returnTo (h : d.InStep us) (p : Place) : (d.returnTo p).InStep us :=
  ⟨h.values, h.objective, h.lines⟩

end Draft.InStep

/-! ## Runs -/

/-- As long as no moment names the context of the constants, nothing is written there but
declarations, and the draft is in step with the uses so far. -/
def Accounted (s : Settings) (ms : List Moment) (w : Workspace) : Prop :=
  s.constsContext ∉ ms.flatMap Moment.addressed →
    w.draft.settings = s ∧ w.draft.place.context ≠ s.constsContext ∧
      w.draft.InStep (ms.flatMap Moment.uses)

variable {settings : Settings} {ms : List Moment} {w v : Workspace}

theorem not_mem_addressed_concat {context : String} {x : Moment} :
    context ∉ (ms ++ [x]).flatMap Moment.addressed ↔
      context ∉ ms.flatMap Moment.addressed ∧ context ∉ x.addressed := by
  simp only [List.flatMap_append, List.mem_append, not_or, List.flatMap_singleton]

theorem Accounted.act (hne : settings.constsContext ≠ settings.defaultContext)
    (h : Accounted settings ms w) (a : Action) :
    Accounted settings (ms ++ [.act a w]) (a.perform w).2 := by
  intro hs
  obtain ⟨hs, ha⟩ := not_mem_addressed_concat.mp hs
  obtain ⟨rfl, hplace, hstep⟩ := h hs
  rw [a.perform_eq_record w []]
  refine ⟨rfl, hplace, ?_⟩
  rw [List.flatMap_append, List.flatMap_singleton, Moment.uses,
    show a.uses w.handles = _ from (a.uses_read (w.draft.site []) w.memory).symm]
  exact hstep.record hne (a.untouched_read _ _ hplace.symm ha) _

/-- The literals of a condition are used where the step stands, so entering keeps the account. -/
theorem Accounted.enter (hne : settings.constsContext ≠ settings.defaultContext)
    (h : Accounted settings ms w) {o : Opening} (he : o.enter w = .ok v) :
    Accounted settings (ms ++ [.enter o w v]) v := by
  intro hs
  obtain ⟨hs, ho⟩ := not_mem_addressed_concat.mp hs
  obtain ⟨rfl, hplace, hstep⟩ := h hs
  obtain ⟨entered, hentered, hv⟩ := Opening.stands_of_enter he []
  have hcontext : v.draft.place.context = entered.result.context := congrArg Site.context hv.site
  obtain ⟨huses, hcontexts⟩ := Opening.entries_entrance hentered
  have haway : Untouched w.draft.settings.constsContext entered.entries ∧
      v.draft.place.context ≠ w.draft.settings.constsContext := by
    rw [hcontext, Untouched]
    simp only [Moment.addressed, hcontext] at ho
    cases hslot : o.functionSlot? with
    | some slot =>
      simp only [hslot] at hcontexts ho
      rw [hcontexts]
      exact ⟨ho, fun hc => ho (List.mem_singleton.mpr hc.symm)⟩
    | none =>
      simp only [hslot] at hcontexts
      rw [hcontexts.1, hcontexts.2]
      exact ⟨List.not_mem_nil, hplace⟩
  refine ⟨congrArg (·.draft.settings) hv.recorded, haway.2, ?_⟩
  have hrecord := hstep.record hne haway.1 entered.memory
  rw [← hv.recorded, huses] at hrecord
  rw [List.flatMap_append, List.flatMap_singleton]
  exact hrecord.of_returnTo

theorem Accounted.leave {inner : List Moment} {o : Opening} {body : Script}
    (h : Accounted settings ms w) (he : o.enter w = .ok v)
    (hinner : Accounted settings (ms ++ inner) (body.run v).2) :
    Accounted settings (ms ++ inner ++ [.leave o w (o.perform body.run w).2])
      (o.perform body.run w).2 := by
  intro hs
  obtain ⟨hs, -⟩ := not_mem_addressed_concat.mp hs
  obtain ⟨hsettings, -, hstep⟩ := hinner hs
  -- The place after leaving is the one before entering, so that invariant is needed too.
  have houter : settings.constsContext ∉ ms.flatMap Moment.addressed := fun hm =>
    hs (List.flatMap_append ▸ List.mem_append_left _ hm)
  obtain ⟨-, hplace, -⟩ := h houter
  rw [o.draft_perform he body]
  refine ⟨hsettings, hplace, ?_⟩
  rw [List.flatMap_append, List.flatMap_singleton, Moment.uses, List.append_nil]
  exact hstep.returnTo _

/-- After any run on a new draft, the context of the constants holds one declaration for every
constant that was used, in the order of their first uses, and exists only if there is one. The
script must not write to that context itself. -/
theorem Script.constants_declared (s : Script) (space : String) (settings : Settings)
    (hne : settings.constsContext ≠ settings.defaultContext)
    (hs : settings.constsContext ∉
      (s.moments { draft := .start space settings }).flatMap Moment.addressed) :
    let uses := (s.moments { draft := .start space settings }).flatMap Moment.uses
    let after := (s.run { draft := .start space settings }).2.draft
    after.constants.values = uses.eraseDups ∧
    after.buffers.get? settings.constsContext =
      if uses = [] then none
      else some (uses.eraseDups.map fun n =>
        "scoreboard players set " ++ Text.integer n.toInt ++ " " ++ settings.constObjective ++ " " ++
          Text.integer n.toInt) := by
  intro uses after
  have hstart : Accounted settings [] { draft := .start space settings } :=
    fun _ => ⟨rfl, hne.symm, .start space settings hne⟩
  have hrun := s.moments_induction (fun _ a _ h => h.act hne a) (fun _ _ _ _ h he => h.enter hne he)
    (fun _ _ _ _ _ _ h he hinner => h.leave he hinner) hstart
  obtain ⟨hsettings, -, hstep⟩ := hrun hs
  refine ⟨hstep.values, ?_⟩
  have hspace : (s.run { draft := .start space settings }).2.draft.imprint = ⟨space, settings⟩ :=
    (s.run_evaluates _ []).2.2.2.2.1
  have hlines := hstep.lines
  rw [hsettings, hspace] at hlines
  exact hlines.trans (map_text_declarations _ _)

def Script.nestedUses : Script :=
  .act (.variable "x" none) false <|
  .inside (.when ⟨.condition (.score "x") .less (.literal 4), .equal, .literal 7⟩) true
    (.act (.change "x" (.multiply 9)) false <|
    .inside (.function "deep" none) false
      (.act (.clamp "x" 4 3) false <| .act (.variable "no name" none) false .done)
      .done) <|
  .act (.constant 7) false <|
  .act (.constant (-2)) false .done

theorem Script.constants_declared_nested :
    let start : Workspace := { draft := .start "demo" {} }
    let uses := (nestedUses.moments start).flatMap Moment.uses
    "consts" ≠ "default" ∧ "consts" ∉ (nestedUses.moments start).flatMap Moment.addressed ∧
    uses = [4, 7, 9, 4, 3, 7, -2] ∧
    (nestedUses.run start).2.draft.constants.values = [4, 7, 9, 3, -2] ∧
    (nestedUses.run start).2.draft.buffers.get? "consts" =
      some ["scoreboard players set 4 const 4", "scoreboard players set 7 const 7",
        "scoreboard players set 9 const 9", "scoreboard players set 3 const 3",
        "scoreboard players set -2 const -2"] := by
  intro start uses
  have hne : ({} : Settings).constsContext ≠ ({} : Settings).defaultContext := by decide
  have haway : ({} : Settings).constsContext ∉
      (nestedUses.moments start).flatMap Moment.addressed := by decide +kernel
  have huses : uses = [4, 7, 9, 4, 3, 7, -2] := by decide +kernel
  obtain ⟨hvalues, hlines⟩ := nestedUses.constants_declared "demo" {} hne haway
  refine ⟨hne, haway, huses, ?_, ?_⟩
  · rw [hvalues, show (nestedUses.moments start).flatMap Moment.uses = _ from huses]
    decide
  · rw [hlines, show (nestedUses.moments start).flatMap Moment.uses = _ from huses]
    decide +kernel

end CommandPack
