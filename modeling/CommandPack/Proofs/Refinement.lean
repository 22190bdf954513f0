import CommandPack.Proofs.Posting

namespace CommandPack

/-! ## Posting to a draft -/

namespace Draft

def imprint (d : Draft) : Imprint := ⟨d.space, d.settings⟩

def register (d : Draft) : Register := ⟨d.variableObjective, d.constants⟩

/-- Where a script stands that runs on this draft. The text of the open scopes does not tell which
of them are conditions, so those are given. -/
def site (d : Draft) (guards : List (Condition Score)) : Site :=
  ⟨d.imprint, d.place.context, d.place.scopes.text, guards⟩

def post (d : Draft) (es : List Entry) : Draft :=
  { d with
    buffers := (eventsOf d.settings d.register es).foldl (Event.apply d.imprint) d.buffers
    variableObjective := (registerAfter d.register es).variableObjective
    constants := (registerAfter d.register es).constants }

variable (d : Draft)

@[simp] theorem post_nil : d.post [] = d := rfl

theorem post_append (es fs : List Entry) : d.post (es ++ fs) = (d.post es).post fs := by
  simp only [post, register, eventsOf_append, registerAfter_append, List.foldl_append]
  rfl

theorem post_cons (e : Entry) (es : List Entry) : d.post (e :: es) = (d.post [e]).post es :=
  d.post_append [e] es

/-- Each operation of a draft posts entries; a line goes to the context that is named, behind the
open scopes. -/
theorem emitTo_eq_post (context line : String) (w : Written)
    (hw : d.place.scopes.text ++ line = (Line.written w).text d.imprint) :
    d.emitTo context line = d.post [.append context w] := by
  unfold emitTo
  rw [hw]
  rfl

theorem emit_eq_post (guards : List (Condition Score)) (c : Command) :
    d.emit (c.text d.settings) = d.post [(d.site guards).write c] :=
  d.emitTo_eq_post _ _ ((d.site guards).line c) rfl

theorem declare_eq_post (context line : String) :
    d.declare context line = d.post [.append context ⟨"", [], .raw line⟩] := by
  have hline : (Line.written ⟨"", [], .raw line⟩).text d.imprint = line := String.empty_append
  simp only [declare, post, eventsOf, Entry.events, List.append_nil, List.foldl_cons,
    List.foldl_nil, Event.apply, hline]
  rfl

theorem declareFirst_eq_post (context line : String) :
    d.declareFirst context line = d.post [.prepend context ⟨"", [], .raw line⟩] := by
  have hline : (Line.written ⟨"", [], .raw line⟩).text d.imprint = line := String.empty_append
  simp only [declareFirst, post, eventsOf, Entry.events, List.append_nil, List.foldl_cons,
    List.foldl_nil, Event.apply, hline]
  rfl

theorem requireVariables_eq_post : d.requireVariables = d.post [.objective] := by
  obtain ⟨space, settings, buffers, place, ⟨claimed⟩, constants, generated⟩ := d
  cases claimed <;> rfl

/-- The declarations that come with the first constant are made by the same use on both sides. -/
theorem requireConstant_eq_post (n : Int32) : d.requireConstant n = d.post [.constant n] := by
  obtain ⟨space, settings, buffers, place, objective, ⟨⟨claimed⟩, values⟩, generated⟩ := d
  have hk : values.contains n = decide (n ∈ values) := List.contains_eq_mem n values
  by_cases hn : n ∈ values
  all_goals
    simp only [requireConstant, ConstantPool.register, Once.claim, post, register, registerAfter,
      eventsOf, Entry.events, Entry.register, hk, hn, decide_true, decide_false, List.foldl_cons,
      List.foldl_nil, if_true, if_false]
    cases claimed <;> rfl

theorem requireConstants_eq_post (ns : List Int32) :
    d.requireConstants ns = d.post (ns.map .constant) := by
  induction ns generalizing d with
  | nil => rfl
  | cons n ns ih =>
    rw [List.map_cons, post_cons, ← requireConstant_eq_post, ← ih]
    rfl

/-- A change asks for its constants and then writes its command. -/
theorem change_eq_post (guards : List (Condition Score)) (target : Score)
    (c : ScoreChange Score) : d.change target c = d.post ((d.site guards).change target c) := by
  have he := emit_eq_post (d.post (c.constants.map .constant)) guards (.change target c)
  rw [Site.change, post_append, ← show (d.post _).site guards = d.site guards from rfl, ← he,
    ← requireConstants_eq_post]
  unfold change
  rw [requireConstants_eq_post]
  rfl

end Draft

/-! ## Steps -/

namespace Workspace

def memory (w : Workspace) : Memory := ⟨w.draft.generated, w.handles⟩

def record (w : Workspace) (es : List Entry) (m : Memory) : Workspace :=
  ⟨{ w.draft.post es with generated := m.generated }, m.handles⟩

def moveTo (w : Workspace) (p : Place) : Workspace := w.withDraft (w.draft.returnTo p)

variable (w : Workspace)

@[simp] theorem memory_record (es : List Entry) (m : Memory) : (w.record es m).memory = m := rfl

@[simp] theorem site_record (es : List Entry) (m : Memory) (guards : List (Condition Score)) :
    (w.record es m).draft.site guards = w.draft.site guards := rfl

@[simp] theorem record_record (es fs : List Entry) (m n : Memory) :
    (w.record es m).record fs n = w.record (es ++ fs) n := by
  have hp := congrArg (fun d : Draft => (⟨{ d with generated := n.generated }, n.handles⟩ :
    Workspace)) (w.draft.post_append es fs)
  exact hp.symm

theorem moveTo_record (p : Place) (es : List Entry) (m : Memory) :
    (w.moveTo p).record es m = (w.record es m).moveTo p := rfl

/-- What a draft posts, its workspace records. -/
theorem withDraft_eq_record {d : Draft} {es : List Entry} (hd : d = w.draft.post es) :
    w.withDraft d = w.record es w.memory := by
  rw [hd]
  rfl

/-- A step on what was found records what the reading of it asks for. -/
theorem withFound_eq_record {α : Type} {found : Option α} {f : α → Workspace}
    {entries : α → List Entry} (hf : ∀ a, f a = w.record (entries a) w.memory) :
    w.withFound found f =
      ((w.memory.withFound found entries).result,
        w.record (w.memory.withFound found entries).entries
          (w.memory.withFound found entries).memory) := by
  cases found with
  | none => rfl
  | some a => simp only [withFound, Memory.withFound, hf]

end Workspace

/-- An action changes a workspace by what its reading asks for and remembers. -/
theorem Action.perform_eq_record (a : Action) (w : Workspace) (guards : List (Condition Score)) :
    a.perform w =
      ((a.read (w.draft.site guards) w.memory).result,
        w.record (a.read (w.draft.site guards) w.memory).entries
          (a.read (w.draft.site guards) w.memory).memory) := by
  have hemit (c : Command) : w.withDraft (w.draft.emit (c.text w.draft.settings)) =
      w.record [(w.draft.site guards).write c] w.memory :=
    w.withDraft_eq_record (w.draft.emit_eq_post guards c)
  have hmake (d : Draft) (note : Option Note) (h : Handles) :
      (Outcome.finished note, (w.withDraft d.requireVariables).withHandles h) =
        (Outcome.finished note, (w.withDraft (d.post [.objective])).withHandles h) := by
    rw [d.requireVariables_eq_post]
  cases a with
  | emit line => exact congrArg (Prod.mk _) (hemit (.raw line))
  | emitTo context line =>
    exact congrArg (Prod.mk _) (w.withDraft_eq_record (w.draft.emitTo_eq_post context line
      ((w.draft.site guards).line (.raw line)) rfl))
  | declareFirst context line =>
    exact congrArg (Prod.mk _) (w.withDraft_eq_record (w.draft.declareFirst_eq_post context line))
  | declare context line =>
    exact congrArg (Prod.mk _) (w.withDraft_eq_record (w.draft.declare_eq_post context line))
  | «variable» name slot =>
    simp only [perform, read, Draft.namedVariable]
    cases BuildError.checkName .holder name with
    | error e => rfl
    | ok u => exact hmake w.draft _ _
  | freshVariable slot => exact hmake { w.draft with generated := w.draft.generated + 1 } _ _
  | change target c =>
    exact w.withFound_eq_record fun found =>
      w.withDraft_eq_record (w.draft.change_eq_post guards found.1 found.2)
  | clamp target low high =>
    refine w.withFound_eq_record fun s => w.withDraft_eq_record ?_
    rw [Draft.post_append, Draft.change_eq_post _ guards, w.draft.change_eq_post guards]
    rfl
  | constant n =>
    exact congrArg (Prod.mk _) (w.withDraft_eq_record (w.draft.requireConstant_eq_post n))
  | selector slot s => rfl
  | act slot deed => exact w.withFound_eq_record fun s => hemit (.deed s deed)
  | bossBar id title slot =>
    simp only [perform, read, Draft.makeBossBar]
    cases BuildError.checkName .bossBar id with
    | error e => rfl
    | ok u =>
      exact congrArg (fun v : Workspace => (Outcome.finished _, v.withHandles _))
        (hemit (.makeBar ⟨w.draft.space, id, title⟩))
  | setBar slot p => exact w.withFound_eq_record fun found => hemit (.setBar found.1 found.2)
  | call slot => exact w.withFound_eq_record fun f => hemit (.call f)
  | summon entity x y z =>
    simp only [perform, read, Draft.summon]
    cases entity.tag with
    | error reason => rfl
    | ok tag => exact congrArg (Prod.mk _) (hemit (.summon entity x y z tag))

/-! ## Steps with a script inside -/

namespace ScopeStack

theorem popTimes_succ (n : Nat) (s : ScopeStack) : popTimes (n + 1) s = (popTimes n s).pop.2 := by
  induction n generalizing s with
  | zero => rfl
  | succ n ih => exact ih s.pop.2

theorem popTimes_foldl_push (fragments : List String) (s : ScopeStack) :
    popTimes fragments.length (fragments.foldl push s) = s := by
  induction fragments generalizing s with
  | nil => rfl
  | cons f fs ih =>
    rw [List.length_cons, List.foldl_cons, popTimes_succ, ih, pop_push]

theorem depth_foldl_push (fragments : List String) (s : ScopeStack) :
    (fragments.foldl push s).depth = s.depth + fragments.length := by
  induction fragments generalizing s with
  | nil => rfl
  | cons f fs ih => rw [List.foldl_cons, ih, depth_push, List.length_cons]; omega

/-- Closing scopes down to a depth undoes all that were opened above it, whatever their fragments
are. -/
theorem truncate_foldl_push (fragments : List String) (s : ScopeStack) :
    (fragments.foldl push s).truncate s.depth = s := by
  rw [truncate, depth_foldl_push, Nat.add_sub_cancel_left, popTimes_foldl_push]

theorem text_foldl_push (fragments : List String) (s : ScopeStack) :
    (fragments.foldl push s).text = fragments.foldl (· ++ ·) s.text := by
  induction fragments generalizing s with
  | nil => rfl
  | cons f fs ih => exact ih (s.push f)

end ScopeStack

theorem Draft.foldl_openScope (fragments : List String) (d : Draft) :
    fragments.foldl openScope d =
      d.returnTo { d.place with scopes := fragments.foldl ScopeStack.push d.place.scopes } := by
  induction fragments generalizing d with
  | nil => rfl
  | cons f fs ih => exact ih (d.openScope f)

namespace Opening

/-- The workspace `v`, entered from `w`, stands where the reading says; and from anywhere the
script inside may have led with the place unchanged, leaving goes back to the place of `w`. -/
structure Stands (o : Opening) (w : Workspace) (entered : Reading Site) (v : Workspace) : Prop where
  recorded : v.moveTo w.draft.place = w.record entered.entries entered.memory
  site : v.draft.site entered.result.guards = entered.result
  leave : ∀ u : Workspace, u.draft.place = v.draft.place → o.leave w u = u.moveTo w.draft.place

variable {o : Opening} {w : Workspace} {d : Draft}

theorem Stands.memory {entered : Reading Site} {v : Workspace} (hs : Stands o w entered v) :
    v.memory = entered.memory := congrArg Workspace.memory hs.recorded

theorem Stands.context {entered : Reading Site} {v : Workspace} (hs : Stands o w entered v) :
    v.draft.place.context = entered.result.context := congrArg Site.context hs.site

/-- A step that opens scopes goes back by closing them. -/
theorem stands_of_scopes (ho : o.functionSlot? = none) (fragments : List String)
    (es : List Entry) (guards : List (Condition Score))
    (hd : d = (w.draft.post es).returnTo
      { w.draft.place with scopes := fragments.foldl ScopeStack.push w.draft.place.scopes }) :
    o.Stands w
      ⟨⟨w.draft.imprint, w.draft.place.context,
        fragments.foldl (· ++ ·) w.draft.place.scopes.text, guards⟩, es, w.memory⟩
      (w.withDraft d) := by
  subst hd
  refine ⟨rfl, ?_, ?_⟩
  · simp only [Workspace.withDraft, Draft.returnTo, Draft.site, ScopeStack.text_foldl_push]
    rfl
  · intro u hu
    have hp : u.draft.place =
        { w.draft.place with scopes := fragments.foldl ScopeStack.push w.draft.place.scopes } := hu
    simp only [leave, ho, Workspace.moveTo, Draft.closeScopes, Draft.returnTo, hp,
      ScopeStack.truncate_foldl_push]

/-- A step that opens a function goes back to the place it kept. -/
theorem stands_of_function {slot : Option Slot} (ho : o.functionSlot? = some slot) (name : String)
    (guards : List (Condition Score)) (m : Memory) (hm : m.handles = w.handles)
    (hd : d = { w.draft.enterFunction name with generated := m.generated }) :
    o.Stands w ⟨(w.draft.site guards).function name, [.touch name], m⟩ (w.withDraft d) := by
  subst hd
  refine ⟨?_, rfl, ?_⟩
  · simp only [Workspace.record, hm]
    rfl
  · intro u _
    simp only [leave, ho, Workspace.moveTo]

/-- A step is entered exactly when its reading is, and then it stands where the reading says. -/
theorem enter_stands (o : Opening) (w : Workspace) (guards : List (Condition Score)) :
    match o.entrance (w.draft.site guards) w.memory with
    | .error outcome => o.enter w = .error outcome
    | .ok entered => ∃ v, o.enter w = .ok v ∧ o.Stands w entered v := by
  have hguard {o : Opening} (ho : o.functionSlot? = none) (c : Condition Score) :
      o.Stands w ⟨(w.draft.site guards).guarded c, c.literals.map .constant, w.memory⟩
        (w.withDraft (w.draft.openGuard c)) := by
    apply stands_of_scopes ho [c.guard w.draft.settings.constObjective] _ (guards ++ [c])
    rw [Draft.openGuard, Draft.requireConstants_eq_post]
    rfl
  cases o with
  | scope f => exact ⟨_, rfl, stands_of_scopes rfl [f] [] guards rfl⟩
  | nest fragments =>
    simp only [entrance, Site.foldl_within]
    exact ⟨_, rfl, stands_of_scopes rfl fragments [] guards (Draft.foldl_openScope fragments _)⟩
  | when c =>
    simp only [entrance, condition?, enter, Workspace.memory]
    cases c.resolve w.handles.score? with
    | none => rfl
    | some c => exact ⟨_, rfl, hguard rfl c⟩
  | whenScore slot c =>
    simp only [entrance, condition?, enter, Workspace.memory]
    cases w.handles.score? slot with
    | none => rfl
    | some self =>
      simp only [Option.bind_some]
      cases c.resolve (w.handles.scoreOrSelf? self) with
      | none => rfl
      | some c => exact ⟨_, rfl, hguard rfl c⟩
  | forEach slot =>
    simp only [entrance, enter, Workspace.memory]
    cases w.handles.selector? slot with
    | none => rfl
    | some s => exact ⟨_, rfl, stands_of_scopes rfl [s.guard] [] guards rfl⟩
  | function name slot =>
    simp only [entrance, enter]
    cases BuildError.checkName .context name with
    | error e => rfl
    | ok u => exact ⟨_, rfl, stands_of_function rfl name guards w.memory rfl rfl⟩
  | anonymousFunction slot =>
    exact ⟨_, rfl, stands_of_function rfl _ guards ⟨w.draft.generated + 1, w.handles⟩ rfl rfl⟩
  | tick slot => exact ⟨_, rfl, stands_of_function rfl tickContext guards w.memory rfl rfl⟩

/-- A workspace that was entered stands where some reading says. -/
theorem stands_of_enter {v : Workspace} (he : o.enter w = .ok v)
    (guards : List (Condition Score)) :
    ∃ entered, o.entrance (w.draft.site guards) w.memory = .ok entered ∧ o.Stands w entered v := by
  have hstands := o.enter_stands w guards
  cases hr : o.entrance (w.draft.site guards) w.memory with
  | error outcome =>
    rw [hr, he] at hstands
    nomatch hstands
  | ok entered =>
    rw [hr] at hstands
    obtain ⟨u, hu, hs⟩ := hstands
    obtain rfl := Except.ok.inj (he.symm.trans hu)
    exact ⟨entered, rfl, hs⟩

end Opening

/-! ## Whole runs -/

/-- A run of `s` changes every workspace by what the reading of `s` asks for and remembers. -/
def Script.Records (s : Script) : Prop :=
  ∀ (w : Workspace) (guards : List (Condition Score)),
    s.run w =
      ((s.read (w.draft.site guards) w.memory).result,
        w.record (s.read (w.draft.site guards) w.memory).entries
          (s.read (w.draft.site guards) w.memory).memory)

/-- A step with a script inside differs from its reading only in the note it leaves. -/
theorem Opening.perform_record (o : Opening) {body : Script} (hbody : body.Records) (w : Workspace)
    (guards : List (Condition Score)) :
    (∀ caught, (o.perform body.run w).1.stop? caught =
      (o.read body.read (w.draft.site guards) w.memory).result.stop? caught) ∧
    (o.perform body.run w).2 =
      w.record (o.read body.read (w.draft.site guards) w.memory).entries
        (o.read body.read (w.draft.site guards) w.memory).memory := by
  have henter := o.enter_stands w guards
  unfold Opening.perform Opening.read
  cases he : o.entrance (w.draft.site guards) w.memory with
  | error outcome =>
    simp only [he] at henter
    rw [henter]
    exact ⟨fun _ => rfl, rfl⟩
  | ok entered =>
    simp only [he] at henter
    obtain ⟨v, hv, hs⟩ := henter
    have hrun := hbody v entered.result.guards
    rw [hs.site, hs.memory] at hrun
    -- The script inside led back to the place of `v`, which is all that leaving depends on.
    have hleave (es : List Entry) (m : Memory) :
        o.leave w (v.record es m) = w.record (entered.entries ++ es) m := by
      rw [hs.leave (v.record es m) rfl, ← Workspace.moveTo_record, hs.recorded, Workspace.record_record]
    simp only [hv, hrun]
    cases (body.read entered.result entered.memory).result with
    | error e => exact ⟨fun _ => rfl, hleave _ _⟩
    | ok u =>
      refine ⟨fun _ => rfl, ?_⟩
      have hhandle : Opening.handle v =
          ⟨entered.result.imprint.space, entered.result.context⟩ := by
        rw [← hs.site]
        rfl
      simp only [Opening.close, Opening.keep, Opening.remember, hleave, hhandle]
      cases o.functionSlot? <;> rfl

/-- Whatever fails on the way, a run is recorded by the reading of its script. -/
theorem Script.run_records (s : Script) : s.Records := by
  induction s with
  | done => exact fun w guards => rfl
  | act a caught rest ih =>
    intro w guards
    simp only [run, read, Reading.andThen, a.perform_eq_record w guards]
    cases (a.read (w.draft.site guards) w.memory).result.stop? caught with
    | some e => rfl
    | none => simp only [ih _ guards, Workspace.site_record, Workspace.memory_record,
        Workspace.record_record]
  | inside o caught body rest ihb ihr =>
    intro w guards
    -- What is recorded keeps the place, so the rest is read at the site of `w`.
    obtain ⟨hstop, hafter⟩ := o.perform_record ihb w guards
    simp only [run, read, Reading.andThen, hstop, hafter]
    cases (o.read body.read (w.draft.site guards) w.memory).result.stop? caught with
    | some e => rfl
    | none => simp only [ihr _ guards, Workspace.site_record, Workspace.memory_record,
        Workspace.record_record]

/-- A script that runs on a draft has the same result as its evaluation without one, and leaves
the contexts that the events of the evaluation make of those before, the same declarations and the
same memory. Namespace, settings and the place of the next line are as before. -/
theorem Script.run_evaluates (s : Script) (w : Workspace) (guards : List (Condition Score)) :
    let evaluation := s.evaluate (w.draft.site guards) w.draft.register w.memory
    let after := (s.run w).2
    (s.run w).1 = evaluation.result ∧
    after.draft.buffers = evaluation.events.foldl (Event.apply w.draft.imprint) w.draft.buffers ∧
    after.draft.register = evaluation.register ∧
    after.memory = evaluation.memory ∧
    after.draft.imprint = w.draft.imprint ∧
    after.draft.place = w.draft.place := by
  intro evaluation after
  have hrun := s.run_records w guards
  have hafter : after = w.record _ _ := congrArg Prod.snd hrun
  rw [hafter]
  exact ⟨congrArg Prod.fst hrun, rfl, rfl, rfl, rfl, rfl⟩

end CommandPack
