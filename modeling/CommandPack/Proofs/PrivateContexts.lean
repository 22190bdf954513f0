import CommandPack.Proofs.DefaultLines
import CommandPack.Proofs.KnownNames
import CommandPack.Proofs.Truncation

namespace CommandPack

/-! ## Steps somewhere inside a script -/

namespace Script

/-- The run of a script comes to this step with a script inside, in the workspace `before`. What
failed and was caught earlier does not matter, nor does what fails from there on. -/
inductive ComesTo (o : Opening) (body : Script) (before : Workspace) : Script → Workspace → Prop
  | here {caught : Bool} {rest : Script} :
    ComesTo o body before (.inside o caught body rest) before
  | within {o' : Opening} {caught : Bool} {body' rest : Script} {w v : Workspace}
    (hv : o'.enter w = .ok v) (hbody : ComesTo o body before body' v) :
    ComesTo o body before (.inside o' caught body' rest) w
  | afterAct {a : Action} {caught : Bool} {rest : Script} {w : Workspace}
    (hgo : (a.perform w).1.stop? caught = none) (hrest : ComesTo o body before rest (a.perform w).2) :
    ComesTo o body before (.act a caught rest) w
  | afterInside {o' : Opening} {caught : Bool} {body' rest : Script} {w : Workspace}
    (hgo : (o'.perform body'.run w).1.stop? caught = none)
    (hrest : ComesTo o body before rest (o'.perform body'.run w).2) :
    ComesTo o body before (.inside o' caught body' rest) w

/-- The lines that a script writes to the context it stands in, in order. Scopes stay in that
context; the script of a function writes to another one. -/
def ownLines : Script → Workspace → List String
  | .done, _ => []
  | .act a caught rest, w =>
    let step := a.perform w
    (Moment.act a w).appended w.draft.place.context ++
      match step.1.stop? caught with
      | some _ => []
      | none => rest.ownLines step.2
  | .inside o caught body rest, w =>
    let step := o.perform body.run w
    (match o.functionSlot?, o.enter w with
      | none, .ok entered => body.ownLines entered
      | _, _ => []) ++
    match step.1.stop? caught with
    | some _ => []
    | none => rest.ownLines step.2

variable {α : Type} {o : Opening} {before entered w : Workspace}

/-- The steps that are entered in a run are those that the run comes to, unless they are refused
there. -/
theorem enter_mem_moments_iff {s : Script} :
    .enter o before entered ∈ s.moments w ↔
      (∃ body, ComesTo o body before s w) ∧ o.enter before = .ok entered := by
  constructor
  · intro hmem
    induction s generalizing w with
    | done => exact absurd hmem List.not_mem_nil
    | act a caught rest ih =>
      simp only [moments, List.mem_cons, reduceCtorEq, false_or] at hmem
      cases hstop : (a.perform w).1.stop? caught with
      | some e =>
        simp only [hstop] at hmem
        exact absurd hmem List.not_mem_nil
      | none =>
        simp only [hstop] at hmem
        obtain ⟨⟨body, hcomes⟩, he⟩ := ih hmem
        exact ⟨⟨body, .afterAct hstop hcomes⟩, he⟩
    | inside o' caught body rest ihb ihr =>
      rw [moments, List.mem_append] at hmem
      rcases hmem with hmem | hmem
      · cases hv : o'.enter w with
        | error outcome =>
          simp only [hv] at hmem
          exact absurd hmem List.not_mem_nil
        | ok v =>
          simp only [hv, List.cons_append, List.mem_cons, List.mem_append, Moment.enter.injEq,
            reduceCtorEq, List.not_mem_nil, or_false] at hmem
          rcases hmem with ⟨rfl, rfl, rfl⟩ | hmem
          · exact ⟨⟨body, .here⟩, hv⟩
          · obtain ⟨⟨body', hcomes⟩, he⟩ := ihb hmem
            exact ⟨⟨body', .within hv hcomes⟩, he⟩
      · cases hstop : (o'.perform body.run w).1.stop? caught with
        | some e =>
          simp only [hstop] at hmem
          exact absurd hmem List.not_mem_nil
        | none =>
          simp only [hstop] at hmem
          obtain ⟨⟨body', hcomes⟩, he⟩ := ihr hmem
          exact ⟨⟨body', .afterInside hstop hcomes⟩, he⟩
  · rintro ⟨⟨body, hcomes⟩, he⟩
    induction hcomes with
    | here => simp [moments, he]
    | within hv _ ih => simp [moments, hv, ih]
    | afterAct hgo _ ih => simp [moments, hgo, ih]
    | afterInside hgo _ ih => simp [moments, hgo, ih]

theorem flatMap_moments_act (f : Moment → List α) (a : Action) (caught : Bool) (rest : Script)
    (w : Workspace) :
    ((Script.act a caught rest).moments w).flatMap f =
      f (.act a w) ++
        match (a.perform w).1.stop? caught with
        | some _ => []
        | none => (rest.moments (a.perform w).2).flatMap f := by
  rw [moments, List.flatMap_cons]
  cases (a.perform w).1.stop? caught <;> rfl

/-- What is collected over a step with a script inside, where nothing is collected on entering and
on leaving. -/
theorem flatMap_moments_inside {f : Moment → List α} (henter : ∀ o w v, f (.enter o w v) = [])
    (hleave : ∀ o w v, f (.leave o w v) = []) (o : Opening) (caught : Bool) (body rest : Script)
    (w : Workspace) :
    ((Script.inside o caught body rest).moments w).flatMap f =
      (match o.enter w with
        | .error _ => []
        | .ok v => (body.moments v).flatMap f) ++
        match (o.perform body.run w).1.stop? caught with
        | some _ => []
        | none => (rest.moments (o.perform body.run w).2).flatMap f := by
  rw [moments, List.flatMap_append]
  congr 1
  · cases o.enter w with
    | error outcome => rfl
    | ok v => simp [henter, hleave]
  · cases (o.perform body.run w).1.stop? caught <;> rfl

theorem addressed_eq_flatMap (s : Script) : s.addressed = s.actions.flatMap Action.addressed := by
  induction s with
  | done => rfl
  | act a caught rest ih => rw [addressed, actions, List.flatMap_cons, ih]
  | inside o caught body rest ihb ihr => rw [addressed, actions, List.flatMap_append, ihb, ihr]

/-- A script without raw lines for named contexts puts nothing in front of a context. -/
theorem fronted_eq_nil {s : Script} (hraw : s.addressed = []) {x : Moment} (hx : x ∈ s.moments w) :
    x.fronted = [] := by
  cases x with
  | enter o before entered | leave o before after => rfl
  | act a before =>
    rw [addressed_eq_flatMap, List.flatMap_eq_nil_iff] at hraw
    have ha := hraw a (mem_actions_of_mem_moments hx)
    cases a with
    | declareFirst context line => nomatch ha
    | _ => rfl

end Script

/-! ## What is appended -/

theorem Event.get?_apply_of_ne (i : Imprint) {ev : Event} {context : String}
    (hev : ev.context ≠ context) (b : Buffers) : (ev.apply i b).get? context = b.get? context := by
  cases ev with
  | touch c =>
    have hne : context ≠ c := Ne.symm hev
    rw [apply, Buffers.get?_touch, if_neg hne]
  | append c line =>
    have hne : context ≠ c := Ne.symm hev
    rw [apply, Buffers.get?_append, if_neg hne]
  | prepend c line =>
    have hne : context ≠ c := Ne.symm hev
    rw [apply, Buffers.get?_prepend, if_neg hne]

theorem get?_foldl_apply_of_ne (i : Imprint) {evs : List Event} {context : String}
    (hevs : ∀ ev ∈ evs, ev.context ≠ context) (b : Buffers) :
    (evs.foldl (Event.apply i) b).get? context = b.get? context := by
  induction evs generalizing b with
  | nil => rfl
  | cons ev evs ih =>
    rw [List.foldl_cons, ih fun ev hev => hevs ev (List.mem_cons_of_mem _ hev)]
    exact Event.get?_apply_of_ne i (hevs ev List.mem_cons_self) b

theorem Entry.written_of_notMem {e : Entry} {context : String} (h : context ∉ e.contexts) :
    e.written context = [] := by
  cases e with
  | append c w => exact if_neg fun hc => h (List.mem_singleton.mpr hc.symm)
  | touch _ | prepend _ _ | objective | constant _ => rfl

theorem Draft.get?_post_singleton {d : Draft} {context : String}
    (hdefault : context ≠ d.settings.defaultContext) (hconsts : context ≠ d.settings.constsContext)
    {e : Entry} (he : ∀ w, e ≠ .prepend context w) {ls : List String}
    (hd : d.buffers.get? context = some ls) :
    (d.post [e]).buffers.get? context =
      some (ls ++ (e.written context).map (Line.text d.imprint)) := by
  by_cases hnamed : context ∈ e.contexts
  · cases e with
    | touch c =>
      obtain rfl := List.mem_singleton.mp hnamed
      change (d.buffers.touch context).get? context = some (ls ++ [])
      rw [Buffers.get?_touch, if_pos rfl, hd, List.append_nil, Option.getD_some]
    | append c w =>
      obtain rfl := List.mem_singleton.mp hnamed
      change (d.buffers.append context _).get? context = _
      rw [Buffers.get?_append, if_pos rfl, hd, Entry.written, if_pos rfl, Option.getD_some]
      rfl
    | prepend c w =>
      obtain rfl := List.mem_singleton.mp hnamed
      exact absurd rfl (he w)
    | objective | constant n => exact absurd hnamed List.not_mem_nil
  · have haway : ∀ ev ∈ eventsOf d.settings d.register [e], ev.context ≠ context := by
      intro ev hev hcontext
      rw [eventsOf, eventsOf, List.append_nil] at hev
      rcases Entry.context_of_mem_events hev with h | h | ⟨h, -⟩
      · exact hnamed (hcontext ▸ h)
      · exact hdefault (hcontext ▸ h)
      · exact hconsts (hcontext ▸ h)
    rw [Entry.written_of_notMem hnamed, List.map_nil, List.append_nil, ← hd]
    exact get?_foldl_apply_of_ne d.imprint haway d.buffers

/-- A context that is none of the settings holds what it held, and behind it the lines that were
appended to it, if nothing was put in front of it. -/
theorem Draft.get?_post {d : Draft} {context : String} (hdefault : context ≠ d.settings.defaultContext)
    (hconsts : context ≠ d.settings.constsContext) {es : List Entry}
    (hes : ∀ w, .prepend context w ∉ es) {ls : List String}
    (hd : d.buffers.get? context = some ls) :
    (d.post es).buffers.get? context =
      some (ls ++ (es.flatMap (Entry.written context)).map (Line.text d.imprint)) := by
  induction es generalizing d ls with
  | nil => simpa using hd
  | cons e es ih =>
    have hstep := get?_post_singleton hdefault hconsts
      (fun w hw => hes w (hw ▸ List.mem_cons_self)) hd
    have hrest := ih (d := d.post [e]) hdefault hconsts
      (fun w hw => hes w (List.mem_cons_of_mem _ hw)) hstep
    rw [post_cons, hrest, List.flatMap_cons, List.map_append, List.append_assoc]
    rfl

/-- An action without raw lines for named contexts appends to no context but the current one. -/
theorem Action.appended_of_ne {a : Action} (ha : a.addressed = []) {w : Workspace} {context : String}
    (hc : context ≠ w.draft.place.context) : (Moment.act a w).appended context = [] := by
  have haway : Untouched context (a.read (w.draft.site []) w.memory).entries :=
    a.untouched_read _ _ hc (ha ▸ List.not_mem_nil)
  have hnone : (a.read (w.draft.site []) w.memory).entries.flatMap (Entry.written context) = [] := by
    rw [List.flatMap_eq_nil_iff]
    intro e he
    exact Entry.written_of_notMem fun h => haway (List.mem_flatMap.mpr ⟨e, he, h⟩)
  rw [Moment.appended, hnone, List.map_nil]

/-- What a run appends to a context with an older generated name: the lines that the script writes
where it stands, if it stands there, and no others. -/
theorem Script.appended_eq_ownLines {s : Script} (hraw : s.addressed = []) {w : Workspace} {k : Nat}
    (hk : k < w.draft.generated) :
    (s.moments w).flatMap (Moment.appended (generatedName "fn" k)) =
      if w.draft.place.context = generatedName "fn" k then s.ownLines w else [] := by
  induction s generalizing w with
  | done => simp [moments, ownLines]
  | act a caught rest ih =>
    obtain ⟨ha, hrest⟩ := List.append_eq_nil_iff.mp hraw
    have hgrown := (a.counts w).le
    have hplace := a.perform_place w
    have hbehind := ih hrest (w := (a.perform w).2) (Nat.lt_of_lt_of_le hk hgrown)
    rw [hplace] at hbehind
    rw [flatMap_moments_act, hbehind, ownLines]
    by_cases hhere : w.draft.place.context = generatedName "fn" k
    · rw [if_pos hhere, if_pos hhere, hhere]
    · rw [if_neg hhere, if_neg hhere, Action.appended_of_ne ha (Ne.symm hhere)]
      cases (a.perform w).1.stop? caught <;> rfl
  | inside o caught body rest ihb ihr =>
    obtain ⟨hbody, hrest⟩ := List.append_eq_nil_iff.mp hraw
    have hgrown := o.generated_le_perform body w
    have hplace := o.perform_place body w
    have hbehind := ihr hrest (w := (o.perform body.run w).2) (Nat.lt_of_lt_of_le hk hgrown)
    rw [hplace] at hbehind
    rw [flatMap_moments_inside (fun _ _ _ => rfl) (fun _ _ _ => rfl), hbehind, ownLines]
    have hinside : (match o.enter w with
          | .error _ => []
          | .ok v => (body.moments v).flatMap (Moment.appended (generatedName "fn" k))) =
        if w.draft.place.context = generatedName "fn" k then
          (match o.functionSlot?, o.enter w with
            | none, .ok v => body.ownLines v
            | _, _ => [])
        else [] := by
      cases he : o.enter w with
      | error outcome =>
        cases o.functionSlot? <;> simp
      | ok v =>
        have hbody := ihb hbody (w := v) (Nat.lt_of_lt_of_le hk (Opening.counts he).le)
        cases hslot : o.functionSlot? with
        | some slot =>
          simp only [hbody, if_neg (Opening.context_enter_ne he hslot hk), ite_self]
        | none =>
          have hcontext := Opening.context_of_enter he
          simp only [hslot] at hcontext
          simp only [hbody, hcontext]
    rw [hinside]
    by_cases hhere : w.draft.place.context = generatedName "fn" k
    · simp only [if_pos hhere]
    · simp only [if_neg hhere]
      cases (o.perform body.run w).1.stop? caught <;> rfl

/-! ## Whole runs -/

/-- A function of this number was generated, and its context holds these lines. -/
structure Draft.HoldsFunction (d : Draft) (k : Nat) (ls : List String) : Prop where
  numbered : k < d.generated
  lines : d.buffers.get? (generatedName "fn" k) = some ls

namespace Script

variable {o : Opening} {slot : Option Slot} {body s : Script} {before entered w : Workspace} {k : Nat}
  {ls : List String}

/-- A run goes on in the context of a function only if it starts there. -/
theorem holdsFunction_run (hraw : s.addressed = []) (hw : w.draft.WellNamed)
    (h : w.draft.HoldsFunction k ls) :
    (s.run w).2.draft.HoldsFunction k
      (ls ++ if w.draft.place.context = generatedName "fn" k then s.ownLines w else []) := by
  have hdefault : generatedName "fn" k ≠ w.draft.settings.defaultContext :=
    (NameKind.Accepts.ne_generatedName (.inr hw.default) "fn" k).symm
  have hconsts : generatedName "fn" k ≠ w.draft.settings.constsContext :=
    (NameKind.Accepts.ne_generatedName (.inr hw.consts) "fn" k).symm
  have hfront : ∀ l, .prepend (generatedName "fn" k) l ∉ (s.moments w).flatMap Moment.entries := by
    intro l hl
    obtain ⟨x, hx, hl⟩ := List.mem_flatMap.mp hl
    have hmem := Moment.fronted_of_prepend_mem hl
    rw [fronted_eq_nil hraw hx] at hmem
    exact absurd hmem List.not_mem_nil
  obtain ⟨⟨p, n, hdraft⟩, happended⟩ := s.run_posts w (generatedName "fn" k)
  refine ⟨Nat.lt_of_lt_of_le h.numbered (s.countedNames_run w).grown, ?_⟩
  rw [← appended_eq_ownLines hraw h.numbered, happended, hdraft]
  exact Draft.get?_post hdefault hconsts hfront h.lines

/-- Behind a step, whether the list goes on or ends there, nothing is written to the context of a
function that is not the current one. -/
theorem holdsFunction_behind {rest : Script} (hraw : rest.addressed = []) {step : Outcome × Workspace}
    (caught : Bool) (hstep : step.2.draft.WellNamed) (h : step.2.draft.HoldsFunction k ls)
    (haway : step.2.draft.place.context ≠ generatedName "fn" k) :
    (match step.1.stop? caught with
      | some e => (.error e, step.2)
      | none => rest.run step.2 : Except BuildError Unit × Workspace).2.draft.HoldsFunction k ls := by
  cases step.1.stop? caught with
  | some e => exact h
  | none =>
    have hrest := holdsFunction_run hraw hstep h
    rwa [if_neg haway, List.append_nil] at hrest

/-- The step is reached with known names only, and no number was taken back on the way. -/
theorem ComesTo.reached (h : ComesTo o body before s w) (hraw : s.addressed = [])
    (hw : w.draft.WellNamed) :
    before.draft.WellNamed ∧ w.draft.generated ≤ before.draft.generated ∧ body.addressed = [] := by
  induction h with
  | here => exact ⟨hw, Nat.le_refl _, (List.append_eq_nil_iff.mp hraw).1⟩
  | within hv _ ih =>
    obtain ⟨hbody, -⟩ := List.append_eq_nil_iff.mp hraw
    obtain ⟨hbefore, hgrown, hinner⟩ := ih hbody (Opening.wellNamed_enter hv hw)
    exact ⟨hbefore, Nat.le_trans (Opening.counts hv).le hgrown, hinner⟩
  | @afterAct a caught rest w _ _ ih =>
    obtain ⟨ha, hrest⟩ := List.append_eq_nil_iff.mp hraw
    obtain ⟨hbefore, hgrown, hinner⟩ := ih hrest (Action.wellNamed_perform ha hw)
    exact ⟨hbefore, Nat.le_trans (a.counts w).le hgrown, hinner⟩
  | @afterInside o' caught body' rest w _ _ ih =>
    obtain ⟨hbody, hrest⟩ := List.append_eq_nil_iff.mp hraw
    obtain ⟨hbefore, hgrown, hinner⟩ :=
      ih hrest (Opening.wellNamed_perform hw fun v hv => wellNamed_run hbody hv)
    exact ⟨hbefore, Nat.le_trans (o'.generated_le_perform body' w) hgrown, hinner⟩

/-- The context of a function without a name does not exist before. -/
theorem notMem_keys_of_wellNamed {d : Draft} (hd : d.WellNamed) :
    generatedName "fn" d.generated ∉ d.buffers.keys := fun hkey =>
  (hd.keys _ hkey).ne_generatedName (Nat.le_refl _) rfl

/-- The script of a function without a name starts with an empty context. -/
theorem holdsFunction_enter (hbefore : before.draft.WellNamed)
    (he : Opening.enter (.anonymousFunction slot) before = .ok entered) :
    entered.draft.HoldsFunction before.draft.generated [] ∧
      entered.draft.place.context = generatedName "fn" before.draft.generated := by
  obtain rfl := Except.ok.inj he
  refine ⟨⟨Nat.lt_succ_self _, ?_⟩, rfl⟩
  have hnew : before.draft.buffers.get? (generatedName "fn" before.draft.generated) = none := by
    have hnot := notMem_keys_of_wellNamed hbefore
    rw [← KeyedList.contains_iff_mem_keys, KeyedList.contains] at hnot
    simpa using hnot
  change (before.draft.buffers.touch _).get? _ = _
  rw [Buffers.get?_touch, if_pos rfl, hnew]
  rfl

/-- After the whole run, the context of a function without a name holds what the script of that
function wrote where it stood. -/
theorem ComesTo.holdsFunction_run (h : ComesTo (.anonymousFunction slot) body before s w)
    (hraw : s.addressed = []) (hw : w.draft.WellNamed)
    (he : Opening.enter (.anonymousFunction slot) before = .ok entered) :
    (s.run w).2.draft.HoldsFunction before.draft.generated (body.ownLines entered) := by
  induction h with
  | @here caught rest =>
    obtain ⟨hbody, hrest⟩ := List.append_eq_nil_iff.mp hraw
    obtain ⟨hstart, hcontext⟩ := holdsFunction_enter hw he
    have hinner := Script.holdsFunction_run hbody (Opening.wellNamed_enter he hw) hstart
    rw [if_pos hcontext, List.nil_append] at hinner
    have hstep : (Opening.perform (.anonymousFunction slot) body.run before).2.draft.HoldsFunction
        before.draft.generated (body.ownLines entered) := by
      rw [Opening.draft_perform he]
      exact ⟨hinner.numbered, hinner.lines⟩
    refine holdsFunction_behind hrest caught
      (Opening.wellNamed_perform hw fun v hv => wellNamed_run hbody hv) hstep ?_
    rw [Opening.perform_place]
    exact hw.current.ne_generatedName (Nat.le_refl _)
  | @within o' caught body' rest w v hv hinner ih =>
    obtain ⟨hbody, hrest⟩ := List.append_eq_nil_iff.mp hraw
    have hentered := Opening.wellNamed_enter hv hw
    obtain ⟨-, hgrown, -⟩ := hinner.reached hbody hentered
    have hdone := ih hbody hentered
    have hstep : (o'.perform body'.run w).2.draft.HoldsFunction before.draft.generated
        (body.ownLines entered) := by
      rw [Opening.draft_perform hv]
      exact ⟨hdone.numbered, hdone.lines⟩
    refine holdsFunction_behind hrest caught
      (Opening.wellNamed_perform hw fun u hu => wellNamed_run hbody hu) hstep ?_
    rw [Opening.perform_place]
    exact hw.current.ne_generatedName (Nat.le_trans (Opening.counts hv).le hgrown)
  | @afterAct a caught rest w hgo _ ih =>
    obtain ⟨ha, hrest⟩ := List.append_eq_nil_iff.mp hraw
    rw [run_act a caught rest hgo]
    exact ih hrest (Action.wellNamed_perform ha hw)
  | @afterInside o' caught body' rest w hgo _ ih =>
    obtain ⟨hbody, hrest⟩ := List.append_eq_nil_iff.mp hraw
    rw [run_inside o' caught body' rest hgo]
    exact ih hrest (Opening.wellNamed_perform hw fun v hv => wellNamed_run hbody hv)

end Script

/-- Generated names are fresh, and the contexts of functions without a name are private. In a run
without raw lines for named contexts, wherever steps fail and whether they are caught or not, no two
generated names are equal, be they of variables or of functions, and none is a name that is accepted
for either, a context of the settings or the one that runs on every tick. While the count fits into
a machine word, the one rule that they break is the one that reserves them. The generated names of
contexts are those of the functions without a name that the run comes to. When it comes to one, its
context does not exist yet, and in the end it holds the lines that the script of the function wrote
where it stood, in their order, and no others. -/
theorem Pack.generated_names_private (p : Pack) (hraw : p.script.addressed = []) :
    let names := (p.script.moments p.start).filterMap Moment.generated?
    let after := (p.script.run p.start).2.draft
    (names.map Prod.snd).Nodup ∧
    (∀ g ∈ names, ∀ name, NameKind.holder.Accepts name ∨ NameKind.context.Accepts name →
      g.2 ≠ name) ∧
    (∀ g ∈ names, g.2 ≠ p.settings.defaultContext ∧ g.2 ≠ p.settings.constsContext ∧
      g.2 ≠ tickContext) ∧
    (after.generated ≤ 2 ^ 64 → ∀ g ∈ names, g.1.fault? g.2.toList = some .reserved) ∧
    (∀ name, (.context, name) ∈ names → ∃ slot body before entered,
      Script.ComesTo (.anonymousFunction slot) body before p.script p.start ∧
      Opening.enter (.anonymousFunction slot) before = .ok entered ∧
      entered.draft.place.context = name) ∧
    ∀ slot body before, Script.ComesTo (.anonymousFunction slot) body before p.script p.start →
      ∃ entered, Opening.enter (.anonymousFunction slot) before = .ok entered ∧
        (.context, entered.draft.place.context) ∈ names ∧
        entered.draft.place.context ∉ before.draft.buffers.keys ∧
        after.buffers.get? entered.draft.place.context = some (body.ownLines entered) := by
  intro names after
  obtain ⟨-, hnumbered, hnodup⟩ := p.script.countedNames_run p.start
  have hstart := p.wellNamed_start
  have htick : NameKind.context.Accepts tickContext := by decide +kernel
  have haccepted : ∀ g ∈ names, ∀ name,
      NameKind.holder.Accepts name ∨ NameKind.context.Accepts name → g.2 ≠ name := by
    intro g hg name hname
    cases hnumbered g hg with
    | «variable» k hk => exact (NameKind.Accepts.ne_generatedName hname "v" k).symm
    | function k hk => exact (NameKind.Accepts.ne_generatedName hname "fn" k).symm
  refine ⟨hnodup, haccepted, ?_, ?_, ?_, ?_⟩
  · intro g hg
    exact ⟨haccepted g hg _ (.inr hstart.default), haccepted g hg _ (.inr hstart.consts),
      haccepted g hg _ (.inr htick)⟩
  · intro hcount g hg
    cases hnumbered g hg with
    | «variable» k hk => exact fault?_generatedName_v (Nat.lt_of_lt_of_le hk hcount)
    | function k hk => exact fault?_generatedName_fn k
  · intro name hname
    obtain ⟨x, hx, hgenerated⟩ := List.mem_filterMap.mp hname
    obtain ⟨slot, before, entered, rfl, rfl⟩ := Moment.enter_of_generated?_context hgenerated
    obtain ⟨⟨body, hcomes⟩, he⟩ := Script.enter_mem_moments_iff.mp hx
    exact ⟨slot, body, before, entered, hcomes, he, rfl⟩
  · intro slot body before hcomes
    obtain ⟨hbefore, -, -⟩ := hcomes.reached hraw hstart
    have he : Opening.enter (.anonymousFunction slot) before = .ok _ := rfl
    obtain ⟨-, hcontext⟩ := Script.holdsFunction_enter hbefore he
    refine ⟨_, he, ?_, ?_, ?_⟩
    · have hmem := Script.enter_mem_moments_iff.mpr ⟨⟨body, hcomes⟩, he⟩
      exact List.mem_filterMap.mpr ⟨_, hmem, rfl⟩
    · exact hcontext ▸ Script.notMem_keys_of_wellNamed hbefore
    · exact (hcomes.holdsFunction_run hraw hstart he).lines

def Pack.nestedFunctions : Pack where
  space := "demo"
  settings := {}
  script :=
    .act (.freshVariable (some "x")) false <|
    .inside (.anonymousFunction none) true
      (.act (.emit "say one") false <|
      .inside (.anonymousFunction none) true
        (.act (.emit "say inner") false <|
        .act (.variable "__v0" none) false .done) <|
      .inside (.when ⟨.score "x", .less, .literal 5⟩) false
        (.act (.change "x" (.multiply 3)) false .done) <|
      .act (.freshVariable none) false <|
      .act (.variable "no name" none) false <|
      .act (.emit "say never") false .done) <|
    .inside (.anonymousFunction none) false (.act (.emit "say last") false .done) .done
  accepted := Settings.fault?_demo

theorem Pack.generated_names_private_nested :
    nestedFunctions.script.addressed = [] ∧
    (nestedFunctions.script.moments nestedFunctions.start).filterMap Moment.generated? =
      [(.holder, "__v0"), (.context, "__fn1"), (.context, "__fn2"), (.holder, "__v3"),
        (.context, "__fn4")] ∧
    (∀ g ∈ (nestedFunctions.script.moments nestedFunctions.start).filterMap Moment.generated?,
      g.1.fault? g.2.toList = some .reserved) ∧
    (nestedFunctions.script.run nestedFunctions.start).2.draft.buffers.get? "__fn1" =
      some ["say one",
        "execute if score __v0 var < 5 const run scoreboard players operation __v0 var *= 3 const"]
      := by
  have hraw : nestedFunctions.script.addressed = [] := rfl
  obtain ⟨-, -, -, hrules, -, hprivate⟩ := generated_names_private nestedFunctions hraw
  have hcount : (nestedFunctions.script.run nestedFunctions.start).2.draft.generated ≤ 2 ^ 64 := by
    decide +kernel
  obtain ⟨entered, he, -, -, hlines⟩ := hprivate none _ _ (.afterAct rfl .here)
  have hname : entered.draft.place.context = "__fn1" := by
    rw [← Except.ok.inj he]
    decide +kernel
  rw [hname] at hlines
  refine ⟨hraw, by decide +kernel, hrules hcount, hlines.trans ?_⟩
  rw [← Except.ok.inj he]
  decide +kernel

end CommandPack
