import CommandPack.Proofs.Moments
import Mathlib.Data.List.Induction

namespace CommandPack

/-! ## Refused steps -/

/-- An action that fails with this error. Whether it does depends on what it is given alone. -/
def Action.Refused (e : BuildError) : Action → Prop
  | .variable name _ => BuildError.checkName .holder name = .error e
  | .bossBar id _ _ => BuildError.checkName .bossBar id = .error e
  | .summon entity _ _ _ => ∃ reason, entity.tag = .error reason ∧ e = .payload entity.id reason
  | _ => False

def Opening.Refused (e : BuildError) : Opening → Prop
  | .function name _ => BuildError.checkName .context name = .error e
  | _ => False

variable {e : BuildError} {w v reached : Workspace}

theorem Outcome.stop?_eq_some {outcome : Outcome} {caught : Bool} :
    outcome.stop? caught = some e ↔ outcome = .failed e ∧ caught = false := by
  cases outcome <;> cases caught <;> simp [stop?]

/-- A step on a slot never fails: it does nothing if the slot is empty. -/
theorem Workspace.withFound_ne_failed {α : Type} (found : Option α) (f : α → Workspace) :
    (w.withFound found f).1 ≠ .failed e := by
  cases found <;> simp [withFound]

/-- A refused action changes nothing. -/
theorem Action.perform_of_refused {a : Action} (h : a.Refused e) :
    a.perform w = (.failed e, w) := by
  cases a with
  | «variable» name slot =>
    have hn : BuildError.checkName .holder name = .error e := h
    simp only [perform, Draft.namedVariable, hn]
  | bossBar id title slot =>
    have hn : BuildError.checkName .bossBar id = .error e := h
    simp only [perform, Draft.makeBossBar, hn]
  | summon entity x y z =>
    obtain ⟨reason, ht, rfl⟩ := h
    simp only [perform, Draft.summon, ht]
  | _ => exact False.elim h

/-- Only a refused action fails. -/
theorem Action.refused_of_failed {a : Action} (h : (a.perform w).1 = .failed e) :
    a.Refused e := by
  cases a with
  | «variable» name slot =>
    simp only [perform, Draft.namedVariable] at h
    cases hn : BuildError.checkName .holder name with
    | error e' =>
      simp only [hn, Outcome.failed.injEq] at h
      exact h ▸ hn
    | ok u => simp only [hn, reduceCtorEq] at h
  | bossBar id title slot =>
    simp only [perform, Draft.makeBossBar] at h
    cases hn : BuildError.checkName .bossBar id with
    | error e' =>
      simp only [hn, Outcome.failed.injEq] at h
      exact h ▸ hn
    | ok u => simp only [hn, reduceCtorEq] at h
  | summon entity x y z =>
    simp only [perform, Draft.summon] at h
    cases ht : entity.tag with
    | error reason =>
      simp only [ht, Outcome.failed.injEq] at h
      exact ⟨reason, ht, h.symm⟩
    | ok tag => simp only [ht, reduceCtorEq] at h
  | change _ _ | clamp _ _ _ | act _ _ | setBar _ _ | call _ =>
    exact absurd h (Workspace.withFound_ne_failed _ _)
  | emit _ | emitTo _ _ | declareFirst _ _ | declare _ _ | freshVariable _ | constant _
  | selector _ _ => cases h

theorem Action.perform_place (a : Action) (w : Workspace) :
    (a.perform w).2.draft.place = w.draft.place := by
  rw [a.perform_eq_record w []]
  rfl

namespace Opening

theorem perform_of_refused {o : Opening} (h : o.Refused e)
    (inside : Workspace → Except BuildError Unit × Workspace) :
    o.perform inside w = (.failed e, w) := by
  cases o with
  | function name slot =>
    have hn : BuildError.checkName .context name = .error e := h
    simp only [perform, enter, hn]
  | _ => exact False.elim h

/-- A step that is not entered has an empty slot or was refused. -/
theorem refused_of_enter {o : Opening} (h : o.enter w = .error (.failed e)) : o.Refused e := by
  cases o with
  | function name slot =>
    simp only [enter] at h
    cases hn : BuildError.checkName .context name with
    | error e' =>
      simp only [hn, Except.error.injEq, Outcome.failed.injEq] at h
      exact h ▸ hn
    | ok u => simp only [hn, reduceCtorEq] at h
  | when c =>
    simp only [enter] at h
    cases hc : c.resolve w.handles.score? <;> simp [hc] at h
  | whenScore slot c =>
    simp only [enter] at h
    cases hs : w.handles.score? slot with
    | none => simp [hs] at h
    | some self =>
      simp only [hs] at h
      cases hc : c.resolve (w.handles.scoreOrSelf? self) <;> simp [hc] at h
  | forEach slot =>
    simp only [enter] at h
    cases hs : w.handles.selector? slot <;> simp [hs] at h
  | scope _ | nest _ | anonymousFunction _ | tick _ => cases h

/-- A step that was entered fails exactly if the script inside it does. -/
theorem failed_perform_iff {o : Opening} (hv : o.enter w = .ok v)
    (inside : Workspace → Except BuildError Unit × Workspace) :
    (o.perform inside w).1 = .failed e ↔ (inside v).1 = .error e := by
  simp only [perform, hv]
  cases (inside v).1 with
  | error e' => simp only [close, Outcome.failed.injEq, Except.error.injEq]
  | ok u => simp only [close, reduceCtorEq]

/-- A step fails if it is refused or if the script inside it fails. -/
theorem refused_or_entered {o : Opening}
    {inside : Workspace → Except BuildError Unit × Workspace}
    (h : (o.perform inside w).1 = .failed e) :
    o.Refused e ∨ ∃ v, o.enter w = .ok v ∧ (inside v).1 = .error e := by
  cases hv : o.enter w with
  | error outcome =>
    have hout : outcome = .failed e := by simpa only [perform, hv] using h
    exact .inl (refused_of_enter (hout ▸ hv))
  | ok v => exact .inr ⟨v, rfl, (failed_perform_iff hv inside).mp h⟩

end Opening

namespace Script

/-! ## Where a run stops, and the script up to there -/

/-- The run of a script from a workspace comes to a refused step at this position, in the workspace
`reached`, and neither that step nor one around it is caught. -/
inductive StopsAt (e : BuildError) (reached : Workspace) : Script → Workspace → List Nat → Prop
  | refusedAct {a : Action} {rest : Script} (ha : a.Refused e) :
    StopsAt e reached (.act a false rest) reached [0]
  | refusedOpening {o : Opening} {body rest : Script} (ho : o.Refused e) :
    StopsAt e reached (.inside o false body rest) reached [0]
  | within {o : Opening} {body rest : Script} {w v : Workspace} {position : List Nat}
    (hv : o.enter w = .ok v) (hbody : StopsAt e reached body v position) :
    StopsAt e reached (.inside o false body rest) w (0 :: position)
  | afterAct {a : Action} {caught : Bool} {rest : Script} {w : Workspace} {index : Nat}
    {position : List Nat} (hgo : (a.perform w).1.stop? caught = none)
    (hrest : StopsAt e reached rest (a.perform w).2 (index :: position)) :
    StopsAt e reached (.act a caught rest) w ((index + 1) :: position)
  | afterInside {o : Opening} {caught : Bool} {body rest : Script} {w : Workspace} {index : Nat}
    {position : List Nat} (hgo : (o.perform body.run w).1.stop? caught = none)
    (hrest : StopsAt e reached rest (o.perform body.run w).2 (index :: position)) :
    StopsAt e reached (.inside o caught body rest) w ((index + 1) :: position)

/-- The script without the step at a position and without all that follows it, in the list it
stands in and in every list around that. -/
def upTo : List Nat → Script → Script
  | (index + 1) :: inner, .act a caught rest => .act a caught (rest.upTo (index :: inner))
  | (index + 1) :: inner, .inside o caught body rest =>
    .inside o caught body (rest.upTo (index :: inner))
  | 0 :: index :: inner, .inside o caught body _ =>
    .inside o caught (body.upTo (index :: inner)) .done
  | _, _ => .done

theorem StopsAt.position_ne_nil {s : Script} {position : List Nat}
    (h : s.StopsAt e reached w position) : position ≠ [] := by
  cases h <;> exact List.cons_ne_nil _ _

/-- A run that fails stops at some step. -/
theorem exists_stopsAt (s : Script) (h : (s.run w).1 = .error e) :
    ∃ reached position, s.StopsAt e reached w position := by
  induction s generalizing w with
  | done => nomatch h
  | act a caught rest ih =>
    simp only [run] at h
    cases hstop : (a.perform w).1.stop? caught with
    | some e' =>
      simp only [hstop] at h
      obtain rfl : e' = e := Except.error.inj h
      obtain ⟨hfailed, rfl⟩ := Outcome.stop?_eq_some.mp hstop
      exact ⟨w, [0], .refusedAct (Action.refused_of_failed hfailed)⟩
    | none =>
      simp only [hstop] at h
      obtain ⟨reached, position, hrest⟩ := ih h
      obtain ⟨index, inner, rfl⟩ := List.exists_cons_of_ne_nil hrest.position_ne_nil
      exact ⟨reached, _, .afterAct hstop hrest⟩
  | inside o caught body rest ihb ihr =>
    simp only [run] at h
    cases hstop : (o.perform body.run w).1.stop? caught with
    | some e' =>
      simp only [hstop] at h
      obtain rfl : e' = e := Except.error.inj h
      obtain ⟨hfailed, rfl⟩ := Outcome.stop?_eq_some.mp hstop
      rcases Opening.refused_or_entered hfailed with ho | ⟨v, hv, hbody⟩
      · exact ⟨w, [0], .refusedOpening ho⟩
      · obtain ⟨reached, position, hinner⟩ := ihb hbody
        exact ⟨reached, _, .within hv hinner⟩
    | none =>
      simp only [hstop] at h
      obtain ⟨reached, position, hrest⟩ := ihr h
      obtain ⟨index, inner, rfl⟩ := List.exists_cons_of_ne_nil hrest.position_ne_nil
      exact ⟨reached, _, .afterInside hstop hrest⟩

structure Cut (s : Script) (w : Workspace) (position : List Nat) (e : BuildError)
    (reached : Workspace) : Prop where
  /-- The whole script fails, -/
  fails : (s.run w).1 = .error e
  /-- the script up to the step does not, -/
  succeeds : ((s.upTo position).run w).1 = .ok ()
  /-- and both leave the same draft: -/
  draft : ((s.upTo position).run w).2.draft = (s.run w).2.draft
  /-- the one with which the step was reached, back at the place of the start. -/
  kept : (s.run w).2.draft = reached.draft.returnTo w.draft.place

theorem run_act (a : Action) (caught : Bool) (rest : Script)
    (hgo : (a.perform w).1.stop? caught = none) :
    (Script.act a caught rest).run w = rest.run (a.perform w).2 := by
  simp only [run, hgo]

theorem run_inside (o : Opening) (caught : Bool) (body rest : Script)
    (hgo : (o.perform body.run w).1.stop? caught = none) :
    (Script.inside o caught body rest).run w = rest.run (o.perform body.run w).2 := by
  simp only [run, hgo]

theorem run_inside_failed (o : Opening) (body rest : Script)
    (h : (o.perform body.run w).1 = .failed e) :
    (Script.inside o false body rest).run w = (.error e, (o.perform body.run w).2) := by
  simp only [run, h, Outcome.stop?]

/-- The induction goes along the way to the refused step. What runs before it runs in both scripts,
and what stands behind it runs in neither. -/
theorem StopsAt.cut {s : Script} {position : List Nat} (h : s.StopsAt e reached w position) :
    s.Cut w position e reached := by
  induction h with
  | @refusedAct a rest ha =>
    have hrun : (Script.act a false rest).run reached = (.error e, reached) := by
      simp only [run, Action.perform_of_refused ha, Outcome.stop?]
    exact ⟨congrArg Prod.fst hrun, rfl, hrun ▸ rfl, hrun ▸ rfl⟩
  | @refusedOpening o body rest ho =>
    have hrun : (Script.inside o false body rest).run reached = (.error e, reached) := by
      simp only [run, Opening.perform_of_refused ho, Outcome.stop?]
    exact ⟨congrArg Prod.fst hrun, rfl, hrun ▸ rfl, hrun ▸ rfl⟩
  | @within o body rest w v position hv hbody ih =>
    obtain ⟨index, inner, rfl⟩ := List.exists_cons_of_ne_nil hbody.position_ne_nil
    have hfailed := (Opening.failed_perform_iff hv body.run).mpr ih.fails
    have hgo : (o.perform (body.upTo (index :: inner)).run w).1.stop? false = none := by
      simp only [Opening.perform, hv, ih.succeeds]
      rfl
    have hcut : (Script.inside o false body rest).upTo (0 :: index :: inner) =
        .inside o false (body.upTo (index :: inner)) .done := rfl
    refine ⟨?_, ?_, ?_, ?_⟩
    · rw [run_inside_failed o body rest hfailed]
    · rw [hcut, run_inside o _ _ _ hgo]
      rfl
    · rw [hcut, run_inside o _ _ _ hgo, run_inside_failed o body rest hfailed]
      change (o.perform (body.upTo (index :: inner)).run w).2.draft = _
      rw [Opening.draft_perform hv, Opening.draft_perform hv, ih.draft]
    · rw [run_inside_failed o body rest hfailed, Opening.draft_perform hv, ih.kept]
      rfl
  | @afterAct a caught rest w index inner hgo _ ih =>
    have hcut : (Script.act a caught rest).upTo ((index + 1) :: inner) =
        .act a caught (rest.upTo (index :: inner)) := rfl
    refine ⟨?_, ?_, ?_, ?_⟩
    · rw [run_act a caught rest hgo]
      exact ih.fails
    · rw [hcut, run_act a caught _ hgo]
      exact ih.succeeds
    · rw [hcut, run_act a caught _ hgo, run_act a caught rest hgo]
      exact ih.draft
    · rw [run_act a caught rest hgo, ih.kept, a.perform_place w]
  | @afterInside o caught body rest w index inner hgo _ ih =>
    have hcut : (Script.inside o caught body rest).upTo ((index + 1) :: inner) =
        .inside o caught body (rest.upTo (index :: inner)) := rfl
    refine ⟨?_, ?_, ?_, ?_⟩
    · rw [run_inside o caught body rest hgo]
      exact ih.fails
    · rw [hcut, run_inside o caught body _ hgo]
      exact ih.succeeds
    · rw [hcut, run_inside o caught body _ hgo, run_inside o caught body rest hgo]
      exact ih.draft
    · rw [run_inside o caught body rest hgo, ih.kept, o.perform_place body w]

/-- A script that fails leaves the draft that it leaves when it is cut off in front of the step
that failed: without that step, and without all that follows it in its own list and in the lists
around it. The script cut off does not fail. The refused step was reached with that same draft but
for the place, so nothing written or declared before it is lost and it adds nothing. -/
theorem run_upTo (s : Script) (w : Workspace) (e : BuildError) (h : (s.run w).1 = .error e) :
    ∃ reached position, s.StopsAt e reached w position ∧
      ((s.upTo position).run w).1 = .ok () ∧
      ((s.upTo position).run w).2.draft = (s.run w).2.draft ∧
      (s.run w).2.draft = reached.draft.returnTo w.draft.place := by
  obtain ⟨reached, position, hstop⟩ := s.exists_stopsAt h
  exact ⟨reached, position, hstop, hstop.cut.succeeds, hstop.cut.draft, hstop.cut.kept⟩

def nestedFailure : Script :=
  .act (.variable "x" none) false <|
  .act (.variable "no name" none) true <|
  .inside (.when ⟨.score "x", .less, .literal 5⟩) false
    (.act (.change "x" (.multiply 7)) false <|
    .inside (.anonymousFunction none) false
      (.act (.emit "say inside") false <|
      .inside (.function "No Name" none) false (.act (.emit "say never") false .done) <|
      .act (.constant 9) false .done) <|
    .act (.emit "say behind") false .done) <|
  .act (.freshVariable none) false .done

theorem run_upTo_nested :
    let start : Workspace := { draft := .start "demo" {} }
    let e : BuildError := .invalidName ⟨.context, "No Name", .pathCharacter⟩
    (nestedFailure.run start).1 = .error e ∧
    ∃ reached position, nestedFailure.StopsAt e reached start position ∧
      ((nestedFailure.upTo position).run start).1 = .ok () ∧
      ((nestedFailure.upTo position).run start).2.draft.buffers.entries =
        [("default", ["scoreboard objectives add const dummy", "function demo:consts",
            "scoreboard objectives add var dummy",
            "execute if score x var < 5 const run scoreboard players operation x var *= 7 const"]),
          ("consts", ["scoreboard players set 5 const 5", "scoreboard players set 7 const 7"]),
          ("__fn0", ["say inside"])] := by
  intro start e
  have hfails : (nestedFailure.run start).1 = .error e := by decide +kernel
  obtain ⟨reached, position, hstop, hok, hdraft, hkept⟩ := nestedFailure.run_upTo start e hfails
  refine ⟨hfails, reached, position, hstop, hok, ?_⟩
  rw [hdraft]
  decide +kernel

end Script
end CommandPack
