import CommandPack.Proofs.Refinement

namespace CommandPack

/-- What happens in a run: actions, and the entering and leaving of steps with a script inside. -/
inductive Moment
  | act (a : Action) (before : Workspace)
  | enter (o : Opening) (before entered : Workspace)
  | leave (o : Opening) (before after : Workspace)

def Moment.after : Moment → Workspace
  | .act a before => (a.perform before).2
  | .enter _ _ entered => entered
  | .leave _ _ after => after

namespace Script

/-- A step that is not entered has no moment of its own, since it does nothing. -/
def moments : Script → Workspace → List Moment
  | .done, _ => []
  | .act a caught rest, w =>
    let step := a.perform w
    .act a w ::
      match step.1.stop? caught with
      | some _ => []
      | none => rest.moments step.2
  | .inside o caught body rest, w =>
    let step := o.perform body.run w
    (match o.enter w with
      | .error _ => []
      | .ok entered => .enter o w entered :: body.moments entered ++ [.leave o w step.2]) ++
    match step.1.stop? caught with
    | some _ => []
    | none => rest.moments step.2

/-- What every moment preserves, a run preserves. A step is left with what held when it was
entered still at hand. -/
theorem moments_induction {P : List Moment → Workspace → Prop}
    (hact : ∀ (ms : List Moment) (a : Action) (w : Workspace),
      P ms w → P (ms ++ [.act a w]) (a.perform w).2)
    (henter : ∀ (ms : List Moment) (o : Opening) (w v : Workspace),
      P ms w → o.enter w = .ok v → P (ms ++ [.enter o w v]) v)
    (hleave : ∀ (ms inner : List Moment) (o : Opening) (w v : Workspace) (body : Script),
      P ms w → o.enter w = .ok v → P (ms ++ inner) (body.run v).2 →
      P (ms ++ inner ++ [.leave o w (o.perform body.run w).2]) (o.perform body.run w).2)
    (s : Script) {ms : List Moment} {w : Workspace} (h : P ms w) :
    P (ms ++ s.moments w) (s.run w).2 := by
  induction s generalizing ms w with
  | done => simpa [moments, run] using h
  | act a caught rest ih =>
    have hstep := hact ms a w h
    simp only [moments, run]
    cases (a.perform w).1.stop? caught with
    | some e => exact hstep
    | none => simpa using ih hstep
  | inside o caught body rest ihb ihr =>
    simp only [moments, run]
    cases he : o.enter w with
    | error outcome =>
      -- The step is not entered, so it has no moment and changes nothing.
      have hsame : (o.perform body.run w).2 = w := by simp only [Opening.perform, he]
      rw [hsame, List.nil_append]
      cases (o.perform body.run w).1.stop? caught with
      | some e => simpa using h
      | none => exact ihr h
    | ok v =>
      -- `hin` carries the moments of the script inside to the end of it, `hout` over the leaving.
      have hin := ihb (henter ms o w v h he)
      rw [List.append_assoc] at hin
      have hout := hleave ms _ o w v body h he hin
      cases (o.perform body.run w).1.stop? caught with
      | some e => simpa using hout
      | none => simpa using ihr hout

/-- What every moment preserves holds after each moment of a run, and at the end of the run. -/
theorem moments_states {P : List Moment → Workspace → Prop}
    (hact : ∀ (ms : List Moment) (a : Action) (w : Workspace),
      P ms w → P (ms ++ [.act a w]) (a.perform w).2)
    (henter : ∀ (ms : List Moment) (o : Opening) (w v : Workspace),
      P ms w → o.enter w = .ok v → P (ms ++ [.enter o w v]) v)
    (hleave : ∀ (ms inner : List Moment) (o : Opening) (w v : Workspace) (body : Script),
      P ms w → o.enter w = .ok v → P (ms ++ inner) (body.run v).2 →
      P (ms ++ inner ++ [.leave o w (o.perform body.run w).2]) (o.perform body.run w).2)
    (s : Script) {w : Workspace} (h : P [] w) :
    P (s.moments w) (s.run w).2 ∧
    ∀ front x back, s.moments w = front ++ x :: back → P (front ++ [x]) x.after := by
  -- The states so far are carried along the run, so each of them is still at hand at its end.
  let Q (ms : List Moment) (v : Workspace) : Prop :=
    P ms v ∧ ∀ front x back, ms = front ++ x :: back → P (front ++ [x]) x.after
  have hconcat {ms : List Moment} {y : Moment} {u : Workspace} (hms : Q ms u)
      (hy : P (ms ++ [y]) y.after) : Q (ms ++ [y]) y.after := by
    refine ⟨hy, fun front x back hsplit => ?_⟩
    rcases List.eq_nil_or_concat back with rfl | ⟨back', z, rfl⟩
    · obtain ⟨rfl, hlast⟩ := List.append_inj' hsplit rfl
      obtain rfl := List.singleton_inj.mp hlast
      exact hy
    · have hsplit' : ms ++ [y] = (front ++ x :: back') ++ [z] := by simpa using hsplit
      exact hms.2 front x back' (List.append_inj' hsplit' rfl).1
  refine s.moments_induction (P := Q) ?_ ?_ ?_ ⟨h, fun front x back hsplit => by simp at hsplit⟩
  · exact fun ms a v hv => hconcat hv (hact ms a v hv.1)
  · exact fun ms o v u hv he => hconcat hv (henter ms o v u hv.1 he)
  · exact fun ms inner o v u body hv he hin => hconcat hin (hleave ms inner o v u body hv.1 he hin.1)

def actions : Script → List Action
  | .done => []
  | .act a _ rest => a :: rest.actions
  | .inside _ _ body rest => body.actions ++ rest.actions

/-- A run performs no other actions. -/
theorem mem_actions_of_mem_moments {s : Script} {a : Action} {before w : Workspace}
    (h : .act a before ∈ s.moments w) : a ∈ s.actions := by
  induction s generalizing w with
  | done => exact absurd h List.not_mem_nil
  | act a' caught rest ih =>
    rw [moments, List.mem_cons] at h
    rw [actions, List.mem_cons]
    rcases h with h | h
    · exact .inl (Moment.act.inj h).1
    · right
      cases hstop : (a'.perform w).1.stop? caught with
      | some e =>
        rw [hstop] at h
        exact absurd h List.not_mem_nil
      | none =>
        rw [hstop] at h
        exact ih h
  | inside o caught body rest ihb ihr =>
    rw [moments, List.mem_append] at h
    rw [actions, List.mem_append]
    rcases h with h | h
    · left
      cases hv : o.enter w with
      | error outcome =>
        rw [hv] at h
        exact absurd h List.not_mem_nil
      | ok v =>
        simp only [hv, List.cons_append, List.mem_cons, List.mem_append, reduceCtorEq,
          List.not_mem_nil, or_false, false_or] at h
        exact ihb h
    · right
      cases hstop : (o.perform body.run w).1.stop? caught with
      | some e =>
        rw [hstop] at h
        exact absurd h List.not_mem_nil
      | none =>
        rw [hstop] at h
        exact ihr h

end Script

theorem Script.run_place (s : Script) (w : Workspace) :
    (s.run w).2.draft.place = w.draft.place := by
  rw [s.run_records w []]
  rfl

theorem Opening.perform_place (o : Opening) (body : Script) (w : Workspace) :
    (o.perform body.run w).2.draft.place = w.draft.place := by
  rw [(o.perform_record body.run_records w []).2]
  rfl

theorem Opening.handles_enter {o : Opening} {w v : Workspace} (he : o.enter w = .ok v) :
    v.handles = w.handles := by
  obtain ⟨entered, hentered, hs⟩ := stands_of_enter he []
  have hmemory : v.handles = entered.memory.handles := congrArg Memory.handles hs.memory
  cases entered_of_entrance hentered with
  | inScope _ _ _ | guarded _ _ _ | function _ _ _ _ _ => exact hmemory

/-- A script inside a function leads back to the context of the function. -/
theorem Opening.handle_run (body : Script) (v : Workspace) :
    handle (body.run v).2 = handle v := by
  rw [body.run_records v []]
  rfl

/-- Leaving a step keeps what the slots hold, and may add the function that was entered. -/
theorem Opening.handles_perform {o : Opening} {w v : Workspace} (he : o.enter w = .ok v)
    (body : Script) :
    (o.perform body.run w).2.handles = (body.run v).2.handles ∨
    ∃ slot, (o.perform body.run w).2.handles =
      (body.run v).2.handles.keepFunction slot (handle v) := by
  simp only [perform, he]
  cases (body.run v).1 with
  | error e =>
    left
    simp only [close, leave]
    cases o.functionSlot? <;> rfl
  | ok u =>
    simp only [close, keep, leave]
    cases o.functionSlot? with
    | none => exact .inl rfl
    | some slot => exact .inr ⟨slot, rfl⟩

/-- A step leaves the draft as its script made it, apart from the place. -/
theorem Opening.draft_perform {o : Opening} {w v : Workspace} (he : o.enter w = .ok v)
    (body : Script) :
    (o.perform body.run w).2.draft = (body.run v).2.draft.returnTo w.draft.place := by
  obtain ⟨entered, -, hs⟩ := stands_of_enter he []
  have hleave := hs.leave (body.run v).2 (body.run_place v)
  simp only [perform, he]
  cases (body.run v).1 with
  | error e => exact congrArg Workspace.draft hleave
  | ok u =>
    simp only [close, keep, hleave]
    cases o.functionSlot? <;> rfl

/-- After a run, whether it failed or not, the next line goes to the context it went to before,
behind the same open scopes with the same text. The same holds whenever a scope or a function of
the run is left. -/
theorem Script.run_restores_place (s : Script) (w : Workspace) :
    (s.run w).2.draft.place = w.draft.place ∧
    ∀ o before after, .leave o before after ∈ s.moments w →
      after.draft.place = before.draft.place := by
  have hnil : ∀ o before after, Moment.leave o before after ∈ ([] : List Moment) →
      after.draft.place = before.draft.place := fun _ _ _ hm => absurd hm List.not_mem_nil
  have hrun := s.moments_induction (w := w)
    (P := fun ms _ => ∀ o before after, .leave o before after ∈ ms →
      after.draft.place = before.draft.place) ?_ ?_ ?_ hnil
  · exact ⟨s.run_place w, hrun⟩
  · intro ms a w h o before after hm
    exact h o before after (by simpa using hm)
  · intro ms o w v h _ o' before after hm
    exact h o' before after (by simpa using hm)
  · intro ms inner o w v body _ _ h o' before after hm
    rcases List.mem_append.mp hm with hm | hm
    · exact h o' before after hm
    · simp only [List.mem_singleton, Moment.leave.injEq] at hm
      obtain ⟨rfl, rfl, rfl⟩ := hm
      exact o'.perform_place body before

end CommandPack
