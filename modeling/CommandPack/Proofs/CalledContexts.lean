import CommandPack.Proofs.Actions
import CommandPack.Proofs.Contexts

namespace CommandPack

theorem Action.functions_read (a : Action) (p : Site) (m : Memory) :
    (a.read p m).memory.handles.functions = m.handles.functions := by
  have hread := a.remembers_read p m
  generalize a.read p m = r at hread ⊢
  cases hread with
  | _ => rfl

theorem Action.function?_perform (a : Action) (w : Workspace) (slot : Slot) :
    (a.perform w).2.handles.function? slot = w.handles.function? slot := by
  rw [a.perform_eq_record w []]
  exact congrArg (KeyedList.get? · slot) (a.functions_read _ _)

/-- Leaving a step keeps the functions that the script inside left, and may add the one that was
entered. -/
theorem Opening.function?_perform {o : Opening} {w v : Workspace} (he : o.enter w = .ok v)
    (body : Script) {slot : Slot} {f : FunctionRef}
    (h : (o.perform body.run w).2.handles.function? slot = some f) :
    (body.run v).2.handles.function? slot = some f ∨ f = handle v := by
  rcases handles_perform he body with hsame | ⟨kept, hkept⟩
  · exact .inl (hsame ▸ h)
  · rw [hkept] at h
    exact (KeyedList.of_get?_insert h).imp_right Eq.symm

def FunctionRef.Present (i : Imprint) (ms : List Moment) (f : FunctionRef) : Prop :=
  f.space = i.space ∧ Mentioned i.settings ms f.name

/-- Through these moments, slots hold only functions that are present, and only such functions are
called. -/
structure CallsPresent (i : Imprint) (ms : List Moment) (w : Workspace) : Prop
    extends Mentions i ms w where
  handles : ∀ slot f, w.handles.function? slot = some f → f.Present i ms
  called : ∀ e ∈ ms.flatMap Moment.entries, ∀ l f, e.line? = some l → l.command = .call f →
    f.Present i ms

variable {i : Imprint} {ms : List Moment} {w v : Workspace} {x : Moment}

theorem FunctionRef.Present.append {f : FunctionRef} (h : f.Present i ms) (later : List Moment) :
    f.Present i (ms ++ later) :=
  h.imp_right (·.append later)

namespace CallsPresent

theorem start (i : Imprint) : CallsPresent i [] { draft := .start i.space i.settings } where
  toMentions := .start i
  handles _ _ hf := nomatch show none = some _ from hf
  called _ he := absurd he List.not_mem_nil

theorem concat (h : CallsPresent i ms w) (hmentions : Mentions i (ms ++ [x]) v)
    (hhandles : ∀ slot f, v.handles.function? slot = some f → f.Present i (ms ++ [x]))
    (hcalled : ∀ e ∈ x.entries, ∀ l f, e.line? = some l → l.command = .call f → f.Present i ms) :
    CallsPresent i (ms ++ [x]) v := by
  refine ⟨hmentions, hhandles, fun e he l f hl hf => ?_⟩
  rw [List.flatMap_append, List.flatMap_singleton, List.mem_append] at he
  rcases he with he | he
  · exact (h.called e he l f hl hf).append [x]
  · exact (hcalled e he l f hl hf).append [x]

/-- An action calls only a function that a slot holds. -/
theorem act (h : CallsPresent i ms w) (a : Action) :
    CallsPresent i (ms ++ [.act a w]) (a.perform w).2 := by
  refine h.concat (h.toMentions.act a) ?_ ?_
  · intro slot f hf
    rw [a.function?_perform w slot] at hf
    exact (h.handles slot f hf).append _
  · intro e he l f hl hf
    obtain ⟨-, hwrites⟩ := Action.writes_of_mem_read he hl
    rw [hf] at hwrites
    cases hwrites with
    | call hslot => exact h.handles _ f hslot

theorem enter (h : CallsPresent i ms w) {o : Opening} (he : o.enter w = .ok v) :
    CallsPresent i (ms ++ [.enter o w v]) v := by
  refine h.concat (h.toMentions.enter he) ?_ ?_
  · intro slot f hf
    rw [Opening.handles_enter he] at hf
    exact (h.handles slot f hf).append _
  · obtain ⟨entered, hentered, -⟩ := Opening.stands_of_enter he []
    simp only [Moment.entries, hentered]
    intro e hmem l f hl
    rw [Opening.line?_of_mem_entrance hentered hmem] at hl
    cases hl

/-- The context of a function exists since the function was entered, so its handle may be kept. -/
theorem leave {inner : List Moment} (h : CallsPresent i ms w) {o : Opening}
    (he : o.enter w = .ok v) {body : Script} (hin : CallsPresent i (ms ++ inner) (body.run v).2) :
    CallsPresent i (ms ++ inner ++ [.leave o w (o.perform body.run w).2])
      (o.perform body.run w).2 := by
  refine hin.concat (h.toMentions.leave he hin.toMentions) ?_ fun e he => absurd he List.not_mem_nil
  intro slot f hf
  rcases Opening.function?_perform he body hf with hf | rfl
  · exact (hin.handles slot f hf).append _
  · -- The script inside led back to the context that was entered.
    rw [← Opening.handle_run body v]
    exact ⟨congrArg Imprint.space hin.imprint, hin.current.append _⟩

end CallsPresent

/-- The contexts of a draft after these moments consist of lines. Every call that was made is one
of them, and every call among them names a context of the draft. The default context is there, and
if it calls the constants, so is theirs, with a declaration. -/
structure Linked (i : Imprint) (ms : List Moment) (d : Draft) : Prop where
  lines : ∀ c, (d.buffers.get? c).getD [] =
    (linesOf i.settings (ms.flatMap Moment.entries) c).map (Line.text i)
  made : ∀ slot before f, .act (.call slot) before ∈ ms → before.handles.function? slot = some f →
    .written ⟨before.draft.place.scopes.text, [], .call f⟩ ∈
      linesOf i.settings (ms.flatMap Moment.entries) before.draft.place.context
  calls : ∀ c l f, .written l ∈ linesOf i.settings (ms.flatMap Moment.entries) c →
    l.command = .call f → f.space = i.space ∧ f.name ∈ d.buffers.keys
  default : i.settings.defaultContext ∈ d.buffers.keys
  constants : .constantsCall ∈
      linesOf i.settings (ms.flatMap Moment.entries) i.settings.defaultContext →
    i.settings.constsContext ∈ d.buffers.keys ∧
      ∃ n, .constant n ∈ linesOf i.settings (ms.flatMap Moment.entries) i.settings.constsContext

/-- What is called is present, so every call that was written finds its context. -/
theorem CallsPresent.linked (h : CallsPresent i ms w) : Linked i ms w.draft where
  lines := h.lines
  made := by
    intro slot before f hmem hf
    refine written_mem (List.mem_flatMap.mpr ⟨_, hmem, ?_⟩)
    simp only [Moment.entries, Action.read]
    rw [Memory.mem_withFound]
    exact ⟨f, hf, List.mem_singleton.mpr rfl⟩
  calls := by
    intro c l f hl hf
    have hpresent : f.Present i ms := by
      rcases written_mem_of_mem hl with hmem | hmem <;> exact h.called _ hmem l f rfl hf
    exact hpresent.imp_right fun hname => (h.mem_keys _).mpr (.inl hname)
  default := (h.mem_keys _).mpr (.inl (.inl rfl))
  constants := by
    intro hcall
    obtain ⟨n, hn⟩ := exists_constant_of_call_mem hcall
    have hused : ms.flatMap Moment.uses ≠ [] := by
      rw [← uses_moments, ← exists_constant_iff]
      exact ⟨n, hn⟩
    exact ⟨(h.mem_keys _).mpr (.inr ⟨rfl, hused⟩), n, constant_mem hn⟩

namespace Script

/-- No call is written to a missing function: on a new draft, after every step of a run and after
all that is entered or left in it, whether it fails or not, the calls find their contexts. The
contexts stay to the end of the run. -/
theorem calls_find_contexts (s : Script) (space : String) (settings : Settings) :
    let start : Workspace := { draft := .start space settings }
    Linked ⟨space, settings⟩ (s.moments start) (s.run start).2.draft ∧
    ∀ front x back, s.moments start = front ++ x :: back →
      Linked ⟨space, settings⟩ (front ++ [x]) x.after.draft ∧
      x.after.draft.buffers.keys ⊆ (s.run start).2.draft.buffers.keys ∧
      ∀ y ∈ back, x.after.draft.buffers.keys ⊆ y.after.draft.buffers.keys := by
  intro start
  obtain ⟨hend, hstates⟩ := s.moments_states (P := CallsPresent ⟨space, settings⟩)
    (fun _ a _ h => h.act a) (fun _ _ _ _ h he => h.enter he)
    (fun _ _ _ _ _ _ h he hin => h.leave he hin) (.start ⟨space, settings⟩)
  refine ⟨hend.linked, fun front x back hsplit => ?_⟩
  have hx := hstates front x back hsplit
  refine ⟨hx.linked, ?_, fun y hy => ?_⟩
  · have hend' : Mentions ⟨space, settings⟩ (front ++ [x] ++ back) (s.run start).2 := by
      rw [List.append_assoc, List.singleton_append, ← hsplit]
      exact hend.toMentions
    exact hx.toMentions.keys_subset hend'
  · obtain ⟨between, rest, rfl⟩ := List.append_of_mem hy
    have hsplit' : s.moments start = (front ++ x :: between) ++ y :: rest := by simpa using hsplit
    have hy' : Mentions ⟨space, settings⟩ (front ++ [x] ++ (between ++ [y])) y.after := by
      simpa using (hstates _ y rest hsplit').toMentions
    exact hx.toMentions.keys_subset hy'

def nestedCalls : Script :=
  .inside (.function "spawn" (some "f")) false
    (.inside (.anonymousFunction (some "g")) false (.act (.constant 3) false .done) <|
    .act (.call "g") false .done) <|
  .inside (.function "broken" (some "h")) true
    (.act (.call "f") false <| .act (.variable "no name" none) false .done) <|
  .inside (.scope "execute as @a run ") false
    (.act (.call "g") false <| .act (.call "h") false .done) <|
  .inside (.tick (some "f")) false (.act (.call "f") false .done) <|
  .act (.call "f") false .done

theorem calls_find_contexts_nested :
    let start : Workspace := { draft := .start "demo" {} }
    (nestedCalls.run start).2.draft.buffers.entries =
      [("default", ["scoreboard objectives add const dummy", "function demo:consts",
        "execute as @a run function demo:__fn0", "function demo:tick"]),
      ("spawn", ["function demo:__fn0"]), ("__fn0", []),
      ("consts", ["scoreboard players set 3 const 3"]),
      ("broken", ["function demo:spawn"]), ("tick", ["function demo:spawn"])] ∧
    Linked ⟨"demo", {}⟩ (nestedCalls.moments start) (nestedCalls.run start).2.draft ∧
    ∃ front x back, nestedCalls.moments start = front ++ x :: back ∧
      x.after.draft.place.context = "broken" ∧
      x.after.draft.buffers.keys = ["default", "spawn", "__fn0", "consts", "broken"] ∧
      Linked ⟨"demo", {}⟩ (front ++ [x]) x.after.draft := by
  -- The ninth moment is the failure inside the function.
  obtain ⟨hlong, hplace, hkeys⟩ :
      ∃ _ : 8 < (nestedCalls.moments { draft := .start "demo" {} }).length,
        (nestedCalls.moments { draft := .start "demo" {} })[8].after.draft.place.context =
          "broken" ∧
        (nestedCalls.moments { draft := .start "demo" {} })[8].after.draft.buffers.keys =
          ["default", "spawn", "__fn0", "consts", "broken"] := by decide +kernel
  obtain ⟨front, back, hsplit⟩ := List.append_of_mem (List.getElem_mem hlong)
  obtain ⟨hend, hstates⟩ := nestedCalls.calls_find_contexts "demo" {}
  exact ⟨by decide +kernel, hend, front, _, back, hsplit, hplace, hkeys,
    (hstates front _ back hsplit).1⟩

end Script
end CommandPack
