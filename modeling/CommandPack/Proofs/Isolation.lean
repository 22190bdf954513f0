import CommandPack.Proofs.Moments

namespace CommandPack

/-- The same contexts with the same lines, the same declarations and the same count of names. Where
the next line goes may differ. -/
structure Draft.Agrees (d d' : Draft) : Prop where
  space : d.space = d'.space
  settings : d.settings = d'.settings
  buffers : d.buffers = d'.buffers
  variableObjective : d.variableObjective = d'.variableObjective
  constants : d.constants = d'.constants
  generated : d.generated = d'.generated

structure Workspace.Agrees (w w' : Workspace) : Prop where
  draft : w.draft.Agrees w'.draft
  handles : w.handles = w'.handles

theorem Draft.Agrees.eq_returnTo {d d' : Draft} (h : d.Agrees d') : d' = d.returnTo d'.place := by
  obtain ⟨space, settings, buffers, place, «variables», constants, generated⟩ := d
  obtain ⟨hspace, hsettings, hbuffers, hvariables, hconstants, hgenerated⟩ := h
  simp only at hspace hsettings hbuffers hvariables hconstants hgenerated
  subst hspace hsettings hbuffers hvariables hconstants hgenerated
  rfl

namespace Workspace

variable {w w' : Workspace}

/-- Workspaces that agree are one workspace moved to two places. -/
theorem Agrees.eq_moveTo (h : w.Agrees w') : w' = w.moveTo w'.draft.place := by
  obtain ⟨d, handles⟩ := w
  obtain ⟨d', handles'⟩ := w'
  have hdraft : d' = d.returnTo d'.place := h.draft.eq_returnTo
  have hhandles : handles = handles' := h.handles
  rw [← hhandles]
  exact congrArg (fun d : Draft => (⟨d, handles⟩ : Workspace)) hdraft

theorem agrees_moveTo (w : Workspace) (p q : Place) : (w.moveTo p).Agrees (w.moveTo q) :=
  ⟨⟨rfl, rfl, rfl, rfl, rfl, rfl⟩, rfl⟩

end Workspace

namespace Opening

variable {o : Opening} {slot : Option Slot} {w : Workspace}

/-- What a function is entered with does not depend on the place it is opened at. -/
theorem enter_moveTo (ho : o.functionSlot? = some slot) (w : Workspace) (p : Place) :
    o.enter (w.moveTo p) = o.enter w := by
  cases o with
  | function name slot =>
    simp only [enter]
    cases BuildError.checkName .context name <;> rfl
  | anonymousFunction slot => rfl
  | tick slot => rfl
  | scope _ | nest _ | when _ | whenScore _ _ | forEach _ => simp [functionSlot?] at ho

/-- Leaving a function forgets where its script ended. -/
theorem close_moveTo (ho : o.functionSlot? = some slot) (entered inner : Workspace) (p : Place)
    (result : Except BuildError Unit) :
    o.close (w.moveTo p) entered inner result =
      ((o.close w entered inner result).1, (o.close w entered inner result).2.moveTo p) := by
  cases result with
  | error e =>
    simp only [close, leave, ho]
    rfl
  | ok u =>
    simp only [close, keep, leave, ho]
    rfl

/-- A function step at another place has the same outcome and differs in the place alone. -/
theorem perform_moveTo (ho : o.functionSlot? = some slot) (body : Script) (w : Workspace)
    (p : Place) :
    o.perform body.run (w.moveTo p) =
      ((o.perform body.run w).1, (o.perform body.run w).2.moveTo p) := by
  simp only [perform, enter_moveTo ho]
  cases o.enter w with
  | error outcome => rfl
  | ok entered => exact close_moveTo ho entered _ p _

/-- Functions do not depend on the place they are opened at. Of two workspaces that agree in
everything but the current context and the open scopes, opening a function with any script gives the
same outcome in both: the same handle or the same error. The workspaces agree again after that, and
each still has its own context and its own scopes. -/
theorem function_isolated (ho : o.functionSlot? = some slot) (body : Script) {w w' : Workspace}
    (h : w.Agrees w') :
    (o.perform body.run w).1 = (o.perform body.run w').1 ∧
    (o.perform body.run w).2.Agrees (o.perform body.run w').2 ∧
    (o.perform body.run w).2.draft.place = w.draft.place ∧
    (o.perform body.run w').2.draft.place = w'.draft.place := by
  have hmoved := perform_moveTo ho body w w'.draft.place
  rw [← h.eq_moveTo] at hmoved
  refine ⟨?_, ?_, o.perform_place body w, o.perform_place body w'⟩
  · rw [hmoved]
  · rw [hmoved]
    exact (o.perform body.run w).2.agrees_moveTo (o.perform body.run w).2.draft.place _

def failing : Script :=
  .act (.variable "x" none) false <|
  .inside (.scope "execute at @s run ") false
    (.act (.change "x" (.multiply 3)) false <|
    .inside (.anonymousFunction none) false (.act (.emit "say inside") false .done) .done) <|
  .act (.emit "say behind") false <|
  .act (.variable "no name" none) false .done

theorem function_isolated_failing :
    let start : Workspace := { draft := .start "demo" {} }
    let apart : Workspace := start.moveTo ⟨"elsewhere", ScopeStack.empty.push "execute as @a run "⟩
    let o : Opening := .function "boss" none
    start.Agrees apart ∧
    (o.perform failing.run start).1 = .failed (.invalidName ⟨.holder, "no name", .blank⟩) ∧
    (o.perform failing.run apart).1 = .failed (.invalidName ⟨.holder, "no name", .blank⟩) ∧
    (o.perform failing.run apart).2.draft.buffers.get? "boss" =
      some ["execute at @s run scoreboard players operation x var *= 3 const", "say behind"] ∧
    (o.perform failing.run apart).2.draft.place.context = "elsewhere" := by
  intro start apart o
  have hagrees : start.Agrees apart := start.agrees_moveTo start.draft.place _
  have hoffers : o.functionSlot? = some none := rfl
  obtain ⟨houtcome, hafter, -, hplace⟩ := function_isolated hoffers failing hagrees
  have hfailed : (o.perform failing.run start).1 =
      .failed (.invalidName ⟨.holder, "no name", .blank⟩) := by decide +kernel
  refine ⟨hagrees, hfailed, houtcome ▸ hfailed, ?_, ?_⟩
  · rw [← hafter.draft.buffers]
    decide +kernel
  · rw [hplace]
    rfl

end Opening
end CommandPack
