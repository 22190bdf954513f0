import CommandPack.Script

namespace CommandPack

structure Workspace where
  draft : Draft
  handles : Handles := {}

inductive Note
  | score (s : Score)
  | selector (s : Selector)
  | bar (b : BossBar)
  | function (f : FunctionRef)
  | depth (n : Nat)
deriving DecidableEq, Repr

inductive Outcome
  /-- A slot that the step uses is empty. -/
  | unknownSlot
  | finished (note : Option Note)
  | failed (e : BuildError)
deriving DecidableEq, Repr

/-- The error with which a step ends the list it stands in. -/
def Outcome.stop? (outcome : Outcome) (caught : Bool) : Option BuildError :=
  match outcome, caught with
  | .failed e, false => some e
  | _, _ => none

namespace Workspace

def withDraft (w : Workspace) (d : Draft) : Workspace := { w with draft := d }

def withHandles (w : Workspace) (h : Handles) : Workspace := { w with handles := h }

/-- Goes on with what was found, or leaves everything as it is. -/
def withFound {α : Type} (w : Workspace) (found : Option α) (f : α → Workspace) :
    Outcome × Workspace :=
  match found with
  | none => (.unknownSlot, w)
  | some a => (.finished none, f a)

end Workspace

def Action.perform (a : Action) (w : Workspace) : Outcome × Workspace :=
  match a with
  | .emit line => (.finished none, w.withDraft (w.draft.emit line))
  | .emitTo context line => (.finished none, w.withDraft (w.draft.emitTo context line))
  | .declareFirst context line => (.finished none, w.withDraft (w.draft.declareFirst context line))
  | .declare context line => (.finished none, w.withDraft (w.draft.declare context line))
  | .variable name slot =>
    match w.draft.namedVariable name with
    | .error e => (.failed e, w)
    | .ok (s, d) => (.finished (some (.score s)), (w.withDraft d).withHandles (w.handles.keepScore slot s))
  | .freshVariable slot =>
    let (s, d) := w.draft.freshVariable
    (.finished (some (.score s)), (w.withDraft d).withHandles (w.handles.keepScore slot s))
  | .change target c =>
    w.withFound (do return (← w.handles.score? target, ← c.resolve w.handles.score?)) fun (s, c) =>
      w.withDraft (w.draft.change s c)
  | .clamp target low high =>
    w.withFound (w.handles.score? target) fun s =>
      w.withDraft ((w.draft.change s (.atLeast low)).change s (.atMost high))
  | .constant n => (.finished none, w.withDraft (w.draft.requireConstant n))
  | .selector slot s => (.finished (some (.selector s)), w.withHandles (w.handles.keepSelector slot s))
  | .act slot deed =>
    w.withFound (w.handles.selector? slot) fun s => w.withDraft (w.draft.emit (deed.command s))
  | .bossBar id title slot =>
    match w.draft.makeBossBar id title with
    | .error e => (.failed e, w)
    | .ok (b, d) => (.finished (some (.bar b)), (w.withDraft d).withHandles (w.handles.keepBar slot b))
  | .setBar slot p =>
    w.withFound
        (do return (← w.handles.bar? slot, ← p.resolve w.handles.score? w.handles.selector?))
      fun (b, p) => w.withDraft (w.draft.emit (p.command b))
  | .call slot =>
    w.withFound (w.handles.function? slot) fun f =>
      w.withDraft (w.draft.emit f.callCommand)
  | .summon entity x y z =>
    match w.draft.summon entity x y z with
    | .error e => (.failed e, w)
    | .ok d => (.finished none, w.withDraft d)

namespace Opening

/-- Enters a step: the workspace that its script starts from, or the outcome of a step that is
not entered. -/
def enter (o : Opening) (w : Workspace) : Except Outcome Workspace :=
  match o with
  | .scope fragment => .ok (w.withDraft (w.draft.openScope fragment))
  | .nest fragments => .ok (w.withDraft (fragments.foldl Draft.openScope w.draft))
  | .when c =>
    match c.resolve w.handles.score? with
    | none => .error .unknownSlot
    | some c => .ok (w.withDraft (w.draft.openGuard c))
  | .whenScore slot c =>
    match w.handles.score? slot with
    | none => .error .unknownSlot
    | some self =>
      match c.resolve (w.handles.scoreOrSelf? self) with
      | none => .error .unknownSlot
      | some c => .ok (w.withDraft (w.draft.openGuard c))
  | .forEach slot =>
    match w.handles.selector? slot with
    | none => .error .unknownSlot
    | some s => .ok (w.withDraft (w.draft.openScope s.guard))
  | .function name _ =>
    match BuildError.checkName .context name with
    | .error e => .error (.failed e)
    | .ok () => .ok (w.withDraft (w.draft.enterFunction name))
  | .anonymousFunction _ =>
    let (name, d) := w.draft.freshName "fn"
    .ok (w.withDraft (d.enterFunction name))
  | .tick _ => .ok (w.withDraft (w.draft.enterFunction tickContext))

def functionSlot? : Opening → Option (Option Slot)
  | .function _ slot | .anonymousFunction slot | .tick slot => some slot
  | .scope _ | .nest _ | .when _ | .whenScore _ _ | .forEach _ => none

def handle (entered : Workspace) : FunctionRef :=
  ⟨entered.draft.space, entered.draft.place.context⟩

def note (o : Opening) (entered : Workspace) : Option Note :=
  match o with
  | .function .. | .anonymousFunction _ | .tick _ => some (.function (handle entered))
  | .nest _ => some (.depth entered.draft.place.scopes.depth)
  | .scope _ | .when _ | .whenScore _ _ | .forEach _ => none

/-- Leaves a step that was entered from `outer`. Scopes are closed down to the depth before, and
a function goes back to where the writing was. -/
def leave (o : Opening) (outer inner : Workspace) : Workspace :=
  match o.functionSlot? with
  | some _ => inner.withDraft (inner.draft.returnTo outer.draft.place)
  | none => inner.withDraft (inner.draft.closeScopes outer.draft.place.scopes.depth)

def keep (o : Opening) (entered after : Workspace) : Workspace :=
  match o.functionSlot? with
  | some slot => after.withHandles (after.handles.keepFunction slot (handle entered))
  | none => after

/-- The outcome of a step and the workspace after it. The step was reached in `outer`, its script
started in `entered` and ended in `inner` with the given result. -/
def close (o : Opening) (outer entered inner : Workspace) :
    Except BuildError Unit → Outcome × Workspace
  | .error e => (.failed e, o.leave outer inner)
  | .ok () => (.finished (o.note entered), o.keep entered (o.leave outer inner))

def perform (o : Opening) (inside : Workspace → Except BuildError Unit × Workspace)
    (w : Workspace) : Outcome × Workspace :=
  match o.enter w with
  | .error outcome => (outcome, w)
  | .ok entered => o.close w entered (inside entered).2 (inside entered).1

end Opening

namespace Script

def run : Script → Workspace → Except BuildError Unit × Workspace
  | .done, w => (.ok (), w)
  | .act a caught rest, w =>
    let step := a.perform w
    match step.1.stop? caught with
    | some e => (.error e, step.2)
    | none => rest.run step.2
  | .inside o caught body rest, w =>
    let step := o.perform body.run w
    match step.1.stop? caught with
    | some e => (.error e, step.2)
    | none => rest.run step.2

/-- The second script runs where the first one ended, unless that one failed. -/
theorem run_append (s t : Script) (w : Workspace) :
    (s ++ t).run w =
      match s.run w with
      | (.error e, w) => (.error e, w)
      | (.ok (), w) => t.run w := by
  induction s generalizing w with
  | done => rfl
  | act a caught rest ih =>
    simp only [act_append, run]
    split <;> simp_all
  | inside o caught body rest _ ih =>
    simp only [inside_append, run]
    split <;> simp_all

end Script
end CommandPack
