import CommandPack.Script.Run

namespace CommandPack

structure TraceEntry where
  /-- Positions of the step in its list and of the steps around it, the outermost first. -/
  position : List Nat
  outcome : Outcome
  /-- The draft after the step. -/
  after : Draft

namespace Script

/-- The entries of a script whose first step has number `index` in the list at `position`. A step is
listed when it has finished, so after the steps of the script inside it. -/
def traceFrom (position : List Nat) : Nat → Script → Workspace → List TraceEntry
  | _, .done, _ => []
  | index, .act a caught rest, w =>
    let step := a.perform w
    ⟨position ++ [index], step.1, step.2.draft⟩ ::
      match step.1.stop? caught with
      | some _ => []
      | none => rest.traceFrom position (index + 1) step.2
  | index, .inside o caught body rest, w =>
    let bodyEntries :=
      match o.enter w with
      | .error _ => []
      | .ok entered => body.traceFrom (position ++ [index]) 0 entered
    let step := o.perform body.run w
    bodyEntries ++ ⟨position ++ [index], step.1, step.2.draft⟩ ::
      match step.1.stop? caught with
      | some _ => []
      | none => rest.traceFrom position (index + 1) step.2

def trace (s : Script) (w : Workspace) : List TraceEntry := s.traceFrom [] 0 w

end Script
end CommandPack
