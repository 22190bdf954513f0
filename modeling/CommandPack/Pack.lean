import CommandPack.Layout
import CommandPack.Script.Trace

namespace CommandPack

/-- The first thing in the way of a pack with this namespace and these settings. -/
def Settings.fault? (s : Settings) (space : String) : Option BuildError :=
  let checks := do
    BuildError.checkName .space space
    BuildError.checkName .context s.defaultContext
    BuildError.checkName .context s.constsContext
    BuildError.checkName .objective s.varObjective
    BuildError.checkName .objective s.constObjective
  match checks with
  | .error e => some e
  | .ok () =>
    if s.constsContext = s.defaultContext then some (.sharedConstsContext s.constsContext) else none

/-- A namespace, settings and a script that says what the pack contains. Every use of a pack runs
its script anew, so uses do not depend on each other. -/
structure Pack where
  space : String
  settings : Settings
  script : Script
  /-- Only accepted names make a pack. -/
  accepted : settings.fault? space = none

inductive PackError
  | build (e : BuildError)
  | file (e : FileError)
deriving DecidableEq, Repr

def PackError.message : PackError → String
  | .build e => e.message
  | .file e => e.message

namespace Pack

def create (space : String) (settings : Settings) (script : Script) : Except BuildError Pack :=
  match h : settings.fault? space with
  | none => .ok ⟨space, settings, script, h⟩
  | some e => .error e

def start (p : Pack) : Workspace := { draft := .start p.space p.settings }

def build (p : Pack) : Except BuildError Buffers :=
  match p.script.run p.start with
  | (.error e, _) => .error e
  | (.ok (), w) => .ok w.draft.buffers

theorem build_eq_ok {p : Pack} {b : Buffers} (h : p.build = .ok b) :
    b = (p.script.run p.start).2.draft.buffers := by
  unfold build at h
  split at h
  · nomatch h
  · rename_i w hrun
    rw [hrun]
    exact (Except.ok.inj h).symm

def trace (p : Pack) : List TraceEntry := p.script.trace p.start

def layout (p : Pack) (directory : String) : Layout := ⟨directory, p.space, p.settings⟩

def write (p : Pack) (directory : String) (hooks : Bool) (t : FileTree) :
    FileTree × Except PackError WrittenFiles :=
  match p.build with
  | .error e => (t, .error (.build e))
  | .ok b =>
    match (p.layout directory).write hooks b t with
    | (t, .error e) => (t, .error (.file e))
    | (t, .ok files) => (t, .ok files)

end Pack

/-- All contexts as one text: under a heading with its file name stand the lines of each, with an
empty line between contexts. -/
def Settings.render (s : Settings) (b : Buffers) : String :=
  "\n\n".intercalate
    (b.entries.map fun e => "#" ++ s.fileName e.1 ++ "\n" ++ Buffers.joinLines e.2)

def Pack.render (p : Pack) : Except BuildError String := p.build.map p.settings.render

end CommandPack
