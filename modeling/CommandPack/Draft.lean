import CommandPack.BossBar
import CommandPack.Buffers
import CommandPack.BuildError
import CommandPack.Condition
import CommandPack.ConstantPool
import CommandPack.Entity
import CommandPack.ScopeStack
import CommandPack.Settings

namespace CommandPack

structure Place where
  context : String
  scopes : ScopeStack
deriving DecidableEq, Repr

/-- A pack while it is written. Lines go to the current place with the text of the open scopes in
front; declarations go without it to where they are read before the first use. -/
structure Draft where
  space : String
  settings : Settings
  buffers : Buffers
  place : Place
  /-- The declaration of the objective of the variables. -/
  variableObjective : Once
  constants : ConstantPool
  /-- How many names have been generated. -/
  generated : Nat

structure FunctionRef where
  space : String
  name : String
deriving DecidableEq, Repr

def FunctionRef.text (f : FunctionRef) : String := f.space ++ ":" ++ f.name

def FunctionRef.callCommand (f : FunctionRef) : String := "function " ++ f.text

/-- A name that no accepted name can equal, since it starts with the reserved characters. -/
def generatedName (kind : String) (number : Nat) : String :=
  String.ofList generatedLead ++ kind ++ Text.natural number

def addObjectiveCommand (objective : String) : String :=
  "scoreboard objectives add " ++ objective ++ " dummy"

namespace Draft

def start (space : String) (settings : Settings) : Draft where
  space := space
  settings := settings
  buffers := Buffers.empty.touch settings.defaultContext
  place := ⟨settings.defaultContext, .empty⟩
  variableObjective := {}
  constants := {}
  generated := 0

def emitTo (d : Draft) (context line : String) : Draft :=
  { d with buffers := d.buffers.append context (d.place.scopes.text ++ line) }

def emit (d : Draft) (line : String) : Draft := d.emitTo d.place.context line

/-- Writes a line to the end of a context, outside all scopes. -/
def declare (d : Draft) (context line : String) : Draft :=
  { d with buffers := d.buffers.append context line }

def declareFirst (d : Draft) (context line : String) : Draft :=
  { d with buffers := d.buffers.prepend context line }

def openScope (d : Draft) (fragment : String) : Draft :=
  { d with place := { d.place with scopes := d.place.scopes.push fragment } }

def closeScopes (d : Draft) (depth : Nat) : Draft :=
  { d with place := { d.place with scopes := d.place.scopes.truncate depth } }

/-- Goes to a context, which exists from now on, with no scope open. -/
def enterFunction (d : Draft) (name : String) : Draft :=
  { d with buffers := d.buffers.touch name, place := ⟨name, .empty⟩ }

def returnTo (d : Draft) (place : Place) : Draft := { d with place := place }

def freshName (d : Draft) (kind : String) : String × Draft :=
  (generatedName kind d.generated, { d with generated := d.generated + 1 })

/-- Declares the objective of the variables in front of everything, once. -/
def requireVariables (d : Draft) : Draft :=
  let claim := d.variableObjective.claim
  let d := { d with variableObjective := claim.2 }
  if claim.1 then
    d.declareFirst d.settings.defaultContext (addObjectiveCommand d.settings.varObjective)
  else d

/-- The variable of a name that is taken as it is. -/
def makeVariable (d : Draft) (name : String) : Score × Draft :=
  (⟨name, d.settings.varObjective⟩, d.requireVariables)

def namedVariable (d : Draft) (name : String) : Except BuildError (Score × Draft) :=
  match BuildError.checkName .holder name with
  | .error e => .error e
  | .ok () => .ok (d.makeVariable name)

def freshVariable (d : Draft) : Score × Draft :=
  let (name, d) := d.freshName "v"
  d.makeVariable name

/-- Declares a constant if it is new. The first constant of all also declares their objective
and calls their context, both in front of everything. -/
def requireConstant (d : Draft) (n : Int32) : Draft :=
  let (registration, pool) := d.constants.register n
  let d := { d with constants := pool }
  let d :=
    if registration.declareObjective then
      (d.declareFirst d.settings.defaultContext
        (FunctionRef.callCommand ⟨d.space, d.settings.constsContext⟩)).declareFirst
          d.settings.defaultContext (addObjectiveCommand d.settings.constObjective)
    else d
  if registration.declareValue then
    d.declare d.settings.constsContext
      (ScoreChange.command (.constant d.settings.constObjective n) d.settings.constObjective
        (.set n))
  else d

def requireConstants (d : Draft) (ns : List Int32) : Draft := ns.foldl requireConstant d

def change (d : Draft) (target : Score) (c : ScoreChange Score) : Draft :=
  (d.requireConstants c.constants).emit (c.command target d.settings.constObjective)

def openGuard (d : Draft) (c : Condition Score) : Draft :=
  (d.requireConstants c.literals).openScope (c.guard d.settings.constObjective)

def makeBossBar (d : Draft) (id title : String) : Except BuildError (BossBar × Draft) :=
  match BuildError.checkName .bossBar id with
  | .error e => .error e
  | .ok () =>
    let bar : BossBar := ⟨d.space, id, title⟩
    .ok (bar, d.emit bar.command)

def summon (d : Draft) (entity : Entity) (x y z : String) : Except BuildError Draft :=
  match entity.tag with
  | .error reason => .error (.payload entity.id reason)
  | .ok tag => .ok (d.emit (entity.command x y z tag))

end Draft
end CommandPack
