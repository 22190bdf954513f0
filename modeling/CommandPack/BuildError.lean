import CommandPack.Name

namespace CommandPack

inductive BuildError
  | invalidName (e : NameError)
  /-- The constants would be declared by the context that asks for their declaration. -/
  | sharedConstsContext (name : String)
  /-- The data of an entity has no written form. -/
  | payload (entity reason : String)
deriving DecidableEq, Repr

def BuildError.message : BuildError → String
  | .invalidName e => e.message
  | .sharedConstsContext name =>
    "consts context '" ++ name ++ "' must differ from the default context"
  | .payload entity reason =>
    "failed to serialize entity payload for '" ++ entity ++ "': " ++ reason

def BuildError.checkName (kind : NameKind) (name : String) : Except BuildError Unit :=
  (kind.check name).mapError .invalidName

end CommandPack
