import CommandPack.Name

namespace CommandPack

structure Settings where
  /-- The context that runs when the pack is loaded. -/
  defaultContext : String := "default"
  /-- The context that declares the constants. -/
  constsContext : String := "consts"
  /-- The objective of the variables. -/
  varObjective : String := "var"
  /-- The objective of the constants. -/
  constObjective : String := "const"
  /-- What stands behind the dot in the name of a function file. -/
  extension : String := "mcfunction"
  /-- The directory of the function files, below the namespace. -/
  functionsDir : String := "functions"
deriving DecidableEq, Repr

/-- The context that runs on every game tick. -/
def tickContext : String := "tick"

def Settings.fileName (s : Settings) (context : String) : String :=
  context ++ "." ++ s.extension

end CommandPack
