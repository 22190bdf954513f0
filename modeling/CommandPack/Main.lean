import CommandPack.CommandLine.Run

namespace CommandPack.Program

def faultOf (e : IO.Error) : FileFault :=
  match e with
  | .alreadyExists .. => .exists
  | .noFileOrDirectory .. => .missing
  | .inappropriateType _ code _ => if code == 20 then .notDirectory else .isDirectory
  | .invalidArgument _ code _ => if code == 36 then .nameTooLong else .zeroCharacter
  | _ => .missing

def attempt (act : IO Unit) : IO (Option FileFault) := do
  try
    act
    return none
  catch e => return some (faultOf e)

/-- A directory holds itself, so making its `.` anew fails because it exists. -/
def isDirectory (path : String) : IO Bool := do
  return (← attempt (IO.FS.createDir (path ++ "/."))) == some .exists

def makeWithParents : List String → IO (Option FileFault)
  | [] => return none
  | path :: above => do
    match ← attempt (IO.FS.createDir path) with
    | none => return none
    | some .missing =>
      match ← makeWithParents above with
      | some fault => return some fault
      | none =>
        match ← attempt (IO.FS.createDir path) with
        | none => return none
        | some fault => return if ← isDirectory path then none else some fault
    | some fault => return if ← isDirectory path then none else some fault

def perform : FilePlan → IO (Option FileError)
  | [] => return none
  | .makeDirectories path :: rest => do
    let fault ← if path = "" then pure none else makeWithParents (path :: FilePath.ancestors path)
    match fault with
    | some fault => return some ⟨path, fault⟩
    | none => perform rest
  | .write path content :: rest => do
    match ← attempt (IO.FS.writeFile path content) with
    | some fault => return some ⟨path, fault⟩
    | none => perform rest

def answer (reply : CommandLine.Reply) : IO UInt32 := do
  IO.print reply.output
  IO.eprint (reply.errors.getD "error: the arguments cannot be used; see --help\n")
  return reply.exitCode.toUInt32

end CommandPack.Program

def main (args : List String) : IO UInt32 := do
  match CommandPack.CommandLine.job args with
  | .answer reply => CommandPack.Program.answer reply
  | .write plan report =>
    CommandPack.Program.answer (report (← CommandPack.Program.perform plan))
