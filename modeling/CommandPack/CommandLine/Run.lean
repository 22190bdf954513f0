import CommandPack.CommandLine.Help
import CommandPack.Demo.Catalogue

namespace CommandPack.CommandLine

/-- What a finished program leaves. The wording of a refusal is not part of it. -/
structure Reply where
  exitCode : UInt8
  output : String := ""
  errors : Option String := some ""
deriving DecidableEq, Repr

def Reply.failure (message : String) : Reply where
  exitCode := 1
  errors := some (message ++ "\n")

/-- Jobs are data, so the same command can be carried out on a tree of files or on a disk. -/
inductive Job
  | answer (reply : Reply)
  | write (plan : FilePlan) (report : Option FileError → Reply)

def unknownDemo (name : String) : Reply :=
  .failure ("Unknown demo '" ++ name ++ "' (available: " ++ ", ".intercalate Demo.names ++ ")")

def withDemo (name : String) (f : Pack → Job) : Job :=
  match Demo.find? name with
  | none => .answer (unknownDemo name)
  | some (.error e) => .answer (.failure ("Error creating '" ++ name ++ "': " ++ e.message))
  | some (.ok pack) => f pack

def printJob (name : String) (pack : Pack) : Job :=
  match pack.render with
  | .error e => .answer (.failure ("Error building '" ++ name ++ "': " ++ e.message))
  | .ok text => .answer { exitCode := 0, output := text ++ "\n" }

def buildReport (pack : Pack) (directory : String) (files : WrittenFiles) : String :=
  "✓ Wrote " ++ Text.natural files.functions.length ++ " function(s) for namespace '" ++
    pack.space ++ "' to " ++ directory ++ "\n" ++
    (if files.hooks.isEmpty then "" else "  registered load/tick hooks\n")

def buildJob (name directory : String) (hooks : Bool) (pack : Pack) : Job :=
  let failed (e : PackError) : Reply := .failure ("Error writing '" ++ name ++ "': " ++ e.message)
  match pack.build with
  | .error e => .answer (failed (.build e))
  | .ok b =>
    let layout := pack.layout directory
    .write (layout.plan hooks b) fun
      | some e => failed (.file e)
      | none => { exitCode := 0, output := buildReport pack directory (layout.files hooks b) }

def Command.job : Command → Job
  | .list => .answer { exitCode := 0, output := String.join (Demo.names.map (· ++ "\n")) }
  | .print demo => withDemo demo (printJob demo)
  | .build demo directory hooks => withDemo demo (buildJob demo directory hooks)

/-- Help and the version are answers; every other refusal is an error of usage. -/
def Refusal.reply : Refusal → Reply
  | .help about => { exitCode := 0, output := helpText about }
  | .version => { exitCode := 0, output := versionText }
  | _ => { exitCode := 2, errors := none }

def job (args : List String) : Job :=
  match parse args with
  | .error refusal => .answer refusal.reply
  | .ok command => command.job

def run (args : List String) (t : FileTree) : Reply × FileTree :=
  match job args with
  | .answer reply => (reply, t)
  | .write plan report =>
    let (t, e) := plan.perform t
    (report e, t)

end CommandPack.CommandLine
