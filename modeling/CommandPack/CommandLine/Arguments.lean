namespace CommandPack.CommandLine

inductive Command
  | list
  | print (demo : String)
  | build (demo directory : String) (hooks : Bool)
deriving DecidableEq, Repr

inductive Verb
  | list | print | build | help
deriving DecidableEq, Repr

inductive Refusal
  /-- Help on a command, or on the program. -/
  | help (about : Option Verb)
  | version
  | noCommand
  | unknownCommand
  | unknownArgument
  | missingArgument
  | emptyValue
  | unwantedValue
  | repeatedFlag
deriving DecidableEq, Repr

inductive Shape
  /-- The two dashes behind which arguments are plain. -/
  | escape
  /-- A long flag, perhaps with a value behind an equals sign. -/
  | long (name : String) (hasValue : Bool)
  /-- Short flags behind one dash; only the first one matters here. -/
  | short (flag : Char)
  | plain
deriving DecidableEq, Repr

def shapeOf (arg : String) : Shape :=
  match arg.toList with
  | ['-', '-'] => .escape
  | '-' :: '-' :: rest =>
    .long (String.ofList (rest.takeWhile (· ≠ '='))) (rest.contains '=')
  | '-' :: flag :: _ => .short flag
  | _ => .plain

def verb? : String → Option Verb
  | "list" => some .list
  | "print" => some .print
  | "build" => some .build
  | "help" => some .help
  | _ => none

inductive HelpRequest
  | asked | withValue | other
deriving DecidableEq, Repr

def helpRequest : Shape → HelpRequest
  | .long "help" false => .asked
  | .long "help" true => .withValue
  | .short 'h' => .asked
  | _ => .other

structure Reading where
  demo : Option String := none
  directory : Option String := none
  hooks : Bool := false
deriving DecidableEq, Repr

/-- A directory is checked only when the next argument is used or the arguments end. -/
def Reading.check (r : Reading) : Except Refusal Unit :=
  if r.directory = some "" then .error .emptyValue else .ok ()

/-- Gives a plain argument to the first place that is free; `places` counts the places of the
command. -/
def Reading.put (r : Reading) (places : Nat) (arg : String) : Except Refusal Reading :=
  match r.demo, r.directory with
  | none, _ => if 0 < places then .ok { r with demo := some arg } else .error .unknownArgument
  | some _, none =>
    if 1 < places then .ok { r with directory := some arg } else .error .unknownArgument
  | some _, some _ => .error .unknownArgument

def readArguments (verb : Verb) (places : Nat) (r : Reading) (escaped : Bool) :
    List String → Except Refusal Reading
  | [] => do
    r.check
    .ok r
  | arg :: rest =>
    if escaped then do readArguments verb places (← r.put places arg) true rest
    else
      let shape := shapeOf arg
      match helpRequest shape, shape with
      | .asked, _ => do
        r.check
        .error (.help (some verb))
      | .withValue, _ => .error .unwantedValue
      | .other, .escape => readArguments verb places r true rest
      | .other, .long "hooks" hasValue =>
        if verb ≠ .build then .error .unknownArgument
        else if hasValue then .error .unwantedValue
        else do
          r.check
          if r.hooks then .error .repeatedFlag
          else readArguments verb places { r with hooks := true } false rest
      | .other, .long _ _ => .error .unknownArgument
      | .other, .short _ => .error .unknownArgument
      | .other, .plain => do readArguments verb places (← r.put places arg) false rest

/-- What the words behind `help` are about. No command has commands of its own. -/
def helpAbout : List String → Except Refusal (Option Verb)
  | [] => .ok none
  | [word] =>
    match verb? word with
    | some verb => .ok (some verb)
    | none => .error .unknownCommand
  | _ => .error .unknownCommand

def readCommand (verb : Verb) (args : List String) : Except Refusal Command :=
  match verb with
  | .help => do .error (.help (← helpAbout args))
  | .list => do
    let _ ← readArguments .list 0 {} false args
    .ok .list
  | .print => do
    match (← readArguments .print 1 {} false args).demo with
    | none => .error .missingArgument
    | some demo => .ok (.print demo)
  | .build => do
    let r ← readArguments .build 2 {} false args
    match r.demo with
    | none => .error .missingArgument
    | some demo => .ok (.build demo (r.directory.getD ".") r.hooks)

/-- Arguments are read from left to right. The first one that cannot be used decides the answer, and
a request for help or the version counts as soon as it is read. -/
def parse : List String → Except Refusal Command
  | [] => .error .noCommand
  | arg :: rest =>
    match verb? arg with
    | some verb => readCommand verb rest
    | none =>
      let shape := shapeOf arg
      match helpRequest shape, shape with
      | .asked, _ => .error (.help none)
      | .withValue, _ => .error .unwantedValue
      | .other, .escape =>
        match rest with
        | [] => .error .noCommand
        | word :: _ =>
          if (verb? word).isSome then .error .unknownArgument else .error .unknownCommand
      | .other, .long "version" hasValue =>
        .error (if hasValue then .unwantedValue else .version)
      | .other, .short 'V' => .error .version
      | .other, .long _ _ => .error .unknownArgument
      | .other, .short _ => .error .unknownArgument
      | .other, .plain => .error .unknownCommand

end CommandPack.CommandLine
