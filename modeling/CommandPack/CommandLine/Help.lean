import CommandPack.CommandLine.Arguments

namespace CommandPack.CommandLine

def versionText : String := "packsmith 0.1.0\n"

def programHelp : String :=
"Build command-script datapacks from Rust build descriptions

Usage: packsmith <COMMAND>

Commands:
  list   List the bundled demo datapacks
  print  Print the rendered functions of a demo
  build  Write a demo's functions into a datapack data directory
  help   Print this message or the help of the given subcommand(s)

Options:
  -h, --help     Print help
  -V, --version  Print version
"

def listHelp : String :=
"List the bundled demo datapacks

Usage: packsmith list

Options:
  -h, --help  Print help
"

def printHelp : String :=
"Print the rendered functions of a demo

Usage: packsmith print <DEMO>

Arguments:
  <DEMO>  Demo name (see `list`)

Options:
  -h, --help  Print help
"

def buildHelp : String :=
"Write a demo's functions into a datapack data directory

Usage: packsmith build [OPTIONS] <DEMO> [OUTPUT_DIR]

Arguments:
  <DEMO>        Demo name (see `list`)
  [OUTPUT_DIR]  Datapack `data` directory [default: .]

Options:
      --hooks  Also register the load and tick function tags
  -h, --help   Print help
"

def helpHelp : String :=
"Print this message or the help of the given subcommand(s)

Usage: packsmith help [COMMAND]...

Arguments:
  [COMMAND]...  Print help for the subcommand(s)
"

def helpText : Option Verb → String
  | none => programHelp
  | some .list => listHelp
  | some .print => printHelp
  | some .build => buildHelp
  | some .help => helpHelp

end CommandPack.CommandLine
