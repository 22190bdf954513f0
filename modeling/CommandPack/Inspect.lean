import CommandPack.Pack
import CommandPack.Text.Visible

namespace CommandPack

namespace Inspect

def hexDigits (n : Nat) : List Char :=
  if n < 16 then [Text.hexDigit n] else hexDigits (n / 16) ++ [Text.hexDigit (n % 16)]

def shortEscape? (c : Char) : Option Char :=
  if c = '"' then some '"'
  else if c = '\\' then some '\\'
  else if c = '\n' then some 'n'
  else if c = '\r' then some 'r'
  else if c = '\t' then some 't'
  else if c = '\x00' then some '0'
  else none

def escapeChar (c : Char) : List Char :=
  match shortEscape? c with
  | some e => ['\\', e]
  | none =>
    if Text.isVisible c then [c]
    else ['\\', 'u', '\x7b'] ++ hexDigits c.toNat ++ ['\x7d']

/-- Unlike in tags, every character of a text can be seen: one that cannot be seen on its own is
written by its code point. -/
def quoted (s : String) : String :=
  String.ofList ('"' :: (s.toList.flatMap escapeChar ++ ['"']))

def field (name value : String) : String := name ++ ": " ++ quoted value

def braces (name : String) (fields : List String) : String :=
  name ++ " \x7b " ++ ", ".intercalate fields ++ " \x7d"

def settings (s : Settings) : String :=
  braces "PackConfig"
    [field "default_context" s.defaultContext, field "consts_context" s.constsContext,
      field "var_objective" s.varObjective, field "const_objective" s.constObjective,
      field "extension" s.extension, field "functions_dir" s.functionsDir]

end Inspect

/-- The script is not part of the description; two dots stand for it. -/
def Pack.inspect (p : Pack) : String :=
  Inspect.braces "Datapack"
    [Inspect.field "namespace" p.space, "config: " ++ Inspect.settings p.settings, ".."]

end CommandPack
