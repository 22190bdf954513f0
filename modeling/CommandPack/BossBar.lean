import CommandPack.Selector
import CommandPack.Text.Quoted

namespace CommandPack

structure BossBar where
  /-- The namespace of the pack that the bar belongs to. -/
  space : String
  id : String
  title : String
deriving DecidableEq, Repr

namespace BossBar

def text (b : BossBar) : String := b.space ++ ":" ++ b.id

/-- The command that makes the bar. The title is quoted, so it cannot end the command early. -/
def command (b : BossBar) : String := "bossbar add " ++ b.text ++ " " ++ Text.quoted b.title

inductive Colour
  | blue | green | pink | purple | red | white | yellow
deriving DecidableEq, Repr

def Colour.text : Colour → String
  | .blue => "blue"
  | .green => "green"
  | .pink => "pink"
  | .purple => "purple"
  | .red => "red"
  | .white => "white"
  | .yellow => "yellow"

/-- One property of a bar. `σ` and `π` are how scores and selectors are named. -/
inductive Property (σ π : Type)
  | max (n : Int32)
  | value (score : σ)
  | players (selector : π)
  | colour (c : Colour)
deriving DecidableEq, Repr

namespace Property

def resolve {σ τ π ρ : Type} (f : σ → Option τ) (g : π → Option ρ) :
    Property σ π → Option (Property τ ρ)
  | .max n => some (.max n)
  | .value s => (f s).map .value
  | .players p => (g p).map .players
  | .colour c => some (.colour c)

def command (b : BossBar) : Property Score Selector → String
  | .max n => "bossbar set " ++ b.text ++ " max " ++ Text.integer n.toInt
  | .value s =>
    "execute store result bossbar " ++ b.text ++ " value run scoreboard players get " ++ s.text
  | .players p => "bossbar set " ++ b.text ++ " players " ++ p.text
  | .colour c => "bossbar set " ++ b.text ++ " color " ++ c.text

end Property
end BossBar
end CommandPack
