import CommandPack.Pack

namespace CommandPack.Demo.Trader

def space : String := "summontrader"

def skull : Item :=
  (({ id := "skeleton_skull", count := 1 } : Item).withTag "spawn" (.text "defenceSkeleton")).withTag
    "team" (.text "red")

/-- A villager that never moves and sells a skull, with a tag of its own, for ten emeralds. -/
def trader : Entity :=
  .villager
    { traits :=
        { invulnerable := true, persistenceRequired := true, noAI := true, silent := true }
      livelihood := some { profession := "cleric", level := 99 }
      offers := some
        { trades := some [{ buy := some { id := "emerald", count := 10 }, sell := some skull }] } }

def script : Script :=
  .within (.function "summon_trader" none) (.ofActions [.summon trader "~" "~2" "~"])

def pack : Except BuildError Pack := Pack.create space {} script

end CommandPack.Demo.Trader
