import CommandPack.Demo.CapturePoints
import CommandPack.Demo.Trader

namespace CommandPack.Demo

def catalogue : List (String × Except BuildError Pack) :=
  [("capture_points", CapturePoints.pack), ("summon_trader", Trader.pack)]

def names : List String := catalogue.map Prod.fst

def find? (name : String) : Option (Except BuildError Pack) :=
  (catalogue.find? fun d => d.1 == name).map Prod.snd

end CommandPack.Demo
