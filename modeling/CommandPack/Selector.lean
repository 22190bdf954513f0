import CommandPack.Score

namespace CommandPack

namespace Selector

inductive Base
  | allPlayers | entities | nearestPlayer | executor
deriving DecidableEq, Repr, Inhabited

def Base.text : Base → String
  | .allPlayers => "@a"
  | .entities => "@e"
  | .nearestPlayer => "@p"
  | .executor => "@s"

inductive Filter
  | team (name : String)
  | distance (span : Span)
  | type (name : String)
  | limit (n : UInt32)
deriving DecidableEq, Repr

/-- A filter that was never set is not written. -/
structure Filters where
  team : Option String := none
  distance : Option Span := none
  type : Option String := none
  limit : Option UInt32 := none
deriving DecidableEq, Repr, Inhabited

namespace Filters

/-- Sets one filter; the last value counts. -/
def set (f : Filters) : Filter → Filters
  | .team name => { f with team := some name }
  | .distance span => { f with distance := some span }
  | .type name => { f with type := some name }
  | .limit n => { f with limit := some n }

def ofList (settings : List Filter) : Filters := settings.foldl set {}

def isEmpty (f : Filters) : Bool :=
  f.team.isNone && f.distance.isNone && f.type.isNone && f.limit.isNone

/-- The filters that are set, in the order in which they are written. -/
def criteria (f : Filters) : List String :=
  (f.team.map ("team=" ++ ·)).toList ++
  (f.distance.map ("distance=" ++ ·.text)).toList ++
  (f.type.map ("type=" ++ ·)).toList ++
  (f.limit.map ("limit=" ++ Text.natural ·.toNat)).toList

def text (f : Filters) : String :=
  if f.isEmpty then "" else "[" ++ ",".intercalate f.criteria ++ "]"

end Filters
end Selector

structure Selector where
  base : Selector.Base := .allPlayers
  filters : Selector.Filters := {}
  /-- Whether repetition over the selected also moves to each one's place. -/
  atPlace : Bool := false
deriving DecidableEq, Repr, Inhabited

namespace Selector

def text (s : Selector) : String := s.base.text ++ s.filters.text

def guard (s : Selector) : String :=
  "execute as " ++ s.text ++ (if s.atPlace then " at @s" else "") ++ " run "

inductive Deed
  | spawnpoint (x y z : Int32)
  | teleport (x y z : Int32)
  | clear
  | give (item : String) (amount : Option UInt32)
  | joinTeam (team : String)
deriving DecidableEq, Repr

def place (x y z : Int32) : String :=
  Text.integer x.toInt ++ " " ++ Text.integer y.toInt ++ " " ++ Text.integer z.toInt

def Deed.command (s : Selector) : Deed → String
  | .spawnpoint x y z => "spawnpoint " ++ s.text ++ " " ++ place x y z
  | .teleport x y z => "tp " ++ s.text ++ " " ++ place x y z
  | .clear => "clear " ++ s.text
  | .give item none => "give " ++ s.text ++ " " ++ item
  | .give item (some n) => "give " ++ s.text ++ " " ++ item ++ " " ++ Text.natural n.toNat
  | .joinTeam team => "team join " ++ team ++ " " ++ s.text

end Selector
end CommandPack
