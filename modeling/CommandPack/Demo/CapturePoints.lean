import CommandPack.Pack

namespace CommandPack.Demo.CapturePoints

def space : String := "castlewarspoints"

def points : List String := ["Pyramid", "Volcano", "Bridge", "Castle", "Forest"]

/-- The score of a fully taken point, positive for red and negative for blue. -/
def limit : Int32 := 500

def reach : Span := ⟨0, 15⟩

def barId (point : String) : String := "point" ++ point.toLower

def captureSlot (point : String) : Slot := barId point ++ " capture"

def absoluteSlot (point : String) : Slot := barId point ++ " absolute"

/-- Another pack counts this score down to zero every ten seconds. -/
def clock : String := "gameTick10s"

def setup (point : String) : Script :=
  .ofActions
    [.bossBar (barId point) point none,
      .setBar (barId point) (.max limit),
      .freshVariable (some (captureSlot point)),
      .freshVariable (some (absoluteSlot point))]

def start : Script :=
  .within (.function "start" none)
    (.ofActions (points.map fun p => .change (captureSlot p) (.set 0)))

def team (name : String) : Selector where
  filters := { team := some name }

def nearby (team : Option String) (atPlace : Bool) : Selector where
  filters := { team := team, distance := some reach }
  atPlace := atPlace

/-- Players of a team near the point move its score by `n`. -/
def pull (point name : String) (n : Int32) : Script :=
  .ofActions [.selector "pulling" (nearby (some name) true)] ++
    .within (.forEach "pulling") (.ofActions [.change (captureSlot point) (.add n)])

def onlyIf (slot : Slot) (c : Comparator) (n : Int32) (body : Script) : Script :=
  .within (.whenScore slot (.withLiteral "$" c n)) body

def onlyWithin (slot : Slot) (span : Span) (body : Script) : Script :=
  .within (.whenScore slot (.within "$" span)) body

def wool (colour : String) : Script :=
  .ofActions
    [.emit ("setblock ~ ~5 ~ " ++ colour ++ "_wool"),
      .emit ("setblock ~ ~6 ~ " ++ colour ++ "_wool")]

def particles (transition : String) : Script :=
  .ofActions
    [.emit ("particle dust_color_transition " ++ transition ++ " ~ ~40 ~ 1 5 1 10 50 force")]

/-- A game point and an emerald for a team whose score is reached. -/
def reward (point : String) (n : Int32) (name : String) : Script :=
  onlyIf (captureSlot point) .equal n
    (.ofActions
      [.emit ("scoreboard players add " ++ name ++ " points 1"),
        .selector "rewarded" (team name),
        .act "rewarded" (.give "emerald" none)])

def colourWhen (point : String) (c : Comparator) (colour : BossBar.Colour) : Script :=
  .within (.when (.withLiteral (captureSlot point) c 0))
    (.ofActions [.setBar (barId point) (.colour colour)])

/-- Red players near a point raise its score and blue ones lower it. The bar shows how far the point
is taken, wool above it tells whose it is, and from time to time a fully taken point pays its team.
-/
def update (point : String) : Script :=
  let capture := captureSlot point
  let absolute := absoluteSlot point
  .concat
    [pull point "red" 1,
      pull point "blue" (-1),
      .ofActions
        [.clamp capture (-limit) limit,
          .selector "spectators" (nearby none false),
          .setBar (barId point) (.players "spectators"),
          .change absolute (.copy capture)],
      onlyIf absolute .less 0 (.ofActions [.change absolute (.multiply (-1))]),
      onlyIf capture .equal 0 (wool "white"),
      onlyIf clock .equal 0 (reward point (-limit) "blue" ++ reward point limit "red"),
      onlyIf capture .equal (-limit) (wool "blue"),
      onlyIf capture .equal limit (wool "red"),
      onlyWithin capture ⟨1, limit⟩ (particles "1.0 0.0 0.0 1.0 1.0 0.0 0.0"),
      onlyWithin capture ⟨-limit, -1⟩ (particles "0.0 0.0 0.0 1.0 0.0 0.0 1.0"),
      onlyWithin capture ⟨-limit + 1, limit - 1⟩ (particles "1.0 1.0 1.0 1.0 1.0 1.0 1.0"),
      .ofActions [.setBar (barId point) (.value absolute)],
      colourWhen point .equal .white,
      colourWhen point .less .blue,
      colourWhen point .greater .red]

def script : Script :=
  .concat (points.map setup) ++ start ++ .ofActions [.variable clock none] ++
    .concat (points.map fun p => .within (.function (barId p) none) (update p))

def pack : Except BuildError Pack := Pack.create space {} script

end CommandPack.Demo.CapturePoints
