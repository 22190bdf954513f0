import CommandPack.Text.Position
import CommandPack.Value

namespace CommandPack

def optionalField (key : String) (value : Option Value) : List (String × Value) :=
  (value.map (key, ·)).toList

structure Effect where
  id : Int32
  duration : Int32 := 1
  amplifier : Int32 := 1
  ambient : Bool := true
  showParticles : Bool := true
deriving DecidableEq, Repr

def Effect.value (e : Effect) : Value :=
  .record [("Id", .whole e.id.toInt), ("Duration", .whole e.duration.toInt),
    ("Amplifier", .whole e.amplifier.toInt), ("Ambient", .flag e.ambient),
    ("ShowParticles", .flag e.showParticles)]

structure Traits where
  invulnerable : Bool := false
  persistenceRequired : Bool := false
  noAI : Bool := false
  silent : Bool := false
  motion : Option (Float × Float × Float) := none
  rotation : Option (Float32 × Float32) := none
  activeEffects : Option (List Effect) := none

def Traits.fields (t : Traits) : List (String × Value) :=
  [("Invulnerable", .flag t.invulnerable), ("PersistenceRequired", .flag t.persistenceRequired),
    ("NoAI", .flag t.noAI), ("Silent", .flag t.silent)] ++
  optionalField "Motion" (t.motion.map fun (x, y, z) => .list [.double x, .double y, .double z]) ++
  optionalField "Rotation" (t.rotation.map fun (x, y) => .list [.single x, .single y]) ++
  optionalField "ActiveEffects" (t.activeEffects.map fun es => .list (es.map Effect.value))

structure Item where
  id : String
  count : Int32
  /-- Extra data by key, in any order. -/
  tags : Option (List (String × Value)) := none

namespace Item

/-- Adds extra data. Later data under the same key counts. -/
def withTag (item : Item) (key : String) (value : Value) : Item :=
  { item with tags := some (item.tags.getD [] ++ [(key, value)]) }

def value (item : Item) : Value :=
  .record ([("id", .text item.id), ("Count", .whole item.count.toInt)] ++
    optionalField "tag" (item.tags.map fun tags => (Value.record tags).ordered))

end Item

structure Trade where
  buy : Option Item := none
  sell : Option Item := none
  rewardExp : Int8 := 0
  maxUses : Int32 := 9999999

def Trade.value (t : Trade) : Value :=
  .record (optionalField "buy" (t.buy.map Item.value) ++
    optionalField "sell" (t.sell.map Item.value) ++
    [("rewardExp", .whole t.rewardExp.toInt), ("maxUses", .whole t.maxUses.toInt)])

structure Offers where
  trades : Option (List Trade) := none

def Offers.value (o : Offers) : Value :=
  .record (optionalField "Recipes" (o.trades.map fun ts => .list (ts.map Trade.value)))

structure Livelihood where
  profession : String
  level : Int32 := 1
  biome : String := "plains"
deriving DecidableEq, Repr

def Livelihood.value (l : Livelihood) : Value :=
  .record [("profession", .text l.profession), ("level", .whole l.level.toInt),
    ("type", .text l.biome)]

structure Villager where
  traits : Traits := {}
  livelihood : Option Livelihood := none
  offers : Option Offers := none

def Villager.value (v : Villager) : Value :=
  .record (v.traits.fields ++ optionalField "VillagerData" (v.livelihood.map Livelihood.value) ++
    optionalField "Offers" (v.offers.map Offers.value))

/-- The data of an entity. Data of the caller's own can turn out to have no written form. -/
inductive Payload
  | traits (t : Traits)
  | villager (v : Villager)
  | free (v : Value)
  | unwritable (reason : String)

def Payload.value : Payload → Except String Value
  | .traits t => .ok (.record t.fields)
  | .villager v => .ok v.value
  | .free v => .ok v.ordered
  | .unwritable reason => .error (Text.Position.tidied reason)

structure Entity where
  id : String
  payload : Option Payload := none

namespace Entity

def villager (v : Villager) : Entity := ⟨"villager", some (.villager v)⟩

/-- The tag that a summoning command carries; none without a payload. -/
def tag (e : Entity) : Except String (Option String) :=
  match e.payload with
  | none => .ok none
  | some p => p.value.map fun v => some v.written

/-- The command that summons the entity. The place is taken as it is given. -/
def command (e : Entity) (x y z : String) (tag : Option String) : String :=
  "summon " ++ e.id ++ " " ++ x ++ " " ++ y ++ " " ++ z ++
    (match tag with
    | none => ""
    | some t => " " ++ t)

end Entity
end CommandPack
