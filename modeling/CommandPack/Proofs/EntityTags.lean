import CommandPack.Entity
import CommandPack.Proofs.OrderedValues
import Mathlib.Data.List.Forall2

namespace CommandPack

open Value (Same SameFields)

/-! ## Records with fields that may be left out -/

def setFields (entries : List (String × Option Value)) : List (String × Value) :=
  entries.flatMap fun e => optionalField e.1 e.2

/-- Fields that are left out leave the others in their order. -/
theorem keys_setFields (entries : List (String × Option Value)) :
    ((setFields entries).map Prod.fst).Sublist (entries.map Prod.fst) := by
  induction entries with
  | nil => exact List.Sublist.refl _
  | cons e entries ih =>
    obtain ⟨key, value⟩ := e
    cases value with
    | none => exact ih.cons key
    | some v => exact ih.cons_cons key

theorem mem_setFields {f : String × Value} {entries : List (String × Option Value)}
    (h : f ∈ setFields entries) : (f.1, some f.2) ∈ entries := by
  obtain ⟨⟨key, value⟩, he, hf⟩ := List.mem_flatMap.mp h
  obtain ⟨v, rfl, rfl⟩ := Option.map_eq_some_iff.mp (Option.mem_toList.mp hf)
  exact he

/-- Under distinct keys, the fields that are set tell what was given for all of them. -/
theorem setFields_injective {as bs : List (String × Option Value)}
    (hkeys : as.map Prod.fst = bs.map Prod.fst) (hdistinct : (as.map Prod.fst).Nodup)
    (h : setFields as = setFields bs) : as = bs := by
  induction as generalizing bs with
  | nil => exact (List.map_eq_nil_iff.mp hkeys.symm).symm
  | cons a as ih =>
    obtain ⟨b, bs, rfl⟩ : ∃ b bs', bs = b :: bs' := by
      cases bs with
      | nil => exact absurd hkeys (List.cons_ne_nil _ _)
      | cons b bs => exact ⟨b, bs, rfl⟩
    obtain ⟨key, x⟩ := a
    obtain ⟨key', y⟩ := b
    obtain ⟨hkey, hrest⟩ := List.cons.inj hkeys
    obtain ⟨hnew, hdistinctRest⟩ := List.nodup_cons.mp hdistinct
    obtain rfl : key = key' := hkey
    -- A key that only one of the lists has cannot stand further behind in the other one.
    have hnot (entries : List (String × Option Value)) {v : Value} {fields : List (String × Value)}
        (he : entries.map Prod.fst = as.map Prod.fst) : setFields entries ≠ (key, v) :: fields := by
      intro hfields
      have hmem : key ∈ (setFields entries).map Prod.fst := hfields ▸ List.mem_cons_self
      exact hnew (he ▸ (keys_setFields entries).subset hmem)
    match x, y, h with
    | none, none, h => rw [ih hrest hdistinctRest h]
    | none, some w, h => exact absurd h (hnot as rfl)
    | some v, none, h => exact absurd h.symm (hnot bs hrest.symm)
    | some v, some w, h =>
      obtain ⟨hhead, htail⟩ := List.cons.inj h
      rw [ih hrest hdistinctRest htail, (Prod.mk.inj hhead).2]

/-- Records of the same optional fields are equal exactly if what was given for the fields is. -/
theorem record_setFields_eq_iff {as bs : List (String × Option Value)} {keys : List String}
    (ha : as.map Prod.fst = keys) (hb : bs.map Prod.fst = keys) (hdistinct : keys.Nodup) :
    Value.record (setFields as) = .record (setFields bs) ↔ as = bs := by
  subst ha
  exact ⟨fun h => setFields_injective hb.symm hdistinct (Value.record.inj h), fun h => h ▸ rfl⟩

/-- No floating-point number and no repeated key stands inside the value. -/
structure Value.Tidy (v : Value) : Prop where
  exact : v.Exact
  distinctKeys : v.DistinctKeys

namespace Value

theorem Tidy.list {items : List Value} (h : ∀ v ∈ items, v.Tidy) : (Value.list items).Tidy where
  exact := .list fun v hv => (h v hv).exact
  distinctKeys := .list fun v hv => (h v hv).distinctKeys

theorem Tidy.record {fields : List (String × Value)} (hkeys : (fields.map Prod.fst).Nodup)
    (h : ∀ f ∈ fields, f.2.Tidy) : (Value.record fields).Tidy where
  exact := .record fun f hf => (h f hf).exact
  distinctKeys := .record hkeys fun f hf => (h f hf).distinctKeys

theorem tidy_null : Value.null.Tidy := ⟨⟨nofun, nofun⟩, nofun⟩

theorem tidy_flag (b : Bool) : (Value.flag b).Tidy := ⟨⟨nofun, nofun⟩, nofun⟩

theorem tidy_whole (n : Int) : (Value.whole n).Tidy := ⟨⟨nofun, nofun⟩, nofun⟩

theorem tidy_text (s : String) : (Value.text s).Tidy := ⟨⟨nofun, nofun⟩, nofun⟩

/-- A record of set fields is tidy if its keys are distinct and all that is given is tidy. -/
theorem tidy_setFields {entries : List (String × Option Value)} {keys : List String}
    (hkeys : entries.map Prod.fst = keys) (hdistinct : keys.Nodup)
    (h : ∀ e ∈ entries, ∀ v ∈ e.2, v.Tidy) : (Value.record (setFields entries)).Tidy := by
  subst hkeys
  have hset : ((setFields entries).map Prod.fst).Nodup := hdistinct.sublist (keys_setFields entries)
  exact .record hset fun _ hf => h _ (mem_setFields hf) _ rfl

end Value

/-! ## Payloads -/

/-- Items that are equal but for the order of their extra data and for data that was replaced. -/
structure Item.Same (a b : Item) : Prop where
  id : a.id = b.id
  count : a.count = b.count
  tags : Option.Rel SameFields a.tags b.tags

def Item.withTags (item : Item) (calls : List (String × Value)) : Item :=
  calls.foldl (fun item c => item.withTag c.1 c.2) item

theorem Item.withTags_new (id : String) (count : Int32) (calls : List (String × Value)) :
    Item.withTags ⟨id, count, none⟩ calls =
      ⟨id, count, if calls = [] then none else some calls⟩ := by
  induction calls using List.reverseRecOn with
  | nil => rfl
  | append_singleton calls c ih =>
    have hlast : Item.withTags ⟨id, count, none⟩ (calls ++ [c]) =
        (Item.withTags ⟨id, count, none⟩ calls).withTag c.1 c.2 := by
      rw [withTags, List.foldl_append]
      rfl
    rw [hlast, ih, if_neg (List.append_ne_nil_of_right_ne_nil calls (List.cons_ne_nil c []))]
    cases calls <;> rfl

/-- Of the calls that add data, only the last one for each key counts, in whatever order. -/
theorem Item.same_withTags_iff (id : String) (count : Int32)
    (calls calls' : List (String × Value)) :
    Item.Same (.withTags ⟨id, count, none⟩ calls) (.withTags ⟨id, count, none⟩ calls') ↔
      SameFields calls calls' := by
  rw [withTags_new, withTags_new]
  constructor
  · rintro ⟨-, -, htags⟩
    cases calls with
    | nil =>
      cases calls' with
      | nil => exact fun key => .none
      | cons c calls' => nomatch htags
    | cons c calls =>
      cases calls' with
      | nil => nomatch htags
      | cons c' calls' =>
        cases htags with
        | some h => exact h
  · intro h
    refine ⟨rfl, rfl, ?_⟩
    rw [if_congr h.eq_nil_iff rfl rfl]
    split
    · exact .none
    · exact .some h

structure Trade.Same (a b : Trade) : Prop where
  buy : Option.Rel Item.Same a.buy b.buy
  sell : Option.Rel Item.Same a.sell b.sell
  rewardExp : a.rewardExp = b.rewardExp
  maxUses : a.maxUses = b.maxUses

def Offers.Same (a b : Offers) : Prop := Option.Rel (List.Forall₂ Trade.Same) a.trades b.trades

/-- Villagers that are equal but for the order of the extra data of their items, and for data that
was replaced. -/
structure Villager.Same (a b : Villager) : Prop where
  traits : a.traits = b.traits
  livelihood : a.livelihood = b.livelihood
  offers : Option.Rel Offers.Same a.offers b.offers

/-! ## Values of payloads -/

theorem listMap_eq_iff {α β : Type} {f : α → β} {xs ys : List α} :
    xs.map f = ys.map f ↔ List.Forall₂ (fun x y => f x = f y) xs ys := by
  rw [← List.forall₂_eq_eq_eq, List.forall₂_map_left_iff, List.forall₂_map_right_iff]

def Effect.entries (e : Effect) : List (String × Option Value) :=
  [("Id", some (.whole e.id.toInt)), ("Duration", some (.whole e.duration.toInt)),
    ("Amplifier", some (.whole e.amplifier.toInt)), ("Ambient", some (.flag e.ambient)),
    ("ShowParticles", some (.flag e.showParticles))]

theorem Effect.keys_eq (e : Effect) :
    e.entries.map Prod.fst = ["Id", "Duration", "Amplifier", "Ambient", "ShowParticles"] := rfl

theorem Effect.value_eq (e : Effect) : e.value = .record (setFields e.entries) := rfl

theorem Effect.value_injective {e f : Effect} (h : e.value = f.value) : e = f := by
  rw [value_eq, value_eq, record_setFields_eq_iff e.keys_eq f.keys_eq (by decide)] at h
  simp only [entries, List.cons.injEq, Prod.mk.injEq, Option.some.injEq, Value.whole.injEq,
    Value.flag.injEq, Int32.toInt_inj, true_and, and_true] at h
  cases e
  cases f
  exact Effect.mk.injEq .. ▸ h

def Item.entries (item : Item) : List (String × Option Value) :=
  [("id", some (.text item.id)), ("Count", some (.whole item.count.toInt)),
    ("tag", item.tags.map fun tags => (Value.record tags).ordered)]

theorem Item.keys_eq (item : Item) : item.entries.map Prod.fst = ["id", "Count", "tag"] := rfl

theorem Item.value_eq (item : Item) : item.value = .record (setFields item.entries) := by
  simp [value, entries, setFields, optionalField]

/-- Items have the same value exactly if they agree. -/
theorem Item.value_eq_iff {a b : Item} : a.value = b.value ↔ a.Same b := by
  rw [value_eq, value_eq, record_setFields_eq_iff a.keys_eq b.keys_eq (by decide)]
  simp only [entries, List.cons.injEq, Prod.mk.injEq, Option.some.injEq, Value.text.injEq,
    Value.whole.injEq, Int32.toInt_inj, true_and, and_true, optionMap_eq_iff,
    Value.ordered_eq_iff, Value.same_record_iff]
  exact ⟨fun ⟨hid, hcount, htags⟩ => ⟨hid, hcount, htags⟩,
    fun h => ⟨h.id, h.count, h.tags⟩⟩

def Trade.entries (t : Trade) : List (String × Option Value) :=
  [("buy", t.buy.map Item.value), ("sell", t.sell.map Item.value),
    ("rewardExp", some (.whole t.rewardExp.toInt)), ("maxUses", some (.whole t.maxUses.toInt))]

theorem Trade.keys_eq (t : Trade) :
    t.entries.map Prod.fst = ["buy", "sell", "rewardExp", "maxUses"] := rfl

theorem Trade.value_eq (t : Trade) : t.value = .record (setFields t.entries) := by
  simp [value, entries, setFields, optionalField]

/-- An item that is missing on one side of a trade counts, too. -/
theorem Trade.value_eq_iff {a b : Trade} : a.value = b.value ↔ a.Same b := by
  rw [value_eq, value_eq, record_setFields_eq_iff a.keys_eq b.keys_eq (by decide)]
  simp only [entries, List.cons.injEq, Prod.mk.injEq, Option.some.injEq, Value.whole.injEq,
    Int32.toInt_inj, Int8.toInt_inj, true_and, and_true, optionMap_eq_iff, Item.value_eq_iff]
  exact ⟨fun ⟨hbuy, hsell, hexp, huses⟩ => ⟨hbuy, hsell, hexp, huses⟩,
    fun h => ⟨h.buy, h.sell, h.rewardExp, h.maxUses⟩⟩

def Offers.entries (o : Offers) : List (String × Option Value) :=
  [("Recipes", o.trades.map fun ts => .list (ts.map Trade.value))]

theorem Offers.keys_eq (o : Offers) : o.entries.map Prod.fst = ["Recipes"] := rfl

theorem Offers.value_eq (o : Offers) : o.value = .record (setFields o.entries) := by
  simp [value, entries, setFields]

/-- An empty list of trades is a set field, unlike no list. -/
theorem Offers.value_eq_iff {a b : Offers} : a.value = b.value ↔ a.Same b := by
  rw [value_eq, value_eq, record_setFields_eq_iff a.keys_eq b.keys_eq (by decide)]
  simp only [entries, List.cons.injEq, Prod.mk.injEq, true_and, and_true, optionMap_eq_iff,
    Value.list.injEq, listMap_eq_iff, Trade.value_eq_iff]
  exact Iff.rfl

def Livelihood.entries (l : Livelihood) : List (String × Option Value) :=
  [("profession", some (.text l.profession)), ("level", some (.whole l.level.toInt)),
    ("type", some (.text l.biome))]

theorem Livelihood.keys_eq (l : Livelihood) :
    l.entries.map Prod.fst = ["profession", "level", "type"] := rfl

theorem Livelihood.value_eq (l : Livelihood) : l.value = .record (setFields l.entries) := rfl

theorem Livelihood.value_injective {l m : Livelihood} (h : l.value = m.value) : l = m := by
  rw [value_eq, value_eq, record_setFields_eq_iff l.keys_eq m.keys_eq (by decide)] at h
  simp only [entries, List.cons.injEq, Prod.mk.injEq, Option.some.injEq, Value.whole.injEq,
    Value.text.injEq, Int32.toInt_inj, true_and, and_true] at h
  cases l
  cases m
  exact Livelihood.mk.injEq .. ▸ h

def Traits.entries (t : Traits) : List (String × Option Value) :=
  [("Invulnerable", some (.flag t.invulnerable)),
    ("PersistenceRequired", some (.flag t.persistenceRequired)), ("NoAI", some (.flag t.noAI)),
    ("Silent", some (.flag t.silent)),
    ("Motion", t.motion.map fun (x, y, z) => .list [.double x, .double y, .double z]),
    ("Rotation", t.rotation.map fun (x, y) => .list [.single x, .single y]),
    ("ActiveEffects", t.activeEffects.map fun es => .list (es.map Effect.value))]

theorem Traits.fields_eq (t : Traits) : t.fields = setFields t.entries := by
  simp [fields, entries, setFields, optionalField]

def Villager.entries (v : Villager) : List (String × Option Value) :=
  v.traits.entries ++ [("VillagerData", v.livelihood.map Livelihood.value),
    ("Offers", v.offers.map Offers.value)]

theorem Villager.keys_eq (v : Villager) :
    v.entries.map Prod.fst = ["Invulnerable", "PersistenceRequired", "NoAI", "Silent", "Motion",
      "Rotation", "ActiveEffects", "VillagerData", "Offers"] := rfl

theorem Villager.value_eq (v : Villager) : v.value = .record (setFields v.entries) := by
  simp [value, entries, Traits.fields_eq, setFields]

/-! ## Villagers without floating-point numbers -/

def Trade.items (t : Trade) : List Item := t.buy.toList ++ t.sell.toList

def Offers.items (o : Offers) : List Item := o.trades.toList.flatten.flatMap Trade.items

def Villager.items (v : Villager) : List Item := v.offers.toList.flatMap Offers.items

/-- No floating-point number is written for the villager. -/
structure Villager.Exact (v : Villager) : Prop where
  motion : v.traits.motion = none
  rotation : v.traits.rotation = none
  tags : ∀ item ∈ v.items, ∀ tags ∈ item.tags, (Value.record tags).ordered.Exact

/-- Apart from where an entity moves and looks, its fields tell its traits. -/
theorem Traits.eq_of_entries {s t : Traits} (hmotion : s.motion = t.motion)
    (hrotation : s.rotation = t.rotation) (h : s.entries = t.entries) : s = t := by
  simp only [entries, List.cons.injEq, Prod.mk.injEq, Option.some.injEq, Value.flag.injEq,
    true_and, and_true] at h
  obtain ⟨hinvulnerable, hpersistence, hnoAI, hsilent, -, -, heffects⟩ := h
  have heffectsEq : s.activeEffects = t.activeEffects := by
    refine Option.map_injective (fun as bs hlist => ?_) heffects
    exact List.map_injective_iff.mpr (fun _ _ => Effect.value_injective) (Value.list.inj hlist)
  cases s
  cases t
  exact Traits.mk.injEq .. ▸
    ⟨hinvulnerable, hpersistence, hnoAI, hsilent, hmotion, hrotation, heffectsEq⟩

/-- Without floating-point numbers, villagers have the same value if and only if they agree. -/
theorem Villager.Exact.value_eq_iff {v w : Villager} (hv : v.Exact) (hw : w.Exact) :
    v.value = w.value ↔ v.Same w := by
  have htraits : v.traits.entries = w.traits.entries ↔ v.traits = w.traits :=
    ⟨Traits.eq_of_entries (hv.motion.trans hw.motion.symm) (hv.rotation.trans hw.rotation.symm),
      fun h => h ▸ rfl⟩
  have hlivelihood : v.livelihood.map Livelihood.value = w.livelihood.map Livelihood.value ↔
      v.livelihood = w.livelihood :=
    ⟨fun h => Option.map_injective (fun _ _ => Livelihood.value_injective) h, fun h => h ▸ rfl⟩
  have hentries : v.entries = w.entries ↔ v.traits = w.traits ∧ v.livelihood = w.livelihood ∧
      v.offers.map Offers.value = w.offers.map Offers.value := by
    rw [← htraits, ← hlivelihood]
    constructor
    · intro h
      obtain ⟨hfirst, hrest⟩ := List.append_inj h rfl
      simpa using And.intro hfirst hrest
    · rintro ⟨hfirst, hsecond, hthird⟩
      rw [Villager.entries, Villager.entries, hfirst, hsecond, hthird]
  rw [Villager.value_eq, Villager.value_eq,
    record_setFields_eq_iff v.keys_eq w.keys_eq (by decide), hentries]
  simp only [optionMap_eq_iff, Offers.value_eq_iff]
  exact ⟨fun ⟨h, h', h''⟩ => ⟨h, h', h''⟩, fun h => ⟨h.traits, h.livelihood, h.offers⟩⟩

theorem Effect.tidy_value (e : Effect) : e.value.Tidy :=
  Value.tidy_setFields e.keys_eq (by decide) (by simp [entries, Value.tidy_flag, Value.tidy_whole])

/-- Extra data is written in order, so no key of it is repeated. -/
theorem Item.tidy_value (item : Item) (h : ∀ tags ∈ item.tags, (Value.record tags).ordered.Exact) :
    item.value.Tidy := by
  have htags : ∀ tags ∈ item.tags, (Value.record tags).ordered.Tidy :=
    fun tags htags => ⟨h tags htags, Value.distinctKeys_ordered _⟩
  rw [value_eq]
  exact Value.tidy_setFields item.keys_eq (by decide)
    (by simpa [entries, Value.tidy_text, Value.tidy_whole] using htags)

theorem Trade.tidy_value (t : Trade) (h : ∀ item ∈ t.items, item.value.Tidy) : t.value.Tidy := by
  have hsides := List.forall_mem_append.mp h
  rw [value_eq]
  exact Value.tidy_setFields t.keys_eq (by decide)
    (by simpa [entries, Value.tidy_whole] using hsides)

theorem Offers.tidy_value (o : Offers) (h : ∀ item ∈ o.items, item.value.Tidy) :
    o.value.Tidy := by
  have htrades : ∀ ts ∈ o.trades, (Value.list (ts.map Trade.value)).Tidy := by
    intro ts hts
    refine Value.Tidy.list (List.forall_mem_map.mpr fun t ht => t.tidy_value fun item hitem => ?_)
    exact h item (List.mem_flatMap.mpr ⟨t, by simp [Option.mem_def.mp hts, ht], hitem⟩)
  rw [value_eq]
  exact Value.tidy_setFields o.keys_eq (by decide) (by simpa [entries] using htrades)

theorem Livelihood.tidy_value (l : Livelihood) : l.value.Tidy :=
  Value.tidy_setFields l.keys_eq (by decide) (by simp [entries, Value.tidy_text, Value.tidy_whole])

theorem Villager.Exact.tidy_value {v : Villager} (h : v.Exact) : v.value.Tidy := by
  have heffects : ∀ es ∈ v.traits.activeEffects, (Value.list (es.map Effect.value)).Tidy :=
    fun es _ => .list (List.forall_mem_map.mpr fun e _ => e.tidy_value)
  have hlivelihood : ∀ l ∈ v.livelihood, l.value.Tidy := fun l _ => l.tidy_value
  have hoffers : ∀ o ∈ v.offers, o.value.Tidy := by
    refine fun o ho => o.tidy_value fun item hitem => item.tidy_value (h.tags item ?_)
    exact List.mem_flatMap.mpr ⟨o, Option.mem_toList.mpr ho, hitem⟩
  rw [Villager.value_eq]
  refine Value.tidy_setFields v.keys_eq (by decide) ?_
  simpa [entries, Traits.entries, h.motion, h.rotation, Value.tidy_flag] using
    ⟨heffects, hlivelihood, hoffers⟩

/-! ## Tags -/

/-- Tags of villagers without floating-point numbers are equal if and only if the villagers agree in
all that counts. A tag is the written form of one value only, and no key stands in it twice in
one place. -/
theorem Entity.tag_eq_iff {v w : Villager} (hv : v.Exact) (hw : w.Exact) (id id' : String) :
    ∃ t t', (Entity.mk id (some (.villager v))).tag = .ok (some t) ∧
      (Entity.mk id' (some (.villager w))).tag = .ok (some t') ∧ (t = t' ↔ v.Same w) ∧
      ∃ value : Value, value.Exact ∧ value.DistinctKeys ∧
        ∀ other : Value, other.Exact → (other.written = t ↔ other = value) := by
  have hreads (other : Value) (hother : other.Exact) :
      other.written = v.value.written ↔ other = v.value :=
    ⟨Value.written_injective hother hv.tidy_value.exact, fun h => h ▸ rfl⟩
  refine ⟨v.value.written, w.value.written, rfl, rfl, ?_, v.value, hv.tidy_value.exact,
    hv.tidy_value.distinctKeys, hreads⟩
  rw [eq_comm, hreads w.value hw.tidy_value.exact, eq_comm, hv.value_eq_iff hw]

def Villager.selling (item : Item) : Villager :=
  { offers := some { trades := some [{ sell := some item }] } }

/-- Villagers with one item to sell agree exactly if the items do. -/
theorem Villager.same_selling_iff {a b : Item} :
    (Villager.selling a).Same (.selling b) ↔ a.Same b := by
  constructor
  · intro h
    cases h.offers with
    | some hoffers =>
      cases hoffers with
      | some htrades =>
        cases (List.forall₂_cons.mp htrades).1.sell with
        | some hitem => exact hitem
  · intro h
    exact ⟨rfl, rfl, .some (.some (.cons ⟨.none, .some h, rfl, rfl⟩ .nil))⟩

theorem Villager.exact_selling (id : String) (count : Int32) {calls : List (String × Value)}
    (h : ∀ c ∈ calls, c.2.Exact) :
    (Villager.selling (.withTags ⟨id, count, none⟩ calls)).Exact where
  motion := rfl
  rotation := rfl
  tags := by
    have htags : ∀ tags ∈ if calls = [] then none else some calls,
        (Value.record tags).ordered.Exact := by
      intro tags htags
      split at htags
      · nomatch htags
      · obtain rfl := Option.some.inj htags
        exact (Value.Exact.record h).ordered
    simpa [selling, items, Offers.items, Trade.items, Item.withTags_new] using htags

/-- Data that is given in another order or replaced does not show. Nothing, an empty collection and
an explicit null do not look alike. -/
theorem Entity.tag_eq_iff_lookalikes :
    let offer (calls : List (String × Value)) : Entity :=
      villager (.selling (.withTags ⟨"book", 1, none⟩ calls))
    (offer [("a", .null), ("b", .list []), ("a", .text "x")]).tag =
        (offer [("a", .text "x"), ("b", .list [])]).tag ∧
      (offer [("a", .null)]).tag ≠ (offer []).tag ∧
      (offer [("a", .null)]).tag ≠ (offer [("a", .list [])]).tag ∧
      (offer [("a", .list [])]).tag ≠ (offer [("a", .record [])]).tag ∧
      (villager {}).tag ≠ (villager { offers := some {} }).tag ∧
      (villager { offers := some {} }).tag ≠
        (villager { offers := some { trades := some [] } }).tag := by
  intro offer
  have hiff {v w : Villager} (hv : v.Exact) (hw : w.Exact) :
      (villager v).tag = (villager w).tag ↔ v.Same w := by
    obtain ⟨t, t', ht, ht', hsame, -⟩ := tag_eq_iff hv hw "villager" "villager"
    rw [villager, villager, ht, ht', ← hsame, Except.ok.injEq, Option.some.injEq]
  have hoffer {calls calls' : List (String × Value)} (h : ∀ c ∈ calls ++ calls', c.2.Tidy) :
      (offer calls).tag = (offer calls').tag ↔ SameFields calls calls' := by
    obtain ⟨hcalls, hcalls'⟩ := List.forall_mem_append.mp fun c hc => (h c hc).exact
    rw [hiff (Villager.exact_selling "book" 1 hcalls) (Villager.exact_selling "book" 1 hcalls'),
      Villager.same_selling_iff, Item.same_withTags_iff]
  have hlist : (Value.list []).Tidy := .list (by simp)
  have hrecord : (Value.record []).Tidy := .record List.nodup_nil (by simp)
  have hnone {v : Villager} (hmotion : v.traits.motion = none)
      (hrotation : v.traits.rotation = none) (hitems : v.items = []) : v.Exact :=
    ⟨hmotion, hrotation, by simp [hitems]⟩
  refine ⟨(hoffer ?_).mpr fun key => ?_, mt (hoffer ?_).mp fun h => ?_,
    mt (hoffer ?_).mp fun h => ?_, mt (hoffer ?_).mp fun h => ?_,
    mt (hiff (hnone rfl rfl rfl) (hnone rfl rfl rfl)).mp fun h => ?_,
    mt (hiff (hnone rfl rfl rfl) (hnone rfl rfl rfl)).mp fun h => ?_⟩
  · simp [Value.tidy_null, Value.tidy_text, hlist]
  · have hlast : Value.lastUnder key [("a", .null), ("b", .list []), ("a", .text "x")] =
        Value.lastUnder key [("a", .text "x"), ("b", .list [])] := by
      by_cases ha : "a" = key
      · subst ha
        rfl
      · simp [Value.lastUnder, KeyedList.lookup, ha]
    rw [hlast]
    exact optionRel_refl .refl _
  · simp [Value.tidy_null]
  · cases h "a"
  · simp [Value.tidy_null, hlist]
  · cases h "a" with
    | some hsame => cases hsame
  · simp [hlist, hrecord]
  · cases h "a" with
    | some hsame => cases hsame
  · cases h.offers
  · cases h.offers with
    | some hsame => cases hsame

end CommandPack
