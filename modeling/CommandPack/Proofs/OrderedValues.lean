import CommandPack.KeyedList
import CommandPack.Proofs.ValueText
import Mathlib.Data.List.Induction

namespace CommandPack

section Options

variable {α β : Type} {a b : Option α}

/-- Optional values are related if both are absent, or both are there and related. -/
theorem optionRel_iff {r : α → α → Prop} :
    Option.Rel r a b ↔ (a = none ↔ b = none) ∧ ∀ x y, a = some x → b = some y → r x y := by
  constructor
  · rintro (⟨h⟩ | _)
    · simpa using h
    · simp
  · rintro ⟨habsent, hpresent⟩
    cases a with
    | none =>
      obtain rfl := habsent.mp rfl
      exact .none
    | some x =>
      obtain ⟨y, rfl⟩ := Option.ne_none_iff_exists'.mp fun hb => nomatch habsent.mpr hb
      exact .some (hpresent x y rfl rfl)

theorem optionRel_refl {r : α → α → Prop} (h : ∀ x, r x x) (a : Option α) : Option.Rel r a a := by
  cases a with
  | none => exact .none
  | some x => exact .some (h x)

theorem optionMap_eq_iff {f : α → β} :
    a.map f = b.map f ↔ Option.Rel (fun x y => f x = f y) a b := by
  rw [optionRel_iff]
  cases a <;> cases b <;> simp

end Options

namespace KeyedList

variable {κ ν ω : Type} [DecidableEq κ]

theorem mem_of_lookup_eq_some {k : κ} {v : ν} {es : List (κ × ν)} (h : lookup k es = some v) :
    (k, v) ∈ es := by
  induction es with
  | nil => nomatch h
  | cons e es ih =>
    unfold lookup at h
    split at h
    · rename_i hk
      cases h
      exact hk ▸ List.mem_cons_self
    · exact List.mem_cons_of_mem _ (ih h)

theorem lookup_map (f : ν → ω) (k : κ) (es : List (κ × ν)) :
    lookup k (es.map fun e => (e.1, f e.2)) = (lookup k es).map f := by
  induction es with
  | nil => rfl
  | cons e es ih =>
    rw [List.map_cons, lookup, lookup, ih]
    split <;> rfl

end KeyedList

namespace Value

open KeyedList (lookup)

def lastUnder (key : String) (fields : List (String × Value)) : Option Value :=
  lookup key fields.reverse

/-- A later field under the same key replaces an earlier one. -/
theorem lastUnder_concat (key : String) (fields : List (String × Value)) (f : String × Value) :
    lastUnder key (fields ++ [f]) = if f.1 = key then some f.2 else lastUnder key fields := by
  rw [lastUnder, List.reverse_append]
  rfl

theorem mem_of_lastUnder {key : String} {fields : List (String × Value)} {v : Value}
    (h : lastUnder key fields = some v) : (key, v) ∈ fields :=
  List.mem_reverse.mp (KeyedList.mem_of_lookup_eq_some h)

theorem eq_nil_iff_lastUnder {fields : List (String × Value)} :
    fields = [] ↔ ∀ key, lastUnder key fields = none := by
  constructor
  · rintro rfl key
    rfl
  · intro h
    cases fields using List.reverseRecOn with
    | nil => rfl
    | append_singleton front f =>
      have hlast := h f.1
      rw [lastUnder_concat, if_pos rfl] at hlast
      nomatch hlast

/-! ## Fields in order -/

def Ascending (fields : List (String × Value)) : Prop := fields.Pairwise fun f g => f.1 < g.1

/-- A field that is put in changes what is found under its key, and nothing else. -/
theorem lookup_putField (key : String) (value : Value) (j : String)
    (fields : List (String × Value)) :
    lookup j (putField key value fields) = if key = j then some value else lookup j fields := by
  induction fields with
  | nil => rfl
  | cons f fields ih =>
    obtain ⟨k, v⟩ := f
    unfold putField
    split
    · rfl
    · split
      · rename_i hkey
        subst hkey
        simp only [lookup]
        split <;> rfl
      · rename_i hkey
        rw [lookup, ih, lookup]
        by_cases hk : k = j
        · have hne : key ≠ j := fun hj => hkey (hj.trans hk.symm)
          rw [if_pos hk, if_pos hk, if_neg hne]
        · rw [if_neg hk, if_neg hk]

theorem mem_putField {key : String} {value : Value} {f : String × Value}
    {fields : List (String × Value)} (h : f ∈ putField key value fields) :
    f = (key, value) ∨ f ∈ fields := by
  induction fields with
  | nil => exact .inl (List.mem_singleton.mp h)
  | cons g fields ih =>
    obtain ⟨k, v⟩ := g
    unfold putField at h
    split at h
    · exact List.mem_cons.mp h
    · split at h
      · exact (List.mem_cons.mp h).imp_right (List.mem_cons_of_mem _)
      · rcases List.mem_cons.mp h with h | h
        · exact .inr (h ▸ List.mem_cons_self)
        · exact (ih h).imp_right (List.mem_cons_of_mem _)

/-- A field is put in where its key belongs. -/
theorem Ascending.putField {fields : List (String × Value)} (h : Ascending fields) (key : String)
    (value : Value) : Ascending (putField key value fields) := by
  induction fields with
  | nil => exact List.pairwise_singleton _ _
  | cons f fields ih =>
    obtain ⟨k, v⟩ := f
    obtain ⟨hfirst, hrest⟩ := List.pairwise_cons.mp h
    unfold Value.putField
    split
    · rename_i hlt
      refine List.pairwise_cons.mpr ⟨fun g hg => ?_, h⟩
      rcases List.mem_cons.mp hg with rfl | hg
      · exact hlt
      · exact String.lt_trans hlt (hfirst g hg)
    · split
      · rename_i hkey
        subst hkey
        exact List.pairwise_cons.mpr ⟨hfirst, hrest⟩
      · rename_i hnot hkey
        refine List.pairwise_cons.mpr ⟨fun g hg => ?_, ih hrest⟩
        rcases mem_putField hg with rfl | hg
        · exact Decidable.byContradiction fun hge =>
            hkey (String.le_antisymm (String.not_lt.mp hge) (String.not_lt.mp hnot))
        · exact hfirst g hg

theorem Ascending.keys_nodup {fields : List (String × Value)} (h : Ascending fields) :
    (fields.map Prod.fst).Nodup := by
  refine List.pairwise_map.mpr (h.imp ?_)
  intro f g hlt hkey
  rw [hkey] at hlt
  exact String.lt_irrefl _ hlt

/-- Ordered fields are known by what is found under their keys. -/
theorem Ascending.eq_of_lookup {fs gs : List (String × Value)} (hf : Ascending fs)
    (hg : Ascending gs) (h : ∀ key, lookup key fs = lookup key gs) : fs = gs := by
  have hnodup {xs : List (String × Value)} (hx : Ascending xs) : xs.Nodup :=
    List.Pairwise.of_map Prod.fst (fun _ _ hne heq => hne (congrArg Prod.fst heq)) hx.keys_nodup
  have hmem (f : String × Value) : f ∈ fs ↔ f ∈ gs := by
    rw [← KeyedList.lookup_eq_some_iff hf.keys_nodup,
      ← KeyedList.lookup_eq_some_iff hg.keys_nodup, h]
  refine List.Perm.eq_of_pairwise (fun f g _ _ hfg hgf => ?_) hf hg
    ((List.perm_ext_iff_of_nodup (hnodup hf) (hnodup hg)).mpr hmem)
  exact absurd hgf (String.lt_asymm hfg)

theorem orderFields_concat (fields : List (String × Value)) (f : String × Value) :
    orderFields (fields ++ [f]) = putField f.1 f.2 (orderFields fields) := by
  rw [orderFields, List.foldl_append]
  rfl

theorem ascending_orderFields (fields : List (String × Value)) :
    Ascending (orderFields fields) := by
  induction fields using List.reverseRecOn with
  | nil => exact List.Pairwise.nil
  | append_singleton fields f ih =>
    rw [orderFields_concat]
    exact ih.putField f.1 f.2

/-- Putting fields in order changes nothing about what counts. -/
theorem lookup_orderFields (key : String) (fields : List (String × Value)) :
    lookup key (orderFields fields) = lastUnder key fields := by
  induction fields using List.reverseRecOn with
  | nil => rfl
  | append_singleton fields f ih => rw [orderFields_concat, lookup_putField, ih, lastUnder_concat]

theorem mem_of_mem_orderFields {f : String × Value} {fields : List (String × Value)}
    (h : f ∈ orderFields fields) : f ∈ fields := by
  rw [← KeyedList.lookup_eq_some_iff (ascending_orderFields fields).keys_nodup,
    lookup_orderFields] at h
  exact mem_of_lastUnder h

/-- Fields in order are equal exactly if the same value counts under every key. -/
theorem orderFields_eq_iff {fs gs : List (String × Value)} :
    orderFields fs = orderFields gs ↔ ∀ key, lastUnder key fs = lastUnder key gs := by
  constructor
  · intro h key
    rw [← lookup_orderFields, h, lookup_orderFields]
  · intro h
    refine (ascending_orderFields fs).eq_of_lookup (ascending_orderFields gs) fun key => ?_
    rw [lookup_orderFields, lookup_orderFields, h]

theorem orderedItems_eq (items : List Value) : orderedItems items = items.map ordered := by
  induction items with
  | nil => rfl
  | cons v items ih => rw [orderedItems, ih, List.map_cons]

theorem orderedFields_eq (fields : List (String × Value)) :
    orderedFields fields = fields.map fun f => (f.1, f.2.ordered) := by
  induction fields with
  | nil => rfl
  | cons f fields ih => rw [orderedFields, ih, List.map_cons]

theorem lastUnder_orderedFields (key : String) (fields : List (String × Value)) :
    lastUnder key (orderedFields fields) = (lastUnder key fields).map ordered := by
  rw [lastUnder, orderedFields_eq, ← List.map_reverse, KeyedList.lookup_map]
  rfl

/-! ## Values that agree in what counts -/

/-- Values that are equal but for the order of fields and for fields that do not count. -/
inductive Same : Value → Value → Prop
  | refl (v : Value) : Same v v
  | list {xs ys : List Value} (absent : ∀ i : Nat, xs[i]? = none ↔ ys[i]? = none)
    (present : ∀ (i : Nat) (x y : Value), xs[i]? = some x → ys[i]? = some y → Same x y) :
    Same (.list xs) (.list ys)
  | record {fs gs : List (String × Value)}
    (absent : ∀ key, lastUnder key fs = none ↔ lastUnder key gs = none)
    (present : ∀ key x y, lastUnder key fs = some x → lastUnder key gs = some y → Same x y) :
    Same (.record fs) (.record gs)

/-- Under every key there is the same last value in both lists, or none in both. -/
def SameFields (fs gs : List (String × Value)) : Prop :=
  ∀ key, Option.Rel Same (lastUnder key fs) (lastUnder key gs)

theorem SameFields.eq_nil_iff {fs gs : List (String × Value)} (h : SameFields fs gs) :
    fs = [] ↔ gs = [] := by
  rw [eq_nil_iff_lastUnder, eq_nil_iff_lastUnder]
  exact forall_congr' fun key => (optionRel_iff.mp (h key)).1

theorem same_of_eq {v w : Value} (h : v = w) : Same v w := h ▸ .refl v

theorem same_list_iff {xs ys : List Value} :
    Same (.list xs) (.list ys) ↔ ∀ i : Nat, Option.Rel Same xs[i]? ys[i]? := by
  constructor
  · intro h i
    cases h with
    | refl => exact optionRel_refl .refl _
    | list absent present => exact optionRel_iff.mpr ⟨absent i, present i⟩
  · intro h
    exact .list (fun i => (optionRel_iff.mp (h i)).1) fun i => (optionRel_iff.mp (h i)).2

/-- Records agree if the values that count under their keys do. -/
theorem same_record_iff {fs gs : List (String × Value)} :
    Same (.record fs) (.record gs) ↔ SameFields fs gs := by
  constructor
  · intro h key
    cases h with
    | refl => exact optionRel_refl .refl _
    | record absent present => exact optionRel_iff.mpr ⟨absent key, present key⟩
  · intro h
    exact .record (fun key => (optionRel_iff.mp (h key)).1) fun key => (optionRel_iff.mp (h key)).2

theorem ordered_list_eq_iff {xs ys : List Value} :
    (Value.list xs).ordered = (Value.list ys).ordered ↔
      ∀ i : Nat, Option.Rel (fun x y => x.ordered = y.ordered) xs[i]? ys[i]? := by
  rw [ordered, ordered, Value.list.injEq, orderedItems_eq, orderedItems_eq, List.ext_getElem?_iff]
  simp only [List.getElem?_map, optionMap_eq_iff]

theorem ordered_record_eq_iff {fs gs : List (String × Value)} :
    (Value.record fs).ordered = (Value.record gs).ordered ↔
      ∀ key, Option.Rel (fun x y => x.ordered = y.ordered) (lastUnder key fs)
        (lastUnder key gs) := by
  rw [ordered, ordered, Value.record.injEq, orderFields_eq_iff]
  simp only [lastUnder_orderedFields, optionMap_eq_iff]

/-- The ordered form depends on nothing but what counts. -/
theorem ordered_eq_of_same {v w : Value} (h : Same v w) : v.ordered = w.ordered := by
  induction h with
  | refl v => rfl
  | list absent present ih =>
    exact ordered_list_eq_iff.mpr fun i => optionRel_iff.mpr ⟨absent i, ih i⟩
  | record absent present ih =>
    exact ordered_record_eq_iff.mpr fun key => optionRel_iff.mpr ⟨absent key, ih key⟩

theorem same_of_ordered_eq {v w : Value} (h : v.ordered = w.ordered) : Same v w := by
  induction v using Value.induction generalizing w with
  | null | flag b | whole n | double x | single x | text s =>
    cases w with
    | list _ | record _ => nomatch h
    | _ => exact same_of_eq h
  | list xs ih =>
    cases w with
    | list ys =>
      refine same_list_iff.mpr fun i => ?_
      obtain ⟨habsent, hpresent⟩ := optionRel_iff.mp (ordered_list_eq_iff.mp h i)
      refine optionRel_iff.mpr ⟨habsent, fun x y hx hy => ?_⟩
      exact ih x (List.mem_of_getElem? hx) (hpresent x y hx hy)
    | _ => nomatch h
  | record fs ih =>
    cases w with
    | record gs =>
      refine same_record_iff.mpr fun key => ?_
      obtain ⟨habsent, hpresent⟩ := optionRel_iff.mp (ordered_record_eq_iff.mp h key)
      refine optionRel_iff.mpr ⟨habsent, fun x y hx hy => ?_⟩
      exact ih (key, x) (mem_of_lastUnder hx) (hpresent x y hx hy)
    | _ => nomatch h

/-- Values agree in what counts if and only if their ordered forms are equal. -/
theorem ordered_eq_iff {v w : Value} : v.ordered = w.ordered ↔ Same v w :=
  ⟨same_of_ordered_eq, ordered_eq_of_same⟩

/-! ## Ordered values -/

/-- Putting a value in order brings no floating-point numbers into it. -/
theorem Exact.ordered {v : Value} (h : v.Exact) : v.ordered.Exact := by
  induction v using Value.induction with
  | null | flag b | whole n | double x | single x | text s => exact h
  | list items ih =>
    rw [Value.ordered, orderedItems_eq]
    exact Exact.list (List.forall_mem_map.mpr fun v hv => ih v hv (h.item hv))
  | record fields ih =>
    rw [Value.ordered, orderedFields_eq]
    refine Exact.record fun f hf => ?_
    obtain ⟨g, hg, rfl⟩ := List.mem_map.mp (mem_of_mem_orderFields hf)
    exact ih g hg (h.field hg)

def DistinctKeys (v : Value) : Prop :=
  ∀ fields, Inside (.record fields) v → (fields.map Prod.fst).Nodup

theorem DistinctKeys.list {items : List Value} (h : ∀ v ∈ items, v.DistinctKeys) :
    (Value.list items).DistinctKeys := by
  rintro fields (_ | ⟨mem, inside⟩)
  exact h _ mem fields inside

theorem DistinctKeys.record {fields : List (String × Value)}
    (hkeys : (fields.map Prod.fst).Nodup) (h : ∀ f ∈ fields, f.2.DistinctKeys) :
    (Value.record fields).DistinctKeys := by
  rintro inner (_ | _ | ⟨mem, inside⟩)
  · exact hkeys
  · exact h _ mem inner inside

/-- A value in order has no key twice in one record. -/
theorem distinctKeys_ordered (v : Value) : v.ordered.DistinctKeys := by
  induction v using Value.induction with
  | null | flag b | whole n | double x | single x | text s => exact fun fields h => nomatch h
  | list items ih =>
    rw [ordered, orderedItems_eq]
    exact DistinctKeys.list (List.forall_mem_map.mpr ih)
  | record fields ih =>
    rw [ordered, orderedFields_eq]
    refine DistinctKeys.record (ascending_orderFields _).keys_nodup fun f hf => ?_
    obtain ⟨g, hg, rfl⟩ := List.mem_map.mp (mem_of_mem_orderFields hf)
    exact ih g hg

end Value
end CommandPack
