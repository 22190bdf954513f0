namespace CommandPack

/-- The distinct elements of a list, in the order in which they first appear, grow at the end. -/
theorem eraseDups_concat {α : Type} [DecidableEq α] (us : List α) (n : α) :
    (us ++ [n]).eraseDups = if n ∈ us then us.eraseDups else us.eraseDups ++ [n] := by
  rw [List.eraseDups_append]
  by_cases hn : n ∈ us
  · have hrest : [n].removeAll us = [] := by simp [List.removeAll, hn]
    rw [if_pos hn, hrest, List.eraseDups_nil, List.append_nil]
  · have hrest : [n].removeAll us = [n] := by simp [List.removeAll, hn]
    rw [if_neg hn, hrest]
    rfl

/-- Values under distinct keys, in the order in which the keys first appeared. -/
structure KeyedList (κ ν : Type) where
  entries : List (κ × ν)
  distinct : (entries.map Prod.fst).Nodup

namespace KeyedList

variable {κ ν : Type}

def empty : KeyedList κ ν := ⟨[], by simp⟩

instance : Inhabited (KeyedList κ ν) := ⟨empty⟩

def keys (m : KeyedList κ ν) : List κ := m.entries.map Prod.fst

def size (m : KeyedList κ ν) : Nat := m.entries.length

def isEmpty (m : KeyedList κ ν) : Bool := m.entries.isEmpty

theorem nodup_keys (m : KeyedList κ ν) : m.keys.Nodup := m.distinct

theorem ext {m n : KeyedList κ ν} (h : m.entries = n.entries) : m = n := by
  cases m
  cases n
  simp_all

variable [DecidableEq κ]

def lookup (k : κ) : List (κ × ν) → Option ν
  | [] => none
  | (k', v) :: r => if k' = k then some v else lookup k r

/-- Changes the value of `k` by `f`; a new key goes to the end and starts from `fresh`. -/
def upsertEntries (k : κ) (fresh : ν) (f : ν → ν) : List (κ × ν) → List (κ × ν)
  | [] => [(k, f fresh)]
  | (k', v) :: r => if k' = k then (k', f v) :: r else (k', v) :: upsertEntries k fresh f r

/-- A known key keeps its place, and a new one goes to the end. -/
theorem keys_upsertEntries (k : κ) (fresh : ν) (f : ν → ν) (es : List (κ × ν)) :
    (upsertEntries k fresh f es).map Prod.fst =
      if k ∈ es.map Prod.fst then es.map Prod.fst else es.map Prod.fst ++ [k] := by
  induction es with
  | nil => rfl
  | cons e r ih =>
    obtain ⟨k', v⟩ := e
    by_cases h : k' = k
    · simp [upsertEntries, h]
    · simp only [upsertEntries, h, ↓reduceIte, List.map_cons, ih, List.mem_cons, Ne.symm h,
        false_or]
      split <;> rfl

theorem nodup_upsertEntries {k : κ} {fresh : ν} {f : ν → ν} {es : List (κ × ν)}
    (h : (es.map Prod.fst).Nodup) : ((upsertEntries k fresh f es).map Prod.fst).Nodup := by
  rw [keys_upsertEntries]
  split
  · exact h
  · rename_i hk
    refine List.nodup_append.mpr ⟨h, by simp, ?_⟩
    intro a ha b hb
    rw [List.mem_singleton.mp hb]
    exact fun hab => hk (hab ▸ ha)

/-- A change under one key is not seen under the others. -/
theorem lookup_upsertEntries (k j : κ) (fresh : ν) (f : ν → ν) (es : List (κ × ν)) :
    lookup j (upsertEntries k fresh f es) =
      if j = k then some (f ((lookup k es).getD fresh)) else lookup j es := by
  induction es with
  | nil => simp [upsertEntries, lookup, eq_comm]
  | cons e r ih =>
    obtain ⟨k', v⟩ := e
    by_cases h : k' = k
    · subst h
      by_cases hj : j = k'
      · simp [upsertEntries, lookup, hj]
      · simp [upsertEntries, lookup, hj, Ne.symm hj]
    · by_cases hj : k' = j
      · subst hj
        simp [upsertEntries, lookup, h]
      · simp [upsertEntries, lookup, h, hj, ih]

def get? (m : KeyedList κ ν) (k : κ) : Option ν := lookup k m.entries

def contains (m : KeyedList κ ν) (k : κ) : Bool := (m.get? k).isSome

def upsert (m : KeyedList κ ν) (k : κ) (fresh : ν) (f : ν → ν) : KeyedList κ ν :=
  ⟨upsertEntries k fresh f m.entries, nodup_upsertEntries m.distinct⟩

def insert (m : KeyedList κ ν) (k : κ) (v : ν) : KeyedList κ ν := m.upsert k v fun _ => v

@[grind =] theorem get?_upsert (m : KeyedList κ ν) (k j : κ) (fresh : ν) (f : ν → ν) :
    (m.upsert k fresh f).get? j =
      if j = k then some (f ((m.get? k).getD fresh)) else m.get? j :=
  lookup_upsertEntries k j fresh f m.entries

@[grind =] theorem keys_upsert (m : KeyedList κ ν) (k : κ) (fresh : ν) (f : ν → ν) :
    (m.upsert k fresh f).keys = if k ∈ m.keys then m.keys else m.keys ++ [k] :=
  keys_upsertEntries k fresh f m.entries

@[grind =] theorem get?_insert (m : KeyedList κ ν) (k j : κ) (v : ν) :
    (m.insert k v).get? j = if j = k then some v else m.get? j :=
  get?_upsert m k j v _

/-- What is found after an insertion was there before or was inserted. -/
theorem of_get?_insert {m : KeyedList κ ν} {k j : κ} {v u : ν}
    (h : (m.insert k v).get? j = some u) : m.get? j = some u ∨ v = u := by
  rw [get?_insert] at h
  split at h
  · exact .inr (Option.some.inj h)
  · exact .inl h

theorem lookup_isSome_iff (k : κ) (es : List (κ × ν)) :
    (lookup k es).isSome = true ↔ k ∈ es.map Prod.fst := by
  induction es with
  | nil => simp [lookup]
  | cons e r ih =>
    obtain ⟨k', v⟩ := e
    by_cases h : k' = k
    · simp [lookup, h]
    · simp [lookup, h, Ne.symm h, ih]

theorem contains_iff_mem_keys (m : KeyedList κ ν) (k : κ) : m.contains k = true ↔ k ∈ m.keys :=
  lookup_isSome_iff k m.entries

/-- Distinct keys make a look-up find every entry, not only the first of its key. -/
theorem lookup_eq_some_iff {k : κ} {v : ν} {es : List (κ × ν)} (h : (es.map Prod.fst).Nodup) :
    lookup k es = some v ↔ (k, v) ∈ es := by
  induction es with
  | nil => simp [lookup]
  | cons e r ih =>
    obtain ⟨k', v'⟩ := e
    obtain ⟨hnew, hrest⟩ := List.nodup_cons.mp h
    by_cases hk : k' = k
    · subst hk
      have hv : (k', v) ∉ r := fun hm => hnew (List.mem_map.mpr ⟨_, hm, rfl⟩)
      simp [lookup, hv, eq_comm]
    · simp [lookup, hk, Ne.symm hk, ih hrest]

theorem get?_eq_some_iff (m : KeyedList κ ν) {k : κ} {v : ν} :
    m.get? k = some v ↔ (k, v) ∈ m.entries :=
  lookup_eq_some_iff m.distinct

theorem entries_eq_map_keys {m : KeyedList κ ν} {f : κ → ν}
    (h : ∀ k ∈ m.keys, m.get? k = some (f k)) : m.entries = m.keys.map fun k => (k, f k) := by
  have hvalue (e : κ × ν) (he : e ∈ m.entries) : (e.1, f e.1) = e := by
    have hfound := h e.1 (List.mem_map_of_mem he)
    rw [m.get?_eq_some_iff.mpr he] at hfound
    rw [← Option.some.inj hfound]
  rw [keys, List.map_map]
  exact (List.map_id _).symm.trans (List.map_congr_left fun e he => (hvalue e he).symm)

/-- A keyed list is known by the order of its keys and by what is found under them. -/
theorem eq_of_keys {m n : KeyedList κ ν} (hkeys : m.keys = n.keys)
    (h : ∀ k, m.get? k = n.get? k) : m = n := by
  have hlength : m.entries.length = n.entries.length := by
    simpa only [keys, List.length_map] using congrArg List.length hkeys
  refine ext (List.ext_getElem hlength fun i hm hn => ?_)
  have hkey : m.entries[i].1 = n.entries[i].1 := by
    have hi := congrArg (·[i]?) hkeys
    simpa only [keys, List.getElem?_map, List.getElem?_eq_getElem hm, List.getElem?_eq_getElem hn,
      Option.map_some, Option.some.injEq] using hi
  have hfound : m.get? m.entries[i].1 = some m.entries[i].2 :=
    m.get?_eq_some_iff.mpr (List.getElem_mem hm)
  have hfound' : n.get? n.entries[i].1 = some n.entries[i].2 :=
    n.get?_eq_some_iff.mpr (List.getElem_mem hn)
  rw [h, hkey, hfound'] at hfound
  exact Prod.ext hkey (Option.some.inj hfound).symm

end KeyedList
end CommandPack
