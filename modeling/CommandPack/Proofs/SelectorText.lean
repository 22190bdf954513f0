import CommandPack.Proofs.Game.Scoreboard
import CommandPack.Selector
import Mathlib.Data.List.Induction

namespace CommandPack

theorem Span.text_injective {s t : Span} (h : s.text = t.text) : s = t := by
  have hread := congrArg Game.readRange? h
  rw [Game.readRange?_text, Game.readRange?_text] at hread
  obtain ⟨hfirst, hlast⟩ := Prod.mk.inj (Option.some.inj hread)
  cases s
  cases t
  exact Span.mk.injEq .. ▸ ⟨Int32.toInt_inj.mp hfirst, Int32.toInt_inj.mp hlast⟩

theorem Span.comma_notMem_text (s : Span) : ',' ∉ s.text.toList := by
  have hnumber (n : Int) := Text.notMem_integer (c := ',') (by decide) (by decide) n
  simp [text, hnumber]

namespace Selector

inductive Setter
  | team | distance | type | limit
deriving DecidableEq, Repr

namespace Setter

def order : List Setter := [.team, .distance, .type, .limit]

def word : Setter → String
  | .team => "team"
  | .distance => "distance"
  | .type => "type"
  | .limit => "limit"

theorem word_injective {s t : Setter} (h : s.word = t.word) : s = t := by
  cases s <;> cases t <;> first | rfl | exact absurd h (by decide)

end Setter

/-! ## Single filters -/

namespace Filter

def setter : Filter → Setter
  | .team _ => .team
  | .distance _ => .distance
  | .type _ => .type
  | .limit _ => .limit

def valueText : Filter → String
  | .team name | .type name => name
  | .distance span => span.text
  | .limit n => Text.natural n.toNat

def text (f : Filter) : String := f.setter.word ++ "=" ++ f.valueText

theorem toList_text (f : Filter) :
    f.text.toList = f.setter.word.toList ++ '=' :: f.valueText.toList := by
  simp [text]

/-- A filter can be told from its text. The word in front of the first sign says what to make of the
text behind it. -/
theorem text_injective {f g : Filter} (h : f.text = g.text) : f = g := by
  have hsign (s : Setter) : '=' ∉ s.word.toList := by cases s <;> decide
  have hchars := congrArg String.toList h
  rw [toList_text, toList_text] at hchars
  obtain ⟨hword, hvalue⟩ := Text.append_sep_injective (hsign _) (hsign _) hchars
  rw [String.toList_inj] at hword hvalue
  have hsetter : f.setter = g.setter := Setter.word_injective hword
  cases f with
  | team name =>
    cases g with
    | team name' => exact congrArg _ hvalue
    | distance _ | type _ | limit _ => nomatch hsetter
  | distance span =>
    cases g with
    | distance span' => exact congrArg _ (Span.text_injective hvalue)
    | team _ | type _ | limit _ => nomatch hsetter
  | type name =>
    cases g with
    | type name' => exact congrArg _ hvalue
    | team _ | distance _ | limit _ => nomatch hsetter
  | limit n =>
    cases g with
    | limit n' =>
      have hdigits := Text.digits_injective (String.ofList_injective hvalue)
      exact congrArg _ (UInt32.toNat_inj.mp hdigits)
    | team _ | distance _ | type _ => nomatch hsetter

end Filter

/-! ## Filters by what they are about -/

namespace Filters

variable {f g : Filters}

def get? (f : Filters) : Setter → Option Filter
  | .team => f.team.map .team
  | .distance => f.distance.map .distance
  | .type => f.type.map .type
  | .limit => f.limit.map .limit

/-- The filters that are set, in the order in which they are written. -/
def settings (f : Filters) : List Filter := Setter.order.filterMap f.get?

/-- The names that the filters take as they are given. -/
def names (f : Filters) : List String := f.team.toList ++ f.type.toList

/-- Filters are known by what is set for each of the four. -/
theorem ext_get? (h : ∀ s, f.get? s = g.get? s) : f = g := by
  have hteam := Option.map_injective (fun _ _ => Filter.team.inj) (h .team)
  have hdistance := Option.map_injective (fun _ _ => Filter.distance.inj) (h .distance)
  have htype := Option.map_injective (fun _ _ => Filter.type.inj) (h .type)
  have hlimit := Option.map_injective (fun _ _ => Filter.limit.inj) (h .limit)
  cases f
  cases g
  exact Filters.mk.injEq .. ▸ ⟨hteam, hdistance, htype, hlimit⟩

/-- Setting a filter replaces the same filter and leaves the others. -/
theorem get?_set (f : Filters) (x : Filter) (s : Setter) :
    (f.set x).get? s = if x.setter = s then some x else f.get? s := by
  cases x <;> cases s <;> rfl

theorem criteria_eq (f : Filters) : f.criteria = f.settings.map Filter.text := by
  rcases f with ⟨_ | team, _ | span, _ | type, _ | n⟩ <;> rfl

theorem get?_empty (s : Setter) : get? {} s = none := by
  cases s <;> rfl

theorem mem_settings {x : Filter} : x ∈ f.settings ↔ ∃ s, f.get? s = some x := by
  have horder (s : Setter) : s ∈ Setter.order := by cases s <;> decide
  simp only [settings, List.mem_filterMap, horder, true_and]

theorem get?_eq_some_iff {s : Setter} {x : Filter} :
    f.get? s = some x ↔ x ∈ f.settings ∧ x.setter = s := by
  have hsetter {s : Setter} (h : f.get? s = some x) : x.setter = s := by
    cases s <;> obtain ⟨value, -, rfl⟩ := Option.map_eq_some_iff.mp h <;> rfl
  refine ⟨fun h => ⟨mem_settings.mpr ⟨s, h⟩, hsetter h⟩, fun ⟨hx, hs⟩ => ?_⟩
  obtain ⟨s', h⟩ := mem_settings.mp hx
  rw [← hs, hsetter h]
  exact h

theorem mem_settings_iff {x : Filter} : x ∈ f.settings ↔ f.get? x.setter = some x := by
  rw [get?_eq_some_iff, and_iff_left rfl]

theorem nodup_settings (f : Filters) : f.settings.Nodup := by
  refine List.Pairwise.filterMap f.get? (fun s s' hne x hx y hy hxy => ?_)
    (show Setter.order.Nodup by decide)
  subst hxy
  exact hne ((get?_eq_some_iff.mp hx).2.symm.trans (get?_eq_some_iff.mp hy).2)

/-- A filter that was not set before stands beside the other ones. -/
theorem settings_set_perm {x : Filter} (h : f.get? x.setter = none) :
    (f.set x).settings.Perm (x :: f.settings) := by
  have hnew : x ∉ f.settings := fun hx => by
    rw [mem_settings_iff, h] at hx
    nomatch hx
  refine (List.perm_ext_iff_of_nodup (nodup_settings _)
    (List.nodup_cons.mpr ⟨hnew, nodup_settings f⟩)).mpr fun y => ?_
  rw [List.mem_cons, mem_settings_iff, mem_settings_iff, get?_set]
  split
  · rename_i hsetter
    rw [← hsetter, h]
    simp [eq_comm]
  · rename_i hsetter
    have hne : y ≠ x := fun hyx => hsetter (congrArg Filter.setter hyx.symm)
    simp [hne]

theorem settings_injective (h : f.settings = g.settings) : f = g := by
  refine ext_get? fun s => Option.ext fun x => ?_
  rw [get?_eq_some_iff, get?_eq_some_iff, h]

theorem settings_eq_nil_iff : f.settings = [] ↔ f = {} := by
  refine ⟨fun h => ext_get? fun s => ?_, fun h => ?_⟩
  · rw [get?_empty, Option.eq_none_iff_forall_ne_some]
    intro x hx
    exact List.ne_nil_of_mem (mem_settings.mpr ⟨s, hx⟩) h
  · rw [h]
    rfl

theorem isEmpty_iff : f.isEmpty = true ↔ f = {} := by
  cases f
  simp [isEmpty, and_assoc]

/-! ## Lists of calls -/

/-- The last call for a filter. -/
def lastCall (calls : List Filter) (s : Setter) : Option Filter :=
  calls.reverse.find? fun x => x.setter = s

theorem lastCall_append (as bs : List Filter) (s : Setter) :
    lastCall (as ++ bs) s = (lastCall bs s).or (lastCall as s) := by
  rw [lastCall, List.reverse_append, List.find?_append]
  rfl

theorem lastCall_cons (x : Filter) (calls : List Filter) (s : Setter) :
    lastCall (x :: calls) s = (lastCall calls s).or (if x.setter = s then some x else none) := by
  rw [← List.singleton_append, lastCall_append]
  by_cases hx : x.setter = s <;> simp [lastCall, hx]

/-- After a list of calls, what is set for a filter is its last call. -/
theorem get?_ofList (calls : List Filter) (s : Setter) :
    (ofList calls).get? s = lastCall calls s := by
  induction calls using List.reverseRecOn with
  | nil => exact get?_empty s
  | append_singleton calls x ih =>
    have hstep : ofList (calls ++ [x]) = (ofList calls).set x := by
      rw [ofList, List.foldl_append]
      rfl
    rw [hstep, get?_set, ih, lastCall_append, lastCall_cons]
    split <;> rfl

theorem settings_ofList (calls : List Filter) :
    (ofList calls).settings = Setter.order.filterMap (lastCall calls) := by
  rw [settings, funext (get?_ofList calls)]

/-- Calls for different filters do not influence each other. -/
theorem ofList_swap (before rest : List Filter) {x y : Filter} (h : x.setter ≠ y.setter) :
    ofList (before ++ x :: y :: rest) = ofList (before ++ y :: x :: rest) := by
  refine ext_get? fun s => ?_
  simp only [get?_ofList, lastCall_append, lastCall_cons, Option.or_assoc]
  by_cases hx : x.setter = s
  · have hy : y.setter ≠ s := fun hy => h (hx.trans hy.symm)
    simp [hx, hy]
  · simp [hx]

/-- A call for a filter makes all earlier ones for it irrelevant. -/
theorem ofList_again (before between rest : List Filter) {x y : Filter}
    (h : x.setter = y.setter) :
    ofList (before ++ x :: between ++ y :: rest) = ofList (before ++ between ++ y :: rest) := by
  refine ext_get? fun s => ?_
  simp only [get?_ofList, lastCall_append, lastCall_cons, Option.or_assoc, h]
  by_cases hy : y.setter = s <;> simp [hy]

/-! ## The text of filters -/

def bracketed (criteria : List String) : String :=
  if criteria = [] then "" else "[" ++ ",".intercalate criteria ++ "]"

theorem text_eq (f : Filters) : f.text = bracketed (f.settings.map Filter.text) := by
  have hempty : f.isEmpty = true ↔ f.settings.map Filter.text = [] := by
    rw [isEmpty_iff, List.map_eq_nil_iff, settings_eq_nil_iff]
  rw [text, criteria_eq, bracketed]
  exact if_congr hempty rfl rfl

/-- Criteria without commas are divided by the commas between them. -/
theorem bracketed_injective {as bs : List String} (ha : ∀ a ∈ as, ',' ∉ a.toList)
    (hb : ∀ b ∈ bs, ',' ∉ b.toList) (h : bracketed as = bracketed bs) : as = bs := by
  have hne (cs : List String) : "" ≠ "[" ++ ",".intercalate cs ++ "]" := by
    simp
  have hsegments {cs : List String} (hcs : ∀ c ∈ cs, ',' ∉ c.toList) (hnil : cs ≠ []) :
      Text.segments ',' (",".intercalate cs).toList = cs.map String.toList := by
    rw [String.toList_intercalate]
    exact Text.segments_intercalate (List.forall_mem_map.mpr hcs) (mt List.map_eq_nil_iff.mp hnil)
  unfold bracketed at h
  split at h <;> split at h
  · simp_all
  · exact absurd h (hne bs)
  · exact absurd h.symm (hne as)
  · rename_i hanil hbnil
    rw [String.append_left_inj, String.append_right_inj] at h
    have hmap := congrArg (fun t => Text.segments ',' t.toList) h
    rw [hsegments ha hanil, hsegments hb hbnil] at hmap
    exact (List.map_inj_right fun _ _ => String.toList_inj.mp).mp hmap

theorem comma_cons_intercalate (c : String) (cs : List String) :
    ',' :: (",".intercalate (c :: cs)).toList = (c :: cs).flatMap fun c => ',' :: c.toList := by
  induction cs generalizing c with
  | nil => simp
  | cons c' cs ih =>
    rw [String.intercalate_cons_cons, List.flatMap_cons, ← ih c']
    simp

theorem length_bracketed (cs : List String) : (bracketed cs).length =
    if cs = [] then 0 else (cs.flatMap fun c => ',' :: c.toList).length + 1 := by
  cases cs with
  | nil => rfl
  | cons c cs =>
    rw [bracketed, if_neg (List.cons_ne_nil c cs), if_neg (List.cons_ne_nil c cs),
      ← comma_cons_intercalate, ← String.length_toList]
    simp

/-- Setting a filter that was not set before makes the text longer, even with an empty name. -/
theorem length_text_lt {x : Filter} (h : f.get? x.setter = none) :
    f.text.length < (f.set x).text.length := by
  have hperm := (settings_set_perm h).map Filter.text
  have hlength := (hperm.flatMap_right fun c => ',' :: c.toList).length_eq
  have hset : (f.set x).settings.map Filter.text ≠ [] := fun hnil =>
    absurd (hnil ▸ hperm).length_eq (by simp)
  rw [text_eq, text_eq, length_bracketed, length_bracketed, if_neg hset, hlength]
  simp only [List.map_cons, List.flatMap_cons, List.length_append, List.length_cons]
  split <;> omega

theorem comma_notMem_text (h : ∀ name ∈ f.names, ',' ∉ name.toList) :
    ∀ t ∈ f.settings.map Filter.text, ',' ∉ t.toList := by
  refine List.forall_mem_map.mpr fun x hx => ?_
  obtain ⟨s, hs⟩ := mem_settings.mp hx
  have hvalue : ',' ∉ x.valueText.toList := by
    cases s with
    | team =>
      obtain ⟨name, hname, rfl⟩ := Option.map_eq_some_iff.mp hs
      exact h name (List.mem_append_left _ (Option.mem_toList.mpr hname))
    | distance =>
      obtain ⟨span, -, rfl⟩ := Option.map_eq_some_iff.mp hs
      exact span.comma_notMem_text
    | type =>
      obtain ⟨name, hname, rfl⟩ := Option.map_eq_some_iff.mp hs
      exact h name (List.mem_append_right _ (Option.mem_toList.mpr hname))
    | limit =>
      obtain ⟨n, -, rfl⟩ := Option.map_eq_some_iff.mp hs
      exact Text.notMem_natural (by decide) _
  have hword : ',' ∉ x.setter.word.toList := by
    cases x.setter <;> decide
  rw [Filter.toList_text]
  simp [hword, hvalue]

/-- Filters can be told from their text, if no name in them has a comma. -/
theorem text_injective (hf : ∀ name ∈ f.names, ',' ∉ name.toList)
    (hg : ∀ name ∈ g.names, ',' ∉ name.toList) (h : f.text = g.text) : f = g := by
  rw [text_eq, text_eq] at h
  have hcriteria := bracketed_injective (comma_notMem_text hf) (comma_notMem_text hg) h
  exact settings_injective ((List.map_inj_right fun _ _ => Filter.text_injective).mp hcriteria)

end Filters

/-! ## The text of selectors -/

open Filters

variable {s t : Selector}

theorem Base.text_injective {a b : Base} (h : a.text = b.text) : a = b := by
  cases a <;> cases b <;> first | rfl | exact absurd h (by decide)

/-- The base and the filters stand side by side, and all bases are of one length. -/
theorem base_eq_of_text_eq (h : s.text = t.text) :
    s.base = t.base ∧ s.filters.text = t.filters.text := by
  have hlength (b : Base) : b.text.toList.length = 2 := by
    cases b <;> rfl
  have hchars := congrArg String.toList h
  simp only [text, String.toList_append] at hchars
  obtain ⟨hbase, hfilters⟩ := List.append_inj hchars ((hlength _).trans (hlength _).symm)
  exact ⟨Base.text_injective (String.toList_inj.mp hbase), String.toList_inj.mp hfilters⟩

theorem text_eq_text_iff (hs : ∀ name ∈ s.filters.names, ',' ∉ name.toList)
    (ht : ∀ name ∈ t.filters.names, ',' ∉ name.toList) :
    s.text = t.text ↔ s.base = t.base ∧ s.filters = t.filters := by
  constructor
  · intro h
    obtain ⟨hbase, hfilters⟩ := base_eq_of_text_eq h
    exact ⟨hbase, Filters.text_injective hs ht hfilters⟩
  · rintro ⟨hbase, hfilters⟩
    rw [text, text, hbase, hfilters]

/-- A selector has brackets exactly if some filter is set. -/
theorem bracket_mem_text_iff (s : Selector) {c : Char} (hc : c = '[' ∨ c = ']') :
    c ∈ s.text.toList ↔ s.filters ≠ {} := by
  have hbase : c ∉ s.base.text.toList := by
    rcases hc with rfl | rfl <;> cases s.base <;> decide
  rw [text, String.toList_append, List.mem_append, or_iff_right hbase, Filters.text]
  split
  · rename_i hempty
    simp [isEmpty_iff.mp hempty]
  · rename_i hset
    have hne : s.filters ≠ {} := mt isEmpty_iff.mpr hset
    rcases hc with rfl | rfl <;> simp [hne]

/-- The text of a selector tells its filters. It shows the last call for each filter, in a fixed
order and in brackets, so calls for different filters may change places and a later call for the
same filter makes an earlier one irrelevant. Selectors whose names have no comma are written alike
only if they have the same base and the same filters. A filter that is not set differs from one with
an empty name, whatever the other names are, and there are brackets whenever some filter is set. -/
theorem text_tells_filters :
    (∀ (base : Base) (atPlace : Bool) (calls : List Filter),
      text ⟨base, ofList calls, atPlace⟩ =
        base.text ++ bracketed ((Setter.order.filterMap (lastCall calls)).map Filter.text)) ∧
    (∀ (before rest : List Filter) (x y : Filter), x.setter ≠ y.setter →
      ofList (before ++ x :: y :: rest) = ofList (before ++ y :: x :: rest)) ∧
    (∀ (before between rest : List Filter) (x y : Filter), x.setter = y.setter →
      ofList (before ++ x :: between ++ y :: rest) = ofList (before ++ between ++ y :: rest)) ∧
    (∀ s t : Selector, (∀ name ∈ s.filters.names ++ t.filters.names, ',' ∉ name.toList) →
      (s.text = t.text ↔ s.base = t.base ∧ s.filters = t.filters)) ∧
    (∀ (s : Selector) (x : Filter), s.filters.get? x.setter = none →
      text { s with filters := s.filters.set x } ≠ s.text) ∧
    ∀ s : Selector,
      ('[' ∈ s.text.toList ↔ s.filters ≠ {}) ∧ (']' ∈ s.text.toList ↔ s.filters ≠ {}) := by
  refine ⟨fun base atPlace calls => ?_, fun before rest x y => ofList_swap before rest,
    fun before between rest x y => ofList_again before between rest, fun s t h => ?_,
    fun s x hx htext => ?_, fun s => ?_⟩
  · rw [text, Filters.text_eq, settings_ofList]
  · obtain ⟨hs, ht⟩ := List.forall_mem_append.mp h
    exact text_eq_text_iff hs ht
  · rw [text, text, String.append_right_inj] at htext
    exact Nat.ne_of_gt (length_text_lt hx) (congrArg String.length htext)
  · exact ⟨bracket_mem_text_iff s (.inl rfl), bracket_mem_text_iff s (.inr rfl)⟩

/-- A team without a name, and a range with its bounds in the wrong order. -/
theorem text_tells_filters_lookalikes :
    let team : Filter := .team ""
    let near : Filter := .distance ⟨-1, -5⟩
    let far : Filter := .distance ⟨5, 50⟩
    let s : Selector := ⟨.entities, ofList [near], false⟩
    let t : Selector := ⟨.entities, ofList [far, near, team], true⟩
    team.setter ≠ near.setter ∧ far.setter = near.setter ∧
      s.filters.get? team.setter = none ∧
      (∀ name ∈ s.filters.names ++ t.filters.names, ',' ∉ name.toList) ∧
      ofList [far, team, near] = ofList [far, near, team] ∧
      ofList [far, team, near] = ofList [team, near] ∧
      s.text ≠ t.text ∧ text { s with filters := s.filters.set team } ≠ s.text := by
  intro team near far s t
  have hswap : team.setter ≠ near.setter := by decide
  have hagain : far.setter = near.setter := rfl
  have hunset : s.filters.get? team.setter = none := rfl
  have hnames : ∀ name ∈ s.filters.names ++ t.filters.names, ',' ∉ name.toList := by decide
  obtain ⟨-, swap, again, tells, grows, -⟩ := text_tells_filters
  exact ⟨hswap, hagain, hunset, hnames, swap [far] [] team near hswap,
    again [] [team] [] far near hagain, mt (tells s t hnames).mp (by decide),
    grows s team hunset⟩

end Selector

end CommandPack
