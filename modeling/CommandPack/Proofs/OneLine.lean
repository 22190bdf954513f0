import CommandPack.Proofs.Actions
import CommandPack.Proofs.Names
import CommandPack.Proofs.References

namespace CommandPack

def OneLine (s : String) : Prop := '\n' ∉ s.toList

instance (s : String) : Decidable (OneLine s) := inferInstanceAs (Decidable ('\n' ∉ s.toList))

@[simp] theorem oneLine_append {a b : String} : OneLine (a ++ b) ↔ OneLine a ∧ OneLine b := by
  simp [OneLine]

theorem oneLine_ofList {cs : List Char} : OneLine (String.ofList cs) ↔ '\n' ∉ cs := by
  simp [OneLine]

theorem oneLine_intercalate {sep : String} (hsep : OneLine sep) {texts : List String}
    (h : ∀ t ∈ texts, OneLine t) : OneLine (sep.intercalate texts) := by
  induction texts with
  | nil => exact List.not_mem_nil
  | cons t texts ih =>
    obtain ⟨ht, hrest⟩ := List.forall_mem_cons.mp h
    cases texts with
    | nil => simpa using ht
    | cons u texts =>
      rw [String.intercalate_cons_cons, oneLine_append, oneLine_append]
      exact ⟨⟨ht, hsep⟩, ih hrest⟩

@[simp] theorem oneLine_natural (n : Nat) : OneLine (Text.natural n) :=
  Text.notMem_natural (by decide) n

@[simp] theorem oneLine_integer (n : Int) : OneLine (Text.integer n) :=
  Text.notMem_integer (by decide) (by decide) n

theorem NameKind.Accepts.oneLine {kind : NameKind} {name : String} (h : kind.Accepts name) :
    OneLine name :=
  h.newline_notMem

theorem oneLine_generatedName {kind : String} (h : OneLine kind) (k : Nat) :
    OneLine (generatedName kind k) :=
  notMem_generatedName (by decide) h (by decide) k

/-! ## Quoted texts and structured values -/

namespace Text

/-- A line feed is written as an escape. -/
theorem newline_notMem_escapeChar (c : Char) : '\n' ∉ escapeChar c := by
  unfold escapeChar
  split
  · rename_i e he
    have hletter : e ≠ '\n' := by
      simp only [shortEscape?] at he
      rintro rfl
      repeat' split at he
      all_goals simp_all
    simp [hletter.symm]
  · rename_i hplain
    split
    · rename_i hcontrol
      have hhex : ∀ n < 16, hexDigit n ≠ '\n' := by decide
      have hhigh := hhex (c.toNat / 16) (by omega)
      have hlow := hhex (c.toNat % 16) (by omega)
      simp [hhigh.symm, hlow.symm]
    · rename_i hcontrol
      intro hmem
      obtain rfl := List.mem_singleton.mp hmem
      exact hcontrol (by decide)

/-- Whatever text is quoted, its quoted form has no line feed. -/
theorem newline_notMem_quotedChars (cs : List Char) : '\n' ∉ quotedChars cs := by
  have hescape : '\n' ∉ escape cs := by
    intro hmem
    obtain ⟨c, -, hc⟩ := List.mem_flatMap.mp hmem
    exact newline_notMem_escapeChar c hc
  simp [quotedChars, hescape]

theorem newline_notMem_positive (l : FloatLayout) {ds : List Char} (h : '\n' ∉ ds) (order : Int) :
    '\n' ∉ l.positive ds order := by
  have htake (n : Nat) : '\n' ∉ ds.take n := fun hmem => h (List.mem_of_mem_take hmem)
  have hdrop (n : Nat) : '\n' ∉ ds.drop n := fun hmem => h (List.mem_of_mem_drop hmem)
  have hzeros (n : Nat) : '\n' ∉ List.replicate n '0' := fun hmem =>
    absurd (List.eq_of_mem_replicate hmem) (by decide)
  have hexponent := notMem_digits (c := '\n') (by decide) order.natAbs
  unfold FloatLayout.positive
  split
  · split
    · simp [h]
    · have hfraction : '\n' ∉ (if (ds.drop (order.toNat + 1)).isEmpty then ['0']
          else ds.drop (order.toNat + 1)) := by
        split
        · decide
        · exact hdrop _
      simp only [List.mem_append, List.mem_cons, not_or]
      exact ⟨⟨htake _, hzeros _⟩, by decide, hfraction⟩
  · have hpoint : '\n' ∉ (if ds.length ≤ 1 then [] else '.' :: ds.drop 1) := by
      split
      · exact List.not_mem_nil
      · exact List.not_mem_cons_of_ne_of_not_mem (by decide) (hdrop 1)
    have hsign : '\n' ≠ if order < 0 then '-' else '+' := by
      split <;> decide
    simp only [List.mem_append, List.mem_cons, not_or]
    exact ⟨⟨htake 1, hpoint⟩, by decide, hsign, hexponent⟩

/-- The text of a number is made of digits, signs, a point and an exponent. -/
theorem newline_notMem_chars? {l : FloatLayout} {f : BinaryFormat} {bits : Nat} {cs : List Char}
    (h : l.chars? f bits = some cs) : '\n' ∉ cs := by
  have hsign (negative : Bool) : '\n' ∉ (if negative then ['-'] else []) := by
    cases negative <;> decide
  simp only [FloatLayout.chars?] at h
  split at h
  · nomatch h
  · nomatch h
  · rename_i negative m e hdecode
    split at h
    · obtain rfl := Option.some.inj h
      simp only [List.mem_append, not_or]
      exact ⟨hsign negative, by decide⟩
    · obtain rfl := Option.some.inj h
      have hdigits : '\n' ∉ dropTrailingZeros (digits (shortest f m e).1) := by
        intro hmem
        rw [dropTrailingZeros, List.mem_reverse] at hmem
        have hmem := List.mem_reverse.mp ((List.dropWhile_sublist _).subset hmem)
        exact notMem_digits (by decide) _ hmem
      simp only [List.mem_append, not_or]
      exact ⟨hsign negative, newline_notMem_positive l hdigits _⟩

end Text

namespace Value

theorem newline_notMem_doubleChars (x : Float) : '\n' ∉ doubleChars x := by
  unfold doubleChars
  cases h : doubleLayout.chars? .double x.toBits.toNat with
  | none => decide
  | some cs => exact Text.newline_notMem_chars? h

theorem newline_notMem_singleChars (x : Float32) : '\n' ∉ singleChars x := by
  unfold singleChars
  cases h : singleLayout.chars? .single x.toBits.toNat with
  | none => decide
  | some cs => exact Text.newline_notMem_chars? h

theorem newline_notMem_wholeChars (n : Int) : '\n' ∉ wholeChars n := by
  cases n with
  | ofNat n => exact Text.notMem_digits (by decide) n
  | negSucc n =>
    exact List.not_mem_cons_of_ne_of_not_mem (by decide) (Text.notMem_digits (by decide) _)

mutual

/-- No token of a value has a line feed, and there is none between tokens. -/
theorem newline_notMem_chars : ∀ v : Value, '\n' ∉ v.chars
  | .null => by decide
  | .flag b => by cases b <;> decide
  | .whole n => newline_notMem_wholeChars n
  | .double x => newline_notMem_doubleChars x
  | .single x => newline_notMem_singleChars x
  | .text s => Text.newline_notMem_quotedChars s.toList
  | .list items => by
    have hitems := newline_notMem_itemsChars items
    simp [chars, hitems]
  | .record fields => by
    have hfields := newline_notMem_fieldsChars fields
    simp [chars, hfields]

theorem newline_notMem_itemsChars : ∀ vs : List Value, '\n' ∉ itemsChars vs
  | [] => List.not_mem_nil
  | v :: rest => by
    have hv := newline_notMem_chars v
    have hrest := newline_notMem_moreItemsChars rest
    simp [itemsChars, hv, hrest]

theorem newline_notMem_moreItemsChars : ∀ vs : List Value, '\n' ∉ moreItemsChars vs
  | [] => List.not_mem_nil
  | v :: rest => by
    have hv := newline_notMem_chars v
    have hrest := newline_notMem_moreItemsChars rest
    simp [moreItemsChars, hv, hrest]

theorem newline_notMem_fieldsChars : ∀ fields : List (String × Value), '\n' ∉ fieldsChars fields
  | [] => List.not_mem_nil
  | (k, v) :: rest => by
    have hk := Text.newline_notMem_quotedChars k.toList
    have hv := newline_notMem_chars v
    have hrest := newline_notMem_moreFieldsChars rest
    simp [fieldsChars, hk, hv, hrest]

theorem newline_notMem_moreFieldsChars :
    ∀ fields : List (String × Value), '\n' ∉ moreFieldsChars fields
  | [] => List.not_mem_nil
  | (k, v) :: rest => by
    have hk := Text.newline_notMem_quotedChars k.toList
    have hv := newline_notMem_chars v
    have hrest := newline_notMem_moreFieldsChars rest
    simp [moreFieldsChars, hk, hv, hrest]

end

/-- The written form of a value is one line, whatever its texts are. -/
theorem oneLine_written (v : Value) : OneLine v.written :=
  oneLine_ofList.mpr v.newline_notMem_chars

end Value

/-! ## Parts of commands -/

theorem Span.oneLine_text (s : Span) : OneLine s.text := by
  unfold text
  simp only [oneLine_append, oneLine_integer, true_and, and_true]
  decide

theorem Score.oneLine_constant {objective : String} (h : OneLine objective) (n : Int32) :
    OneLine (constant objective n).text := by
  unfold constant text
  simp only [oneLine_append, oneLine_integer, h, true_and, and_true]
  decide

namespace Selector

/-- A selector shows the names of its filters as they were given. -/
theorem oneLine_text {s : Selector}
    (h : ∀ t ∈ s.filters.team.toList ++ s.filters.type.toList, OneLine t) : OneLine s.text := by
  have hcriteria : ∀ t ∈ s.filters.criteria, OneLine t := by
    intro t ht
    simp only [Filters.criteria, List.mem_append, Option.mem_toList, Option.map_eq_some_iff] at ht
    rcases ht with ((⟨team, hteam, rfl⟩ | ⟨span, -, rfl⟩) | ⟨type, htype, rfl⟩) | ⟨n, -, rfl⟩
    · have hteam := h team (List.mem_append_left _ (Option.mem_toList.mpr hteam))
      exact oneLine_append.mpr ⟨by decide, hteam⟩
    · exact oneLine_append.mpr ⟨by decide, span.oneLine_text⟩
    · have htype := h type (List.mem_append_right _ (Option.mem_toList.mpr htype))
      exact oneLine_append.mpr ⟨by decide, htype⟩
    · exact oneLine_append.mpr ⟨by decide, oneLine_natural _⟩
  have hfilters : OneLine s.filters.text := by
    unfold Filters.text
    split
    · decide
    · have hinside : OneLine (",".intercalate s.filters.criteria) :=
        oneLine_intercalate (by decide) hcriteria
      exact oneLine_append.mpr ⟨oneLine_append.mpr ⟨by decide, hinside⟩, by decide⟩
  have hbase : OneLine s.base.text := by
    cases s.base <;> decide
  exact oneLine_append.mpr ⟨hbase, hfilters⟩

theorem oneLine_guard {s : Selector} (h : OneLine s.text) : OneLine s.guard := by
  have hplace : OneLine (if s.atPlace then " at @s" else "") := by
    split <;> decide
  unfold guard
  simp only [oneLine_append, h, hplace, and_true]
  decide

end Selector

theorem Operand.oneLine_text {a : Operand Score} {objective : String} (h : OneLine objective)
    (ha : ∀ s ∈ a.scores, OneLine s.text) : OneLine (a.text objective) := by
  induction a with
  | score s => exact ha s List.mem_cons_self
  | literal n => exact Score.oneLine_constant h n
  | span s => exact s.oneLine_text
  | condition l c r ihl ihr =>
    have hl := ihl fun s hs => ha s (List.mem_append_left _ hs)
    have hr := ihr fun s hs => ha s (List.mem_append_right _ hs)
    have hc : OneLine c.spelling := by
      cases c <;> decide
    unfold text
    simp only [oneLine_append, hl, hr, hc, true_and, and_true]
    decide

theorem Condition.oneLine_guard {c : Condition Score} {objective : String} (h : OneLine objective)
    (hc : ∀ s ∈ c.scores, OneLine s.text) : OneLine (c.guard objective) := by
  have htext : OneLine (c.text objective) := Operand.oneLine_text h hc
  unfold guard
  simp only [oneLine_append, htext, and_true]
  decide +kernel

/-- A change names its score, and another score or a constant. -/
theorem ScoreChange.oneLine_command {target : Score} {objective : String}
    (htarget : OneLine target.text) (hobjective : OneLine objective) {c : ScoreChange Score}
    (hc : ∀ other, c = .copy other → OneLine other.text) :
    OneLine (c.command target objective) := by
  have hoperation {sign : String} (hsign : OneLine sign) {source : Score}
      (hsource : OneLine source.text) : OneLine (operation target sign source) := by
    unfold operation
    simp only [oneLine_append, htarget, hsign, hsource, and_true]
    decide +kernel
  have hconstant := Score.oneLine_constant hobjective
  cases c with
  | set n =>
    unfold command
    simp only [oneLine_append, oneLine_integer, htarget, and_true]
    decide +kernel
  | add n =>
    have hverb : OneLine (if n < 0 then "remove " else "add ") := by
      split <;> decide
    unfold command
    simp only [oneLine_append, oneLine_natural, htarget, hverb, and_true]
    decide +kernel
  | copy other => exact hoperation (by decide) (hc other rfl)
  | multiply n | atLeast n | atMost n => exact hoperation (by decide) (hconstant n)

/-- The tag of an entity is the written form of a value. -/
theorem Entity.oneLine_of_tag {e : Entity} {t : String} (h : e.tag = .ok (some t)) : OneLine t := by
  unfold tag at h
  split at h
  · nomatch h
  · rename_i payload hpayload
    cases hvalue : payload.value with
    | error reason =>
      rw [hvalue] at h
      nomatch h
    | ok v =>
      rw [hvalue] at h
      cases h
      exact v.oneLine_written

/-! ## Commands -/

/-- The texts that an action takes as they are given. Titles and the data of entities are quoted, so
they do not count. -/
def Action.verbatim : Action → List String
  | .emit line | .emitTo _ line | .declareFirst _ line | .declare _ line => [line]
  | .selector _ s => s.filters.team.toList ++ s.filters.type.toList
  | .act _ (.give item _) => [item]
  | .act _ (.joinTeam team) => [team]
  | .summon entity x y z => [entity.id, x, y, z]
  | _ => []

def Opening.verbatim : Opening → List String
  | .scope fragment => [fragment]
  | .nest fragments => fragments
  | _ => []

/-- What the slots hold is written without a line feed. -/
structure Handles.Single (h : Handles) : Prop where
  scores : ∀ slot s, h.score? slot = some s → OneLine s.text
  selectors : ∀ slot s, h.selector? slot = some s → OneLine s.text
  bars : ∀ slot b, h.bar? slot = some b → OneLine b.text
  functions : ∀ slot f, h.function? slot = some f → OneLine f.text

theorem Selector.Deed.oneLine_command {s : Selector} (hs : OneLine s.text) {slot : Slot} {d : Deed}
    (hd : ∀ t ∈ (Action.act slot d).verbatim, OneLine t) : OneLine (d.command s) := by
  unfold command
  cases d with
  | spawnpoint x y z | teleport x y z =>
    simp only [place, oneLine_append, oneLine_integer, hs, true_and, and_true]
    decide +kernel
  | clear => exact oneLine_append.mpr ⟨by decide, hs⟩
  | give item amount =>
    have hitem := hd item List.mem_cons_self
    cases amount with
    | none =>
      simp only [oneLine_append, hs, hitem, and_true]
      decide
    | some n =>
      simp only [oneLine_append, oneLine_natural, hs, hitem, and_true]
      decide
  | joinTeam team =>
    have hteam := hd team List.mem_cons_self
    simp only [oneLine_append, hs, hteam, and_true]
    decide

/-- A property of a bar shows a score or a selector that a slot holds. -/
theorem BossBar.Property.oneLine_command {h : Handles} (hh : h.Single) {b : BossBar}
    (hb : OneLine b.text) {q : BossBar.Property Slot Slot} {r : BossBar.Property Score Selector}
    (hr : q.resolve h.score? h.selector? = some r) : OneLine (r.command b) := by
  unfold command
  cases q with
  | max n =>
    cases hr
    simp only [oneLine_append, oneLine_integer, hb, and_true]
    decide +kernel
  | colour c =>
    cases hr
    have hc : OneLine c.text := by
      cases c <;> decide
    simp only [oneLine_append, hb, hc, and_true]
    decide +kernel
  | value slot =>
    obtain ⟨s, hs, rfl⟩ := Option.map_eq_some_iff.mp hr
    have hscore := hh.scores slot s hs
    simp only [oneLine_append, hb, hscore, and_true]
    decide +kernel
  | players slot =>
    obtain ⟨s, hs, rfl⟩ := Option.map_eq_some_iff.mp hr
    have hselector := hh.selectors slot s hs
    simp only [oneLine_append, hb, hselector, and_true]
    decide +kernel

theorem BossBar.oneLine_text {b : BossBar} (hspace : OneLine b.space) (hid : OneLine b.id) :
    OneLine b.text :=
  oneLine_append.mpr ⟨oneLine_append.mpr ⟨hspace, by decide⟩, hid⟩

/-- The title of a bar may be any text. -/
theorem BossBar.oneLine_command {b : BossBar} (hb : OneLine b.text) : OneLine b.command := by
  have htitle : OneLine (Text.quoted b.title) :=
    oneLine_ofList.mpr (Text.newline_notMem_quotedChars _)
  unfold command
  simp only [oneLine_append, hb, htitle, and_true]
  decide

theorem FunctionRef.oneLine_text {f : FunctionRef} (hspace : OneLine f.space)
    (hname : OneLine f.name) : OneLine f.text :=
  oneLine_append.mpr ⟨oneLine_append.mpr ⟨hspace, by decide⟩, hname⟩

theorem FunctionRef.oneLine_callCommand {f : FunctionRef} (hf : OneLine f.text) :
    OneLine f.callCommand :=
  oneLine_append.mpr ⟨by decide, hf⟩

/-- The data of an entity may hold any texts. -/
theorem Entity.oneLine_command {e : Entity} {x y z : String}
    (h : ∀ t ∈ (Action.summon e x y z).verbatim, OneLine t) {tag : Option String}
    (htag : e.tag = .ok tag) : OneLine (e.command x y z tag) := by
  have hplace : OneLine e.id ∧ OneLine x ∧ OneLine y ∧ OneLine z := by
    simpa [Action.verbatim] using h
  obtain ⟨hid, hx, hy, hz⟩ := hplace
  unfold command
  cases tag with
  | none =>
    simp only [oneLine_append, hid, hx, hy, hz, and_true]
    decide
  | some t =>
    have ht := oneLine_of_tag htag
    simp only [oneLine_append, hid, hx, hy, hz, ht, and_true]
    decide

/-- If the texts that an action takes as they are given have no line feed, the command that it
writes has none. -/
theorem Action.Writes.oneLine {space : String} {h : Handles} {a : Action} {c : Command}
    (hc : a.Writes space h c) (hspace : OneLine space) (hh : h.Single)
    (ha : ∀ t ∈ a.verbatim, OneLine t) {s : Settings} (hobjective : OneLine s.constObjective) :
    OneLine (c.text s) := by
  cases hc with
  | emit line | emitTo context line | declareFirst context line | declare context line =>
    exact ha line List.mem_cons_self
  | change htarget hd =>
    refine ScoreChange.oneLine_command (hh.scores _ _ htarget) hobjective ?_
    rintro other rfl
    obtain ⟨slot, hslot⟩ := ScoreChange.found_of_resolve hd
    exact hh.scores slot other hslot
  | low low high htarget | high low high htarget =>
    exact ScoreChange.oneLine_command (hh.scores _ _ htarget) hobjective (by simp)
  | deed d hs => exact Selector.Deed.oneLine_command (hh.selectors _ _ hs) ha
  | makeBar title slot hid =>
    exact BossBar.oneLine_command (BossBar.oneLine_text hspace hid.oneLine)
  | setBar hb hr => exact BossBar.Property.oneLine_command hh (hh.bars _ _ hb) hr
  | call hf => exact FunctionRef.oneLine_callCommand (hh.functions _ _ hf)
  | summon x y z htag => exact Entity.oneLine_command ha htag

end CommandPack
