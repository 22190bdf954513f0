import CommandPack.Buffers
import Mathlib.Data.List.Induction

namespace CommandPack.Buffers

inductive Edit
  | touch (context : String)
  | append (context line : String)
  | prepend (context line : String)
deriving DecidableEq, Repr

namespace Edit

def context : Edit → String
  | .touch c | .append c _ | .prepend c _ => c

def perform (b : Buffers) : Edit → Buffers
  | .touch c => b.touch c
  | .append c line => b.append c line
  | .prepend c line => b.prepend c line

/-- The line that an edit puts above those of a context. -/
def above? (context : String) : Edit → Option String
  | .prepend c line => if c = context then some line else none
  | .touch _ | .append _ _ => none

def below? (context : String) : Edit → Option String
  | .append c line => if c = context then some line else none
  | .touch _ | .prepend _ _ => none

def isLine : Edit → Bool
  | .touch _ => false
  | .append _ _ | .prepend _ _ => true

end Edit

def ofEdits (edits : List Edit) : Buffers := edits.foldl Edit.perform empty

/-- The contexts that edits mention, in the order in which they first do. -/
def mentioned (edits : List Edit) : List String := (edits.map Edit.context).eraseDups

/-- Lines that were put in front stand above, the last one first; those that were added stand below,
in their order. -/
def editedLines (edits : List Edit) (context : String) : List String :=
  (edits.filterMap (Edit.above? context)).reverse ++ edits.filterMap (Edit.below? context)

variable {b : Buffers} {edits : List Edit} {e : Edit} {c : String}

theorem Edit.above?_of_ne (h : e.context ≠ c) : e.above? c = none := by
  cases e with
  | touch _ | append _ _ => rfl
  | prepend _ _ => exact if_neg h

theorem Edit.below?_of_ne (h : e.context ≠ c) : e.below? c = none := by
  cases e with
  | touch _ | prepend _ _ => rfl
  | append _ _ => exact if_neg h

/-- An edit puts its line above or below those of its own context. -/
theorem Edit.get?_perform (b : Buffers) (e : Edit) (c : String) :
    (e.perform b).get? c =
      if c = e.context then
        some ((e.above? c).toList ++ (b.get? c).getD [] ++ (e.below? c).toList)
      else b.get? c := by
  cases e <;> simp only [perform, get?_touch, get?_append, get?_prepend]
  all_goals
    refine ite_congr rfl (fun hc => ?_) fun _ => rfl
    simp [above?, below?, Edit.context, hc]

/-- A context keeps its place when it is mentioned again. -/
theorem Edit.keys_perform (b : Buffers) (e : Edit) :
    (e.perform b).keys = if e.context ∈ b.keys then b.keys else b.keys ++ [e.context] := by
  cases e <;> exact KeyedList.keys_upsert ..

/-- An operation that lets every list of lines grow by the same number lets all of them together
grow by that number. -/
theorem lineCount_upsert {f : List String → List String} {n : Nat}
    (hf : ∀ ls, (f ls).length = ls.length + n) (b : Buffers) (c : String) :
    lineCount (b.upsert c [] f) = b.lineCount + n := by
  have hentries (es : List (String × List String)) :
      ((KeyedList.upsertEntries c [] f es).flatMap Prod.snd).length =
        (es.flatMap Prod.snd).length + n := by
    induction es with
    | nil => simp [KeyedList.upsertEntries, hf]
    | cons e es ih =>
      unfold KeyedList.upsertEntries
      split
      · simp [hf]
        omega
      · simp only [List.flatMap_cons, List.length_append, ih]
        omega
  exact hentries b.entries

theorem Edit.lineCount_perform (b : Buffers) (e : Edit) :
    (e.perform b).lineCount = b.lineCount + (if e.isLine then 1 else 0) := by
  cases e with
  | touch c => exact lineCount_upsert (fun _ => rfl) b c
  | append c line => exact lineCount_upsert (fun _ => by simp [isLine]) b c
  | prepend c line => exact lineCount_upsert (fun _ => by simp [isLine]) b c

theorem ofEdits_concat (edits : List Edit) (e : Edit) :
    ofEdits (edits ++ [e]) = e.perform (ofEdits edits) := by
  rw [ofEdits, List.foldl_append]
  rfl

theorem mem_mentioned : c ∈ mentioned edits ↔ ∃ e ∈ edits, e.context = c := by
  rw [mentioned, List.mem_eraseDups, List.mem_map]

theorem editedLines_concat (edits : List Edit) (e : Edit) (c : String) :
    editedLines (edits ++ [e]) c =
      (e.above? c).toList ++ editedLines edits c ++ (e.below? c).toList := by
  have hone (f : Edit → Option String) : [e].filterMap f = (f e).toList := by
    cases h : f e <;> simp [h]
  have hreverse : (e.above? c).toList.reverse = (e.above? c).toList := by
    cases e.above? c <;> rfl
  simp only [editedLines, List.filterMap_append, hone, List.reverse_append, hreverse,
    List.append_assoc]

theorem editedLines_of_not_mentioned (h : c ∉ mentioned edits) : editedLines edits c = [] := by
  have hne (e : Edit) (he : e ∈ edits) : e.context ≠ c :=
    fun hc => h (mem_mentioned.mpr ⟨e, he, hc⟩)
  rw [editedLines, List.filterMap_eq_nil_iff.mpr fun e he => Edit.above?_of_ne (hne e he),
    List.filterMap_eq_nil_iff.mpr fun e he => Edit.below?_of_ne (hne e he)]
  rfl

theorem keys_ofEdits (edits : List Edit) : (ofEdits edits).keys = mentioned edits := by
  induction edits using List.reverseRecOn with
  | nil => rfl
  | append_singleton edits e ih =>
    rw [ofEdits_concat, Edit.keys_perform, ih, mentioned, mentioned, List.map_append,
      List.map_singleton, eraseDups_concat]
    simp only [List.mem_eraseDups]

/-- A context exists once it was mentioned, and holds what edits put above and below. -/
theorem get?_ofEdits (edits : List Edit) (c : String) :
    (ofEdits edits).get? c = if c ∈ mentioned edits then some (editedLines edits c) else none := by
  induction edits using List.reverseRecOn with
  | nil => rfl
  | append_singleton edits e ih =>
    have hbefore : ((ofEdits edits).get? c).getD [] = editedLines edits c := by
      rw [ih]
      split
      · rfl
      · rename_i h
        exact (editedLines_of_not_mentioned h).symm
    have hmem : c ∈ mentioned (edits ++ [e]) ↔ c ∈ mentioned edits ∨ c = e.context := by
      simp [mem_mentioned, or_and_right, exists_or, eq_comm]
    rw [ofEdits_concat, Edit.get?_perform, hbefore]
    by_cases hc : c = e.context
    · rw [if_pos hc, if_pos (hmem.mpr (.inr hc)), editedLines_concat]
    · rw [if_neg hc, ih, editedLines_concat, Edit.above?_of_ne (Ne.symm hc),
        Edit.below?_of_ne (Ne.symm hc)]
      simp [hmem, hc]

theorem lineCount_ofEdits (edits : List Edit) :
    (ofEdits edits).lineCount = edits.countP Edit.isLine := by
  induction edits using List.reverseRecOn with
  | nil => rfl
  | append_singleton edits e ih =>
    rw [ofEdits_concat, Edit.lineCount_perform, ih, List.countP_append, List.countP_singleton]

/-- Edits of different contexts do not influence each other. -/
theorem get?_swap (before rest : List Edit) {x y : Edit} (h : x.context ≠ y.context) (c : String) :
    (ofEdits (before ++ x :: y :: rest)).get? c = (ofEdits (before ++ y :: x :: rest)).get? c := by
  have hmem : c ∈ mentioned (before ++ x :: y :: rest) ↔
      c ∈ mentioned (before ++ y :: x :: rest) := by
    simp only [mem_mentioned, List.mem_append, List.mem_cons]
    grind
  have hlines : editedLines (before ++ x :: y :: rest) c =
      editedLines (before ++ y :: x :: rest) c := by
    have hswap {f : Edit → Option String} (hf : f x = none ∨ f y = none) :
        (before ++ x :: y :: rest).filterMap f = (before ++ y :: x :: rest).filterMap f := by
      rcases hf with hf | hf <;> simp [List.filterMap_append, List.filterMap_cons, hf]
    by_cases hx : x.context = c
    · have hy : y.context ≠ c := fun hy => h (hx.trans hy.symm)
      rw [editedLines, editedLines, hswap (.inr (Edit.above?_of_ne hy)),
        hswap (.inr (Edit.below?_of_ne hy))]
    · rw [editedLines, editedLines, hswap (.inl (Edit.above?_of_ne hx)),
        hswap (.inl (Edit.below?_of_ne hx))]
  simp only [get?_ofEdits, hmem, hlines]

/-- The two ends of a context grow apart. -/
theorem append_prepend (b : Buffers) (c above below : String) :
    (b.append c below).prepend c above = (b.prepend c above).append c below := by
  refine KeyedList.eq_of_keys ?_ fun k => ?_
  · simp only [append, prepend, KeyedList.keys_upsert]
  · simp only [get?_append, get?_prepend]
    split <;> rfl

/-- Edits keep every line, in order. The contexts are those that were mentioned, each once and in
the order in which they first were. Each of them holds the lines that were put in front of it, the
last one first, and behind them those that were added to it. So edits of different contexts may
change places as far as the lines of each context go, and so may two edits of one context that write
at its two ends. -/
theorem edits_keep_lines :
    (∀ edits : List Edit,
      (ofEdits edits).keys.Nodup ∧ (ofEdits edits).keys = mentioned edits ∧
      (∀ c, (ofEdits edits).get? c =
        if c ∈ mentioned edits then some (editedLines edits c) else none) ∧
      (ofEdits edits).size = (mentioned edits).length ∧
      (∀ c, (ofEdits edits).contains c = true ↔ c ∈ mentioned edits) ∧
      (ofEdits edits).entries = (mentioned edits).map (fun c => (c, editedLines edits c)) ∧
      (∀ c, (ofEdits edits).content? c =
        if c ∈ mentioned edits then some ("\n".intercalate (editedLines edits c)) else none) ∧
      (ofEdits edits).lineCount = edits.countP Edit.isLine) ∧
    (∀ (before rest : List Edit) (x y : Edit), x.context ≠ y.context →
      ∀ c, (ofEdits (before ++ x :: y :: rest)).get? c =
        (ofEdits (before ++ y :: x :: rest)).get? c) ∧
    ∀ (before rest : List Edit) (c above below : String),
      ofEdits (before ++ .append c below :: .prepend c above :: rest) =
        ofEdits (before ++ .prepend c above :: .append c below :: rest) := by
  refine ⟨fun edits => ?_, fun before rest x y h => get?_swap before rest h, ?_⟩
  · have hkeys := keys_ofEdits edits
    have hentries : (ofEdits edits).entries =
        (mentioned edits).map fun c => (c, editedLines edits c) := by
      rw [← hkeys]
      refine KeyedList.entries_eq_map_keys fun c hc => ?_
      rw [get?_ofEdits, if_pos (hkeys ▸ hc)]
    refine ⟨KeyedList.nodup_keys _, hkeys, get?_ofEdits edits, ?_, fun c => ?_, hentries,
      fun c => ?_, lineCount_ofEdits edits⟩
    · rw [KeyedList.size, hentries, List.length_map]
    · rw [KeyedList.contains_iff_mem_keys, hkeys]
    · rw [content?, get?_ofEdits]
      split <;> rfl
  · intro before rest c above below
    simp only [ofEdits, List.foldl_append, List.foldl_cons, Edit.perform, append_prepend]

/-- Two contexts are written in turns, and both ends of one of them grow. -/
theorem edits_keep_lines_in_turns :
    let before : List Edit := [.touch "default", .append "zeta" "z"]
    let x : Edit := .prepend "zeta" "y"
    let y : Edit := .append "alpha" "a"
    x.context ≠ y.context ∧
      (∀ c, (ofEdits (before ++ [x, y])).get? c = (ofEdits (before ++ [y, x])).get? c) ∧
      (ofEdits (before ++ [x, y])).get? "zeta" = some ["y", "z"] ∧
      (ofEdits (before ++ [x, y])).keys = ["default", "zeta", "alpha"] := by
  intro before x y
  have hne : x.context ≠ y.context := by decide
  have hswap := edits_keep_lines.2.1 before [] x y hne
  have hlines := (edits_keep_lines.1 (before ++ [x, y])).2.2.1 "zeta"
  have hkeys := (edits_keep_lines.1 (before ++ [x, y])).2.1
  exact ⟨hne, hswap, hlines.trans (by decide), hkeys.trans (by decide)⟩

end CommandPack.Buffers
