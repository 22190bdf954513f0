import CommandPack.Proofs.SingleLines

namespace CommandPack

namespace Buffers

/-- The rows that lines take in a text. No lines take one row too, and it is empty. -/
def rowsOf (lines : List String) : List String := if lines = [] then [""] else lines

def below (rows : List String) : List String := if rows = [] then [] else "" :: rows

theorem rowsOf_ne_nil (lines : List String) : rowsOf lines ≠ [] := by
  unfold rowsOf
  split
  · exact List.cons_ne_nil _ _
  · assumption

theorem joinLines_rowsOf (lines : List String) : joinLines (rowsOf lines) = joinLines lines := by
  unfold rowsOf
  split
  · rename_i h
    rw [h]
    rfl
  · rfl

theorem joinLines_empty_cons {rows : List String} (h : rows ≠ []) :
    "\n" ++ joinLines ("" :: rows) = "\n\n" ++ joinLines rows := by
  rw [joinLines, joinLines, String.intercalate_cons_of_ne_nil h, ← String.append_assoc]
  rfl

theorem oneLine_rowsOf {lines : List String} (h : ∀ l ∈ lines, OneLine l) :
    ∀ row ∈ rowsOf lines, OneLine row := by
  unfold rowsOf
  split
  · exact List.forall_mem_singleton.mpr List.not_mem_nil
  · exact h

theorem oneLine_below {rows : List String} (h : ∀ row ∈ rows, OneLine row) :
    ∀ row ∈ below rows, OneLine row := by
  unfold below
  split
  · exact fun _ hrow => absurd hrow List.not_mem_nil
  · exact List.forall_mem_cons.mpr ⟨List.not_mem_nil, h⟩

theorem splitLines_joinLines_eq_rowsOf {lines : List String} (h : ∀ l ∈ lines, OneLine l) :
    splitLines (joinLines lines) = rowsOf lines := by
  rw [← joinLines_rowsOf]
  exact splitLines_joinLines (oneLine_rowsOf h) (rowsOf_ne_nil lines)

/-- Lines that are not empty end at the first empty row, whether it ends the context or stands for a
context without lines. -/
theorem takeWhile_rowsOf_append {lines : List String} (h : ∀ l ∈ lines, l ≠ "")
    (rows : List String) : (rowsOf lines ++ below rows).takeWhile (· ≠ "") = lines := by
  have hbelow : (below rows).takeWhile (· ≠ "") = [] := by
    unfold below
    split <;> rfl
  unfold rowsOf
  split
  · rename_i hnil
    rw [hnil]
    rfl
  · rw [List.takeWhile_append_of_pos fun l hl => decide_eq_true (h l hl), hbelow, List.append_nil]

theorem below_injective {rows rows' : List String} (h : below rows = below rows') :
    rows = rows' := by
  unfold below at h
  split at h <;> split at h <;> simp_all

/-- The rows of a context and what stands below them can be told apart. -/
theorem rowsOf_append_injective {lines lines' rows rows' : List String}
    (hlines : ∀ l ∈ lines, l ≠ "") (hlines' : ∀ l ∈ lines', l ≠ "")
    (h : rowsOf lines ++ below rows = rowsOf lines' ++ below rows') :
    lines = lines' ∧ rows = rows' := by
  have htaken := congrArg (List.takeWhile (· ≠ "")) h
  rw [takeWhile_rowsOf_append hlines, takeWhile_rowsOf_append hlines'] at htaken
  subst htaken
  exact ⟨rfl, below_injective (List.append_cancel_left h)⟩

/-- Contexts whose names and lines are rows of a text: none has a line feed, and no line is
empty. -/
structure Clean (es : List (String × List String)) : Prop where
  names : ∀ e ∈ es, OneLine e.1
  lines : ∀ e ∈ es, ∀ l ∈ e.2, l ≠ "" ∧ OneLine l

theorem clean_cons {e : String × List String} {es : List (String × List String)} :
    Clean (e :: es) ↔ (OneLine e.1 ∧ ∀ l ∈ e.2, l ≠ "" ∧ OneLine l) ∧ Clean es := by
  constructor
  · rintro ⟨hnames, hlines⟩
    obtain ⟨hname, hnames⟩ := List.forall_mem_cons.mp hnames
    obtain ⟨hline, hlines⟩ := List.forall_mem_cons.mp hlines
    exact ⟨⟨hname, hline⟩, hnames, hlines⟩
  · rintro ⟨⟨hname, hline⟩, hnames, hlines⟩
    exact ⟨List.forall_mem_cons.mpr ⟨hname, hnames⟩, List.forall_mem_cons.mpr ⟨hline, hlines⟩⟩

end Buffers

open Buffers

namespace Settings

variable (s : Settings)

def heading (context : String) : String := "#" ++ s.fileName context

def rows : List (String × List String) → List String
  | [] => []
  | e :: es => s.heading e.1 :: (rowsOf e.2 ++ below (rows es))

variable {s}

theorem heading_ne_empty (context : String) : s.heading context ≠ "" := by
  simp [heading]

/-- Contexts are told apart by their headings. -/
theorem heading_injective {c c' : String} (h : s.heading c = s.heading c') : c = c' := by
  unfold heading fileName at h
  simpa only [String.append_right_inj, String.append_left_inj] using h

theorem rows_eq_nil_iff {es : List (String × List String)} : s.rows es = [] ↔ es = [] := by
  cases es <;> simp [rows]

/-- The lines of a context under its heading. -/
theorem joinLines_heading (e : String × List String) :
    joinLines (s.heading e.1 :: rowsOf e.2) =
      "#" ++ s.fileName e.1 ++ "\n" ++ joinLines e.2 := by
  rw [joinLines, String.intercalate_cons_of_ne_nil (rowsOf_ne_nil e.2)]
  exact congrArg (s.heading e.1 ++ "\n" ++ ·) (joinLines_rowsOf e.2)

/-- The empty rows divide the contexts as empty lines do in the text. -/
theorem joinLines_rows (es : List (String × List String)) :
    joinLines (s.rows es) =
      "\n\n".intercalate (es.map fun e => joinLines (s.heading e.1 :: rowsOf e.2)) := by
  induction es with
  | nil => rfl
  | cons e es ih =>
    rw [rows, List.map_cons]
    by_cases hes : es = []
    · rw [hes, rows, below, if_pos rfl, List.append_nil]
      exact String.intercalate_singleton.symm
    · have hrows : s.rows es ≠ [] := mt rows_eq_nil_iff.mp hes
      rw [below, if_neg hrows]
      calc joinLines (s.heading e.1 :: rowsOf e.2 ++ "" :: s.rows es)
        _ = joinLines (s.heading e.1 :: rowsOf e.2) ++ "\n" ++ joinLines ("" :: s.rows es) :=
          String.intercalate_append_of_ne_nil (List.cons_ne_nil _ _) (List.cons_ne_nil _ _)
        _ = joinLines (s.heading e.1 :: rowsOf e.2) ++ "\n\n" ++ joinLines (s.rows es) := by
          rw [String.append_assoc, joinLines_empty_cons hrows, ← String.append_assoc]
        _ = _ := by rw [ih, String.intercalate_cons_of_ne_nil (mt List.map_eq_nil_iff.mp hes)]

/-- What is rendered are the rows. -/
theorem render_eq (b : Buffers) : s.render b = joinLines (s.rows b.entries) := by
  rw [joinLines_rows, render]
  simp only [joinLines_heading]

theorem oneLine_rows (hext : OneLine s.extension) {es : List (String × List String)}
    (h : Clean es) : ∀ row ∈ s.rows es, OneLine row := by
  induction es with
  | nil => exact fun _ hrow => absurd hrow List.not_mem_nil
  | cons e es ih =>
    obtain ⟨⟨hname, hlines⟩, hes⟩ := clean_cons.mp h
    have hheading : OneLine (s.heading e.1) := by
      simp only [heading, fileName, oneLine_append, hname, hext, and_true]
      decide
    have hrows := oneLine_rowsOf fun l hl => (hlines l hl).2
    have hbelow := oneLine_below (ih hes)
    exact List.forall_mem_cons.mpr ⟨hheading, List.forall_mem_append.mpr ⟨hrows, hbelow⟩⟩

/-- Clean contexts can be told from their rows, the first one by its heading and the rows up to the
first empty one. -/
theorem rows_injective {es es' : List (String × List String)} (hes : Clean es) (hes' : Clean es')
    (h : s.rows es = s.rows es') : es = es' := by
  induction es generalizing es' with
  | nil => exact (rows_eq_nil_iff.mp h.symm).symm
  | cons e es ih =>
    cases es' with
    | nil => exact absurd h (List.cons_ne_nil _ _)
    | cons e' es' =>
      obtain ⟨⟨-, hlines⟩, hes⟩ := clean_cons.mp hes
      obtain ⟨⟨-, hlines'⟩, hes'⟩ := clean_cons.mp hes'
      obtain ⟨hheading, hrest⟩ := List.cons.inj h
      obtain ⟨hsame, hrows⟩ := rowsOf_append_injective (fun l hl => (hlines l hl).1)
        (fun l hl => (hlines' l hl).1) hrest
      rw [Prod.ext (heading_injective hheading) hsame, ih hes hes' hrows]

/-- A text that shows no context is empty, so it has one row like any other. -/
theorem rowsOf_rows_injective {es es' : List (String × List String)}
    (h : rowsOf (s.rows es) = rowsOf (s.rows es')) : s.rows es = s.rows es' := by
  have hne (es : List (String × List String)) : s.rows es ≠ [""] := by
    cases es with
    | nil => exact fun hrows => nomatch hrows
    | cons e es => exact fun hrows => heading_ne_empty e.1 (List.cons.inj hrows).1
  unfold rowsOf at h
  split at h <;> split at h
  · simp_all
  · exact absurd h.symm (hne es')
  · exact absurd h (hne es)
  · exact h

/-- Two maps of clean contexts are shown as the same text only if they have the same contexts in the
same order, with the same lines in each. The lines may look like headings, and contexts may be
without lines. -/
theorem render_eq_iff (hext : OneLine s.extension) {a b : Buffers}
    (ha : Clean a.entries) (hb : Clean b.entries) :
    s.render a = s.render b ↔ a.entries = b.entries := by
  constructor
  · intro h
    have hsplit := congrArg splitLines h
    rw [render_eq, render_eq, splitLines_joinLines_eq_rowsOf (oneLine_rows hext ha),
      splitLines_joinLines_eq_rowsOf (oneLine_rows hext hb)] at hsplit
    exact rows_injective ha hb (rowsOf_rows_injective hsplit)
  · intro h
    rw [render, render, h]

/-- A line that looks like the heading of a context without lines does not stand for one. -/
theorem render_eq_iff_lookalike :
    let a := Buffers.ofList [("alpha", ["#beta.mcfunction"])]
    let b := Buffers.ofList [("alpha", []), ("beta", [])]
    let s : Settings := {}
    OneLine s.extension ∧ Clean a.entries ∧ Clean b.entries ∧ a.entries ≠ b.entries ∧
      s.render a ≠ s.render b := by
  intro a b s
  have hext : OneLine s.extension := by decide
  have ha : Clean a.entries := ⟨by decide, by decide⟩
  have hb : Clean b.entries := ⟨by decide, by decide⟩
  have hne : a.entries ≠ b.entries := by decide
  exact ⟨hext, ha, hb, hne, mt (render_eq_iff hext ha hb).mp hne⟩

-- An empty line, however, looks like no line at all.
example : Settings.render {} (.ofList [("alpha", [""])]) =
    Settings.render {} (.ofList [("alpha", [])]) := by decide +kernel

end Settings

end CommandPack
