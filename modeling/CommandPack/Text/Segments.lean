namespace CommandPack.Text

/-- The pieces between separators. There is always one more piece than there are separators. -/
def segments (sep : Char) : List Char → List (List Char)
  | [] => [[]]
  | c :: cs =>
    if c = sep then [] :: segments sep cs
    else match segments sep cs with
      | [] => [[c]]
      | s :: ss => (c :: s) :: ss

def joinSegments (sep : Char) : List (List Char) → List Char
  | [] => []
  | [s] => s
  | s :: ss => s ++ sep :: joinSegments sep ss

theorem segments_ne_nil (sep : Char) (cs : List Char) : segments sep cs ≠ [] := by
  cases cs with
  | nil => simp [segments]
  | cons c cs =>
    unfold segments
    split
    · simp
    · split <;> simp

/-- Joining the pieces with the separator gives the text back. -/
theorem joinSegments_segments (sep : Char) (cs : List Char) :
    joinSegments sep (segments sep cs) = cs := by
  induction cs with
  | nil => rfl
  | cons c cs ih =>
    have hne := segments_ne_nil sep cs
    unfold segments
    split
    · rename_i hc
      subst hc
      cases h : segments c cs with
      | nil => exact absurd h hne
      | cons s ss => rw [h] at ih; simp [joinSegments, ih]
    · cases h : segments sep cs with
      | nil => exact absurd h hne
      | cons s ss =>
        rw [h] at ih
        cases ss with
        | nil => simpa [joinSegments] using ih
        | cons t ts => simpa [joinSegments] using ih

/-- No piece holds the separator. -/
theorem sep_notMem_segment {sep : Char} {cs s : List Char} (h : s ∈ segments sep cs) :
    sep ∉ s := by
  induction cs generalizing s with
  | nil => simp [segments] at h; simp [h]
  | cons c cs ih =>
    unfold segments at h
    split at h
    · rcases List.mem_cons.mp h with rfl | h
      · simp
      · exact ih h
    · rename_i hc
      cases hs : segments sep cs with
      | nil => exact absurd hs (segments_ne_nil sep cs)
      | cons t ts =>
        rw [hs] at h ih
        rcases List.mem_cons.mp h with rfl | h
        · simpa [Ne.symm hc] using ih (List.mem_cons_self)
        · exact ih (List.mem_cons_of_mem _ h)

/-- The characters of the pieces are those of the text, without the separators. -/
theorem flatten_segments (sep : Char) (cs : List Char) :
    (segments sep cs).flatten = cs.filter (· ≠ sep) := by
  induction cs with
  | nil => rfl
  | cons c cs ih =>
    rw [segments, List.filter_cons]
    split
    · rename_i hc
      simpa [hc] using ih
    · rename_i hc
      cases h : segments sep cs with
      | nil => exact absurd h (segments_ne_nil sep cs)
      | cons s ss =>
        rw [h] at ih
        simpa [hc] using ih

/-- A character that is no separator goes to the front of the first piece. -/
theorem segments_cons_of_ne {sep c : Char} (h : c ≠ sep) (cs : List Char) :
    ∃ s ss, segments sep cs = s :: ss ∧ segments sep (c :: cs) = (c :: s) :: ss := by
  rw [segments, if_neg h]
  cases hs : segments sep cs with
  | nil => exact absurd hs (segments_ne_nil sep cs)
  | cons s ss => exact ⟨s, ss, rfl, rfl⟩

theorem segments_of_notMem {sep : Char} {cs : List Char} (h : sep ∉ cs) :
    segments sep cs = [cs] := by
  induction cs with
  | nil => rfl
  | cons c cs ih =>
    have hc : c ≠ sep := fun hc => h (hc ▸ List.mem_cons_self)
    rw [segments, if_neg hc, ih fun hcs => h (List.mem_cons_of_mem _ hcs)]

/-- A separator in the middle keeps the pieces before it and behind it apart. -/
theorem segments_append_sep (sep : Char) (as bs : List Char) :
    segments sep (as ++ sep :: bs) = segments sep as ++ segments sep bs := by
  induction as with
  | nil => simp [segments]
  | cons a as ih =>
    rw [List.cons_append, segments, segments, ih]
    split
    · rfl
    · cases h : segments sep as with
      | nil => exact absurd h (segments_ne_nil sep as)
      | cons s ss => rfl

/-- Two texts are put together at a separator in one way only, if the first has none. -/
theorem append_sep_injective {sep : Char} {as as' bs bs' : List Char} (ha : sep ∉ as)
    (ha' : sep ∉ as') (h : as ++ sep :: bs = as' ++ sep :: bs') : as = as' ∧ bs = bs' := by
  have hsegments := congrArg (segments sep) h
  rw [segments_append_sep, segments_append_sep, segments_of_notMem ha,
    segments_of_notMem ha'] at hsegments
  obtain rfl := (List.cons.inj hsegments).1
  exact ⟨rfl, (List.cons.inj (List.append_cancel_left h)).2⟩

/-- Pieces without the separator can be told from their text, if there are any. -/
theorem segments_intercalate {sep : Char} {pieces : List (List Char)}
    (h : ∀ s ∈ pieces, sep ∉ s) (hne : pieces ≠ []) :
    segments sep ([sep].intercalate pieces) = pieces := by
  induction pieces with
  | nil => exact absurd rfl hne
  | cons s pieces ih =>
    obtain ⟨hs, hrest⟩ := List.forall_mem_cons.mp h
    cases pieces with
    | nil => simpa using segments_of_notMem hs
    | cons t pieces =>
      rw [List.intercalate_cons_cons, List.append_assoc, List.singleton_append,
        segments_append_sep, segments_of_notMem hs, ih hrest (List.cons_ne_nil t pieces),
        List.singleton_append]

/-- Text without a separator is added to the last piece. -/
theorem segments_append_of_notMem {sep : Char} {bs : List Char} (h : sep ∉ bs) (as : List Char) :
    ∃ front last, segments sep as = front ++ [last] ∧
      segments sep (as ++ bs) = front ++ [last ++ bs] := by
  induction as with
  | nil => exact ⟨[], [], rfl, segments_of_notMem h⟩
  | cons a as ih =>
    obtain ⟨front, last, has, hbs⟩ := ih
    rw [List.cons_append, segments, segments, has, hbs]
    split
    · exact ⟨[] :: front, last, rfl, rfl⟩
    · cases front with
      | nil => exact ⟨[], a :: last, rfl, rfl⟩
      | cons s front => exact ⟨(a :: s) :: front, last, rfl, rfl⟩

theorem joinSegments_cons_cons (sep : Char) (s t : List Char) (pieces : List (List Char)) :
    joinSegments sep (s :: t :: pieces) = s ++ sep :: joinSegments sep (t :: pieces) := rfl

/-- Pieces without the separator are found again in their text. -/
theorem segments_joinSegments {sep : Char} {pieces : List (List Char)}
    (h : ∀ s ∈ pieces, sep ∉ s) (hne : pieces ≠ []) :
    segments sep (joinSegments sep pieces) = pieces := by
  induction pieces with
  | nil => exact absurd rfl hne
  | cons s pieces ih =>
    obtain ⟨hs, hrest⟩ := List.forall_mem_cons.mp h
    cases pieces with
    | nil => exact segments_of_notMem hs
    | cons t pieces =>
      rw [joinSegments_cons_cons, segments_append_sep, segments_of_notMem hs,
        ih hrest (List.cons_ne_nil t pieces), List.singleton_append]

/-- The first pieces make the front of the text. -/
theorem joinSegments_front {sep : Char} {front pieces : List (List Char)} (h : front <+: pieces) :
    joinSegments sep front <+: joinSegments sep pieces := by
  obtain ⟨rest, rfl⟩ := h
  induction front with
  | nil => exact List.nil_prefix
  | cons s front ih =>
    cases front with
    | nil =>
      cases rest with
      | nil => exact List.prefix_refl _
      | cons t rest => exact List.prefix_append s _
    | cons t front =>
      rw [List.cons_append, List.cons_append, joinSegments_cons_cons, joinSegments_cons_cons]
      exact (List.prefix_append_right_inj s).mpr (List.cons_prefix_cons.mpr ⟨rfl, ih⟩)

end CommandPack.Text
