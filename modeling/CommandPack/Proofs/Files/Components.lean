import CommandPack.Proofs.Files.Locations
import Mathlib.Data.List.Basic

namespace CommandPack

namespace FileTree

/-- A segment that leads to another directory: a name or `..`. -/
def Moves (segment : String) : Prop := segment ≠ "" ∧ segment ≠ "."

instance (segment : String) : Decidable (Moves segment) :=
  inferInstanceAs (Decidable (_ ∧ _))

def moves (segments : List String) : List String := segments.filter Moves

def components (path : String) : List String := moves (pathSegments path)

variable {t : FileTree} {here loc : Location} {segments : List String} {path : String}

theorem moves_cons (s : String) (segments : List String) :
    moves (s :: segments) = if Moves s then s :: moves segments else moves segments := by
  rw [moves, List.filter_cons]
  simp only [decide_eq_true_eq]
  rfl

theorem moves_append (as bs : List String) : moves (as ++ bs) = moves as ++ moves bs :=
  List.filter_append ..

theorem moves_blank {segments : List String} (h : ∀ s ∈ segments, s = "") : moves segments = [] :=
  List.filter_eq_nil_iff.mpr fun s hs => by simp [Moves, h s hs]

theorem eq_of_not_moves {segment : String} (h : ¬ Moves segment) : segment = "" ∨ segment = "." := by
  rwa [Moves, not_and_or, not_not, not_not] at h

/-- Segments that do not move are passed over. -/
theorem foldlM_step_moves (t : FileTree) (here : Location) (segments : List String) :
    segments.foldlM t.step here = (moves segments).foldlM t.step here := by
  induction segments generalizing here with
  | nil => rfl
  | cons s segments ih =>
    rw [moves_cons, foldlM_step_cons]
    by_cases hs : Moves s
    · rw [if_pos hs, foldlM_step_cons]
      cases t.step here s with
      | error fault => rfl
      | ok next => exact ih next
    · have hstep : t.step here s = .ok here := if_pos (eq_of_not_moves hs)
      rw [if_neg hs, hstep]
      exact ih here

theorem foldl_advance_moves (here : Location) (segments : List String) :
    segments.foldl advance here = (moves segments).foldl advance here := by
  induction segments generalizing here with
  | nil => rfl
  | cons s segments ih =>
    rw [moves_cons, List.foldl_cons]
    by_cases hs : Moves s
    · rw [if_pos hs]
      exact ih _
    · have hadvance : advance here s = here := if_pos (eq_of_not_moves hs)
      rw [if_neg hs, hadvance]
      exact ih here

/-- A way goes through the components of a path only. -/
theorem walk_moves (t : FileTree) (segments : List String) :
    t.walk segments = t.walk (moves segments) := t.foldlM_step_moves [] segments

theorem resolve_moves (segments : List String) : resolve segments = resolve (moves segments) :=
  foldl_advance_moves [] segments

/-- What a path names is decided by its components. -/
theorem locationOf_eq_resolve (path : String) : locationOf path = resolve (components path) :=
  resolve_moves _

/-! ## Ends of paths -/

/-- How a path ends: nothing but slashes, or a last segment with perhaps slashes behind it. -/
theorem leafOf_cases {path : String} (hne : path ≠ "") :
    (leafOf path = .root ∧ components path = []) ∨
    ∃ parents last blanks slash, pathSegments path = parents ++ last :: blanks ∧
      (∀ s ∈ blanks, s = "") ∧ last ≠ "" ∧
      leafOf path =
        if last = "." ∨ last = ".." then .directory parents else .name parents last slash := by
  have hsplit := List.takeWhile_append_dropWhile (p := (· = "")) (l := (pathSegments path).reverse)
  have hblank : ∀ s ∈ (pathSegments path).reverse.takeWhile (· = ""), s = "" :=
    fun s hs => by simpa using List.mem_takeWhile_imp hs
  rw [leafOf, if_neg hne]
  cases hdrop : (pathSegments path).reverse.dropWhile (· = "") with
  | nil =>
    rw [hdrop, List.append_nil] at hsplit
    refine .inl ⟨by simp only [hdrop], moves_blank fun s hs => hblank s ?_⟩
    rw [hsplit]
    exact List.mem_reverse.mpr hs
  | cons last above =>
    refine .inr ⟨above.reverse, last, ((pathSegments path).reverse.takeWhile (· = "")).reverse,
      _, ?_, fun s hs => hblank s (List.mem_reverse.mp hs), ?_, by simp only [hdrop]; rfl⟩
    · rw [hdrop] at hsplit
      have hreverse := congrArg List.reverse hsplit
      rw [List.reverse_append, List.reverse_cons, List.reverse_reverse, List.append_assoc] at hreverse
      exact hreverse.symm
    · have hhead := List.head_dropWhile_not (p := fun s => decide (s = ""))
        (l := (pathSegments path).reverse) (by rw [hdrop]; exact List.cons_ne_nil _ _)
      simpa [hdrop] using hhead

/-- A path that ends in a name has that name as its last component. -/
theorem components_of_leafOf {parents : List String} {last : String} {slash : Bool}
    (h : leafOf path = .name parents last slash) :
    IsName last ∧ components path = moves parents ++ [last] := by
  have hne : path ≠ "" := by
    rintro rfl
    cases h
  rcases leafOf_cases hne with ⟨hleaf, -⟩ | ⟨front, s, blanks, _, hpath, hblanks, hs, hleaf⟩
  · cases hleaf.symm.trans h
  · rw [hleaf] at h
    split at h
    · cases h
    · rename_i hdots
      obtain ⟨hdot, hup⟩ := not_or.mp hdots
      obtain ⟨rfl, rfl, -⟩ := Leaf.name.inj h
      refine ⟨⟨hs, hdot, hup⟩, ?_⟩
      rw [components, hpath, moves_append, moves_cons, moves_blank hblanks, if_pos ⟨hs, hdot⟩]

/-! ## Directories above a path -/

open FilePath (lead isSkipped reversedBody shorterBodies ofBody)

/-- Segments behind a leading dot, each with its slash in front. -/
theorem pathSegments_dot {pieces : List (List Char)} (h : ∀ s ∈ pieces, '/' ∉ s) :
    (Text.segments '/' (['.'] ++ Text.joinSegments '/' ([] :: pieces))).map String.ofList =
      ["."] ++ pieces.map String.ofList := by
  cases pieces with
  | nil => rfl
  | cons s pieces =>
    rw [Text.joinSegments_cons_cons, List.nil_append, Text.segments_append_sep,
      Text.segments_joinSegments h (List.cons_ne_nil s pieces), List.map_append]
    rfl

/-- The segments of a path that was put together again, behind its start. -/
theorem exists_pathSegments_ofBody {chars : List Char} {body : List (List Char)}
    (h : body <:+ reversedBody chars) :
    ∃ front rest, pathSegments (ofBody (lead chars) body) = front ++ rest.map String.ofList ∧
      moves front = [] ∧ (body.reverse = rest ∨ body.reverse = [] :: rest) := by
  have hstart : body.reverse <+: Text.segments '/' (chars.drop (lead chars).length) :=
    List.reverse_suffix.mp (by rwa [List.reverse_reverse])
  have hslash : ∀ s ∈ body.reverse, '/' ∉ s :=
    fun s hs => Text.sep_notMem_segment (hstart.subset hs)
  rw [pathSegments, ofBody, String.toList_ofList]
  generalize body.reverse = pieces at hstart hslash
  unfold lead at hstart ⊢
  split
  · -- From the root: an empty segment stands in front.
    rcases eq_or_ne pieces [] with rfl | hne
    · exact ⟨["", ""], [], rfl, rfl, .inl rfl⟩
    · refine ⟨[""], pieces, ?_, rfl, .inl rfl⟩
      rw [List.singleton_append, Text.segments, if_pos rfl, Text.segments_joinSegments hslash hne]
      rfl
  · rcases List.prefix_cons_iff.mp hstart with rfl | ⟨rest, rfl, hrest⟩
    · exact ⟨["."], [], rfl, rfl, .inl rfl⟩
    · exact ⟨["."], rest, pathSegments_dot fun s hs => hslash s (List.mem_cons_of_mem _ hs), rfl,
        .inr rfl⟩
  · rcases List.prefix_cons_iff.mp hstart with rfl | ⟨rest, rfl, hrest⟩
    · exact ⟨["."], [], rfl, rfl, .inl rfl⟩
    · exact ⟨["."], rest, pathSegments_dot fun s hs => hslash s (List.mem_cons_of_mem _ hs), rfl,
        .inr rfl⟩
  · rcases eq_or_ne pieces [] with rfl | hne
    · exact ⟨[""], [], rfl, rfl, .inl rfl⟩
    · refine ⟨[], pieces, ?_, rfl, .inl rfl⟩
      rw [List.nil_append, Text.segments_joinSegments hslash hne]
      rfl

theorem isSkipped_iff {s : List Char} : isSkipped s = true ↔ ¬ Moves (String.ofList s) := by
  have hdot : String.ofList s = String.ofList ['.'] ↔ s = ['.'] := String.ofList_inj
  rw [isSkipped, Moves, Ne, Ne, String.ofList_eq_empty_iff, hdot, Bool.or_eq_true,
    List.isEmpty_iff, beq_iff_eq, not_and_or, not_not, not_not]

def stepsOf (body : List (List Char)) : List String := moves (body.reverse.map String.ofList)

theorem stepsOf_cons (s : List Char) (body : List (List Char)) :
    stepsOf (s :: body) =
      if isSkipped s then stepsOf body else stepsOf body ++ [String.ofList s] := by
  rw [stepsOf, List.reverse_cons, List.map_append, moves_append, List.map_singleton, moves_cons]
  by_cases hs : Moves (String.ofList s)
  · rw [if_pos hs, if_neg (by rwa [isSkipped_iff, not_not])]
    rfl
  · rw [if_neg hs, if_pos (isSkipped_iff.mpr hs)]
    exact List.append_nil _

theorem stepsOf_dropWhile (body : List (List Char)) :
    stepsOf (body.dropWhile isSkipped) = stepsOf body := by
  induction body with
  | nil => rfl
  | cons s body ih =>
    rw [List.dropWhile_cons, stepsOf_cons]
    split
    · exact ih
    · rename_i hs
      rw [stepsOf_cons, if_neg hs]

variable {chars : List Char} {body : List (List Char)}

/-- A path that was put together again has the components of its body. -/
theorem components_ofBody (h : body <:+ reversedBody chars) :
    components (ofBody (lead chars) body) = stepsOf body := by
  obtain ⟨front, rest, hsegments, hfront, hbody⟩ := exists_pathSegments_ofBody h
  rw [components, hsegments, moves_append, hfront, List.nil_append, stepsOf]
  rcases hbody with hbody | hbody <;> rw [hbody]
  rw [List.map_cons, moves_cons, if_neg (by decide)]

theorem lead_append_drop (chars : List Char) :
    lead chars ++ chars.drop (lead chars).length = chars := by
  unfold lead
  split <;> rfl

theorem ofBody_reversedBody (path : String) :
    ofBody (lead path.toList) (reversedBody path.toList) = path := by
  rw [← String.toList_inj, ofBody, String.toList_ofList, reversedBody, List.reverse_reverse,
    Text.joinSegments_segments, lead_append_drop]

theorem components_eq_stepsOf (path : String) :
    components path = stepsOf (reversedBody path.toList) := by
  rw [← components_ofBody (List.suffix_refl _), ofBody_reversedBody]

/-- A path above another one is the front of its text. -/
theorem ofBody_of_suffix {body' : List (List Char)} (lead : List Char) (h : body' <:+ body) :
    (ofBody lead body').toList <+: (ofBody lead body).toList := by
  rw [ofBody, ofBody, String.toList_ofList, String.toList_ofList, List.prefix_append_right_inj]
  exact Text.joinSegments_front (List.reverse_prefix.mpr h)

/-- The last segment of a path is a component, if the path has any. -/
def Tight (path : String) : Prop :=
  components path = [] ∨ ∃ front last, pathSegments path = front ++ [last] ∧ Moves last

/-- A path ends in a component if its body does. -/
theorem tight_ofBody (h : body <:+ reversedBody chars) (hhead : ∀ s ∈ body.head?, isSkipped s = false) :
    Tight (ofBody (lead chars) body) := by
  obtain ⟨front, rest, hsegments, hfront, hbody⟩ := exists_pathSegments_ofBody h
  cases body with
  | nil => exact .inl (components_ofBody h)
  | cons s body =>
    have hs : Moves (String.ofList s) := by
      by_contra hs
      have hskip := hhead s rfl
      rw [isSkipped_iff.mpr hs] at hskip
      cases hskip
    have hlast : rest.getLast? = some s := by
      have hreverse : (s :: body).reverse.getLast? = some s := by
        rw [List.getLast?_reverse]
        rfl
      rcases hbody with hbody | hbody <;> rw [hbody] at hreverse
      · exact hreverse
      · cases rest with
        | nil =>
          obtain rfl := Option.some.inj hreverse
          exact absurd hs (by decide)
        | cons r rest => exact hreverse
    obtain ⟨before, rfl⟩ := List.getLast?_eq_some_iff.mp hlast
    refine .inr ⟨front ++ before.map String.ofList, String.ofList s, ?_, hs⟩
    rw [hsegments, List.map_append, List.append_assoc]
    rfl

/-- A path with the directories above it, the nearest first. -/
inductive Ladder : List String → Prop
  | top {path : String} (hne : path ≠ "") (hsteps : (components path).dropLast = []) :
    Ladder [path]
  | rung {path above : String} {rest : List String} (hne : path ≠ "")
    (hsteps : components above = (components path).dropLast)
    (htext : above.toList <+: path.toList) (htight : Tight above)
    (hrest : Ladder (above :: rest)) : Ladder (path :: above :: rest)

theorem shorterBodies_eq_nil_iff : shorterBodies body = [] ↔ stepsOf body = [] := by
  induction body with
  | nil => exact iff_of_true rfl rfl
  | cons s body ih =>
    rw [stepsOf_cons, shorterBodies]
    split
    · exact ih
    · exact iff_of_false (List.cons_ne_nil _ _)
        (List.append_ne_nil_of_right_ne_nil _ (List.cons_ne_nil _ _))

theorem head_dropWhile_isSkipped (body : List (List Char)) :
    ∀ s ∈ (body.dropWhile isSkipped).head?, isSkipped s = false := by
  intro s hs
  have hhead := List.head?_dropWhile_not isSkipped body
  rw [Option.mem_def.mp hs] at hhead
  simpa using hhead

theorem ladder_of_body (h : body <:+ reversedBody chars) {path : String} (hne : path ≠ "")
    (hsteps : components path = stepsOf body)
    (htext : (ofBody (lead chars) (body.dropWhile isSkipped)).toList <+: path.toList) :
    Ladder (path :: ((shorterBodies body).map (ofBody (lead chars))).filter (· ≠ "")) := by
  induction body generalizing path with
  | nil => exact .top hne (by rw [hsteps]; rfl)
  | cons s body ih =>
    have hbody : body <:+ reversedBody chars := (List.suffix_cons s body).trans h
    rw [stepsOf_cons] at hsteps
    rw [List.dropWhile_cons] at htext
    rw [shorterBodies]
    split at hsteps
    · rename_i hs
      rw [if_pos hs] at htext ⊢
      exact ih hbody hne hsteps htext
    · rename_i hs
      rw [if_neg hs] at htext ⊢
      have habove : components (ofBody (lead chars) (body.dropWhile isSkipped)) = stepsOf body := by
        rw [components_ofBody ((List.dropWhile_suffix _).trans hbody), stepsOf_dropWhile]
      rw [List.map_cons]
      by_cases hempty : ofBody (lead chars) (body.dropWhile isSkipped) = ""
      · -- The empty path is left out: nothing stands above a path with one component.
        have hnone : stepsOf body = [] := by
          rw [← habove, hempty]
          rfl
        rw [List.filter_cons_of_neg (by simpa using hempty), shorterBodies_eq_nil_iff.mpr hnone]
        exact .top hne (by rw [hsteps, hnone]; rfl)
      · rw [List.filter_cons_of_pos (by simpa using hempty)]
        refine .rung hne ?_ ?_ ?_ (ih hbody hempty habove (List.prefix_refl _))
        · rw [habove, hsteps, List.dropLast_concat]
        · exact (ofBody_of_suffix _ ((List.dropWhile_suffix _).trans (List.suffix_cons s body))).trans
            htext
        · exact tight_ofBody ((List.dropWhile_suffix _).trans hbody)
            (head_dropWhile_isSkipped body)

/-- A path and its ancestors make a ladder. -/
theorem ladder_ancestors {path : String} (hne : path ≠ "") :
    Ladder (path :: FilePath.ancestors path) := by
  refine ladder_of_body (List.suffix_refl _) hne (components_eq_stepsOf path) ?_
  have htext := ofBody_of_suffix (lead path.toList)
    (List.dropWhile_suffix isSkipped (l := reversedBody path.toList))
  rwa [ofBody_reversedBody] at htext

/-- The first of the shorter bodies lacks the last component. -/
theorem shorterBodies_eq_cons {shorter : List (List Char)} {more : List (List (List Char))}
    (h : shorterBodies body = shorter :: more) :
    shorter <:+ body ∧ stepsOf shorter = (stepsOf body).dropLast ∧
      ∀ s ∈ shorter.head?, isSkipped s = false := by
  induction body with
  | nil => cases h
  | cons s body ih =>
    rw [shorterBodies] at h
    rw [stepsOf_cons]
    split at h
    · rename_i hs
      rw [if_pos hs]
      obtain ⟨hsuffix, hsteps, hhead⟩ := ih h
      exact ⟨hsuffix.trans (List.suffix_cons s body), hsteps, hhead⟩
    · rename_i hs
      rw [if_neg hs, List.dropLast_concat]
      obtain rfl := (List.cons.inj h).1
      exact ⟨(List.dropWhile_suffix _).trans (List.suffix_cons s body), stepsOf_dropWhile body,
        head_dropWhile_isSkipped body⟩

/-- The directory that holds what a path names. -/
theorem components_of_parent? {path above : String} (h : FilePath.parent? path = some above) :
    components above = (components path).dropLast ∧ Tight above := by
  rw [FilePath.parent?] at h
  split at h
  · rename_i hbodies
    obtain rfl := Option.some.inj h
    obtain ⟨hsuffix, hsteps, hhead⟩ := shorterBodies_eq_cons hbodies
    rw [components_ofBody hsuffix, components_eq_stepsOf path]
    exact ⟨hsteps, tight_ofBody hsuffix hhead⟩
  · rename_i hbodies
    split at h
    · obtain rfl := Option.some.inj h
      have hnone : components path = [] := by
        rw [components_eq_stepsOf]
        exact shorterBodies_eq_nil_iff.mp hbodies
      rw [hnone]
      exact ⟨rfl, .inl rfl⟩
    · cases h

/-- The parent of a path is the front of its text. -/
theorem prefix_of_parent? {path above : String} (h : FilePath.parent? path = some above) :
    above.toList <+: path.toList := by
  rw [FilePath.parent?] at h
  split at h
  · rename_i hbodies
    obtain rfl := Option.some.inj h
    have htext := ofBody_of_suffix (lead path.toList) (shorterBodies_eq_cons hbodies).1
    rwa [ofBody_reversedBody] at htext
  · split at h
    · obtain rfl := Option.some.inj h
      exact List.nil_prefix
    · cases h

theorem exists_parent? {path : String} (h : components path ≠ []) :
    ∃ above, FilePath.parent? path = some above := by
  rw [components_eq_stepsOf] at h
  rw [FilePath.parent?]
  cases hbodies : shorterBodies (reversedBody path.toList) with
  | nil => exact absurd (shorterBodies_eq_nil_iff.mp hbodies) h
  | cons shorter more => exact ⟨_, rfl⟩

end FileTree
end CommandPack
