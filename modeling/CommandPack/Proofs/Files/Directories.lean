import CommandPack.Proofs.Files.Components
import Mathlib.Data.List.Infix

namespace CommandPack.FileTree

variable {t t' : FileTree} {here loc : Location} {segments : List String} {path : String}

def way (t : FileTree) (path : String) : Except FileFault Location := do
  checkPath path
  t.walk (components path)

theorem way_of_checkPath {path : String} (h : checkPath path = .ok ()) (t : FileTree) :
    t.way path = t.walk (components path) := by
  rw [way, h]
  rfl

theorem isDirectory_iff {t : FileTree} {path : String} :
    t.isDirectory path = true ↔ path ≠ "" ∧ ∃ loc, t.way path = .ok loc := by
  have hway :
      (do checkPath path; t.walk (pathSegments path) : Except FileFault Location) = t.way path := by
    rw [walk_moves]
    rfl
  rw [isDirectory, hway, Bool.and_eq_true, decide_eq_true_eq]
  cases t.way path with
  | error fault => simp [Except.isOk, Except.toBool]
  | ok loc => simp [Except.isOk, Except.toBool]

theorem checkPath_eq_error {path : String} {fault : FileFault} (h : checkPath path = .error fault) :
    fault = .zeroCharacter ∨ fault = .nameTooLong := by
  unfold checkPath at h
  split at h
  · exact .inl (Except.error.inj h).symm
  · split at h
    · exact .inr (Except.error.inj h).symm
    · cases h

inductive Obstacle (t : FileTree) (here : Location) (segment : String) : FileFault → Prop
  | long (h : maxName < segment.utf8ByteSize) : Obstacle t here segment .nameTooLong
  | missing (h : t.node? (here ++ [segment]) = none) : Obstacle t here segment .missing
  | file {content : String} (h : t.node? (here ++ [segment]) = some (.file content)) :
    Obstacle t here segment .notDirectory

/-- A step fails only at a name, which is too long or is not that of a directory. -/
theorem step_eq_error {segment : String} {fault : FileFault}
    (h : t.step here segment = .error fault) :
    IsName segment ∧ t.Obstacle here segment fault := by
  unfold step at h
  split at h
  · cases h
  · rename_i hskip
    obtain ⟨hempty, hdot⟩ := not_or.mp hskip
    split at h
    · cases h
    · rename_i hup
      refine ⟨⟨hempty, hdot, hup⟩, ?_⟩
      split at h
      · rename_i hlong
        exact Except.error.inj h ▸ .long hlong
      · split at h
        · rename_i hnode
          exact Except.error.inj h ▸ .missing hnode
        · rename_i content hnode
          exact Except.error.inj h ▸ .file hnode
        · cases h

theorem foldlM_step_append (as bs : List String) :
    (as ++ bs).foldlM t.step here =
      match as.foldlM t.step here with
      | .error fault => .error fault
      | .ok next => bs.foldlM t.step next := by
  rw [List.foldlM_append]
  cases as.foldlM t.step here <;> rfl

theorem walk_append (t : FileTree) (as bs : List String) :
    t.walk (as ++ bs) =
      match t.walk as with
      | .error fault => .error fault
      | .ok next => bs.foldlM t.step next :=
  foldlM_step_append as bs

/-- A way that cannot be gone ends at the first step that cannot be made. -/
theorem walk_eq_error {segments : List String} {fault : FileFault}
    (h : t.walk segments = .error fault) :
    ∃ front segment, front ++ [segment] <+: segments ∧ t.walk front = .ok (resolve front) ∧
      IsName segment ∧ t.Obstacle (resolve front) segment fault := by
  induction segments using List.reverseRecOn with
  | nil => cases h
  | append_singleton segments segment ih =>
    rw [walk_append] at h
    cases hfront : t.walk segments with
    | error fault' =>
      rw [hfront] at h
      obtain rfl := Except.error.inj h
      obtain ⟨front, s, hstart, hobstacle⟩ := ih hfront
      exact ⟨front, s, hstart.trans (List.prefix_append _ _), hobstacle⟩
    | ok next =>
      simp only [hfront, foldlM_step_cons] at h
      obtain rfl := eq_resolve_of_walk hfront
      cases hstep : t.step (resolve segments) segment with
      | error fault' =>
        simp only [hstep] at h
        obtain rfl := Except.error.inj h
        exact ⟨segments, segment, List.prefix_refl _, hfront, step_eq_error hstep⟩
      | ok there =>
        simp only [hstep] at h
        cases h

/-! ## One directory -/

/-- What comes of making one directory. -/
inductive Making (t : FileTree) (path : String) : Except FileFault FileTree → Prop
  /-- The directory is there. -/
  | there {loc : Location} (hway : t.way path = .ok loc) : Making t path (.error .exists)
  /-- The way cannot be gone. If it lacks just the last name, the path has a dot behind the name. -/
  | blocked {fault : FileFault} (hway : t.way path = .error fault)
    (hdot : fault = .missing → Tight path → ∃ f, t.walk (components path).dropLast = .error f) :
    Making t path (.error fault)
  /-- A file is there. -/
  | taken {above : Location} (hway : t.way path = .error .notDirectory)
    (habove : t.walk (components path).dropLast = .ok above) : Making t path (.error .exists)
  /-- The directory is new. -/
  | made {above : Location} (hway : t.way path = .error .missing)
    (habove : t.walk (components path).dropLast = .ok above)
    (hnew : t.node? (locationOf path) = none)
    (hafter : (t.put (locationOf path) .directory).way path = .ok (locationOf path)) :
    Making t path (.ok (t.put (locationOf path) .directory))

/-- A step to a name. -/
theorem step_name {segment : String} (h : IsName segment) (t : FileTree) (here : Location) :
    t.step here segment =
      if maxName < segment.utf8ByteSize then .error .nameTooLong
      else match t.node? (here ++ [segment]) with
        | none => .error .missing
        | some (.file _) => .error .notDirectory
        | some .directory => .ok (here ++ [segment]) :=
  (if_neg (not_or.mpr ⟨h.1, h.2.1⟩)).trans (if_neg h.2.2)

section Making

variable {parents : List String} {last : String}

/-- Making the directory of a name in a directory that is there. -/
theorem makeDirectory_of_walk (hcheck : checkPath path = .ok ()) {slash : Bool}
    (hleaf : leafOf path = .name parents last slash) (hwalk : t.walk parents = .ok (resolve parents)) :
    t.makeDirectory path =
      if maxName < last.utf8ByteSize then .error .nameTooLong
      else match t.node? (locationOf path) with
        | some _ => .error .exists
        | none => .ok (t.put (locationOf path) .directory) := by
  have hlocate : t.locate parents last =
      if maxName < last.utf8ByteSize then .error .nameTooLong else .ok (locationOf path) := by
    rw [locate, hwalk, locationOf_of_leafOf hleaf]
    rfl
  simp only [makeDirectory, bind, Except.bind, hcheck, hleaf, hlocate]
  by_cases hlong : maxName < last.utf8ByteSize
  · simp only [if_pos hlong]
  · cases hnode : t.node? (locationOf path) <;> simp only [if_neg hlong, hnode]

/-- A path that ends in a name makes the directory of that name. -/
theorem making_name (hcheck : checkPath path = .ok ()) {slash : Bool}
    (hleaf : leafOf path = .name parents last slash) : t.Making path (t.makeDirectory path) := by
  obtain ⟨hname, hsteps⟩ := components_of_leafOf hleaf
  have habove : (components path).dropLast = moves parents := by
    rw [hsteps, List.dropLast_concat]
  have hway (u : FileTree) (hwalk : u.walk parents = .ok (resolve parents)) :
      u.way path = u.step (resolve parents) last := by
    rw [way_of_checkPath hcheck, hsteps, walk_append, ← walk_moves, hwalk]
    simp only [foldlM_step_cons]
    cases u.step (resolve parents) last <;> rfl
  have hlocation : locationOf path = resolve parents ++ [last] := locationOf_of_leafOf hleaf
  have hroot : locationOf path ≠ [] := by
    rw [hlocation]
    exact List.append_ne_nil_of_right_ne_nil _ (List.cons_ne_nil _ _)
  cases hwalk : t.walk parents with
  | error fault =>
    have hfault : t.way path = .error fault := by
      rw [way_of_checkPath hcheck, hsteps, walk_append, ← walk_moves, hwalk]
    have hmade : t.makeDirectory path = .error fault := by
      simp only [makeDirectory, bind, Except.bind, hcheck, hleaf, locate, hwalk]
    rw [hmade]
    exact .blocked hfault fun _ _ => ⟨fault, by rw [habove, ← walk_moves, hwalk]⟩
  | ok here =>
    obtain rfl := eq_resolve_of_walk hwalk
    have hthere : t.walk (components path).dropLast = .ok (resolve parents) := by
      rw [habove, ← walk_moves, hwalk]
    have hstep := hway t hwalk
    rw [step_name hname, ← hlocation] at hstep
    rw [makeDirectory_of_walk hcheck hleaf hwalk]
    split
    · rename_i hlong
      rw [if_pos hlong] at hstep
      exact .blocked hstep fun hmissing => absurd hmissing (by decide)
    · rename_i hshort
      rw [if_neg hshort] at hstep
      cases hnode : t.node? (locationOf path) with
      | none =>
        rw [hnode] at hstep
        refine .made hstep hthere hnode ?_
        -- The new directory lies beside the way to it, so that way is still open.
        have hkeep : t.KeepsDirectories (t.put (locationOf path) .directory) := by
          intro loc hloc
          rw [node?_put hroot]
          split
          · rfl
          · exact hloc
        have hopen : (t.put (locationOf path) .directory).walk parents = .ok (resolve parents) :=
          hkeep.foldlM hwalk
        rw [hway _ hopen, step_name hname, ← hlocation, if_neg hshort, node?_put hroot, if_pos rfl]
      | some n =>
        rw [hnode] at hstep
        cases n with
        | directory => exact .there hstep
        | file content => exact .taken hstep hthere

/-- A path with a dot behind its last component is not tight. -/
theorem not_tight_dot {blanks : List String} (hpath : pathSegments path = parents ++ "." :: blanks)
    (hblanks : ∀ s ∈ blanks, s = "") (hsteps : components path ≠ []) : ¬ Tight path := by
  rintro (hnone | ⟨front, s, hfront, hs⟩)
  · exact hsteps hnone
  · have hlast := congrArg List.getLast? (hpath.symm.trans hfront)
    rw [List.getLast?_append_cons, List.getLast?_concat] at hlast
    rcases List.mem_cons.mp (List.mem_of_getLast? hlast) with rfl | hmem
    · exact hs.2 rfl
    · exact hs.1 (hblanks s hmem)

/-- Behind a dot or two there is nothing to make. -/
theorem making_dots (hcheck : checkPath path = .ok ()) {blanks : List String}
    (hleaf : leafOf path = .directory parents) (hdots : last = "." ∨ last = "..")
    (hpath : pathSegments path = parents ++ last :: blanks) (hblanks : ∀ s ∈ blanks, s = "") :
    t.Making path (t.makeDirectory path) := by
  have hmake : t.makeDirectory path = t.walk parents >>= fun _ => .error .exists := by
    simp only [makeDirectory, hcheck, hleaf]
    rfl
  have hway := way_of_checkPath hcheck t
  rw [hmake, walk_moves]
  rcases hdots with rfl | rfl
  · have hsteps : components path = moves parents := by
      rw [components, hpath, moves_append, moves_cons, moves_blank hblanks, if_neg (by decide),
        List.append_nil]
    rw [hsteps] at hway
    cases hwalk : t.walk (moves parents) with
    | error fault =>
      refine .blocked (hway.trans hwalk) fun _ htight => absurd htight ?_
      refine not_tight_dot hpath hblanks fun hnone => ?_
      rw [← hsteps, hnone] at hwalk
      cases hwalk
    | ok here => exact .there (hway.trans hwalk)
  · have hsteps : components path = moves parents ++ [".."] := by
      rw [components, hpath, moves_append, moves_cons, moves_blank hblanks, if_pos (by decide)]
    rw [hsteps, walk_append] at hway
    cases hwalk : t.walk (moves parents) with
    | error fault =>
      rw [hwalk] at hway
      exact .blocked hway fun _ _ => ⟨fault, by rw [hsteps, List.dropLast_concat, hwalk]⟩
    | ok here =>
      rw [hwalk] at hway
      exact .there hway

/-- One directory is made, or it is known why not. -/
theorem making_makeDirectory (t : FileTree) (hne : path ≠ "") :
    t.Making path (t.makeDirectory path) := by
  cases hcheck : checkPath path with
  | error fault =>
    have hway : t.way path = .error fault := by
      rw [way, hcheck]
      rfl
    have hmake : t.makeDirectory path = .error fault := by
      rw [makeDirectory, hcheck]
      rfl
    rw [hmake]
    refine .blocked hway fun hmissing => ?_
    rcases checkPath_eq_error hcheck with rfl | rfl <;> cases hmissing
  | ok u =>
    rcases leafOf_cases hne with
      ⟨hleaf, hsteps⟩ | ⟨parents, last, blanks, slash, hpath, hblanks, hlast, hleaf⟩
    · have hmake : t.makeDirectory path = .error .exists := by
        simp only [makeDirectory, hcheck, hleaf]
        rfl
      have hway := way_of_checkPath hcheck t
      rw [hsteps] at hway
      rw [hmake]
      exact .there hway
    · split at hleaf
      · rename_i hdots
        exact making_dots hcheck hleaf hdots hpath hblanks
      · exact making_name hcheck hleaf

end Making

/-! ## A directory with those above it -/

variable {above : List String} {fault : FileFault}

/-- A file lies on the way to the directory that holds what a path names. -/
def Barred (t : FileTree) (path : String) : Prop :=
  t.walk (components path).dropLast = .error .notDirectory

instance (t : FileTree) (path : String) : Decidable (t.Barred path) :=
  inferInstanceAs (Decidable (_ = _))

theorem walk_of_way (h : t.way path = .ok loc) : t.walk (components path) = .ok loc := by
  obtain ⟨⟨⟩, -, h⟩ := exists_of_bind_eq_ok h
  exact h

theorem way_ne_exists (t : FileTree) (path : String) : t.way path ≠ .error .exists := by
  intro h
  cases hcheck : checkPath path with
  | error fault =>
    rw [way, hcheck] at h
    obtain rfl := Except.error.inj h
    rcases checkPath_eq_error hcheck with hfault | hfault <;> cases hfault
  | ok u =>
    rw [way_of_checkPath hcheck] at h
    obtain ⟨front, segment, -, -, -, hobstacle⟩ := walk_eq_error h
    cases hobstacle

/-- A directory that is there is left as it is. -/
theorem makeWithParents_of_way (hne : path ≠ "") (h : t.way path = .ok loc) :
    t.makeWithParents (path :: above) = (t, none) := by
  have hmaking := t.making_makeDirectory hne
  have hthere : t.isDirectory path = true := isDirectory_iff.mpr ⟨hne, loc, h⟩
  rw [makeWithParents]
  generalize t.makeDirectory path = result at hmaking
  cases hmaking with
  | there hway => simp only [hthere, if_true]
  | blocked hway | taken hway | made hway =>
    rw [h] at hway
    cases hway

/-- Where the directories above are there already, only the last one is made. -/
theorem makeWithParents_of_above (hmake : t.makeDirectory path = .error .missing)
    (habove : t.makeWithParents above = (t', none)) (hagain : t'.makeWithParents above = (t', none)) :
    t.makeWithParents (path :: above) = t'.makeWithParents (path :: above) := by
  rw [makeWithParents, makeWithParents, hmake]
  simp only [habove]
  cases hsecond : t'.makeDirectory path with
  | ok u => rfl
  | error fault => cases fault <;> simp only [hagain, hsecond]

theorem way_of_makeDirectory (hne : path ≠ "") (h : t.makeDirectory path = .ok t') :
    t' = t.put (locationOf path) .directory ∧ t.node? (locationOf path) = none ∧
      t'.way path = .ok (locationOf path) := by
  have hmaking := t.making_makeDirectory hne
  rw [h] at hmaking
  cases hmaking with
  | made hway habove hnew hafter => exact ⟨rfl, hnew, hafter⟩

/-- A directory that was made with those above it is there. -/
theorem way_of_makeWithParents (hne : path ≠ "")
    (h : t.makeWithParents (path :: above) = (t', none)) : ∃ loc, t'.way path = .ok loc := by
  have hthere {u : FileTree} {fault : FileFault}
      (h : (if u.isDirectory path then none else some fault) = none) : ∃ loc, u.way path = .ok loc := by
    split at h
    · rename_i hdirectory
      exact (isDirectory_iff.mp hdirectory).2
    · cases h
  rw [makeWithParents] at h
  split at h
  · rename_i hmake
    obtain rfl := (Prod.mk.inj h).1
    exact ⟨_, (way_of_makeDirectory hne hmake).2.2⟩
  · split at h
    · cases h
    · split at h
      · rename_i hmake
        obtain rfl := (Prod.mk.inj h).1
        exact ⟨_, (way_of_makeDirectory hne hmake).2.2⟩
      · obtain ⟨rfl, hnone⟩ := Prod.mk.inj h
        exact hthere hnone
  · obtain ⟨rfl, hnone⟩ := Prod.mk.inj h
    exact hthere hnone

theorem not_isDirectory (h : t.way path = .error fault) : t.isDirectory path = false := by
  rw [← Bool.not_eq_true, isDirectory_iff]
  rintro ⟨-, loc, hway⟩
  rw [h] at hway
  cases hway

theorem makeWithParents_of_fault {g : FileFault} (hmake : t.makeDirectory path = .error fault)
    (hfault : fault ≠ .missing) (hway : t.way path = .error g) :
    t.makeWithParents (path :: above) = (t, some fault) := by
  rw [makeWithParents, hmake]
  cases fault <;> simp_all [not_isDirectory hway]

theorem makeWithParents_of_missing (hmake : t.makeDirectory path = .error .missing)
    (habove : t.makeWithParents above = (t, none)) (hway : t.way path = .error fault) :
    t.makeWithParents (path :: above) = (t, some .missing) := by
  rw [makeWithParents, hmake]
  simp only [habove, hmake, not_isDirectory hway, Bool.false_eq_true, if_false]

/-- The fault of a directory that could not be made, when it is made once more. -/
def faultAgain (t : FileTree) (path : String) (fault : FileFault) : FileFault :=
  if fault = .exists ∧ t.Barred path then .notDirectory else fault

/-- What is known when a directory could not be made with those above it. -/
structure Failing (t t' : FileTree) (path : String) (above : List String) (fault : FileFault) :
    Prop where
  /-- The way cannot be gone afterwards. -/
  way : t'.way path = .error fault ∨ (fault = .exists ∧ t'.way path = .error .notDirectory)
  /-- Only directories that a dot follows are missing still. -/
  loose : fault = .missing → ¬ Tight path
  again : t'.makeWithParents (path :: above) = (t', some (t'.faultAgain path fault))
  /-- A file on the way is found late only if a directory was missing in front of it. -/
  late : fault = .exists → t'.Barred path → t.way path = .error .missing

/-- The last directory cannot be made, and those above it are there. -/
theorem Failing.of_above (hne : path ≠ "")
    (hthere : t.walk (components path).dropLast = .ok loc)
    (hagain : t.makeWithParents above = (t, none))
    (h : t.makeWithParents (path :: above) = (t', some fault)) (start : FileTree) :
    Failing start t' path above fault := by
  have hfree : ¬ t.Barred path := by
    rw [Barred, hthere]
    intro h
    cases h
  have hsame (fault : FileFault) : t.faultAgain path fault = fault := if_neg fun h => hfree h.2
  have hmaking := t.making_makeDirectory hne
  generalize hmake : t.makeDirectory path = result at hmaking
  cases hmaking with
  | there hway =>
    rw [makeWithParents_of_way hne hway] at h
    cases h
  | made =>
    rw [makeWithParents, hmake] at h
    cases h
  | taken hway =>
    have hagain : t.makeWithParents (path :: above) = (t, some .exists) :=
      makeWithParents_of_fault hmake (by decide) hway
    obtain ⟨rfl, hfault⟩ := Prod.mk.inj (hagain.symm.trans h)
    obtain rfl := Option.some.inj hfault
    exact ⟨.inr ⟨rfl, hway⟩, (absurd · (by decide)), by rw [hsame, hagain], fun _ h => absurd h hfree⟩
  | @blocked g hway hdot =>
    have hstill : t.makeWithParents (path :: above) = (t, some g) := by
      by_cases hg : g = .missing
      · subst hg
        exact makeWithParents_of_missing hmake hagain hway
      · exact makeWithParents_of_fault hmake hg hway
    obtain ⟨rfl, hfault⟩ := Prod.mk.inj (hstill.symm.trans h)
    obtain rfl := Option.some.inj hfault
    refine ⟨.inl hway, fun hmissing htight => ?_, by rw [hsame, hstill], fun _ h => absurd h hfree⟩
    obtain ⟨f, hf⟩ := hdot hmissing htight
    rw [hthere] at hf
    cases hf

/-- The first attempt shows what is in the way, and nothing changes. -/
theorem Failing.of_first (hmake : t.makeDirectory path = .error fault)
    (hfault : fault ≠ .missing) (hway : t.way path = .error fault) :
    Failing t t path above fault := by
  have hexists : fault ≠ .exists := fun h => t.way_ne_exists path (h ▸ hway)
  have hsame : t.faultAgain path fault = fault := if_neg fun h => hexists h.1
  refine ⟨.inl hway, fun h => absurd h hfault, ?_, fun h => absurd h hexists⟩
  rw [hsame, makeWithParents_of_fault hmake hfault hway]

theorem walk_of_dropLast {segments : List String} (h : t.walk segments.dropLast = .error fault) :
    t.walk segments = .error fault := by
  rcases List.eq_nil_or_concat' segments with rfl | ⟨front, last, rfl⟩
  · cases h
  · rw [List.dropLast_concat] at h
    rw [walk_append, h]

/-- What is in the way of the directory above is in the way of the last one. -/
theorem makeDirectory_of_dropLast (hne : path ≠ "") (hcheck : checkPath path = .ok ())
    (h : t.walk (components path).dropLast = .error fault) :
    t.way path = .error fault ∧ t.makeDirectory path = .error fault := by
  have hway : t.way path = .error fault := by
    rw [way_of_checkPath hcheck]
    exact walk_of_dropLast h
  refine ⟨hway, ?_⟩
  have hmaking := t.making_makeDirectory hne
  generalize t.makeDirectory path = result at hmaking
  cases hmaking with
  | there hthere =>
    rw [hway] at hthere
    cases hthere
  | blocked hblocked => rw [Except.error.inj (hway.symm.trans hblocked)]
  | taken _ habove | made _ habove =>
    rw [h] at habove
    cases habove

/-- A directory above cannot be made, and that is in the way of the last one, too. -/
theorem Failing.of_next {next : String} (hne : path ≠ "")
    (hsteps : components next = (components path).dropLast) (htight : Tight next)
    (hnext : checkPath next = .ok ()) (hpath : checkPath path = .ok ())
    (hway : t.way path = .error .missing)
    (h : Failing t t' next above fault) : Failing t t' path (next :: above) fault := by
  have hfault : fault ≠ .missing := fun hmissing => h.loose hmissing htight
  have hblocked {g : FileFault} (hg : t'.way next = .error g) (hmissing : g ≠ .missing) :
      t'.walk (components path).dropLast = .error g ∧ t'.way path = .error g ∧
        t'.makeWithParents (path :: next :: above) = (t', some g) := by
    rw [way_of_checkPath hnext, hsteps] at hg
    obtain ⟨hway, hmake⟩ := makeDirectory_of_dropLast hne hpath hg
    exact ⟨hg, hway, makeWithParents_of_fault hmake hmissing hway⟩
  rcases h.way with hsame | ⟨rfl, hlate⟩
  · obtain ⟨hwalk, hway', hagain⟩ := hblocked hsame hfault
    have hexists : fault ≠ .exists := fun h => t'.way_ne_exists next (h ▸ hsame)
    refine ⟨.inl hway', fun h => absurd h hfault, ?_, fun _ _ => hway⟩
    rw [hagain, faultAgain, if_neg fun h => hexists h.1]
  · obtain ⟨hwalk, hway', hagain⟩ := hblocked hlate (by decide)
    refine ⟨.inr ⟨rfl, hway'⟩, fun h => absurd h hfault, ?_, fun _ _ => hway⟩
    rw [hagain, faultAgain, if_pos ⟨rfl, hwalk⟩]

theorem checkPath_of_front {above : String} (h : above.toList <+: path.toList)
    (hcheck : checkPath path = .ok ()) : checkPath above = .ok () := by
  obtain ⟨rest, hrest⟩ := h
  have hpath : path = above ++ String.ofList rest := by
    rw [← String.toList_inj, String.toList_append, String.toList_ofList, hrest]
  unfold checkPath at hcheck ⊢
  split at hcheck
  · cases hcheck
  · rename_i hzero
    split at hcheck
    · cases hcheck
    · rename_i hlong
      rw [hpath, String.utf8ByteSize_append] at hlong
      rw [hpath, String.toList_append] at hzero
      rw [if_neg, if_neg (by omega)]
      intro habove
      refine hzero ?_
      rw [List.contains_iff_mem] at habove ⊢
      exact List.mem_append_left _ habove

theorem checkPath_of_way (h : t.way path = .error fault)
    (hfault : fault = .missing ∨ fault = .notDirectory) : checkPath path = .ok () := by
  cases hcheck : checkPath path with
  | ok u => rfl
  | error other =>
    rw [way, hcheck] at h
    obtain rfl := Except.error.inj h
    rcases checkPath_eq_error hcheck with rfl | rfl <;> rcases hfault with h | h <;> cases h

/-- What is known when directories along a ladder could not be made. The induction goes up the
ladder: the fault is met at the highest directory that could not be made. -/
theorem Ladder.failing (h : Ladder (path :: above))
    (hmake : t.makeWithParents (path :: above) = (t', some fault)) :
    Failing t t' path above fault := by
  induction above generalizing path t' fault with
  | nil =>
    cases h with
    | top hne hsteps =>
      have htop : t.walk (components path).dropLast = .ok [] := by
        rw [hsteps]
        rfl
      exact .of_above hne htop rfl hmake t
  | cons next above ih =>
    cases h with
    | rung hne hsteps htext htight hrest =>
      have hne' : next ≠ "" := by
        cases hrest with
        | top hne | rung hne => exact hne
      -- Where the directory above is there, only the last one can be at fault.
      have hlast {u : FileTree} {loc : Location} (hcheck : checkPath path = .ok ())
          (habove : u.walk (components path).dropLast = .ok loc)
          (hmake : u.makeWithParents (path :: next :: above) = (t', some fault)) :
          Failing t t' path (next :: above) fault := by
        have hnext : u.way next = .ok loc := by
          rw [way_of_checkPath (checkPath_of_front htext hcheck), hsteps, habove]
        exact .of_above hne habove (makeWithParents_of_way hne' hnext) hmake t
      have hmaking := t.making_makeDirectory hne
      generalize hfirst : t.makeDirectory path = result at hmaking
      cases hmaking with
      | there hway =>
        rw [makeWithParents_of_way hne hway] at hmake
        cases hmake
      | made =>
        rw [makeWithParents, hfirst] at hmake
        cases hmake
      | taken hway habove => exact hlast (checkPath_of_way hway (.inr rfl)) habove hmake
      | @blocked g hway hdot =>
        by_cases hg : g = .missing
        · subst hg
          have hcheck := checkPath_of_way hway (.inl rfl)
          have hnextCheck := checkPath_of_front htext hcheck
          cases habove : t.makeWithParents (next :: above) with
          | mk u result =>
            cases result with
            | some f =>
              have hpath : t.makeWithParents (path :: next :: above) = (u, some f) := by
                rw [makeWithParents, hfirst]
                simp only [habove]
              obtain ⟨rfl, hf⟩ := Prod.mk.inj (hpath.symm.trans hmake)
              obtain rfl := Option.some.inj hf
              exact (ih hrest habove).of_next hne hsteps htight hnextCheck hcheck hway
            | none =>
              obtain ⟨loc, hnext⟩ := way_of_makeWithParents hne' habove
              have hagain : u.makeWithParents (next :: above) = (u, none) :=
                makeWithParents_of_way hne' hnext
              rw [makeWithParents_of_above hfirst habove hagain] at hmake
              rw [way_of_checkPath hnextCheck, hsteps] at hnext
              exact hlast hcheck hnext hmake
        · have hpath : t.makeWithParents (path :: next :: above) = (t, some g) :=
            makeWithParents_of_fault hfirst hg hway
          obtain ⟨rfl, hfault⟩ := Prod.mk.inj (hpath.symm.trans hmake)
          obtain rfl := Option.some.inj hfault
          exact .of_first hfirst hg hway

/-! ## What is new -/

def trail (path : String) : List Location := (components path).inits.map resolve

theorem mem_trail : loc ∈ trail path ↔ ∃ front, front <+: components path ∧ resolve front = loc := by
  simp only [trail, List.mem_map, List.mem_inits]

theorem trail_subset {above : String} (h : components above <+: components path) :
    trail above ⊆ trail path := by
  intro loc hloc
  obtain ⟨front, hfront, rfl⟩ := mem_trail.mp hloc
  exact mem_trail.mpr ⟨front, hfront.trans h, rfl⟩

def Grows (t t' : FileTree) (locs : List Location) : Prop :=
  ∀ loc, t'.node? loc = t.node? loc ∨
    (loc ∈ locs ∧ t.node? loc = none ∧ t'.node? loc = some .directory)

theorem Grows.refl (t : FileTree) (locs : List Location) : t.Grows t locs := fun _ => .inl rfl

theorem Grows.mono {locs locs' : List Location} (h : t.Grows t' locs) (hsub : locs ⊆ locs') :
    t.Grows t' locs' :=
  fun loc => (h loc).imp_right (And.imp_left (hsub ·))

theorem Grows.trans {u : FileTree} {locs : List Location} (h : t.Grows t' locs)
    (h' : t'.Grows u locs) : t.Grows u locs := by
  intro loc
  rcases h' loc with hsame | ⟨hloc, hnone, hnew⟩
  · rcases h loc with hsame' | ⟨hloc, hnone, hnew⟩
    · exact .inl (hsame.trans hsame')
    · exact .inr ⟨hloc, hnone, hsame.trans hnew⟩
  · rcases h loc with hsame | ⟨-, -, hdirectory⟩
    · exact .inr ⟨hloc, hsame ▸ hnone, hnew⟩
    · rw [hnone] at hdirectory
      cases hdirectory

/-- A new directory lies on the trail of its path. -/
theorem grows_makeDirectory (hne : path ≠ "") (h : t.makeDirectory path = .ok t') :
    t.Grows t' (trail path) := by
  obtain ⟨rfl, hnew, -⟩ := way_of_makeDirectory hne h
  intro loc
  by_cases hroot : locationOf path = []
  · rw [hroot] at hnew
    cases hnew
  · rw [node?_put hroot]
    split
    · rename_i hloc
      subst hloc
      exact .inr ⟨mem_trail.mpr ⟨_, List.prefix_refl _, (locationOf_eq_resolve path).symm⟩, hnew, rfl⟩
    · exact .inl rfl

/-- Directories along a ladder are new only where its lowest path leads. -/
theorem Ladder.grows (h : Ladder (path :: above)) (t : FileTree) :
    t.Grows (t.makeWithParents (path :: above)).1 (trail path) := by
  induction above generalizing path with
  | nil =>
    cases h with
    | top hne =>
      rw [makeWithParents]
      split
      · rename_i hmake
        exact grows_makeDirectory hne hmake
      · rw [makeWithParents]
        simp only
        split
        · rename_i hmake
          exact grows_makeDirectory hne hmake
        · exact .refl t _
      · exact .refl t _
  | cons next above ih =>
    cases h with
    | rung hne hsteps htext htight hrest =>
      have habove : t.Grows (t.makeWithParents (next :: above)).1 (trail path) :=
        (ih hrest).mono (trail_subset (hsteps ▸ List.dropLast_prefix _))
      rw [makeWithParents]
      split
      · rename_i hmake
        exact grows_makeDirectory hne hmake
      · split
        · rename_i hmade
          rwa [hmade] at habove
        · rename_i hmade
          rw [hmade] at habove
          split
          · rename_i hmake
            exact habove.trans (grows_makeDirectory hne hmake)
          · exact habove
      · exact .refl t _

/-! ## All directories of a path -/

theorem grows_makeDirectories (t : FileTree) (path : String) :
    t.Grows (t.makeDirectories path).1 (trail path) := by
  unfold makeDirectories
  split
  · exact .refl t _
  · rename_i hne
    exact (ladder_ancestors hne).grows t

theorem way_empty (t : FileTree) : t.way "" = .ok [] := rfl

theorem way_of_makeDirectories (h : t.makeDirectories path = (t', none)) :
    ∃ loc, t'.way path = .ok loc := by
  unfold makeDirectories at h
  split at h
  · rename_i hempty
    exact ⟨[], hempty ▸ way_empty t'⟩
  · rename_i hne
    exact way_of_makeWithParents hne h

theorem makeDirectories_of_way (h : t.way path = .ok loc) : t.makeDirectories path = (t, none) := by
  unfold makeDirectories
  split
  · rfl
  · rename_i hne
    exact makeWithParents_of_way hne h

/-- A failure to make directories shows again when they are made once more. -/
theorem failing_makeDirectories (h : t.makeDirectories path = (t', some fault)) :
    Failing t t' path (FilePath.ancestors path) fault ∧
      t'.makeDirectories path = (t', some (t'.faultAgain path fault)) := by
  unfold makeDirectories at h ⊢
  split at h
  · cases h
  · rename_i hne
    have hfailing := (ladder_ancestors hne).failing h
    rw [if_neg hne]
    exact ⟨hfailing, hfailing.again⟩

theorem KeepsDirectories.way (h : t.KeepsDirectories t') (hway : t.way path = .ok loc) :
    t'.way path = .ok loc := by
  obtain ⟨⟨⟩, hcheck, hwalk⟩ := exists_of_bind_eq_ok hway
  rw [way_of_checkPath hcheck]
  exact h.foldlM hwalk

/-- Everything above a place that a way leads to is a directory. -/
theorem directory_of_walk (h : t.walk segments = .ok loc) {above : Location} (habove : above <+: loc) :
    t.node? above = some .directory := by
  induction segments using List.reverseRecOn generalizing loc above with
  | nil =>
    obtain rfl := Except.ok.inj h
    rw [List.prefix_nil.mp habove]
    rfl
  | append_singleton segments segment ih =>
    rw [walk_append] at h
    cases hfront : t.walk segments with
    | error fault => simp only [hfront, reduceCtorEq] at h
    | ok next =>
      simp only [hfront, foldlM_step_cons] at h
      cases hstep : t.step next segment with
      | error fault => simp only [hstep, reduceCtorEq] at h
      | ok there =>
        simp only [hstep] at h
        obtain rfl := Except.ok.inj h
        unfold step at hstep
        split at hstep
        · exact ih hfront (Except.ok.inj hstep ▸ habove)
        · split at hstep
          · obtain rfl := Except.ok.inj hstep
            exact ih hfront (habove.trans (List.dropLast_prefix _))
          · split at hstep
            · cases hstep
            · split at hstep
              · cases hstep
              · cases hstep
              · rename_i hnode
                obtain rfl := Except.ok.inj hstep
                rcases List.prefix_concat_iff.mp habove with rfl | habove
                · exact hnode
                · exact ih hfront habove

theorem walk_front {front : List String} (h : t.walk segments = .ok loc) (hfront : front <+: segments) :
    t.walk front = .ok (resolve front) := by
  obtain ⟨rest, rfl⟩ := hfront
  rw [walk_append] at h
  cases hwalk : t.walk front with
  | error fault => simp only [hwalk, reduceCtorEq] at h
  | ok next => rw [eq_resolve_of_walk hwalk]

/-- What a path leads through is made of directories, if the path can be gone. -/
theorem directory_of_way (h : t.way path = .ok loc) (hloc : here ∈ trail path) :
    t.node? here = some .directory := by
  obtain ⟨front, hfront, rfl⟩ := mem_trail.mp hloc
  exact directory_of_walk (walk_front (walk_of_way h) hfront) (List.prefix_refl _)

/-- Once a directory is made, all of its path is there, and nothing else has changed. -/
theorem node?_of_makeDirectories (h : t.makeDirectories path = (t', none)) (loc : Location) :
    t'.node? loc = if loc ∈ trail path then some .directory else t.node? loc := by
  obtain ⟨there, hway⟩ := way_of_makeDirectories h
  split
  · rename_i hloc
    exact directory_of_way hway hloc
  · rename_i hloc
    have hgrows := t.grows_makeDirectories path loc
    rw [h] at hgrows
    exact hgrows.resolve_right fun hnew => hloc hnew.1

end CommandPack.FileTree
