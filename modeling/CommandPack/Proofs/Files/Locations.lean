import CommandPack.Files.FilePlan
import Mathlib.Data.List.Induction
import Mathlib.Data.List.TakeWhile

namespace CommandPack

namespace FileTree

/-! ## Locations -/

def advance (here : Location) (segment : String) : Location :=
  if segment = "" ∨ segment = "." then here
  else if segment = ".." then here.dropLast
  else here ++ [segment]

def resolve (segments : List String) : Location := segments.foldl advance []

/-- The location that a path names. There are no links, so it does not depend on the tree; the tree
only decides whether the way there can be gone. -/
def locationOf (path : String) : Location := resolve (pathSegments path)

variable {t t' : FileTree} {here loc : Location} {segments : List String} {path content : String}

/-- A step that can be made leads where the segment says. -/
theorem eq_advance_of_step {segment : String} (h : t.step here segment = .ok loc) :
    loc = advance here segment := by
  unfold step at h
  unfold advance
  split at h
  · rename_i hskip
    rw [if_pos hskip]
    exact (Except.ok.inj h).symm
  · rename_i hskip
    rw [if_neg hskip]
    split at h
    · rename_i hup
      rw [if_pos hup]
      exact (Except.ok.inj h).symm
    · rename_i hup
      rw [if_neg hup]
      split at h
      · nomatch h
      · split at h
        · nomatch h
        · nomatch h
        · exact (Except.ok.inj h).symm

theorem foldlM_step_cons (segment : String) :
    (segment :: segments).foldlM t.step here =
      match t.step here segment with
      | .error fault => .error fault
      | .ok next => segments.foldlM t.step next := by
  rw [List.foldlM_cons]
  cases t.step here segment <;> rfl

theorem foldl_advance_of_foldlM (h : segments.foldlM t.step here = .ok loc) :
    loc = segments.foldl advance here := by
  induction segments generalizing here with
  | nil => exact (Except.ok.inj h).symm
  | cons segment segments ih =>
    rw [foldlM_step_cons] at h
    cases hs : t.step here segment with
    | error fault => simp only [hs, reduceCtorEq] at h
    | ok next =>
      simp only [hs] at h
      rw [List.foldl_cons, ← eq_advance_of_step hs]
      exact ih h

theorem eq_resolve_of_walk (h : t.walk segments = .ok loc) : loc = resolve segments :=
  foldl_advance_of_foldlM h

theorem foldl_advance_empty {segments : List String} (h : ∀ s ∈ segments, s = "") :
    segments.foldl advance here = here := by
  induction segments with
  | nil => rfl
  | cons s segments ih =>
    have hs : advance here s = here := if_pos (.inl (h s List.mem_cons_self))
    rw [List.foldl_cons, hs]
    exact ih fun s hs => h s (List.mem_cons_of_mem _ hs)

/-- A segment that is a name leads further down, the others do not. -/
def IsName (segment : String) : Prop := segment ≠ "" ∧ segment ≠ "." ∧ segment ≠ ".."

instance (segment : String) : Decidable (IsName segment) :=
  inferInstanceAs (Decidable (_ ∧ _ ∧ _))

theorem foldl_advance_names {segments : List String} (h : ∀ s ∈ segments, IsName s) :
    segments.foldl advance here = here ++ segments := by
  induction segments generalizing here with
  | nil => exact (List.append_nil here).symm
  | cons s segments ih =>
    obtain ⟨hempty, hdot, hup⟩ := h s List.mem_cons_self
    rw [List.foldl_cons, advance, if_neg (not_or.mpr ⟨hempty, hdot⟩), if_neg hup,
      ih fun s hs => h s (List.mem_cons_of_mem _ hs), List.append_assoc]
    rfl

/-- A path that ends in a name leads to that name in the place that its other segments lead to. -/
theorem locationOf_of_leafOf {parents : List String} {last : String} {slash : Bool}
    (h : leafOf path = .name parents last slash) :
    locationOf path = resolve parents ++ [last] := by
  unfold leafOf at h
  split at h
  · nomatch h
  · -- Empty segments behind the name lead nowhere.
    have hsplit :=
      List.takeWhile_append_dropWhile (p := (· = "")) (l := (pathSegments path).reverse)
    simp only at h
    split at h
    · nomatch h
    · rename_i name above hdrop
      split at h
      · nomatch h
      · rename_i hdots
        obtain ⟨rfl, rfl, -⟩ := Leaf.name.inj h
        obtain ⟨hdot, hup⟩ := not_or.mp hdots
        have hne : name ≠ "" := by
          have hhead := List.head_dropWhile_not (p := fun s => decide (s = ""))
            (l := (pathSegments path).reverse) (by rw [hdrop]; exact List.cons_ne_nil _ _)
          simpa [hdrop] using hhead
        have hsegments : pathSegments path =
            above.reverse ++ [name] ++
              ((pathSegments path).reverse.takeWhile (· = "")).reverse := by
          rw [hdrop] at hsplit
          have hreverse := congrArg List.reverse hsplit
          rw [List.reverse_append, List.reverse_cons, List.reverse_reverse] at hreverse
          exact hreverse.symm
        have hname : ∀ s ∈ [name], IsName s := fun s hs =>
          List.mem_singleton.mp hs ▸ ⟨hne, hdot, hup⟩
        rw [locationOf, hsegments, resolve, List.foldl_append, List.foldl_append,
          foldl_advance_names hname, foldl_advance_empty, resolve]
        intro s hs
        have hmem := List.mem_takeWhile_imp (List.mem_reverse.mp hs)
        simpa using hmem

/-! ## Reading and writing a file -/

def readFile (t : FileTree) (path : String) : Except FileFault String := do
  checkPath path
  match leafOf path with
  | .empty => .error .missing
  | .root => .error .isDirectory
  | .directory parents => do
    let _ ← t.walk parents
    .error .isDirectory
  | .name parents last slash => do
    let loc ← t.locate parents last
    match t.node? loc with
    | none => .error .missing
    | some .directory => .error .isDirectory
    | some (.file content) => if slash then .error .notDirectory else .ok content

/-- The path ends in a name, and the way to it can be gone. -/
def Reaches (t : FileTree) (path : String) : Prop :=
  checkPath path = .ok () ∧
  ∃ parents last, leafOf path = .name parents last false ∧
    t.walk parents = .ok (resolve parents) ∧ last.utf8ByteSize ≤ maxName

theorem Reaches.ne_root (h : t.Reaches path) : locationOf path ≠ [] := by
  obtain ⟨-, parents, last, hleaf, -⟩ := h
  rw [locationOf_of_leafOf hleaf]
  exact List.append_ne_nil_of_right_ne_nil _ (List.cons_ne_nil _ _)

theorem node?_put (hloc : loc ≠ []) (n : FileNode) (other : Location) :
    (t.put loc n).node? other = if other = loc then some n else t.node? other := by
  by_cases hother : other = []
  · subst hother
    rw [node?, if_pos rfl, if_neg hloc.symm]
    rfl
  · simp only [node?, if_neg hother, put, KeyedList.get?_insert]

/-- Writing a file puts it where its path leads, if that can be gone and no directory lies there. -/
theorem writeFile_eq_ok (h : t.writeFile path content = .ok t') :
    t.Reaches path ∧ t.node? (locationOf path) ≠ some .directory ∧
      t' = t.put (locationOf path) (.file content) := by
  obtain ⟨⟨⟩, hcheck, h⟩ := exists_of_bind_eq_ok h
  cases hleaf : leafOf path with
  | empty | root => rw [hleaf] at h; nomatch h
  | directory parents =>
    rw [hleaf] at h
    obtain ⟨here, -, h⟩ := exists_of_bind_eq_ok h
    nomatch h
  | name parents last slash =>
    rw [hleaf] at h
    obtain ⟨here, hwalk, h⟩ := exists_of_bind_eq_ok h
    obtain rfl := eq_resolve_of_walk hwalk
    rw [locationOf_of_leafOf hleaf]
    split at h
    · nomatch h
    · rename_i hslash
      split at h
      · nomatch h
      · rename_i hname
        rw [Bool.not_eq_true] at hslash
        refine ⟨⟨hcheck, parents, last, hslash ▸ hleaf, hwalk, Nat.le_of_not_lt hname⟩, ?_⟩
        split at h
        · nomatch h
        · rename_i hnode
          exact ⟨hnode, (Except.ok.inj h).symm⟩

/-- A file is read where it lies. -/
theorem Reaches.readFile (h : t.Reaches path)
    (hnode : t.node? (locationOf path) = some (.file content)) :
    t.readFile path = .ok content := by
  obtain ⟨hcheck, parents, last, hleaf, hwalk, hname⟩ := h
  rw [locationOf_of_leafOf hleaf] at hnode
  have hlocate : t.locate parents last = .ok (resolve parents ++ [last]) := by
    rw [locate, hwalk]
    exact if_neg (Nat.not_lt.mpr hname)
  simp only [FileTree.readFile, bind, Except.bind, hcheck, hleaf, hlocate, hnode,
    Bool.false_eq_true, if_false]

/-- A file is written where no directory lies. -/
theorem Reaches.writeFile (h : t.Reaches path) (hnode : t.node? (locationOf path) ≠ some .directory)
    (content : String) :
    t.writeFile path content = .ok (t.put (locationOf path) (.file content)) := by
  obtain ⟨hcheck, parents, last, hleaf, hwalk, hname⟩ := h
  rw [locationOf_of_leafOf hleaf] at hnode ⊢
  simp only [FileTree.writeFile, bind, Except.bind, hcheck, hleaf, hwalk, Bool.false_eq_true,
    if_false, if_neg (Nat.not_lt.mpr hname)]

/-! ## What keeps a way open -/

def Extends (t t' : FileTree) : Prop := ∀ loc n, t.node? loc = some n → t'.node? loc = some n

def KeepsDirectories (t t' : FileTree) : Prop :=
  ∀ loc, t.node? loc = some .directory → t'.node? loc = some .directory

theorem Extends.refl (t : FileTree) : t.Extends t := fun _ _ h => h

theorem Extends.trans {u : FileTree} (h : t.Extends t') (h' : t'.Extends u) : t.Extends u :=
  fun loc n hn => h' loc n (h loc n hn)

theorem Extends.keepsDirectories (h : t.Extends t') : t.KeepsDirectories t' := fun loc => h loc _

/-- A step stays open as long as directories stay directories. -/
theorem KeepsDirectories.step {segment : String} (h : t.KeepsDirectories t')
    (hs : t.step here segment = .ok loc) : t'.step here segment = .ok loc := by
  unfold FileTree.step at hs ⊢
  split at hs
  · rename_i hskip
    rwa [if_pos hskip]
  · rename_i hskip
    rw [if_neg hskip]
    split at hs
    · rename_i hup
      rwa [if_pos hup]
    · rename_i hup
      rw [if_neg hup]
      split at hs
      · nomatch hs
      · rename_i hname
        rw [if_neg hname]
        split at hs
        · nomatch hs
        · nomatch hs
        · rename_i hnode
          rwa [h _ hnode]

theorem KeepsDirectories.foldlM (h : t.KeepsDirectories t')
    (hs : segments.foldlM t.step here = .ok loc) : segments.foldlM t'.step here = .ok loc := by
  induction segments generalizing here with
  | nil => exact hs
  | cons segment segments ih =>
    rw [foldlM_step_cons] at hs ⊢
    cases hstep : t.step here segment with
    | error fault => simp only [hstep, reduceCtorEq] at hs
    | ok next =>
      simp only [hstep] at hs
      simp only [h.step hstep]
      exact ih hs

theorem Reaches.mono (hpath : t.Reaches path) (h : t.KeepsDirectories t') : t'.Reaches path := by
  obtain ⟨hcheck, parents, last, hleaf, hwalk, hname⟩ := hpath
  exact ⟨hcheck, parents, last, hleaf, h.foldlM hwalk, hname⟩

/-- A file that is written may replace a file, but not a directory. -/
theorem keepsDirectories_of_writeFile (h : t.writeFile path content = .ok t') :
    t.KeepsDirectories t' := by
  obtain ⟨hpath, hnode, rfl⟩ := writeFile_eq_ok h
  intro loc hloc
  rw [node?_put hpath.ne_root, if_neg]
  · exact hloc
  · rintro rfl
    exact hnode hloc

/-- A directory is made where nothing was. -/
theorem makeDirectory_eq_ok (h : t.makeDirectory path = .ok t') :
    ∃ new, new ≠ [] ∧ t.node? new = none ∧ t' = t.put new .directory := by
  obtain ⟨⟨⟩, -, h⟩ := exists_of_bind_eq_ok h
  cases hleaf : leafOf path with
  | empty | root => rw [hleaf] at h; nomatch h
  | directory parents =>
    rw [hleaf] at h
    obtain ⟨here, -, h⟩ := exists_of_bind_eq_ok h
    nomatch h
  | name parents last slash =>
    rw [hleaf] at h
    obtain ⟨new, -, h⟩ := exists_of_bind_eq_ok h
    cases hnode : t.node? new with
    | some n => simp only [hnode, reduceCtorEq] at h
    | none =>
      simp only [hnode] at h
      refine ⟨new, ?_, hnode, (Except.ok.inj h).symm⟩
      rintro rfl
      nomatch hnode

section Invariant

variable {P : FileTree → Prop}
  (hnew : ∀ t path t', P t → t.makeDirectory path = .ok t' → P t')
include hnew

theorem makeWithParents_invariant (paths : List String) (h : P t) :
    P (t.makeWithParents paths).1 := by
  induction paths with
  | nil => exact h
  | cons path above ih =>
    simp only [makeWithParents]
    split
    · rename_i hmade
      exact hnew _ _ _ h hmade
    · split
      · rename_i habove
        rwa [habove] at ih
      · rename_i habove
        rw [habove] at ih
        split
        · rename_i hmade
          exact hnew _ _ _ ih hmade
        · exact ih
    · exact h

/-- What every new directory keeps is kept when a directory is made with those above it, also if
that fails half-way. -/
theorem makeDirectories_invariant (path : String) (h : P t) : P (t.makeDirectories path).1 := by
  unfold makeDirectories
  split
  · exact h
  · exact makeWithParents_invariant hnew _ h

end Invariant

theorem extends_of_makeDirectory (h : t.makeDirectory path = .ok t') : t.Extends t' := by
  obtain ⟨new, hroot, hnode, rfl⟩ := makeDirectory_eq_ok h
  intro loc n hloc
  rw [node?_put hroot, if_neg]
  · exact hloc
  · rintro rfl
    rw [hnode] at hloc
    nomatch hloc

/-- New directories change nothing that is there. -/
theorem extends_makeDirectories (t : FileTree) (path : String) :
    t.Extends (t.makeDirectories path).1 :=
  makeDirectories_invariant (fun _ _ _ hext hmade => hext.trans (extends_of_makeDirectory hmade))
    path (.refl t)

end FileTree

/-! ## Plans -/

def FileAction.written? : FileAction → Option (String × String)
  | .write path content => some (path, content)
  | .makeDirectories _ => none

def FilePlan.writes (p : FilePlan) : List (String × String) := p.filterMap FileAction.written?

theorem FilePlan.writes_append (p q : FilePlan) :
    FilePlan.writes (p ++ q) = p.writes ++ q.writes := List.filterMap_append

def lastWritten (ws : List (String × String)) (loc : Location) : Option String :=
  (ws.reverse.find? fun w => FileTree.locationOf w.1 = loc).map Prod.snd

theorem lastWritten_concat (ws : List (String × String)) (path content : String) (loc : Location) :
    lastWritten (ws ++ [(path, content)]) loc =
      if FileTree.locationOf path = loc then some content else lastWritten ws loc := by
  rw [lastWritten, List.reverse_append, List.reverse_singleton, List.singleton_append,
    List.find?_cons]
  by_cases h : FileTree.locationOf path = loc
  · simp [h]
  · simp [h, lastWritten]

/-- What a plan wrote can be found in a tree: every path leads to its location, and there lies what
was written to the location last. -/
structure FilePlan.Found (p : FilePlan) (t : FileTree) : Prop where
  reaches : ∀ w ∈ p.writes, t.Reaches w.1
  holds : ∀ loc content, lastWritten p.writes loc = some content →
    t.node? loc = some (.file content)

namespace FilePlan.Found

variable {p : FilePlan} {t u : FileTree} {path content : String}

theorem nil (t : FileTree) : Found [] t :=
  ⟨fun _ hw => absurd hw List.not_mem_nil, fun _ _ h => nomatch h⟩

/-- New directories leave what was written where it is found. -/
theorem makeDirectories (h : p.Found t) (path : String) :
    Found (p ++ [.makeDirectories path]) (t.makeDirectories path).1 := by
  have hext := t.extends_makeDirectories path
  have hwrites : writes (p ++ [.makeDirectories path]) = p.writes :=
    (writes_append p _).trans (List.append_nil _)
  constructor
  · rw [hwrites]
    exact fun w hw => (h.reaches w hw).mono hext.keepsDirectories
  · rw [hwrites]
    exact fun loc content hlast => hext _ _ (h.holds loc content hlast)

/-- The file that is written is the last one at its location. -/
theorem write (h : p.Found t) (hwrite : t.writeFile path content = .ok u) :
    Found (p ++ [.write path content]) u := by
  have hkeep := FileTree.keepsDirectories_of_writeFile hwrite
  obtain ⟨hpath, -, rfl⟩ := FileTree.writeFile_eq_ok hwrite
  have hwrites : writes (p ++ [.write path content]) = p.writes ++ [(path, content)] :=
    writes_append p _
  constructor
  · rw [hwrites]
    intro w hw
    rcases List.mem_append.mp hw with hw | hw
    · exact (h.reaches w hw).mono hkeep
    · rw [List.mem_singleton.mp hw]
      exact hpath.mono hkeep
  · rw [hwrites]
    intro loc last hlast
    rw [lastWritten_concat] at hlast
    rw [FileTree.node?_put hpath.ne_root]
    split at hlast
    · rename_i hloc
      rw [if_pos hloc.symm, Option.some.inj hlast]
    · rename_i hloc
      rw [if_neg (Ne.symm hloc)]
      exact h.holds loc last hlast

end FilePlan.Found

/-- A plan that is done to its end has written its files, except that a file is gone if another one
was written to its location later. -/
theorem FilePlan.found_of_perform {p : FilePlan} {t u : FileTree} (h : p.perform t = (u, none)) :
    p.Found u := by
  induction p using List.reverseRecOn generalizing u with
  | nil => exact .nil u
  | append_singleton p a ih =>
    rw [perform_append] at h
    split at h
    · simp at h
    · rename_i before hbefore
      have hfound := ih hbefore
      cases a with
      | makeDirectories path =>
        have hmade : (before.makeDirectories path).1 = u := by
          simp only [perform, FileAction.perform] at h
          split at h <;> simp_all
        exact hmade ▸ hfound.makeDirectories path
      | write path content =>
        simp only [perform, FileAction.perform] at h
        cases hwrite : before.writeFile path content with
        | error fault => simp [hwrite] at h
        | ok after =>
          simp only [hwrite, Prod.mk.injEq, and_true] at h
          exact hfound.write (h ▸ hwrite)

theorem exists_lastWritten {ws : List (String × String)} {path content : String}
    (hw : (path, content) ∈ ws) :
    ∃ last, lastWritten ws (FileTree.locationOf path) = some last := by
  cases hlast : lastWritten ws (FileTree.locationOf path) with
  | none =>
    have hnone :=
      List.find?_eq_none.mp (Option.map_eq_none_iff.mp hlast) _ (List.mem_reverse.mpr hw)
    simp at hnone
  | some last => exact ⟨last, rfl⟩

/-- Reading a written file gives what was written to its location last. -/
theorem FilePlan.Found.readFile {p : FilePlan} {t : FileTree} (h : p.Found t)
    {path content : String} (hw : (path, content) ∈ p.writes) :
    ∃ last, lastWritten p.writes (FileTree.locationOf path) = some last ∧
      t.readFile path = .ok last := by
  obtain ⟨last, hlast⟩ := exists_lastWritten hw
  exact ⟨last, hlast, (h.reaches _ hw).readFile (h.holds _ last hlast)⟩

/-- All written files hold their own content exactly if nothing else was written to where they
lie. -/
theorem FilePlan.Found.readFile_iff {p : FilePlan} {t : FileTree} (h : p.Found t) :
    (∀ w ∈ p.writes, t.readFile w.1 = .ok w.2) ↔
      ∀ v ∈ p.writes, ∀ w ∈ p.writes,
        FileTree.locationOf v.1 = FileTree.locationOf w.1 → v.2 = w.2 := by
  constructor
  · intro hread v hv w hw hloc
    obtain ⟨last, hlast, hv'⟩ := h.readFile hv
    obtain ⟨last', hlast', hw'⟩ := h.readFile hw
    rw [hloc, hlast'] at hlast
    rw [hread v hv] at hv'
    rw [hread w hw, Option.some.inj hlast] at hw'
    exact Except.ok.inj (hv'.trans hw'.symm)
  · intro happart w hw
    obtain ⟨last, hlast, hread⟩ := h.readFile hw
    -- What was written last there is the content of some file, so it is that of this one.
    obtain ⟨v, hv, rfl⟩ := Option.map_eq_some_iff.mp hlast
    have hmem := List.mem_reverse.mp (List.mem_of_find?_eq_some hv)
    rw [hread, happart v hmem w hw (by simpa using List.find?_some hv)]

end CommandPack
