import CommandPack.Proofs.Files.WriteEffects

namespace CommandPack

open FileTree (locationOf components resolve IsName)

namespace FileTree

variable {t t' u v : FileTree} {loc : Location} {path content : String}

/-! ## Trees that hold the same entries -/

/-- The same entries in the same order, where directories are directories still. -/
structure Alike (u v : FileTree) : Prop where
  keys : v.nodes.keys = u.nodes.keys
  root : v.nodes.get? [] = u.nodes.get? []
  directories : u.KeepsDirectories v

theorem Alike.refl (t : FileTree) : t.Alike t := ⟨rfl, rfl, fun _ h => h⟩

theorem Alike.trans (h : t.Alike u) (h' : u.Alike v) : t.Alike v :=
  ⟨h'.keys.trans h.keys, h'.root.trans h.root, fun loc hloc =>
    h'.directories loc (h.directories loc hloc)⟩

theorem Alike.node?_eq_none (h : u.Alike v) (hloc : u.node? loc = none) : v.node? loc = none := by
  unfold node? at hloc ⊢
  split at hloc
  · cases hloc
  · rename_i hroot
    rw [if_neg hroot, ← Option.not_isSome_iff_eq_none, ← KeyedList.contains,
      KeyedList.contains_iff_mem_keys, h.keys, ← KeyedList.contains_iff_mem_keys,
      KeyedList.contains, hloc]
    exact Bool.false_ne_true

/-- Where the files are the same, too, nothing differs. -/
theorem Alike.eq (h : u.Alike v) (hfiles : v.file? = u.file?) : v = u := by
  have hnode (loc : Location) : v.node? loc = u.node? loc := by
    cases hloc : u.node? loc with
    | none => exact h.node?_eq_none hloc
    | some n =>
      cases n with
      | directory => exact h.directories loc hloc
      | file content =>
        rw [← file?_eq_some, hfiles]
        exact file?_eq_some.mpr hloc
  refine congrArg FileTree.mk (KeyedList.eq_of_keys h.keys fun loc => ?_)
  by_cases hroot : loc = []
  · rw [hroot, h.root]
  · have hloc := hnode loc
    rwa [node?, node?, if_neg hroot, if_neg hroot] at hloc

theorem alike_put (hroot : loc ≠ []) (hloc : u.node? loc = some (.file content)) (new : String) :
    u.Alike (u.put loc (.file new)) := by
  have hmem : loc ∈ u.nodes.keys := by
    rw [node?, if_neg hroot] at hloc
    rw [← KeyedList.contains_iff_mem_keys, KeyedList.contains, hloc]
    rfl
  refine ⟨?_, ?_, fun other hother => ?_⟩
  · exact (KeyedList.keys_upsert ..).trans (if_pos hmem)
  · exact (KeyedList.get?_insert ..).trans (if_neg hroot.symm)
  · rw [node?_put hroot, if_neg]
    · exact hother
    · rintro rfl
      cases hloc.symm.trans hother

/-! ## Faults -/

/-- Steps that cannot fail with a fault do not do so one after the other. -/
theorem bind_ne_error {ε α β : Type} {e : ε} {x : Except ε α} {f : α → Except ε β}
    (hx : x ≠ .error e) (hf : ∀ a, f a ≠ .error e) : x >>= f ≠ .error e := by
  cases x with
  | error e' => exact fun h => hx (congrArg _ (Except.error.inj h))
  | ok a => exact hf a

theorem walk_ne_exists (t : FileTree) (segments : List String) : t.walk segments ≠ .error .exists := by
  intro h
  obtain ⟨front, segment, -, -, -, hobstacle⟩ := walk_eq_error h
  cases hobstacle

theorem checkPath_ne_exists (path : String) : checkPath path ≠ .error .exists := by
  intro h
  rcases checkPath_eq_error h with hfault | hfault <;> cases hfault

/-- Only a directory that is made can be found to exist already. -/
theorem writeFile_ne_exists (t : FileTree) (path content : String) :
    t.writeFile path content ≠ .error .exists := by
  refine bind_ne_error (checkPath_ne_exists path) fun _ => ?_
  split
  · simp
  · simp
  · exact bind_ne_error (t.walk_ne_exists _) fun _ => by simp
  · refine bind_ne_error (t.walk_ne_exists _) fun here => ?_
    split
    · simp
    · split
      · simp
      · split <;> simp

/-! ## Trees without gaps -/

def Rooted (t : FileTree) : Prop :=
  ∀ loc name, t.node? (loc ++ [name]) ≠ none → t.node? loc = some .directory

theorem Rooted.directory (h : t.Rooted) {above : Location} (hloc : t.node? loc ≠ none)
    (habove : above <+: loc) (hne : above ≠ loc) : t.node? above = some .directory := by
  obtain ⟨rest, rfl⟩ := habove
  induction rest using List.reverseRecOn with
  | nil => exact absurd (List.append_nil above).symm hne
  | append_singleton rest name ih =>
    rw [← List.append_assoc] at hloc
    have hfront := h _ _ hloc
    by_cases hrest : rest = []
    · rwa [hrest, List.append_nil] at hfront
    · refine ih ?_ fun hsame => hrest ?_
      · rw [hfront]
        exact Option.some_ne_none _
      · exact (List.append_right_eq_self.mp hsame.symm)

theorem Rooted.put (h : t.Rooted) {name : String} (hhere : t.node? loc = some .directory)
    {n : FileNode} (hnode : n = .directory ∨ t.node? (loc ++ [name]) ≠ some .directory) :
    (t.put (loc ++ [name]) n).Rooted := by
  have hroot : loc ++ [name] ≠ [] := List.append_ne_nil_of_right_ne_nil _ (List.cons_ne_nil _ _)
  intro other name' hother
  rw [node?_put hroot] at hother ⊢
  have hdirectory : t.node? other = some .directory := by
    by_cases hsame : other ++ [name'] = loc ++ [name]
    · rw [List.append_inj_left' hsame rfl]
      exact hhere
    · rw [if_neg hsame] at hother
      exact h _ _ hother
  split
  · rename_i hother
    rw [hnode.resolve_right (not_not_intro (hother ▸ hdirectory))]
  · exact hdirectory

theorem Rooted.makeDirectory (h : t.Rooted) (hmake : t.makeDirectory path = .ok t') : t'.Rooted := by
  have hne : path ≠ "" := by
    rintro rfl
    cases hmake
  obtain ⟨rfl, hnew, hway⟩ := way_of_makeDirectory hne hmake
  obtain hroot | ⟨loc, name, hloc⟩ := List.eq_nil_or_concat' (locationOf path)
  · rw [hroot] at hnew
    cases hnew
  · rw [hloc] at hnew hway ⊢
    have hhere := directory_of_walk (walk_of_way hway) (List.prefix_append loc [name])
    rw [node?_put (List.append_ne_nil_of_right_ne_nil _ (List.cons_ne_nil _ _)), if_neg] at hhere
    · exact h.put hhere (.inl rfl)
    · exact fun hsame => List.cons_ne_nil _ _ (List.append_right_eq_self.mp hsame.symm)

theorem Rooted.writeFile (h : t.Rooted) (hwrite : t.writeFile path content = .ok t') : t'.Rooted := by
  obtain ⟨⟨-, parents, last, hleaf, hwalk, -⟩, hnode, rfl⟩ := writeFile_eq_ok hwrite
  rw [locationOf_of_leafOf hleaf] at hnode ⊢
  exact h.put (directory_of_walk hwalk (List.prefix_refl _)) (.inr hnode)

/-- A file that bars the way only once a missing directory was made lies behind a step up. -/
theorem up_mem_of_late (h : t.Rooted) (hsame : ∀ loc, t.SameFile t' loc)
    (hlate : t.way path = .error .missing) (hbarred : t'.Barred path) : ".." ∈ components path := by
  by_contra hup
  have hcheck := checkPath_of_way hlate (.inl rfl)
  rw [way_of_checkPath hcheck] at hlate
  -- Without steps up, both obstacles lie where the segments up to them say.
  have hplain {front : List String} {segment : String} (h : front ++ [segment] <+: components path) :
      resolve front = front := by
    refine (foldl_advance_names fun s hs => ?_).trans (List.nil_append front)
    have hmem := h.subset (List.mem_append_left _ hs)
    have hmoves : Moves s := by simpa using (List.mem_filter.mp hmem).2
    exact ⟨hmoves.1, hmoves.2, fun hs => hup (hs ▸ hmem)⟩
  obtain ⟨front, segment, hfront, hwalk, -, hmissing⟩ := walk_eq_error hlate
  obtain ⟨front', segment', hfront', -, -, hfile⟩ := walk_eq_error hbarred
  replace hfront' := hfront'.trans (List.dropLast_prefix _)
  rw [hplain hfront] at hwalk hmissing
  rw [hplain hfront'] at hfile
  cases hmissing with
  | missing hmissing =>
    cases hfile with
    | file hfile =>
      replace hfile := (hsame _ _).mp hfile
      have hne : front ++ [segment] ≠ front' ++ [segment'] := by
        intro heq
        rw [heq, hfile] at hmissing
        cases hmissing
      rcases List.prefix_or_prefix_of_prefix hfront hfront' with hle | hle
      · have hthere := h.directory (by rw [hfile]; exact Option.some_ne_none _) hle hne
        cases hthere.symm.trans hmissing
      · have hle := (List.prefix_concat_iff.mp hle).resolve_left hne.symm
        cases (directory_of_walk hwalk hle).symm.trans hfile

end FileTree

/-! ## Plans that were done -/

open FileTree (Alike Rooted)

/-- An action that has been done: its directory is there, or a file lies where it writes. -/
def FileAction.Settled (t : FileTree) : FileAction → Prop
  | .makeDirectories path => ∃ loc, t.way path = .ok loc
  | .write path _ => t.Reaches path ∧ ∃ content, t.node? (locationOf path) = some (.file content)

namespace FileAction

variable {a : FileAction} {t u : FileTree}

theorem Settled.mono (h : a.Settled t) (hkeeps : t.Keeps u) : a.Settled u := by
  cases a with
  | makeDirectories path => exact h.imp fun _ hway => hkeeps.directories.way hway
  | write path content =>
    obtain ⟨hpath, old, hold⟩ := h
    exact ⟨hpath.mono hkeeps.directories, hkeeps.files _ old hold⟩

theorem settled_of_perform (h : a.perform t = (u, none)) : a.Settled u := by
  cases a with
  | makeDirectories path =>
    rw [perform] at h
    obtain ⟨rfl, hnone⟩ := Prod.mk.inj h
    exact FileTree.way_of_makeDirectories (Prod.ext rfl (Option.map_eq_none_iff.mp hnone))
  | write path content =>
    rw [perform] at h
    split at h
    · rename_i hwrite
      obtain rfl := (Prod.mk.inj h).1
      have hkeeps := FileTree.keepsDirectories_of_writeFile hwrite
      obtain ⟨hpath, -, rfl⟩ := FileTree.writeFile_eq_ok hwrite
      exact ⟨hpath.mono hkeeps, content, (FileTree.node?_put hpath.ne_root _ _).trans (if_pos rfl)⟩
    · cases h

/-- What has been done can be done again. -/
theorem Settled.perform (h : a.Settled t) : ∃ u, a.perform t = (u, none) ∧ t.Alike u := by
  cases a with
  | makeDirectories path =>
    obtain ⟨loc, hway⟩ := h
    refine ⟨t, ?_, .refl t⟩
    rw [FileAction.perform, FileTree.makeDirectories_of_way hway]
    rfl
  | write path content =>
    obtain ⟨hpath, old, hold⟩ := h
    have hfree : t.node? (locationOf path) ≠ some .directory := by
      rw [hold]
      simp
    have hwrite := hpath.writeFile hfree content
    refine ⟨_, ?_, FileTree.alike_put hpath.ne_root hold content⟩
    rw [FileAction.perform, hwrite]

theorem rooted_perform (h : t.Rooted) (a : FileAction) : (a.perform t).1.Rooted := by
  cases a with
  | makeDirectories path =>
    exact FileTree.makeDirectories_invariant (P := Rooted) (fun _ _ _ h hmake => h.makeDirectory hmake)
      path h
  | write path content =>
    rw [perform]
    split
    · rename_i hwrite
      exact h.writeFile hwrite
    · exact h

end FileAction

namespace FilePlan

variable {p : FilePlan} {t u : FileTree}

/-- What the first actions did stays done behind the others. -/
theorem settled_of_perform (h : p.perform t = (u, none)) : ∀ a ∈ p, a.Settled u := by
  induction p generalizing t with
  | nil => exact fun a ha => absurd ha List.not_mem_nil
  | cons a p ih =>
    rw [perform] at h
    split at h
    · cases h
    · rename_i next hnext
      have hkeeps := keeps_perform p next
      rw [h] at hkeeps
      rintro b (_ | ⟨_, hb⟩)
      · exact (FileAction.settled_of_perform hnext).mono hkeeps
      · exact ih h b hb

/-- A plan whose actions are done can be done again, and puts nothing in a new place. -/
theorem perform_of_settled (h : ∀ a ∈ p, a.Settled t) : ∃ u, p.perform t = (u, none) ∧ t.Alike u := by
  induction p generalizing t with
  | nil => exact ⟨t, rfl, .refl t⟩
  | cons a p ih =>
    obtain ⟨next, hnext, halike⟩ := (h a List.mem_cons_self).perform
    have hkeeps := a.keeps_perform t
    rw [hnext] at hkeeps
    obtain ⟨u, hu, halike'⟩ := ih fun b hb => (h b (List.mem_cons_of_mem _ hb)).mono hkeeps
    refine ⟨u, ?_, halike.trans halike'⟩
    rw [perform, hnext]
    exact hu

/-- Files that are written twice are as they are after once. -/
theorem overwrite_twice (files : Location → Option String) (ws : List (String × String)) :
    overwrite (overwrite files ws) ws = overwrite files ws := by
  funext loc
  rw [overwrite_eq_or, overwrite_eq_or]
  cases lastWritten ws loc <;> rfl

/-- What a plan has done changes nothing when it is done once more, also in a later tree with the
same files. -/
theorem perform_again {later : FileTree} (h : p.perform t = (u, none)) (hkeeps : u.Keeps later)
    (hfiles : later.file? = u.file?) : p.perform later = (later, none) := by
  obtain ⟨after, hafter, halike⟩ :=
    perform_of_settled fun a ha => (settled_of_perform h a ha).mono hkeeps
  have hsame : after.file? = later.file? := by
    rw [file?_of_perform hafter, hfiles, file?_of_perform h, overwrite_twice]
  rw [hafter, halike.eq hsame]

theorem rooted_perform (h : t.Rooted) (p : FilePlan) : (p.perform t).1.Rooted := by
  induction p generalizing t with
  | nil => exact h
  | cons a p ih =>
    have hstep := FileAction.rooted_perform h a
    rw [perform]
    split
    · rename_i hfault
      rwa [hfault] at hstep
    · rename_i next hnext
      rw [hnext] at hstep
      exact ih hstep

end FilePlan

/-! ## Failures -/

/-- The error of an operation that failed, when it is done once more in the tree that it left. -/
def FileError.again (t : FileTree) (e : FileError) : FileError :=
  ⟨e.path, t.faultAgain e.path e.fault⟩

theorem FileError.again_eq_or (t : FileTree) (e : FileError) :
    e.again t = e ∨ (e.fault = .exists ∧ t.Barred e.path) := by
  by_cases h : e.fault = .exists ∧ t.Barred e.path
  · exact .inr h
  · exact .inl (congrArg (FileError.mk e.path) (if_neg h))

namespace FileAction

variable {a : FileAction} {t u : FileTree} {e : FileError}

theorem fails_again (h : a.perform t = (u, some e)) :
    a.perform u = (u, some (e.again u)) ∧
      (e.fault = .exists → u.Barred e.path → t.Rooted → ".." ∈ components e.path) := by
  cases a with
  | makeDirectories path =>
    have hsame := t.sameFile_makeDirectories path
    rw [perform] at h ⊢
    cases hmake : t.makeDirectories path with
    | mk after fault? =>
      rw [hmake] at h hsame
      obtain ⟨rfl, hfault⟩ := Prod.mk.inj h
      obtain ⟨fault, rfl, rfl⟩ := Option.map_eq_some_iff.mp hfault
      obtain ⟨hfailing, hagain⟩ := FileTree.failing_makeDirectories hmake
      refine ⟨by rw [hagain]; rfl, fun hexists hbarred hrooted => ?_⟩
      exact FileTree.up_mem_of_late hrooted hsame (hfailing.late hexists hbarred) hbarred
  | write path content =>
    rw [perform] at h
    split at h
    · cases h
    · rename_i fault hwrite
      obtain ⟨rfl, he⟩ := Prod.mk.inj h
      obtain rfl := Option.some.inj he
      have hexists : fault ≠ .exists := fun h => t.writeFile_ne_exists path content (h ▸ hwrite)
      refine ⟨?_, fun h => absurd h hexists⟩
      rw [perform, hwrite, FileError.again, FileTree.faultAgain, if_neg fun h => hexists h.1]

end FileAction

/-- A plan that stopped stops at the same action when it is done once more, and changes nothing. -/
theorem FilePlan.fails_again {p : FilePlan} {t u : FileTree} {e : FileError}
    (h : p.perform t = (u, some e)) :
    p.perform u = (u, some (e.again u)) ∧
      (e.fault = .exists → u.Barred e.path → t.Rooted → ".." ∈ components e.path) := by
  obtain ⟨before, a, rest, mid, rfl, hbefore, ha⟩ := exists_of_perform_error h
  have hkeeps := a.keeps_perform mid
  have hrooted (ht : t.Rooted) := rooted_perform ht before
  rw [hbefore] at hrooted
  rw [ha] at hkeeps
  obtain ⟨hagain, hup⟩ := FileAction.fails_again ha
  refine ⟨?_, fun hexists hbarred ht => hup hexists hbarred (hrooted ht)⟩
  rw [perform_append, perform_again hbefore hkeeps (FileAction.file?_of_perform_error ha).1]
  simp only [perform, hagain]

/-! ## Packs -/

namespace Layout

/-- Writing the same contexts again changes nothing. The result is the same as before: the same
files, or an error at the same path. The error has the same reason, too, except that what was found
to exist is found not to be a directory if a file lies on the way to it; when everything lies in a
directory, this needs a step up in the path. -/
theorem write_again (l : Layout) (hooks : Bool) (b : Buffers) (t : FileTree) :
    let first := l.write hooks b t
    let second := l.write hooks b first.1
    second.1 = first.1 ∧
    (∀ files, first.2 = .ok files → second.2 = .ok files) ∧
    ∀ e, first.2 = .error e → second.2 = .error (e.again first.1) ∧
      (e.again first.1 = e ∨
        (e.fault = .exists ∧ first.1.Barred e.path ∧ (t.Rooted → ".." ∈ components e.path))) := by
  intro first second
  cases hfirst : first with
  | mk u result =>
    have hsecond : second = l.write hooks b u := by rw [show u = first.1 by rw [hfirst]]
    rw [hsecond]
    cases result with
    | ok files =>
      obtain ⟨hperform, rfl⟩ := perform_of_write_ok hfirst
      have hagain : l.write hooks b u = (u, .ok (l.files hooks b)) := by
        rw [write, FilePlan.perform_again hperform (.refl u) rfl]
      rw [hagain]
      refine ⟨rfl, fun files h => h, fun e h => ?_⟩
      cases h
    | error e =>
      obtain ⟨hperform, hup⟩ := FilePlan.fails_again (perform_of_write_error hfirst)
      have hagain : l.write hooks b u = (u, .error (e.again u)) := by
        rw [write, hperform]
      rw [hagain]
      refine ⟨rfl, fun files h => ?_, fun e' he => ?_⟩
      · cases h
      obtain rfl := Except.error.inj he
      refine ⟨rfl, ?_⟩
      rcases e.again_eq_or u with hsame | ⟨hexists, hbarred⟩
      · exact .inl hsame
      · exact .inr ⟨hexists, hbarred, hup hexists hbarred⟩

/-- The file of the first context lies where the second one needs a directory, both times. -/
theorem write_again_stopped :
    let l : Layout := ⟨"out", "demo", {}⟩
    let b := Buffers.ofList [("a", ["say a"]), ("a.mcfunction/b", ["say b"])]
    let first := l.write false b .empty
    first.2 = .error ⟨"out/demo/functions/a.mcfunction", .exists⟩ ∧
    l.write false b first.1 = first := by
  intro l b first
  have hfirst : first.2 = .error ⟨"out/demo/functions/a.mcfunction", .exists⟩ := by decide +kernel
  obtain ⟨htree, -, herror⟩ := l.write_again false b .empty
  obtain ⟨hsecond, hsame⟩ := herror _ hfirst
  have hfree : ¬ first.1.Barred "out/demo/functions/a.mcfunction" := by decide +kernel
  rw [hsame.resolve_right fun hother => hfree hother.2.1] at hsecond
  exact ⟨hfirst, Prod.ext htree (hsecond.trans hfirst.symm)⟩

/-- The first write makes the directory `build`, and finds that `out` exists; the second one comes
through `build` and finds that `out` is not a directory. -/
theorem second_error_differs :
    let l : Layout := ⟨"build/../out", "demo", {}⟩
    let b := Buffers.ofList [("default", ["say hi"])]
    let t := FileTree.empty.put ["out"] (.file "text")
    let first := l.write false b t
    first.2 = .error ⟨"build/../out/demo/functions", .exists⟩ ∧
    (l.write false b first.1).2 = .error ⟨"build/../out/demo/functions", .notDirectory⟩ := by
  decide +kernel

end Layout

end CommandPack
