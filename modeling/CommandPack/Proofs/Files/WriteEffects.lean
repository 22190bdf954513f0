import CommandPack.Proofs.Contexts
import CommandPack.Proofs.Files.Containment
import CommandPack.Proofs.Files.Directories

namespace CommandPack

open FileTree (locationOf components trail)

/-! ## Files under writes -/

namespace FileTree

variable {t t' : FileTree} {loc : Location}

def file? (t : FileTree) (loc : Location) : Option String :=
  match t.node? loc with
  | some (.file content) => some content
  | some .directory | none => none

theorem file?_eq_some {content : String} :
    t.file? loc = some content ↔ t.node? loc = some (.file content) := by
  unfold file?
  split <;> simp_all

theorem SameFile.file? (h : t.SameFile t' loc) : t'.file? loc = t.file? loc :=
  Option.ext fun content => file?_eq_some.trans ((h content).trans file?_eq_some.symm)

/-- Nothing is removed: directories stay directories, and files stay files. -/
structure Keeps (t t' : FileTree) : Prop where
  directories : t.KeepsDirectories t'
  files : ∀ loc content, t.node? loc = some (.file content) →
    ∃ content', t'.node? loc = some (.file content')

theorem Keeps.refl (t : FileTree) : t.Keeps t := ⟨fun _ h => h, fun _ content h => ⟨content, h⟩⟩

theorem Keeps.trans {u : FileTree} (h : t.Keeps t') (h' : t'.Keeps u) : t.Keeps u :=
  ⟨fun loc hloc => h'.directories loc (h.directories loc hloc), fun loc content hloc =>
    (h.files loc content hloc).elim fun content' hloc' => h'.files loc content' hloc'⟩

end FileTree

/-- Files after whole files were written over them, one after the other. -/
def overwrite (files : Location → Option String) (ws : List (String × String)) :
    Location → Option String :=
  ws.foldl (fun files w loc => if loc = locationOf w.1 then some w.2 else files loc) files

theorem overwrite_append (files : Location → Option String) (vs ws : List (String × String)) :
    overwrite files (vs ++ ws) = overwrite (overwrite files vs) ws := List.foldl_append

/-- At each location lies what was written there last, or else what was there before. -/
theorem overwrite_eq_or (files : Location → Option String) (ws : List (String × String))
    (loc : Location) : overwrite files ws loc = (lastWritten ws loc).or (files loc) := by
  induction ws using List.reverseRecOn with
  | nil => rfl
  | append_singleton ws w ih =>
    rw [overwrite_append, lastWritten_concat]
    change (if loc = locationOf w.1 then some w.2 else overwrite files ws loc) = _
    rw [ih]
    by_cases hloc : locationOf w.1 = loc
    · rw [if_pos hloc, if_pos hloc.symm]
      rfl
    · rw [if_neg hloc, if_neg (Ne.symm hloc)]

/-! ## Plans -/

def FileAction.path : FileAction → String
  | .makeDirectories path | .write path _ => path

namespace FileAction

variable {a : FileAction} {t u : FileTree}

theorem file?_of_perform (h : a.perform t = (u, none)) :
    u.file? = overwrite t.file? (FilePlan.writes [a]) := by
  funext loc
  cases a with
  | makeDirectories path =>
    have hsame := t.sameFile_makeDirectories path loc
    simp only [perform] at h
    obtain ⟨rfl, -⟩ := Prod.mk.inj h
    exact hsame.file?
  | write path content =>
    simp only [perform] at h
    cases hwrite : t.writeFile path content with
    | error fault => simp [hwrite] at h
    | ok after =>
      simp only [hwrite, Prod.mk.injEq, and_true] at h
      subst h
      obtain ⟨hpath, -, rfl⟩ := FileTree.writeFile_eq_ok hwrite
      change _ = if loc = locationOf path then some content else t.file? loc
      rw [FileTree.file?, FileTree.node?_put hpath.ne_root]
      by_cases hloc : loc = locationOf path
      · rw [if_pos hloc, if_pos hloc]
      · rw [if_neg hloc, if_neg hloc]
        rfl

/-- An action that fails changes no file. -/
theorem file?_of_perform_error {e : FileError} (h : a.perform t = (u, some e)) :
    u.file? = t.file? ∧ e.path = a.path := by
  cases a with
  | makeDirectories path =>
    have hsame := t.sameFile_makeDirectories path
    simp only [perform] at h
    obtain ⟨rfl, hfault⟩ := Prod.mk.inj h
    obtain ⟨fault, -, rfl⟩ := Option.map_eq_some_iff.mp hfault
    exact ⟨funext fun loc => (hsame loc).file?, rfl⟩
  | write path content =>
    simp only [perform] at h
    cases hwrite : t.writeFile path content with
    | ok after => simp [hwrite] at h
    | error fault =>
      simp only [hwrite, Prod.mk.injEq, Option.some.injEq] at h
      obtain ⟨rfl, rfl⟩ := h
      exact ⟨rfl, rfl⟩

/-- An action removes nothing, whether it succeeds or not. -/
theorem keeps_perform (a : FileAction) (t : FileTree) : t.Keeps (a.perform t).1 := by
  cases a with
  | makeDirectories path =>
    have hext := t.extends_makeDirectories path
    exact ⟨hext.keepsDirectories, fun loc content hloc => ⟨content, hext loc _ hloc⟩⟩
  | write path content =>
    simp only [perform]
    cases hwrite : t.writeFile path content with
    | error fault => exact .refl t
    | ok after =>
      refine ⟨FileTree.keepsDirectories_of_writeFile hwrite, fun loc old hloc => ?_⟩
      obtain ⟨hpath, -, rfl⟩ := FileTree.writeFile_eq_ok hwrite
      rw [FileTree.node?_put hpath.ne_root]
      split
      · exact ⟨content, rfl⟩
      · exact ⟨old, hloc⟩

/-- What an action adds is the file that it writes or a directory on its path. -/
theorem new_of_perform {loc : Location} {n : FileNode} (hold : t.node? loc = none)
    (hnew : (a.perform t).1.node? loc = some n) :
    (∃ w ∈ FilePlan.writes [a], loc = locationOf w.1 ∧ n = .file w.2) ∨
      (n = .directory ∧ ∃ path, a = .makeDirectories path ∧ loc ∈ trail path) := by
  cases a with
  | makeDirectories path =>
    rcases t.grows_makeDirectories path loc with hsame | ⟨hloc, -, hdirectory⟩
    · rw [hold] at hsame
      cases hsame.symm.trans hnew
    · exact .inr ⟨Option.some.inj (hnew.symm.trans hdirectory), path, rfl, hloc⟩
  | write path content =>
    simp only [perform] at hnew
    cases hwrite : t.writeFile path content with
    | error fault =>
      simp only [hwrite, hold, reduceCtorEq] at hnew
    | ok after =>
      simp only [hwrite] at hnew
      obtain ⟨hpath, -, rfl⟩ := FileTree.writeFile_eq_ok hwrite
      rw [FileTree.node?_put hpath.ne_root] at hnew
      split at hnew
      · rename_i hloc
        exact .inl ⟨_, List.mem_cons_self, hloc, (Option.some.inj hnew).symm⟩
      · rw [hold] at hnew
        cases hnew

end FileAction

namespace FilePlan

variable {p : FilePlan} {t u : FileTree}

theorem writes_cons (a : FileAction) (p : FilePlan) :
    FilePlan.writes (a :: p) = FilePlan.writes [a] ++ p.writes := writes_append [a] p

/-- A plan that is done to its end has put all that it writes over the files. -/
theorem file?_of_perform (h : p.perform t = (u, none)) : u.file? = overwrite t.file? p.writes := by
  induction p generalizing t with
  | nil =>
    obtain rfl := (Prod.mk.inj h).1
    rfl
  | cons a p ih =>
    rw [perform] at h
    split at h
    · cases h
    · rename_i next hnext
      rw [writes_cons, overwrite_append, ← FileAction.file?_of_perform hnext]
      exact ih h

/-- A plan that fails has done the actions in front of the one that failed. -/
theorem exists_of_perform_error {e : FileError} (h : p.perform t = (u, some e)) :
    ∃ before a rest mid, p = before ++ a :: rest ∧ FilePlan.perform before t = (mid, none) ∧
      a.perform mid = (u, some e) := by
  induction p generalizing t with
  | nil => cases h
  | cons a p ih =>
    rw [perform] at h
    split at h
    · rename_i hfault
      exact ⟨[], a, p, t, rfl, rfl, hfault.trans h⟩
    · rename_i next hnext
      obtain ⟨before, b, rest, mid, rfl, hbefore, hb⟩ := ih h
      refine ⟨a :: before, b, rest, mid, rfl, ?_, hb⟩
      rw [perform, hnext]
      exact hbefore

theorem keeps_perform (p : FilePlan) (t : FileTree) : t.Keeps (p.perform t).1 := by
  induction p generalizing t with
  | nil => exact .refl t
  | cons a p ih =>
    have hstep := a.keeps_perform t
    rw [perform]
    split
    · rename_i hfault
      rwa [hfault] at hstep
    · rename_i next hnext
      rw [hnext] at hstep
      exact hstep.trans (ih next)

/-- What the first action has done is kept by the others. -/
theorem keeps_perform_cons (a : FileAction) (p : FilePlan) (t : FileTree) :
    (a.perform t).1.Keeps (FilePlan.perform (a :: p) t).1 := by
  rw [perform]
  split
  · rename_i hfault
    rw [hfault]
    exact .refl _
  · rename_i next hnext
    rw [hnext]
    exact keeps_perform p next

/-- What a plan adds is a file that it writes or a directory on a path that it makes. -/
theorem new_of_perform {loc : Location} {n : FileNode} (hold : t.node? loc = none)
    (hnew : (p.perform t).1.node? loc = some n) :
    (∃ w ∈ p.writes, loc = locationOf w.1 ∧ ∃ content, n = .file content) ∨
      (n = .directory ∧ ∃ path, .makeDirectories path ∈ p ∧ loc ∈ trail path) := by
  induction p generalizing t with
  | nil =>
    rw [perform, hold] at hnew
    cases hnew
  | cons a p ih =>
    have hkeeps := keeps_perform_cons a p t
    have hfirst {m : FileNode} := FileAction.new_of_perform (a := a) (n := m) hold
    rw [perform] at hnew hkeeps
    rw [writes_cons]
    generalize a.perform t = result at hnew hfirst hkeeps
    obtain ⟨u, fault⟩ := result
    cases hu : u.node? loc with
    | none =>
      cases fault with
      | some e => cases hu.symm.trans hnew
      | none =>
        rcases ih hu hnew with ⟨w, hw, hfile⟩ | ⟨hn, path, hpath, hloc⟩
        · exact .inl ⟨w, List.mem_append_right _ hw, hfile⟩
        · exact .inr ⟨hn, path, List.mem_cons_of_mem _ hpath, hloc⟩
    | some m =>
      -- What the first action adds stays a file or a directory.
      rcases hfirst hu with ⟨w, hw, hloc, rfl⟩ | ⟨rfl, path, rfl, hloc⟩
      · obtain ⟨content, hfile⟩ := hkeeps.files loc _ hu
        exact .inl ⟨w, List.mem_append_left _ hw, hloc, content,
          Option.some.inj (hnew.symm.trans hfile)⟩
      · exact .inr ⟨Option.some.inj (hnew.symm.trans (hkeeps.directories loc hu)), path,
          List.mem_cons_self, hloc⟩

end FilePlan

/-! ## Directories of a pack -/

namespace FileTree

theorem components_append_slash (front back : String) :
    components (front ++ "/" ++ back) = components front ++ components back := by
  rw [components, pathSegments_append_slash, moves_append]
  rfl

/-- A path below another one leads on from it. -/
theorem components_join (base : String) {path : String} (h : path.toList.head? ≠ some '/') :
    components (FilePath.join base path) = components base ++ components path := by
  rcases join_cases base h with ⟨rfl, hjoin⟩ | ⟨front, rfl, hjoin⟩ | hjoin
  · rw [hjoin]
    rfl
  · have hfront : components (front ++ "/") = components front := by
      rw [← String.append_empty (s := front ++ "/"), components_append_slash]
      exact List.append_nil _
    rw [hjoin, hfront, components_append_slash]
  · rw [hjoin, components_append_slash]

/-- The directories that a path names in front of its last component, from the root on. -/
def directoriesTo (path : String) : List Location := (components path).dropLast.inits.map resolve

theorem directoriesTo_of_components {above : String}
    (h : components above = (components path).dropLast) : trail above = directoriesTo path := by
  rw [trail, h, directoriesTo]

end FileTree

namespace Layout

variable (l : Layout) {hooks : Bool} {b : Buffers}

theorem trail_hooksDir {h : String × String} (hh : h ∈ l.hooks) :
    trail l.hooksDir = FileTree.directoriesTo (l.hookPath h.1) := by
  refine FileTree.directoriesTo_of_components ?_
  have hname : (h.1 ++ ".json").toList.head? ≠ some '/' ∧
      components (h.1 ++ ".json") = [h.1 ++ ".json"] := by
    rcases name_of_mem_hooks hh with hname | hname <;> rw [hname] <;> decide +kernel
  rw [hookPath, FileTree.components_join _ hname.1, hname.2, List.dropLast_concat]

/-- A plan makes the directory of all functions, and else only directories on the way to its
files. -/
theorem trail_of_mem_plan {path : String} (h : .makeDirectories path ∈ l.plan hooks b) :
    path = l.functionsDir ∨
      ∃ w ∈ l.written hooks b, trail path = FileTree.directoriesTo w.1 := by
  rw [plan, List.mem_append] at h
  rcases h with h | h
  · cases hooks with
    | false => exact absurd h List.not_mem_nil
    | true =>
      rcases List.mem_cons.mp h with hpath | h
      · obtain rfl := FileAction.makeDirectories.inj hpath
        have hload : ("load", l.settings.defaultContext) ∈ l.hooks := List.mem_cons_self
        exact .inr ⟨_, (l.mem_written true b).mpr (.inl ⟨rfl, _, hload, rfl⟩), l.trail_hooksDir hload⟩
      · obtain ⟨hook, -, hpath⟩ := List.mem_map.mp h
        cases hpath
  · rcases List.mem_cons.mp h with hpath | h
    · exact .inl (FileAction.makeDirectories.inj hpath)
    · obtain ⟨e, he, h⟩ := List.mem_flatMap.mp h
      refine .inr ⟨_, (l.mem_written hooks b).mpr (.inr ⟨e, he, rfl⟩), ?_⟩
      rcases List.mem_append.mp h with h | h
      · obtain ⟨above, habove, hpath⟩ := Option.map_eq_some_iff.mp (Option.mem_toList.mp h)
        obtain rfl := FileAction.makeDirectories.inj hpath
        exact FileTree.directoriesTo_of_components (FileTree.components_of_parent? habove).1
      · cases List.mem_singleton.mp h

/-- A plan never ends in front of a file that is still to be written. -/
theorem exists_writes_cons (hb : b.keys ≠ []) {before rest : FilePlan} {a : FileAction}
    (h : l.plan hooks b = before ++ a :: rest) :
    ∃ w ws, FilePlan.writes (a :: rest) = w :: ws := by
  have hlast : ∃ path content, (l.plan hooks b).getLast? = some (.write path content) := by
    obtain hnil | ⟨es, e, hes⟩ := List.eq_nil_or_concat' b.entries
    · exact absurd (congrArg (List.map Prod.fst) hnil) hb
    · refine ⟨l.functionPath e.1, Buffers.joinLines e.2, ?_⟩
      rw [plan, functionsPlan, hes, List.flatMap_append, List.flatMap_singleton, functionPlan,
        ← List.cons_append, ← List.append_assoc, ← List.append_assoc, List.getLast?_concat]
  obtain ⟨path, content, hlast⟩ := hlast
  rw [h, List.getLast?_append_cons] at hlast
  have hmem : (path, content) ∈ FilePlan.writes (a :: rest) :=
    List.mem_filterMap.mpr ⟨_, List.mem_of_getLast? hlast, rfl⟩
  exact List.exists_cons_of_ne_nil (List.ne_nil_of_mem hmem)

variable {l} {t u : FileTree}

theorem perform_of_write_ok {files : WrittenFiles} (h : l.write hooks b t = (u, .ok files)) :
    (l.plan hooks b).perform t = (u, none) ∧ files = l.files hooks b := by
  rw [write] at h
  split at h
  · cases h
  · rename_i hperform
    obtain ⟨rfl, hfiles⟩ := Prod.mk.inj h
    exact ⟨hperform, (Except.ok.inj hfiles).symm⟩

theorem perform_of_write_error {e : FileError} (h : l.write hooks b t = (u, .error e)) :
    (l.plan hooks b).perform t = (u, some e) := by
  rw [write] at h
  split at h
  · rename_i hperform
    obtain ⟨rfl, he⟩ := Prod.mk.inj h
    rwa [← Except.error.inj he]
  · cases h

end Layout

/-! ## Packs -/

namespace Pack

theorem write_of_build {p : Pack} {b : Buffers} (h : p.build = .ok b) (directory : String)
    (hooks : Bool) (t : FileTree) :
    p.write directory hooks t =
      (((p.layout directory).write hooks b t).1,
        ((p.layout directory).write hooks b t).2.mapError .file) := by
  simp only [write, h]
  generalize (p.layout directory).write hooks b t = result
  obtain ⟨u, files | e⟩ := result <;> rfl

theorem keys_ne_nil {p : Pack} {b : Buffers} (h : p.build = .ok b) : b.keys ≠ [] := by
  have hdefault : p.settings.defaultContext ∈ b.keys := by
    rw [build_eq_ok h]
    exact (p.script.mem_keys_run p.space p.settings _).mpr (.inl rfl)
  exact List.ne_nil_of_mem hdefault

/-- What writing a pack does to a tree. A run that fails leaves the tree as it is. Otherwise only
the files of the pack change, nothing is removed, and what is new is one of these files or a
directory that the path to one names, or the path to the directory of the functions. After a write
that stops, the files are those of before with the files written that come in front of the one that
could not be written: its own write failed, or that of a directory for it. -/
theorem write_effects (p : Pack) (directory : String) (hooks : Bool) (t : FileTree) :
    let l := p.layout directory
    let after := (p.write directory hooks t).1
    (∀ e, p.build = .error e → p.write directory hooks t = (t, .error (.build e))) ∧
    ∀ b, p.build = .ok b →
      (∀ loc, (∀ w ∈ l.written hooks b, loc ≠ locationOf w.1) → after.file? loc = t.file? loc) ∧
      t.Keeps after ∧
      (∀ loc n, t.node? loc = none → after.node? loc = some n →
        (∃ w ∈ l.written hooks b, loc = locationOf w.1 ∧ ∃ content, n = .file content) ∨
        (n = .directory ∧ (loc ∈ trail l.functionsDir ∨
          ∃ w ∈ l.written hooks b, loc ∈ FileTree.directoriesTo w.1))) ∧
      (∀ files, (p.write directory hooks t).2 = .ok files →
        files = l.files hooks b ∧ after.file? = overwrite t.file? (l.written hooks b)) ∧
      ∀ e, (p.write directory hooks t).2 = .error e →
        ∃ before a rest fault w ws, l.plan hooks b = before ++ a :: rest ∧
          e = .file ⟨a.path, fault⟩ ∧ FilePlan.writes (a :: rest) = w :: ws ∧
          l.written hooks b = FilePlan.writes before ++ w :: ws ∧
          after.file? = overwrite t.file? (FilePlan.writes before) := by
  intro l after
  refine ⟨fun e he => by rw [write, he], fun b hb => ?_⟩
  have hafter : after = ((l.plan hooks b).perform t).1 := write_tree hb directory hooks t
  have hresult : (p.write directory hooks t).2 = (l.write hooks b t).2.mapError .file := by
    rw [write_of_build hb]
  rw [hafter, hresult]
  refine ⟨fun loc hloc => ?_, FilePlan.keeps_perform _ t, fun loc n hold hnew => ?_,
    fun files hfiles => ?_, fun e he => ?_⟩
  · rw [← l.writes_plan] at hloc
    exact (FilePlan.sameFile_perform hloc t).file?
  · rcases FilePlan.new_of_perform hold hnew with hfile | ⟨hn, path, hpath, hloc⟩
    · rw [l.writes_plan] at hfile
      exact .inl hfile
    · refine .inr ⟨hn, ?_⟩
      rcases l.trail_of_mem_plan hpath with rfl | ⟨w, hw, htrail⟩
      · exact .inl hloc
      · exact .inr ⟨w, hw, htrail ▸ hloc⟩
  · cases hwrite : l.write hooks b t with
    | mk u result =>
      cases result with
      | error e =>
        rw [hwrite] at hfiles
        cases hfiles
      | ok written =>
        rw [hwrite] at hfiles
        obtain rfl := Except.ok.inj hfiles
        obtain ⟨hperform, hwritten⟩ := Layout.perform_of_write_ok hwrite
        rw [hperform, ← l.writes_plan]
        exact ⟨hwritten, FilePlan.file?_of_perform hperform⟩
  · cases hwrite : l.write hooks b t with
    | mk u result =>
      cases result with
      | ok written =>
        rw [hwrite] at he
        cases he
      | error e' =>
        rw [hwrite] at he
        obtain rfl := Except.error.inj he
        have hperform := Layout.perform_of_write_error hwrite
        obtain ⟨before, a, rest, mid, hplan, hbefore, ha⟩ :=
          FilePlan.exists_of_perform_error hperform
        obtain ⟨hsame, hpath⟩ := FileAction.file?_of_perform_error ha
        obtain ⟨w, ws, hrest⟩ := l.exists_writes_cons (keys_ne_nil hb) hplan
        refine ⟨before, a, rest, e'.fault, w, ws, hplan, by rw [← hpath], hrest, ?_, ?_⟩
        · rw [← l.writes_plan, hplan, FilePlan.writes_append, hrest]
        · rw [hperform, hsame, FilePlan.file?_of_perform hbefore]

def blocked : Pack where
  space := "demo"
  settings := {}
  script :=
    .inside (.function "a" none) false (.act (.emit "say a") false .done) <|
    .inside (.function "a.mcfunction/b" none) false (.act (.emit "say b") false .done) <|
    .inside (.function "c" none) false (.act (.emit "say c") false .done) .done
  accepted := Settings.fault?_demo

theorem write_effects_blocked :
    let l := blocked.layout "out"
    let after := (blocked.write "out" false .empty).1
    (blocked.write "out" false .empty).2 =
      .error (.file ⟨"out/demo/functions/a.mcfunction", .exists⟩) ∧
    after.file? ["out", "demo", "functions", "a.mcfunction"] = some "say a" ∧
    after.file? ["out", "demo", "functions", "c.mcfunction"] = none ∧
    ∃ b before w ws, blocked.build = .ok b ∧ l.written false b = before ++ w :: ws ∧
      after.file? = overwrite FileTree.empty.file? before := by
  intro l after
  have hfailed : (blocked.write "out" false .empty).2 =
      .error (.file ⟨"out/demo/functions/a.mcfunction", .exists⟩) := by decide +kernel
  obtain ⟨hbuild, heffects⟩ := blocked.write_effects "out" false .empty
  refine ⟨hfailed, by decide +kernel, by decide +kernel, ?_⟩
  cases hb : blocked.build with
  | error e =>
    rw [hbuild e hb] at hfailed
    cases hfailed
  | ok b =>
    obtain ⟨-, -, -, -, hstopped⟩ := heffects b hb
    obtain ⟨before, a, rest, fault, w, ws, -, -, -, hwritten, hfiles⟩ := hstopped _ hfailed
    exact ⟨b, _, w, ws, rfl, hwritten, hfiles⟩

end Pack

end CommandPack
