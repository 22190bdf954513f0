import CommandPack.Proofs.Files.WriteEffects
import Mathlib.Data.List.Perm.Subperm

namespace CommandPack

open FileTree (locationOf pathSegments directoriesTo IsName)

/-! ## Keyed lists up to order -/

namespace KeyedList

variable {κ ν : Type}

theorem nodup_entries (m : KeyedList κ ν) : m.entries.Nodup := .of_map _ m.distinct

variable [DecidableEq κ] {m n : KeyedList κ ν}

/-- Two keyed lists find the same exactly if one is an arrangement of the other. -/
theorem perm_iff : m.entries.Perm n.entries ↔ ∀ k, m.get? k = n.get? k := by
  rw [List.perm_ext_iff_of_nodup m.nodup_entries n.nodup_entries]
  constructor
  · exact fun h k => Option.ext fun v => by rw [get?_eq_some_iff, get?_eq_some_iff, h]
  · intro h ⟨k, v⟩
    rw [← get?_eq_some_iff, ← get?_eq_some_iff, h]

end KeyedList

theorem Buffers.agree_iff_perm {a b : Buffers} :
    a.agree b = true ↔ a.entries.Perm b.entries := by
  have hall : (a.entries.all fun e => b.get? e.1 == some e.2) = true ↔ a.entries ⊆ b.entries := by
    rw [List.all_eq_true]
    exact forall₂_congr fun e _ => by rw [beq_iff_eq, b.get?_eq_some_iff]
  rw [agree, Bool.and_eq_true, beq_iff_eq, hall]
  constructor
  · rintro ⟨hsize, hsub⟩
    exact (a.nodup_entries.subperm hsub).perm_of_length_le hsize.ge
  · exact fun h => ⟨h.length_eq, h.subset⟩

/-! ## Files put in place -/

abbrev Nodes := Location → Option FileNode

/-- A file to be put at a location, with the directories that are made for it. -/
structure Placement where
  directories : List Location
  target : Location
  content : String

namespace Placement

variable {x y : Placement} {f g : Nodes}

/-- No file is in the way of a directory, and no directory in that of the file. -/
structure Fits (x : Placement) (f : Nodes) : Prop where
  directories : ∀ loc ∈ x.directories, ∀ content, f loc ≠ some (.file content)
  target : f x.target ≠ some .directory

def place (x : Placement) (f : Nodes) : Nodes := fun loc =>
  if loc = x.target then some (.file x.content)
  else if loc ∈ x.directories then some .directory else f loc

theorem place_target (x : Placement) (f : Nodes) : x.place f x.target = some (.file x.content) :=
  if_pos rfl

theorem place_directory {loc : Location} (hne : loc ≠ x.target) (hloc : loc ∈ x.directories)
    (f : Nodes) : x.place f loc = some .directory :=
  (if_neg hne).trans (if_pos hloc)

theorem place_other {loc : Location} (hne : loc ≠ x.target) (hloc : loc ∉ x.directories)
    (f : Nodes) : x.place f loc = f loc :=
  (if_neg hne).trans (if_neg hloc)

/-- If a file can be put after another one, neither lies where the other needs a directory. -/
theorem notMem_directories (hne : x.target ≠ y.target) (hy : y.Fits (x.place f)) :
    x.target ∉ y.directories ∧ y.target ∉ x.directories := by
  refine ⟨fun hmem => hy.directories _ hmem _ (place_target x f), fun hmem => hy.target ?_⟩
  exact place_directory hne.symm hmem f

/-- Files in different places fit in either order. -/
theorem fits_swap (hne : x.target ≠ y.target) (hx : x.Fits f) (hy : y.Fits (x.place f)) :
    y.Fits f ∧ x.Fits (y.place f) := by
  obtain ⟨hxy, hyx⟩ := notMem_directories hne hy
  refine ⟨⟨fun loc hloc content hfile => ?_, ?_⟩, ⟨fun loc hloc content hfile => ?_, ?_⟩⟩
  · by_cases hmem : loc ∈ x.directories
    · exact hx.directories loc hmem content hfile
    · refine hy.directories loc hloc content ?_
      rwa [place_other (fun h => hxy (h ▸ hloc)) hmem]
  · have htarget := hy.target
    rwa [place_other hne.symm hyx] at htarget
  · have hloc' : loc ≠ y.target := fun h => hyx (h ▸ hloc)
    by_cases hmem : loc ∈ y.directories
    · rw [place_directory hloc' hmem] at hfile
      cases hfile
    · rw [place_other hloc' hmem] at hfile
      exact hx.directories loc hloc content hfile
  · rw [place_other hne hxy]
    exact hx.target

theorem place_comm (hne : x.target ≠ y.target) (hy : y.Fits (x.place f)) :
    y.place (x.place f) = x.place (y.place f) := by
  obtain ⟨hxy, hyx⟩ := notMem_directories hne hy
  funext loc
  unfold place
  by_cases hx : loc = x.target
  · simp only [hx, hne, hxy, if_true, if_false]
  · by_cases hy : loc = y.target
    · simp only [hy, hne.symm, hyx, if_true, if_false]
    · by_cases hdirectory : loc ∈ x.directories <;>
        simp only [hx, hy, hdirectory, if_true, if_false, ite_self]

inductive Placed : Nodes → List Placement → Nodes → Prop
  | nil (f : Nodes) : Placed f [] f
  | cons {f g : Nodes} {x : Placement} {xs : List Placement} (h : x.Fits f)
    (hrest : Placed (x.place f) xs g) : Placed f (x :: xs) g

theorem placed_nil : Placed f [] g ↔ f = g := by
  constructor
  · intro h
    cases h
    rfl
  · rintro rfl
    exact .nil f

theorem placed_cons {xs : List Placement} :
    Placed f (x :: xs) g ↔ x.Fits f ∧ Placed (x.place f) xs g := by
  constructor
  · intro h
    cases h with
    | cons hx hrest => exact ⟨hx, hrest⟩
  · rintro ⟨hx, hrest⟩
    exact .cons hx hrest

/-- Files in different places can be put there in any order. -/
theorem Placed.perm {xs ys : List Placement} (h : Placed f xs g) (hperm : xs.Perm ys)
    (happart : xs.Pairwise (·.target ≠ ·.target)) : Placed f ys g := by
  induction hperm generalizing f with
  | nil => exact h
  | cons x _ ih =>
    obtain ⟨hx, hrest⟩ := placed_cons.mp h
    exact .cons hx (ih hrest (List.pairwise_cons.mp happart).2)
  | swap x y xs =>
    obtain ⟨hy, hrest⟩ := placed_cons.mp h
    obtain ⟨hx, hrest⟩ := placed_cons.mp hrest
    have hne := (List.pairwise_cons.mp happart).1 x List.mem_cons_self
    obtain ⟨hx', hy'⟩ := fits_swap hne hy hx
    exact .cons hx' (.cons hy' (place_comm hne hx ▸ hrest))
  | trans hxy _ ih ih' =>
    exact ih' (ih h happart) (hxy.pairwise happart fun h => h.symm)

end Placement

/-! ## Files with their directories -/

namespace FileTree

variable {t u : FileTree} {loc : Location} {path above content : String}

theorem Reaches.walk (h : t.Reaches path) : ∃ loc, t.walk (components path).dropLast = .ok loc := by
  obtain ⟨-, parents, last, hleaf, hwalk, -⟩ := h
  rw [(components_of_leafOf hleaf).2, List.dropLast_concat, ← walk_moves]
  exact ⟨_, hwalk⟩

/-- A path that can be gone in one tree can be gone in every tree that has its directories. -/
theorem Reaches.of_walk (h : t.Reaches path) (hwalk : u.walk (components path).dropLast = .ok loc) :
    u.Reaches path := by
  obtain ⟨hcheck, parents, last, hleaf, -, hname⟩ := h
  rw [(components_of_leafOf hleaf).2, List.dropLast_concat, ← walk_moves] at hwalk
  exact ⟨hcheck, parents, last, hleaf, by rw [hwalk, eq_resolve_of_walk hwalk], hname⟩

theorem resolve_concat {front : List String} {segment : String} (h : IsName segment) :
    resolve (front ++ [segment]) = resolve front ++ [segment] := by
  rw [resolve, List.foldl_append, foldl_advance_names (List.forall_mem_singleton.mpr h), resolve]

/-- A name that was gone through is not too long. -/
theorem size_le_of_walk {front : List String} {segment : String}
    (h : u.walk (front ++ [segment]) = .ok loc) (hname : IsName segment) :
    segment.utf8ByteSize ≤ maxName := by
  by_contra hlong
  rw [walk_append] at h
  cases hfront : u.walk front with
  | error fault => simp only [hfront, reduceCtorEq] at h
  | ok here =>
    simp only [hfront, foldlM_step_cons, step_name hname, if_pos (Nat.lt_of_not_le hlong),
      reduceCtorEq] at h

/-- Directories can be made if no name of them is too long and no file lies on the way. -/
theorem makeDirectories_of_clear (hcheck : checkPath path = .ok ()) (htight : Tight path)
    (hsomewhere : u.walk (components path) = .ok loc)
    (hclear : ∀ loc ∈ trail path, ∀ content, t.node? loc ≠ some (.file content)) :
    ∃ t', t.makeDirectories path = (t', none) := by
  have hsame := t.sameFile_makeDirectories path
  cases hmake : t.makeDirectories path with
  | mk t' fault? =>
    cases fault? with
    | none => exact ⟨t', rfl⟩
    | some fault =>
      exfalso
      rw [hmake] at hsame
      have hfailing := (failing_makeDirectories hmake).1
      have hmissing : fault ≠ .missing := fun h => hfailing.loose h htight
      obtain ⟨g, hg, hway⟩ : ∃ g, g ≠ .missing ∧ t'.way path = .error g := by
        rcases hfailing.way with hway | ⟨-, hway⟩
        · exact ⟨fault, hmissing, hway⟩
        · exact ⟨_, by decide, hway⟩
      rw [way_of_checkPath hcheck] at hway
      obtain ⟨front, segment, hfront, -, hname, hobstacle⟩ := walk_eq_error hway
      cases hobstacle with
      | long hlong =>
        exact Nat.not_lt.mpr (size_le_of_walk (walk_front hsomewhere hfront) hname) hlong
      | missing => exact hg rfl
      | file hfile =>
        exact hclear _ (mem_trail.mpr ⟨_, hfront, resolve_concat hname⟩) _ ((hsame _ _).mp hfile)

end FileTree

def Placement.of (path content : String) : Placement where
  directories := directoriesTo path
  target := locationOf path
  content := content

/-- A path that can lead to a file which does not lie where the path needs a directory. -/
structure Open (path : String) : Prop where
  reaches : ∃ u : FileTree, u.Reaches path
  apart : locationOf path ∉ directoriesTo path

namespace FilePlan

variable {t u : FileTree} {path above content : String}

theorem perform_pair :
    FilePlan.perform [.makeDirectories above, .write path content] t = (u, none) ↔
      ∃ mid, t.makeDirectories above = (mid, none) ∧ mid.writeFile path content = .ok u := by
  simp only [perform, FileAction.perform]
  cases hmake : t.makeDirectories above with
  | mk mid fault =>
    cases fault with
    | some fault => simp
    | none =>
      cases hwrite : mid.writeFile path content with
      | error fault => simp [hwrite]
      | ok after => simp [hwrite]

/-- A file that was written below its directory was put in place. -/
theorem placed_of_perform (hparent : FilePath.parent? path = some above)
    (h : FilePlan.perform [.makeDirectories above, .write path content] t = (u, none)) :
    Open path ∧ (Placement.of path content).Fits t.node? ∧
      u.node? = (Placement.of path content).place t.node? := by
  obtain ⟨mid, hmake, hwrite⟩ := perform_pair.mp h
  obtain ⟨hpath, hnode, rfl⟩ := FileTree.writeFile_eq_ok hwrite
  have hmid := FileTree.node?_of_makeDirectories hmake
  rw [FileTree.directoriesTo_of_components (FileTree.components_of_parent? hparent).1] at hmid
  have hext := t.extends_makeDirectories above
  rw [hmake] at hext
  refine ⟨⟨⟨mid, hpath⟩, fun hmem => hnode ?_⟩, ⟨fun loc hloc content hfile => ?_, fun hdirectory =>
    hnode (hext _ _ hdirectory)⟩, funext fun loc => ?_⟩
  · rw [hmid, if_pos hmem]
  · have hfile := (hmid loc).symm.trans (hext _ _ hfile)
    rw [if_pos (show loc ∈ directoriesTo path from hloc)] at hfile
    cases hfile
  · rw [FileTree.node?_put hpath.ne_root, hmid]
    rfl

/-- What fits can be written. -/
theorem perform_of_fits (hparent : FilePath.parent? path = some above) (hpath : Open path)
    (hfits : (Placement.of path content).Fits t.node?) :
    ∃ u, FilePlan.perform [.makeDirectories above, .write path content] t = (u, none) := by
  obtain ⟨⟨w, hw⟩, hapart⟩ := hpath
  obtain ⟨hsteps, htight⟩ := FileTree.components_of_parent? hparent
  have htrail := FileTree.directoriesTo_of_components hsteps
  obtain ⟨loc, hwalk⟩ := hw.walk
  rw [← hsteps] at hwalk
  have hcheck := FileTree.checkPath_of_front (FileTree.prefix_of_parent? hparent) hw.1
  have hclear : ∀ loc ∈ directoriesTo path, ∀ content, t.node? loc ≠ some (.file content) :=
    hfits.directories
  rw [← htrail] at hclear
  obtain ⟨mid, hmake⟩ := FileTree.makeDirectories_of_clear hcheck htight hwalk hclear
  obtain ⟨there, hway⟩ := FileTree.way_of_makeDirectories hmake
  have hreaches : mid.Reaches path := hw.of_walk (hsteps ▸ FileTree.walk_of_way hway)
  have hnode : mid.node? (locationOf path) ≠ some .directory := by
    rw [FileTree.node?_of_makeDirectories hmake, htrail, if_neg hapart]
    exact hfits.target
  exact ⟨_, perform_pair.mpr ⟨mid, hmake, hreaches.writeFile hnode _⟩⟩

end FilePlan

/-! ## Contexts -/

namespace Layout

variable {l : Layout} {e : String × List String} {t u : FileTree}

def placement (l : Layout) (e : String × List String) : Placement :=
  .of (l.functionPath e.1) (Buffers.joinLines e.2)

/-- A path that leads to a file has a parent. -/
theorem functionPlan_of_reaches {c : String} (h : t.Reaches (l.functionPath c)) :
    ∃ above, FilePath.parent? (l.functionPath c) = some above ∧ ∀ lines, l.functionPlan c lines =
      [.makeDirectories above, .write (l.functionPath c) (Buffers.joinLines lines)] := by
  obtain ⟨-, parents, last, hleaf, -⟩ := h
  obtain ⟨above, habove⟩ : ∃ above, FilePath.parent? (l.functionPath c) = some above := by
    refine FileTree.exists_parent? ?_
    rw [(FileTree.components_of_leafOf hleaf).2]
    exact List.append_ne_nil_of_right_ne_nil _ (List.cons_ne_nil _ _)
  refine ⟨above, habove, fun lines => ?_⟩
  rw [functionPlan, habove]
  rfl

/-- A context that was written was put in place. -/
theorem placed_of_perform (h : (l.functionPlan e.1 e.2).perform t = (u, none)) :
    Open (l.functionPath e.1) ∧ (l.placement e).Fits t.node? ∧
      u.node? = (l.placement e).place t.node? := by
  have hreaches := (FilePlan.found_of_perform h).reaches
  rw [l.writes_functionPlan, List.forall_mem_singleton] at hreaches
  obtain ⟨above, hparent, hplan⟩ := functionPlan_of_reaches hreaches
  rw [hplan] at h
  exact FilePlan.placed_of_perform hparent h

theorem perform_of_fits (hpath : Open (l.functionPath e.1)) (hfits : (l.placement e).Fits t.node?) :
    ∃ u, (l.functionPlan e.1 e.2).perform t = (u, none) := by
  obtain ⟨w, hw⟩ := hpath.reaches
  obtain ⟨above, hparent, hplan⟩ := functionPlan_of_reaches hw
  rw [hplan]
  exact FilePlan.perform_of_fits hparent hpath hfits

/-- A run over contexts puts each of them in place, one after the other. -/
theorem placed_of_perform_all {es : List (String × List String)}
    (h : FilePlan.perform (es.flatMap fun e => l.functionPlan e.1 e.2) t = (u, none)) :
    (∀ e ∈ es, Open (l.functionPath e.1)) ∧
      Placement.Placed t.node? (es.map l.placement) u.node? := by
  induction es generalizing t with
  | nil =>
    obtain rfl := (Prod.mk.inj h).1
    exact ⟨fun e he => absurd he List.not_mem_nil, .nil _⟩
  | cons e es ih =>
    rw [List.flatMap_cons, FilePlan.perform_append] at h
    split at h
    · cases h
    · rename_i next hnext
      obtain ⟨hopen, hfits, hnode⟩ := placed_of_perform hnext
      obtain ⟨hrest, hplaced⟩ := ih h
      exact ⟨List.forall_mem_cons.mpr ⟨hopen, hrest⟩, .cons hfits (hnode ▸ hplaced)⟩

theorem perform_all_of_placed {es : List (String × List String)} {g : Nodes}
    (hopen : ∀ e ∈ es, Open (l.functionPath e.1))
    (h : Placement.Placed t.node? (es.map l.placement) g) :
    ∃ u, FilePlan.perform (es.flatMap fun e => l.functionPlan e.1 e.2) t = (u, none) ∧
      u.node? = g := by
  induction es generalizing t with
  | nil => exact ⟨t, rfl, Placement.placed_nil.mp h⟩
  | cons e es ih =>
    rw [List.map_cons, Placement.placed_cons] at h
    obtain ⟨hfits, hrest⟩ := h
    obtain ⟨hopen, hopens⟩ := List.forall_mem_cons.mp hopen
    obtain ⟨next, hnext⟩ := perform_of_fits hopen hfits
    rw [← (placed_of_perform hnext).2.2] at hrest
    obtain ⟨u, hu, hnode⟩ := ih hopens hrest
    refine ⟨u, ?_, hnode⟩
    rw [List.flatMap_cons, FilePlan.perform_append, hnext]
    exact hu

/-- Accepted names that lead nowhere else than down belong to files in different places. -/
theorem placements_apart {b : Buffers} (hnames : ∀ c ∈ b.keys, NameKind.context.Accepts c)
    (hstraight : Pack.Straight b) (hext : '/' ∉ l.settings.extension.toList) :
    (b.entries.map l.placement).Pairwise (·.target ≠ ·.target) := by
  have hname : ∀ c ∈ b.keys, ∀ x ∈ pathSegments c, IsName x := by
    intro c hc x hx
    refine ⟨?_, hstraight c hc x hx⟩
    rintro rfl
    exact FunctionName.empty_notMem_pathSegments (.inl (hnames c hc)) hx
  refine List.pairwise_map.mpr ((List.pairwise_map.mp b.distinct).imp_of_mem ?_)
  intro e f he hf hne hsame
  exact hne (functionPath_injective hext (hname _ (List.mem_map_of_mem he))
    (hname _ (List.mem_map_of_mem hf)) hsame)

/-- Two collections of contexts agree exactly if they hold the same lines under every name. Then the
order of contexts does not matter to a write without hooks: if one of them can be written, so can
the other, with the same files and the same tree, as long as the names are accepted, lead nowhere
else than down, and the ending of their files is one name. -/
theorem write_order (l : Layout) (a b : Buffers) (t : FileTree) :
    (a.agree b = true ↔ ∀ c, a.get? c = b.get? c) ∧
    (a.agree b = true → (∀ c ∈ a.keys, NameKind.context.Accepts c) → Pack.Straight a →
      '/' ∉ l.settings.extension.toList →
      ∀ files, (l.write false a t).2 = .ok files →
        ∃ files', (l.write false b t).2 = .ok files' ∧
          files'.functions.Perm files.functions ∧ files'.hooks = files.hooks ∧
          ∀ loc, (l.write false b t).1.node? loc = (l.write false a t).1.node? loc) := by
  refine ⟨Buffers.agree_iff_perm.trans KeyedList.perm_iff,
    fun hagree hnames hstraight hext files hfiles => ?_⟩
  have hperm := Buffers.agree_iff_perm.mp hagree
  have hplan (b : Buffers) : l.plan false b =
      .makeDirectories l.functionsDir :: b.entries.flatMap fun e => l.functionPlan e.1 e.2 := rfl
  cases hwrite : l.write false a t with
  | mk u result =>
    rw [hwrite] at hfiles
    obtain rfl : result = .ok files := hfiles
    obtain ⟨hperform, rfl⟩ := perform_of_write_ok hwrite
    rw [hplan, FilePlan.perform] at hperform
    split at hperform
    · cases hperform
    · rename_i next hnext
      obtain ⟨hopen, hplaced⟩ := placed_of_perform_all hperform
      obtain ⟨v, hv, hnode⟩ :=
        perform_all_of_placed (fun e he => hopen e (hperm.mem_iff.mpr he))
          (hplaced.perm (hperm.map l.placement) (placements_apart hnames hstraight hext))
      have hwrite' : l.write false b t = (v, .ok (l.files false b)) := by
        rw [write, hplan, FilePlan.perform, hnext]
        simp only [hv]
      rw [hwrite']
      exact ⟨_, rfl, (hperm.symm.map Prod.fst).map l.functionPath, rfl, congrFun hnode⟩

/-- Two contexts, where the file of one lies beside the directory for the other. -/
theorem write_order_side_by_side :
    let l : Layout := ⟨"out", "demo", {}⟩
    let a := Buffers.ofList [("game/start", ["say start"]), ("game", ["say game"])]
    let b := Buffers.ofList [("game", ["say game"]), ("game/start", ["say start"])]
    a.agree b = true ∧ (∀ c, a.get? c = b.get? c) ∧ a.keys ≠ b.keys ∧
    (l.write false a .empty).2 = .ok
      ⟨["out/demo/functions/game/start.mcfunction", "out/demo/functions/game.mcfunction"], []⟩ ∧
    (∃ files, (l.write false b .empty).2 = .ok files) ∧
    ∀ loc, (l.write false b .empty).1.node? loc = (l.write false a .empty).1.node? loc := by
  intro l a b
  have hagree : a.agree b = true := by decide +kernel
  have hwritten : (l.write false a .empty).2 = .ok
      ⟨["out/demo/functions/game/start.mcfunction", "out/demo/functions/game.mcfunction"], []⟩ := by
    decide +kernel
  obtain ⟨hget, horder⟩ := l.write_order a b .empty
  obtain ⟨files, hfiles, -, -, hnodes⟩ := horder hagree (by decide +kernel)
    (of_decide_eq_true (by decide +kernel)) (by decide +kernel) _ hwritten
  exact ⟨hagree, hget.mp hagree, by decide +kernel, hwritten, ⟨files, hfiles⟩, hnodes⟩

end Layout

end CommandPack
