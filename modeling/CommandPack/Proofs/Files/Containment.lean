import CommandPack.Proofs.Files.OwnFiles

namespace CommandPack

open FileTree (locationOf pathSegments resolve advance IsName)

/-! ## Ways -/

/-- Where segments lead from any place: some directories up, then names down. -/
structure Way where
  up : Nat
  down : List String
deriving DecidableEq, Repr

namespace Way

/-- One more segment. A step up takes back the last name, if there is one. -/
def turn (w : Way) (segment : String) : Way :=
  if segment = "" ∨ segment = "." then w
  else if segment = ".." then
    if w.down = [] then { w with up := w.up + 1 } else { w with down := w.down.dropLast }
  else { w with down := w.down ++ [segment] }

def of (segments : List String) : Way := segments.foldl turn ⟨0, []⟩

def follow (w : Way) (here : Location) : Location := here.take (here.length - w.up) ++ w.down

/-- A way stays in the directory that it starts from if it comes back through all directories that
it leaves. -/
def Stays (w : Way) (here : Location) : Prop := here.drop (here.length - w.up) <+: w.down

instance (w : Way) (here : Location) : Decidable (w.Stays here) :=
  inferInstanceAs (Decidable (_ <+: _))

/-- A way goes on from where it ends. -/
theorem advance_follow (w : Way) (here : Location) (segment : String) :
    advance (w.follow here) segment = (w.turn segment).follow here := by
  unfold advance turn
  split
  · rfl
  · split
    · split
      · rename_i hdown
        have hlength : min (here.length - w.up) here.length - 1 = here.length - (w.up + 1) := by
          omega
        rw [follow, follow, hdown, List.append_nil, List.append_nil, List.dropLast_eq_take,
          List.take_take, List.length_take, hlength, Nat.min_eq_left (by omega)]
      · rename_i hdown
        exact List.dropLast_append_of_ne_nil hdown
    · exact List.append_assoc _ _ _

theorem foldl_advance_follow (w : Way) (here : Location) (segments : List String) :
    segments.foldl advance (w.follow here) = (segments.foldl turn w).follow here := by
  induction segments generalizing w with
  | nil => rfl
  | cons s segments ih =>
    rw [List.foldl_cons, List.foldl_cons, advance_follow]
    exact ih _

/-- Segments lead where their way leads. -/
theorem foldl_advance (here : Location) (segments : List String) :
    segments.foldl advance here = (of segments).follow here := by
  have hstart : follow ⟨0, []⟩ here = here := by
    simp [follow]
  rw [of, ← foldl_advance_follow, hstart]

theorem up_foldl_turn {segments : List String} (h : ".." ∉ segments) (w : Way) :
    (segments.foldl turn w).up = w.up := by
  induction segments generalizing w with
  | nil => rfl
  | cons s segments ih =>
    have hs : s ≠ ".." := fun hs => h (hs ▸ List.mem_cons_self)
    have hup : (w.turn s).up = w.up := by
      unfold turn
      rw [if_neg hs]
      split <;> rfl
    rw [List.foldl_cons, ih (fun hmem => h (List.mem_cons_of_mem _ hmem)), hup]

/-- Without a step up, segments stay in the directory they start from. -/
theorem stays_of_notMem {segments : List String} (h : ".." ∉ segments) (here : Location) :
    (of segments).Stays here := by
  rw [Stays, of, up_foldl_turn h, Nat.sub_zero, List.drop_length]
  exact List.nil_prefix

/-- A way that stays ends where it starts or further down. -/
theorem stays_iff {w : Way} {here : Location} : w.Stays here ↔ here <+: w.follow here := by
  have hsplit : here.take (here.length - w.up) ++ here.drop (here.length - w.up) <+:
      w.follow here ↔ w.Stays here := List.prefix_append_right_inj _
  rw [List.take_append_drop] at hsplit
  exact hsplit.symm

end Way

example : (Way.of ["..", "functions"]).Stays ["data", "demo", "functions"] := by decide +kernel

example : ¬ (Way.of ["maps", "..", ".."]).Stays ["data", "demo", "functions"] := by decide +kernel

/-! ## Below a directory -/

def Below (directory loc : Location) : Prop := directory <+: loc ∧ loc ≠ directory

instance (directory loc : Location) : Decidable (Below directory loc) :=
  inferInstanceAs (Decidable (_ ∧ _))

theorem below_concat {directory loc : Location} {name : String} :
    Below directory (loc ++ [name]) ↔ directory <+: loc := by
  rw [Below, List.prefix_concat_iff]
  constructor
  · rintro ⟨hstarts, hne⟩
    exact hstarts.resolve_left hne.symm
  · intro hstarts
    refine ⟨.inr hstarts, fun hsame => ?_⟩
    have hlength := hstarts.length_le
    rw [← hsame, List.length_append, List.length_singleton] at hlength
    omega

/-- One segment leads below a directory only if it is a name. -/
theorem below_advance {here : Location} {segment : String} :
    Below here (advance here segment) ↔ IsName segment := by
  unfold advance
  split
  · rename_i hskip
    refine iff_of_false (fun hbelow => hbelow.2 rfl) fun hname => ?_
    exact hskip.elim hname.1 hname.2.1
  · rename_i hskip
    obtain ⟨hempty, hdot⟩ := not_or.mp hskip
    split
    · rename_i hup
      refine iff_of_false (fun hbelow => hbelow.2 ?_) fun hname => hname.2.2 hup
      exact (List.dropLast_prefix here).eq_of_length_le hbelow.1.length_le
    · rename_i hup
      exact iff_of_true (below_concat.mpr (List.prefix_refl here)) ⟨hempty, hdot, hup⟩

/-! ## Files that stay as they are -/

namespace FileTree

/-- If a file lies at the location, it is the same one. Directories may have been made. -/
def SameFile (t t' : FileTree) (loc : Location) : Prop :=
  ∀ content, t'.node? loc = some (.file content) ↔ t.node? loc = some (.file content)

variable {t t' u : FileTree} {loc : Location} {path content : String}

theorem SameFile.refl (t : FileTree) (loc : Location) : t.SameFile t loc := fun _ => .rfl

theorem SameFile.trans (h : t.SameFile t' loc) (h' : t'.SameFile u loc) : t.SameFile u loc :=
  fun content => (h' content).trans (h content)

theorem sameFile_of_makeDirectory (h : t.makeDirectory path = .ok t') (loc : Location) :
    t.SameFile t' loc := by
  obtain ⟨new, hroot, hnode, rfl⟩ := makeDirectory_eq_ok h
  intro content
  rw [node?_put hroot]
  split
  · rename_i hloc
    rw [hloc, hnode]
    exact iff_of_false (fun h => nomatch h) (fun h => nomatch h)
  · rfl

theorem sameFile_makeDirectories (t : FileTree) (path : String) (loc : Location) :
    t.SameFile (t.makeDirectories path).1 loc :=
  makeDirectories_invariant (P := fun u => t.SameFile u loc)
    (fun _ _ _ hsame hmade => hsame.trans (sameFile_of_makeDirectory hmade loc)) path (.refl t loc)

/-- A file that is written changes no file in another place. -/
theorem sameFile_of_writeFile (h : t.writeFile path content = .ok t') (hloc : loc ≠ locationOf path) :
    t.SameFile t' loc := by
  obtain ⟨hpath, -, rfl⟩ := writeFile_eq_ok h
  intro other
  rw [node?_put hpath.ne_root, if_neg hloc]

end FileTree

open FileTree (SameFile)

theorem FileAction.sameFile_perform {a : FileAction} {loc : Location}
    (h : ∀ w, a.written? = some w → loc ≠ locationOf w.1) (t : FileTree) :
    t.SameFile (a.perform t).1 loc := by
  cases a with
  | makeDirectories path => exact t.sameFile_makeDirectories path loc
  | write path content =>
    simp only [perform]
    cases hwrite : t.writeFile path content with
    | error fault => exact .refl t loc
    | ok after => exact FileTree.sameFile_of_writeFile hwrite (h (path, content) rfl)

/-- A plan changes only files where its paths lead, whether it is done to its end or not. -/
theorem FilePlan.sameFile_perform {p : FilePlan} {loc : Location}
    (h : ∀ w ∈ p.writes, loc ≠ locationOf w.1) (t : FileTree) :
    t.SameFile (p.perform t).1 loc := by
  induction p generalizing t with
  | nil => exact .refl t loc
  | cons a p ih =>
    have hwrites : FilePlan.writes (a :: p) = FilePlan.writes [a] ++ FilePlan.writes p := writes_append [a] p
    rw [hwrites] at h
    have hstep : t.SameFile (a.perform t).1 loc := by
      refine FileAction.sameFile_perform (fun w hw => h w (List.mem_append_left _ ?_)) t
      exact List.mem_filterMap.mpr ⟨a, List.mem_singleton_self a, hw⟩
    unfold perform
    split
    · rename_i hfault
      rwa [hfault] at hstep
    · rename_i next hnext
      rw [hnext] at hstep
      exact hstep.trans (ih (fun w hw => h w (List.mem_append_right _ hw)) next)

/-! ## Where a pack lies -/

namespace Layout

variable {l : Layout}

def home (l : Layout) : Location := locationOf (FilePath.join l.directory l.space)

def hookLocations (l : Layout) : List Location :=
  ["load.json", "tick.json"].map fun file =>
    locationOf l.directory ++ ["minecraft", "tags", "functions", file]

theorem home_eq (h : NameKind.space.Accepts l.space) :
    l.home = advance (locationOf l.directory) l.space := by
  obtain ⟨hne, hplain⟩ := Name.plain_of_spaceFault? h
  have hsegments : pathSegments l.space = [l.space] := by
    rw [pathSegments, Text.segments_of_notMem (hplain '/' (by decide)), List.map_singleton,
      String.ofList_toList]
  have hempty : "" ∉ pathSegments l.space := by
    rw [hsegments, List.mem_singleton, ← String.toList_inj]
    exact hne.symm
  rw [home, FileTree.locationOf_join_of_notMem _ hempty, hsegments]
  rfl

/-- The directory of a namespace lies below that of the packs, unless the namespace is `.` or
`..`. -/
theorem below_home_iff (h : NameKind.space.Accepts l.space) :
    Below (locationOf l.directory) l.home ↔ IsName l.space := by
  rw [home_eq h]
  exact below_advance

theorem locationOf_functionsDir (h : l.settings.functionsDir = "functions") :
    locationOf l.functionsDir = l.home ++ ["functions"] := by
  rw [functionsDir, h, FileTree.locationOf_join _ (by decide +kernel), home]
  rfl

theorem locationOf_hooksDir :
    locationOf l.hooksDir = locationOf l.directory ++ ["minecraft", "tags", "functions"] := by
  rw [hooksDir, FileTree.locationOf_join _ (by decide +kernel),
    FileTree.locationOf_join _ (by decide +kernel), List.append_assoc]
  rfl

theorem locationOf_hookPath_mem {h : String × String} (hh : h ∈ l.hooks) :
    locationOf (l.hookPath h.1) ∈ l.hookLocations := by
  rw [locationOf_hookPath hh, locationOf_hooksDir, List.append_assoc]
  rcases name_of_mem_hooks hh with hname | hname <;> rw [hname]
  · exact List.mem_cons_self
  · exact List.mem_cons_of_mem _ List.mem_cons_self

/-- A name with an ending is a name, whatever stands in front of the dot. -/
theorem isName_ending {last ending : String} (hlast : last ≠ "") (hending : ending ≠ "") :
    IsName (last ++ "." ++ ending) := by
  have hlength : 3 ≤ (last ++ "." ++ ending).length := by
    have hfront := Nat.pos_of_ne_zero (String.length_eq_zero_iff.not.mpr hlast)
    have hback := Nat.pos_of_ne_zero (String.length_eq_zero_iff.not.mpr hending)
    have hdot : ".".length = 1 := rfl
    rw [String.length_append, String.length_append]
    omega
  refine ⟨?_, ?_, ?_⟩ <;> intro h <;> rw [h] at hlength <;> exact absurd hlength (by decide)

/-- The file of a context lies at the end of the way that all but the last segment of its name
go. -/
theorem exists_locationOf_functionPath (hslash : '/' ∉ l.settings.extension.toList)
    (hending : l.settings.extension ≠ "") {c : String} (hc : FunctionName c) :
    ∃ file, locationOf (l.functionPath c) =
      (Way.of (pathSegments c).dropLast).follow (locationOf l.functionsDir) ++ [file] := by
  obtain ⟨front, last, hsegments, hfile⟩ := pathSegments_fileName hslash c
  have hempty := hc.empty_notMem_pathSegments
  rw [hsegments, List.mem_append, List.mem_singleton, not_or] at hempty
  have hname : IsName (last ++ "." ++ l.settings.extension) :=
    isName_ending (Ne.symm hempty.2) hending
  refine ⟨last ++ "." ++ l.settings.extension, ?_⟩
  have hrelative : "" ∉ pathSegments (l.settings.fileName c) := by
    rw [hfile, List.mem_append, List.mem_singleton, not_or]
    exact ⟨hempty.1, Ne.symm hname.1⟩
  rw [functionPath, FileTree.locationOf_join_of_notMem _ hrelative, hfile, hsegments,
    List.dropLast_concat, List.foldl_append,
    FileTree.foldl_advance_names (List.forall_mem_singleton.mpr hname), Way.foldl_advance]

/-- Files that change when a pack is written are hook files or files of contexts. -/
theorem sameFile_perform (l : Layout) (hooks : Bool) (b : Buffers) (t : FileTree)
    (loc : Location) :
    t.SameFile ((l.plan hooks b).perform t).1 loc ∨
      (hooks = true ∧ loc ∈ l.hookLocations) ∨
      ∃ c ∈ b.keys, loc = locationOf (l.functionPath c) := by
  by_cases h : ∀ w ∈ (l.plan hooks b).writes, loc ≠ locationOf w.1
  · exact .inl (FilePlan.sameFile_perform h t)
  · right
    push Not at h
    obtain ⟨w, hw, rfl⟩ := h
    rw [writes_plan, mem_written] at hw
    rcases hw with ⟨hon, hook, hmem, rfl⟩ | ⟨e, he, rfl⟩
    · exact .inl ⟨hon, locationOf_hookPath_mem hmem⟩
    · exact .inr ⟨e.1, List.mem_map_of_mem he, rfl⟩

end Layout

/-! ## Packs -/

namespace Pack

theorem write_tree_of_error {p : Pack} {e : BuildError} (h : p.build = .error e)
    (directory : String) (hooks : Bool) (t : FileTree) : (p.write directory hooks t).1 = t := by
  rw [write, h]

theorem write_tree {p : Pack} {b : Buffers} (h : p.build = .ok b) (directory : String)
    (hooks : Bool) (t : FileTree) :
    (p.write directory hooks t).1 = (((p.layout directory).plan hooks b).perform t).1 := by
  simp only [write, h, Layout.write]
  cases ((p.layout directory).plan hooks b).perform t with
  | mk after fault => cases fault <;> rfl

/-- A pack with these settings lies where function files of the game do. -/
structure UsualPlace (s : Settings) : Prop where
  functionsDir : s.functionsDir = "functions"
  extension : s.extension = "mcfunction"

variable {p : Pack} {b : Buffers}

/-- Exactly the names that come back through all directories that they leave keep their files below
the directory of the functions. -/
theorem below_functionPath_iff (hplace : UsualPlace p.settings) {c : String} (hc : FunctionName c)
    (directory : String) :
    let l := p.layout directory
    Below (l.home ++ ["functions"]) (locationOf (l.functionPath c)) ↔
      (Way.of (pathSegments c).dropLast).Stays (l.home ++ ["functions"]) := by
  intro l
  have hslash : '/' ∉ l.settings.extension.toList := by
    rw [show l.settings.extension = "mcfunction" from hplace.extension]
    decide
  have hending : l.settings.extension ≠ "" := by
    rw [show l.settings.extension = "mcfunction" from hplace.extension]
    decide
  obtain ⟨file, hfile⟩ := l.exists_locationOf_functionPath hslash hending hc
  rw [hfile, Layout.locationOf_functionsDir hplace.functionsDir, below_concat, Way.stays_iff]

/-- When everything is written, a file lies where the path of a context leads. -/
theorem exists_file_of_write {directory : String} {hooks : Bool} {t : FileTree}
    {files : WrittenFiles} (h : (p.write directory hooks t).2 = .ok files) (hb : p.build = .ok b)
    {c : String} (hc : c ∈ b.keys) :
    ∃ content, (p.write directory hooks t).1.node?
      (locationOf ((p.layout directory).functionPath c)) = some (.file content) := by
  obtain ⟨b', hb', -, hfound⟩ := found_of_write h
  obtain rfl := Except.ok.inj (hb.symm.trans hb')
  obtain ⟨e, he, rfl⟩ := List.mem_map.mp hc
  have hw := ((p.layout directory).mem_written hooks b).mpr (.inr ⟨e, he, rfl⟩)
  rw [← Layout.writes_plan] at hw
  obtain ⟨content, hlast⟩ := exists_lastWritten hw
  exact ⟨content, hfound.holds _ _ hlast⟩

/-- What writing a pack changes, whether it succeeds or not. No file changes that is neither a hook
file nor the file of a context. The directory of the namespace lies below that of the packs exactly
if the namespace is a name, and the file of a context lies below the directory of the functions
exactly if its name comes back through all directories that it leaves. So everything stays in the
directory of the pack if the namespace is not `.` or `..` and no segment of a context is `..`. -/
theorem changes_inside (p : Pack) (hplace : UsualPlace p.settings)
    (hraw : ∀ c ∈ p.script.addressed, FunctionName c) (directory : String) (hooks : Bool)
    (t : FileTree) :
    let l := p.layout directory
    let after := (p.write directory hooks t).1
    (∀ e, p.build = .error e → after = t) ∧
    ∀ b, p.build = .ok b →
      (∀ loc, t.SameFile after loc ∨ (hooks = true ∧ loc ∈ l.hookLocations) ∨
        ∃ c ∈ b.keys, loc = locationOf (l.functionPath c)) ∧
      (∀ files, (p.write directory hooks t).2 = .ok files →
        ∀ c ∈ b.keys, ∃ content,
          after.node? (locationOf (l.functionPath c)) = some (.file content)) ∧
      (Below (locationOf directory) l.home ↔ IsName p.space) ∧
      (∀ c ∈ b.keys, Below (l.home ++ ["functions"]) (locationOf (l.functionPath c)) ↔
        (Way.of (pathSegments c).dropLast).Stays (l.home ++ ["functions"])) ∧
      (IsName p.space → (∀ c ∈ b.keys, ".." ∉ pathSegments c) →
        Below (locationOf directory) l.home ∧
        ∀ loc, t.SameFile after loc ∨ loc ∈ l.hookLocations ∨
          Below (l.home ++ ["functions"]) loc) := by
  intro l after
  refine ⟨fun e he => write_tree_of_error he directory hooks t, fun b hb => ?_⟩
  have hchanges : ∀ loc, t.SameFile after loc ∨ (hooks = true ∧ loc ∈ l.hookLocations) ∨
      ∃ c ∈ b.keys, loc = locationOf (l.functionPath c) := by
    intro loc
    have hsame := l.sameFile_perform hooks b t loc
    rwa [← write_tree hb] at hsame
  have hhome : Below (locationOf directory) l.home ↔ IsName p.space :=
    l.below_home_iff (Settings.accepts_of_fault? p.accepted).1
  have hstays : ∀ c ∈ b.keys, Below (l.home ++ ["functions"]) (locationOf (l.functionPath c)) ↔
      (Way.of (pathSegments c).dropLast).Stays (l.home ++ ["functions"]) :=
    fun c hc => below_functionPath_iff hplace (p.functionName_of_mem_keys hb hraw hc) directory
  refine ⟨hchanges, fun files hfiles c hc => exists_file_of_write hfiles hb hc, hhome, hstays,
    fun hspace hup => ⟨hhome.mpr hspace, fun loc => ?_⟩⟩
  rcases hchanges loc with hsame | ⟨-, hhook⟩ | ⟨c, hc, rfl⟩
  · exact .inl hsame
  · exact .inr (.inl hhook)
  · have hnotMem : ".." ∉ (pathSegments c).dropLast :=
      fun hmem => hup c hc (List.dropLast_subset _ hmem)
    exact .inr (.inr ((hstays c hc).mpr (Way.stays_of_notMem hnotMem _)))

def nestedStart : Pack where
  space := "demo"
  settings := {}
  script :=
    .act (.emitTo "points" "say points") false <|
    .inside (.function "game/./start" none) false (.act (.emit "say start") false .done) .done
  accepted := Settings.fault?_demo

theorem changes_inside_nested_start :
    let l := nestedStart.layout "out"
    let after := (nestedStart.write "out" false .empty).1
    UsualPlace nestedStart.settings ∧ nestedStart.script.addressed = ["points"] ∧
    FunctionName "points" ∧ l.home = ["out", "demo"] ∧ Below (locationOf "out") l.home ∧
    after.node? ["out", "demo", "functions", "game", "start.mcfunction"] =
      some (.file "say start") ∧
    ∀ loc, FileTree.empty.SameFile after loc ∨ loc ∈ l.hookLocations ∨
      Below (l.home ++ ["functions"]) loc := by
  intro l after
  have hplace : UsualPlace nestedStart.settings := ⟨rfl, rfl⟩
  have hpoints : FunctionName "points" := .inl (by decide +kernel)
  have hraw : ∀ c ∈ nestedStart.script.addressed, FunctionName c := by
    intro c hc
    rw [List.mem_singleton.mp hc]
    exact hpoints
  have hbuilt : nestedStart.build.toOption.map (fun b =>
      decide (∀ c ∈ b.keys, ".." ∉ pathSegments c)) = some true := by decide +kernel
  obtain ⟨-, hall⟩ := nestedStart.changes_inside hplace hraw "out" false .empty
  cases hb : nestedStart.build with
  | error e =>
    rw [hb] at hbuilt
    nomatch hbuilt
  | ok b =>
    rw [hb] at hbuilt
    obtain ⟨-, -, -, -, hinside⟩ := hall b hb
    have hup := of_decide_eq_true (Option.some.inj hbuilt)
    obtain ⟨hbelow, hchanges⟩ := hinside (by decide +kernel) hup
    exact ⟨hplace, rfl, hpoints, by decide +kernel, hbelow, by decide +kernel, hchanges⟩

def loose : Pack where
  space := "demo"
  settings := {}
  script :=
    .inside (.function "../../../loose" none) false (.act (.emit "say out") false .done) .done
  accepted := Settings.fault?_demo

theorem loose_outside :
    let l := loose.layout "data"
    let after := (loose.write "data" false .empty).1
    UsualPlace loose.settings ∧ loose.script.addressed = [] ∧
    (loose.write "data" false .empty).2 = .ok
      ⟨["data/demo/functions/default.mcfunction",
        "data/demo/functions/../../../loose.mcfunction"], []⟩ ∧
    FileTree.empty.node? ["loose.mcfunction"] = none ∧
    after.node? ["loose.mcfunction"] = some (.file "say out") ∧
    ["loose.mcfunction"] ∉ l.hookLocations ∧
    ¬ Below (l.home ++ ["functions"]) ["loose.mcfunction"] ∧
    ¬ Below (locationOf "data") ["loose.mcfunction"] := by
  intro l after
  refine ⟨⟨rfl, rfl⟩, rfl, ?_⟩
  decide +kernel

end Pack

end CommandPack
