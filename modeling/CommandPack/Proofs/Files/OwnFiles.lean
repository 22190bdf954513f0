import CommandPack.Proofs.ContextNames
import CommandPack.Proofs.Files.Locations
import Mathlib.Data.List.Nodup

namespace CommandPack

open FileTree (locationOf pathSegments IsName)

/-! ## Locations of joined paths -/

namespace FileTree

theorem pathSegments_append_slash (front back : String) :
    pathSegments (front ++ "/" ++ back) = pathSegments front ++ pathSegments back := by
  have hchars : (front ++ "/" ++ back).toList = front.toList ++ '/' :: back.toList := by
    simp
  rw [pathSegments, hchars, Text.segments_append_sep, List.map_append]
  rfl

theorem pathSegments_injective {a b : String} (h : pathSegments a = pathSegments b) : a = b := by
  have hchars := (List.map_inj_right fun _ _ => String.ofList_injective).mp h
  rw [← String.toList_inj, ← Text.joinSegments_segments '/' a.toList, hchars,
    Text.joinSegments_segments]

/-- A path without empty segments does not start at the root. -/
theorem relative_of_notMem {path : String} (h : "" ∉ pathSegments path) :
    path.toList.head? ≠ some '/' := by
  intro hhead
  obtain ⟨rest, hpath⟩ := List.head?_eq_some_iff.mp hhead
  apply h
  rw [pathSegments, hpath, Text.segments, if_pos rfl]
  exact List.mem_cons_self

/-- A slash stands between a path and the relative one below it, and no second one is written. -/
theorem join_cases (base : String) {path : String} (h : path.toList.head? ≠ some '/') :
    (base = "" ∧ FilePath.join base path = path) ∨
    (∃ front, base = front ++ "/" ∧ FilePath.join base path = front ++ "/" ++ path) ∨
    FilePath.join base path = base ++ "/" ++ path := by
  rw [FilePath.join, if_neg h]
  split
  · rename_i hend
    rcases hend with rfl | hend
    · exact .inl ⟨rfl, String.empty_append⟩
    · obtain ⟨front, hfront⟩ := List.getLast?_eq_some_iff.mp hend
      have hbase : base = String.ofList front ++ "/" := by
        rw [← String.toList_inj, hfront]
        simp
      exact .inr (.inl ⟨_, hbase, by rw [hbase]⟩)
  · exact .inr (.inr rfl)

/-- A path below another one is followed from where the other one leads. -/
theorem locationOf_join_of_notMem (base : String) {path : String} (h : "" ∉ pathSegments path) :
    locationOf (FilePath.join base path) = (pathSegments path).foldl advance (locationOf base) := by
  rcases join_cases base (relative_of_notMem h) with ⟨rfl, hjoin⟩ | ⟨front, rfl, hjoin⟩ | hjoin
  · rw [hjoin]
    rfl
  · -- The empty segment behind the last slash leads nowhere.
    have hfront : locationOf (front ++ "/") = resolve (pathSegments front) := by
      rw [← String.append_empty (s := front ++ "/"), locationOf, pathSegments_append_slash, resolve,
        List.foldl_append]
      rfl
    rw [hjoin, hfront, locationOf, pathSegments_append_slash, resolve, List.foldl_append, ← resolve]
  · rw [hjoin, locationOf, pathSegments_append_slash, resolve, List.foldl_append]
    rfl

/-- Names below a path lead on from where the path leads. -/
theorem locationOf_join (base : String) {path : String}
    (h : ∀ s ∈ pathSegments path, IsName s) :
    locationOf (FilePath.join base path) = locationOf base ++ pathSegments path := by
  rw [locationOf_join_of_notMem base fun hempty => (h _ hempty).1 rfl, foldl_advance_names h]

end FileTree

theorem FunctionName.empty_notMem_pathSegments {context : String} (h : FunctionName context) :
    "" ∉ pathSegments context := by
  intro hmem
  obtain ⟨s, hs, hempty⟩ := List.mem_map.mp hmem
  obtain rfl : s = [] := String.ofList_eq_empty_iff.mp hempty
  exact h.empty_notMem_segments hs

/-! ## The files of a pack -/

namespace Layout

variable (l : Layout) (hooks : Bool) (b : Buffers)

def written : List (String × String) :=
  (if hooks then l.hooks.map fun h => (l.hookPath h.1, hookTag l.space h.2) else []) ++
    b.entries.map fun e => (l.functionPath e.1, Buffers.joinLines e.2)

theorem writes_functionPlan (c : String) (lines : List String) :
    FilePlan.writes (l.functionPlan c lines) = [(l.functionPath c, Buffers.joinLines lines)] := by
  simp only [functionPlan]
  cases FilePath.parent? (l.functionPath c) <;> rfl

/-- The hooks come first, if they are wanted, and then the contexts. -/
theorem writes_plan : (l.plan hooks b).writes = l.written hooks b := by
  have hfunctions (es : List (String × List String)) :
      FilePlan.writes (es.flatMap fun e => l.functionPlan e.1 e.2) =
        es.map fun e => (l.functionPath e.1, Buffers.joinLines e.2) := by
    induction es with
    | nil => rfl
    | cons e es ih =>
      rw [List.flatMap_cons, FilePlan.writes_append, writes_functionPlan, ih, List.map_cons,
        List.singleton_append]
  rw [written, ← hfunctions, plan, FilePlan.writes_append]
  cases hooks <;> rfl

/-- Every context can be read from its file, and every wanted hook from its own. -/
structure Kept (t : FileTree) : Prop where
  contexts : ∀ c text, b.content? c = some text → t.readFile (l.functionPath c) = .ok text
  hooks : hooks = true → ∀ h ∈ l.hooks, t.readFile (l.hookPath h.1) = .ok (hookTag l.space h.2)

theorem mem_written {w : String × String} :
    w ∈ l.written hooks b ↔
      (hooks = true ∧ ∃ h ∈ l.hooks, w = (l.hookPath h.1, hookTag l.space h.2)) ∨
      ∃ e ∈ b.entries, w = (l.functionPath e.1, Buffers.joinLines e.2) := by
  rw [written, List.mem_append, List.mem_map]
  cases hooks with
  | false => simp [eq_comm]
  | true => simp [List.mem_map, eq_comm]

theorem kept_iff (t : FileTree) :
    l.Kept hooks b t ↔ ∀ w ∈ l.written hooks b, t.readFile w.1 = .ok w.2 := by
  constructor
  · intro h w hw
    rcases (l.mem_written hooks b).mp hw with ⟨hon, hook, hmem, rfl⟩ | ⟨e, he, rfl⟩
    · exact h.hooks hon hook hmem
    · refine h.contexts e.1 _ ?_
      rw [Buffers.content?, b.get?_eq_some_iff.mpr he]
      rfl
  · intro h
    constructor
    · intro c text hc
      obtain ⟨lines, hlines, rfl⟩ := Option.map_eq_some_iff.mp hc
      have hread := h _ ((l.mem_written hooks b).mpr (.inr ⟨_, b.get?_eq_some_iff.mp hlines, rfl⟩))
      exact hread
    · intro hon hook hmem
      have hread := h _ ((l.mem_written hooks b).mpr (.inl ⟨hon, hook, hmem, rfl⟩))
      exact hread

/-! ## Where they lie -/

variable {l hooks b}

/-- The ending of a file name is added to the last segment of the context. -/
theorem pathSegments_fileName {s : Settings} (hext : '/' ∉ s.extension.toList) (c : String) :
    ∃ front last, pathSegments c = front ++ [last] ∧
      pathSegments (s.fileName c) = front ++ [last ++ "." ++ s.extension] := by
  have hnew : '/' ∉ '.' :: s.extension.toList := by
    intro hmem
    rcases List.mem_cons.mp hmem with hdot | hmem
    · exact absurd hdot (by decide)
    · exact hext hmem
  have hname : (s.fileName c).toList = c.toList ++ '.' :: s.extension.toList := by
    simp [Settings.fileName]
  obtain ⟨front, last, hc, hfile⟩ := Text.segments_append_of_notMem hnew c.toList
  refine ⟨front.map String.ofList, String.ofList last, ?_, ?_⟩
  · rw [pathSegments, hc, List.map_append]
    rfl
  · have hlast : String.ofList (last ++ '.' :: s.extension.toList) =
        String.ofList last ++ "." ++ s.extension := by
      rw [← String.toList_inj]
      simp
    rw [pathSegments, hname, hfile, List.map_append, List.map_singleton, hlast]

theorem names_fileName {s : Settings} (hext : '/' ∉ s.extension.toList) {c : String}
    (hc : ∀ x ∈ pathSegments c, IsName x) : ∀ x ∈ pathSegments (s.fileName c), IsName x := by
  obtain ⟨front, last, hsegments, hfile⟩ := pathSegments_fileName hext c
  rw [hsegments] at hc
  rw [hfile]
  intro x hx
  rcases List.mem_append.mp hx with hx | hx
  · exact hc x (List.mem_append_left _ hx)
  · rw [List.mem_singleton.mp hx]
    obtain ⟨hempty, hdot, -⟩ := hc last (List.mem_append_right _ List.mem_cons_self)
    obtain ⟨a, as, hlast⟩ := List.exists_cons_of_ne_nil (String.toList_eq_nil_iff.not.mpr hempty)
    have hadd : (last ++ "." ++ s.extension).toList = a :: as ++ '.' :: s.extension.toList := by
      simp [hlast]
    -- Something stands in front of the dot, and it is not just another dot.
    refine ⟨fun h => ?_, fun h => ?_, fun h => ?_⟩
    all_goals rw [← String.toList_inj, hadd] at h
    · nomatch h
    · simp at h
    · obtain ⟨rfl, hrest⟩ := List.cons.inj h
      obtain ⟨rfl, -⟩ : as = [] ∧ _ := by
        rcases List.append_eq_singleton_iff.mp hrest with ⟨has, hext⟩ | ⟨-, hnil⟩
        · exact ⟨has, hext⟩
        · nomatch hnil
      exact hdot (String.toList_inj.mp hlast)

/-- A context whose segments are names lies below the directory of the functions. -/
theorem locationOf_functionPath (hext : '/' ∉ l.settings.extension.toList) {c : String}
    (hc : ∀ x ∈ pathSegments c, IsName x) :
    locationOf (l.functionPath c) =
      locationOf l.functionsDir ++ pathSegments (l.settings.fileName c) :=
  FileTree.locationOf_join _ (names_fileName hext hc)

theorem name_of_mem_hooks {h : String × String} (hh : h ∈ l.hooks) :
    h.1 = "load" ∨ h.1 = "tick" := by
  simp only [Layout.hooks, List.mem_cons, List.not_mem_nil, or_false] at hh
  rcases hh with rfl | rfl
  · exact .inl rfl
  · exact .inr rfl

theorem locationOf_hookPath {h : String × String} (hh : h ∈ l.hooks) :
    locationOf (l.hookPath h.1) = locationOf l.hooksDir ++ [h.1 ++ ".json"] := by
  have hname : pathSegments (h.1 ++ ".json") = [h.1 ++ ".json"] ∧ IsName (h.1 ++ ".json") := by
    rcases name_of_mem_hooks hh with hname | hname <;> rw [hname] <;> decide +kernel
  rw [hookPath, FileTree.locationOf_join, hname.1]
  rw [hname.1]
  exact fun x hx => List.mem_singleton.mp hx ▸ hname.2

/-- Whether a context lies where a hook does can only depend on the ending of its file. -/
theorem functionPath_ne_hookPath (hext : '/' ∉ l.settings.extension.toList)
    (hjson : l.settings.extension ≠ "json") {c : String} (hc : ∀ x ∈ pathSegments c, IsName x)
    {h : String × String} (hh : h ∈ l.hooks) :
    locationOf (l.functionPath c) ≠ locationOf (l.hookPath h.1) := by
  intro hsame
  obtain ⟨front, last, -, hfile⟩ := pathSegments_fileName hext c
  rw [locationOf_functionPath hext hc, locationOf_hookPath hh, hfile, ← List.append_assoc] at hsame
  obtain ⟨-, hlast⟩ := List.append_inj' hsame rfl
  have hchars : last.toList ++ '.' :: l.settings.extension.toList =
      h.1.toList ++ '.' :: "json".toList := by
    have h := congrArg String.toList (List.head_eq_of_cons_eq hlast)
    simpa using h
  have hdots : '.' ∉ h.1.toList ∧ '.' ∉ "json".toList := by
    rcases name_of_mem_hooks hh with hname | hname <;> rw [hname] <;> decide +kernel
  obtain ⟨-, -, hsame⟩ := (List.append_cons_inj_of_notMem hdots.1 hdots.2).mp hchars.symm
  exact hjson (String.toList_inj.mp hsame.symm)

theorem functionPath_injective (hext : '/' ∉ l.settings.extension.toList) {c d : String}
    (hc : ∀ x ∈ pathSegments c, IsName x) (hd : ∀ x ∈ pathSegments d, IsName x)
    (h : locationOf (l.functionPath c) = locationOf (l.functionPath d)) : c = d := by
  rw [locationOf_functionPath hext hc, locationOf_functionPath hext hd] at h
  have hfile := FileTree.pathSegments_injective (List.append_cancel_left h)
  have hchars := congrArg String.toList hfile
  simp only [Settings.fileName, String.toList_append] at hchars
  exact String.toList_inj.mp (List.append_cancel_right (List.append_cancel_right hchars))

theorem hookPath_injective {h k : String × String} (hh : h ∈ l.hooks) (hk : k ∈ l.hooks)
    (hsame : locationOf (l.hookPath h.1) = locationOf (l.hookPath k.1)) : h = k := by
  rw [locationOf_hookPath hh, locationOf_hookPath hk] at hsame
  obtain ⟨-, hlast⟩ := List.append_inj' hsame rfl
  have hname : h.1 = k.1 := (String.append_left_inj _).mp (List.head_eq_of_cons_eq hlast)
  simp only [Layout.hooks, List.mem_cons, List.not_mem_nil, or_false] at hh hk
  rcases hh with rfl | rfl <;> rcases hk with rfl | rfl
  · rfl
  · exact absurd (show "load" = "tick" from hname) (by decide)
  · exact absurd (show "tick" = "load" from hname) (by decide)
  · rfl

/-- No two files of a pack lie in the same place if no context leads back up, the ending of their
files is one name, and contexts do not have the ending of hooks. -/
theorem written_apart (hext : '/' ∉ l.settings.extension.toList)
    (hjson : hooks = true → l.settings.extension ≠ "json")
    (hnames : ∀ c ∈ b.keys, ∀ x ∈ pathSegments c, IsName x) :
    ∀ v ∈ l.written hooks b, ∀ w ∈ l.written hooks b, locationOf v.1 = locationOf w.1 → v = w := by
  intro v hv w hw hsame
  rcases (l.mem_written hooks b).mp hv with ⟨hon, h, hh, rfl⟩ | ⟨e, he, rfl⟩
  · rcases (l.mem_written hooks b).mp hw with ⟨-, k, hk, rfl⟩ | ⟨f, hf, rfl⟩
    · rw [hookPath_injective hh hk hsame]
    · have hname := hnames f.1 (List.mem_map_of_mem hf)
      exact absurd hsame.symm (functionPath_ne_hookPath hext (hjson hon) hname hh)
  · have hname := hnames e.1 (List.mem_map_of_mem he)
    rcases (l.mem_written hooks b).mp hw with ⟨hon, k, hk, rfl⟩ | ⟨f, hf, rfl⟩
    · exact absurd hsame (functionPath_ne_hookPath hext (hjson hon) hname hk)
    · have hcontext := functionPath_injective hext hname (hnames f.1 (List.mem_map_of_mem hf)) hsame
      rw [List.inj_on_of_nodup_map b.distinct he hf hcontext]

end Layout

/-! ## Packs -/

namespace Pack

/-- Nothing in the name of a context leads up or stays: no segment is `.` or `..`. -/
def Straight (b : Buffers) : Prop :=
  ∀ c ∈ b.keys, ∀ x ∈ pathSegments c, x ≠ "." ∧ x ≠ ".."

instance (b : Buffers) : Decidable (Straight b) :=
  inferInstanceAs (Decidable (∀ c ∈ b.keys, ∀ x ∈ pathSegments c, x ≠ "." ∧ x ≠ ".."))

theorem found_of_write {p : Pack} {directory : String} {hooks : Bool} {t : FileTree}
    {files : WrittenFiles} (h : (p.write directory hooks t).2 = .ok files) :
    ∃ b, p.build = .ok b ∧ files = (p.layout directory).files hooks b ∧
      ((p.layout directory).plan hooks b).Found (p.write directory hooks t).1 := by
  unfold write at h ⊢
  cases hb : p.build with
  | error e => simp [hb] at h
  | ok b =>
    refine ⟨b, rfl, ?_⟩
    simp only [hb, Layout.write] at h ⊢
    cases hplan : ((p.layout directory).plan hooks b).perform t with
    | mk after fault =>
      cases fault with
      | some e => simp [hplan] at h
      | none =>
        simp only [hplan, Except.ok.injEq] at h ⊢
        exact ⟨h.symm, FilePlan.found_of_perform hplan⟩

/-- What a written pack leaves in a tree. Every context and hook can be read from its own file
exactly if no two of them that differ in content lie in the same place. This is so if all contexts
have names that functions can have and no segment of them is `.` or `..`, the ending of their files
is one name, and it is not that of the hooks if those are written too. -/
theorem own_files (p : Pack) (directory : String) (hooks : Bool) (t : FileTree)
    {files : WrittenFiles} (h : (p.write directory hooks t).2 = .ok files) :
    let l := p.layout directory
    let after := (p.write directory hooks t).1
    ∃ b, p.build = .ok b ∧ files = l.files hooks b ∧
      (l.Kept hooks b after ↔
        ∀ v ∈ l.written hooks b, ∀ w ∈ l.written hooks b,
          locationOf v.1 = locationOf w.1 → v.2 = w.2) ∧
      ((∀ c ∈ p.script.addressed, FunctionName c) → Straight b →
        '/' ∉ p.settings.extension.toList → (hooks = true → p.settings.extension ≠ "json") →
        l.Kept hooks b after) := by
  intro l after
  obtain ⟨b, hb, hfiles, hfound⟩ := found_of_write h
  have hread := hfound.readFile_iff
  rw [Layout.writes_plan, ← Layout.kept_iff] at hread
  refine ⟨b, hb, hfiles, hread, fun hraw hstraight hext hjson => hread.mpr ?_⟩
  have hnames : ∀ c ∈ b.keys, ∀ x ∈ pathSegments c, IsName x := by
    intro c hc x hx
    refine ⟨?_, hstraight c hc x hx⟩
    rintro rfl
    obtain ⟨s, hs, hempty⟩ := List.mem_map.mp hx
    obtain rfl : s = [] := String.ofList_eq_empty_iff.mp hempty
    exact (p.functionName_of_mem_keys hb hraw hc).empty_notMem_segments hs
  intro v hv w hw hsame
  rw [Layout.written_apart hext hjson hnames v hv w hw hsame]

def sideBySide : Pack where
  space := "demo"
  settings := {}
  script :=
    .inside (.function "game/start" none) false
      (.act (.emit "say start") false <|
      .inside (.anonymousFunction none) false (.act (.emit "say inside") false .done) .done) <|
    .inside (.function "game" none) false (.act (.emit "say game") false .done) <|
    .inside (.tick none) false (.act (.emit "say tick") false .done) .done
  accepted := Settings.fault?_demo

theorem own_files_side_by_side :
    let after := (sideBySide.write "out" true .empty).1
    (sideBySide.write "out" true .empty).2 = .ok
      ⟨["out/demo/functions/default.mcfunction", "out/demo/functions/game/start.mcfunction",
        "out/demo/functions/__fn0.mcfunction", "out/demo/functions/game.mcfunction",
        "out/demo/functions/tick.mcfunction"],
      ["out/minecraft/tags/functions/load.json", "out/minecraft/tags/functions/tick.json"]⟩ ∧
    after.readFile "out/demo/functions/game/start.mcfunction" = .ok "say start" ∧
    after.readFile "out/minecraft/tags/functions/load.json" =
      .ok (hookTag "demo" "default") := by
  intro after
  have hwritten : (sideBySide.write "out" true .empty).2 = .ok
      ⟨["out/demo/functions/default.mcfunction", "out/demo/functions/game/start.mcfunction",
        "out/demo/functions/__fn0.mcfunction", "out/demo/functions/game.mcfunction",
        "out/demo/functions/tick.mcfunction"],
      ["out/minecraft/tags/functions/load.json", "out/minecraft/tags/functions/tick.json"]⟩ := by
    decide +kernel
  obtain ⟨b, hb, -, -, hkept⟩ := sideBySide.own_files "out" true .empty hwritten
  have hbuilt :
      sideBySide.build.toOption.map (fun b => (b.content? "game/start", decide (Straight b))) =
        some (some "say start", true) := by decide +kernel
  rw [hb] at hbuilt
  obtain ⟨hcontent, hstraight⟩ := Prod.mk.inj (Option.some.inj hbuilt)
  have hraw : ∀ c ∈ sideBySide.script.addressed, FunctionName c :=
    fun c hc => absurd hc List.not_mem_nil
  have hkept := hkept hraw (of_decide_eq_true hstraight) (by decide +kernel) (by decide +kernel)
  have hpath : (sideBySide.layout "out").functionPath "game/start" =
      "out/demo/functions/game/start.mcfunction" := by decide +kernel
  have hhook : (sideBySide.layout "out").hookPath "load" =
      "out/minecraft/tags/functions/load.json" := by decide +kernel
  refine ⟨hwritten, ?_, ?_⟩
  · rw [← hpath]
    exact hkept.contexts "game/start" "say start" hcontent
  · rw [← hhook]
    exact hkept.hooks rfl ("load", "default") List.mem_cons_self

def twins : Pack where
  space := "demo"
  settings := {}
  script :=
    .inside (.function "boss" none) false (.act (.emit "say one") false .done) <|
    .inside (.function "./boss" none) false (.act (.emit "say two") false .done) .done
  accepted := Settings.fault?_demo

/-- The second function replaces the first one. -/
theorem twins_overwritten :
    twins.script.addressed = [] ∧
    (twins.write "data" false .empty).2 = .ok
      ⟨["data/demo/functions/default.mcfunction", "data/demo/functions/boss.mcfunction",
        "data/demo/functions/./boss.mcfunction"], []⟩ ∧
    twins.build.toOption.bind (·.content? "boss") = some "say one" ∧
    (twins.write "data" false .empty).1.readFile "data/demo/functions/boss.mcfunction" =
      .ok "say two" := by
  decide +kernel

end Pack

end CommandPack
