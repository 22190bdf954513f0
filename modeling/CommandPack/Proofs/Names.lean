import CommandPack.Pack

namespace CommandPack

theorem BuildError.accepts_of_checkName {kind : NameKind} {name : String}
    (h : BuildError.checkName kind name = .ok ()) : kind.Accepts name := by
  cases hname : kind.check name with
  | error e =>
    rw [checkName, hname] at h
    nomatch h
  | ok u => exact NameKind.check_eq_ok.mp hname

/-- All names that a pack is made with are accepted. -/
theorem Settings.accepts_of_fault? {s : Settings} {space : String} (h : s.fault? space = none) :
    NameKind.space.Accepts space ∧
    NameKind.context.Accepts s.defaultContext ∧ NameKind.context.Accepts s.constsContext ∧
    NameKind.objective.Accepts s.varObjective ∧ NameKind.objective.Accepts s.constObjective := by
  simp only [fault?] at h
  split at h
  · nomatch h
  · rename_i hchecks
    obtain ⟨⟨⟩, hspace, hchecks⟩ := exists_of_bind_eq_ok hchecks
    obtain ⟨⟨⟩, hdefault, hchecks⟩ := exists_of_bind_eq_ok hchecks
    obtain ⟨⟨⟩, hconsts, hchecks⟩ := exists_of_bind_eq_ok hchecks
    obtain ⟨⟨⟩, hvar, hconst⟩ := exists_of_bind_eq_ok hchecks
    exact ⟨BuildError.accepts_of_checkName hspace, BuildError.accepts_of_checkName hdefault,
      BuildError.accepts_of_checkName hconsts, BuildError.accepts_of_checkName hvar,
      BuildError.accepts_of_checkName hconst⟩

/-- The settings that packs use unless they say otherwise are accepted. -/
theorem Settings.fault?_demo : Settings.fault? {} "demo" = none := by
  decide +kernel

theorem toList_generatedName (kind : String) (k : Nat) :
    (generatedName kind k).toList = generatedLead ++ kind.toList ++ Text.digits k := by
  simp only [generatedName, Text.natural, String.toList_append, String.toList_ofList]

/-- A generated name is made of its start, its kind and decimal digits. -/
theorem notMem_generatedName {c : Char} {kind : String} (hlead : c ∉ generatedLead)
    (hkind : c ∉ kind.toList) (hdigit : c.isDigit = false) (k : Nat) :
    c ∉ (generatedName kind k).toList := by
  rw [toList_generatedName, List.mem_append, List.mem_append]
  rintro ((h | h) | h)
  · exact hlead h
  · exact hkind h
  · exact Text.notMem_digits hdigit k h

namespace Name

theorem hasDoubleSlash_slash_cons (cs : List Char) :
    hasDoubleSlash ('/' :: cs) = true ↔ cs.head? = some '/' ∨ hasDoubleSlash cs = true := by
  cases cs with
  | nil => simp [hasDoubleSlash]
  | cons d ds => by_cases hd : d = '/' <;> simp [hasDoubleSlash, hd]

theorem hasDoubleSlash_cons_of_ne {c : Char} (hc : c ≠ '/') (cs : List Char) :
    hasDoubleSlash (c :: cs) = hasDoubleSlash cs := by
  rw [hasDoubleSlash]
  exact fun _ h => absurd h hc

/-- The first segment is empty if there is nothing in front of the first slash. -/
theorem empty_mem_segments_iff (cs : List Char) :
    [] ∈ Text.segments '/' cs ↔
      cs = [] ∨ cs.head? = some '/' ∨ [] ∈ (Text.segments '/' cs).tail := by
  cases cs with
  | nil => simp [Text.segments]
  | cons c cs =>
    by_cases hc : c = '/'
    · simp [Text.segments, hc]
    · obtain ⟨s, ss, -, hsegments⟩ := Text.segments_cons_of_ne hc cs
      simp [hsegments, hc]

/-- Behind the first segment, an empty one means a slash at the end or two slashes in a row. -/
theorem empty_mem_tail_iff (cs : List Char) :
    [] ∈ (Text.segments '/' cs).tail ↔ cs.getLast? = some '/' ∨ hasDoubleSlash cs = true := by
  induction cs with
  | nil => simp [Text.segments, hasDoubleSlash]
  | cons c cs ih =>
    have hlast : (c :: cs).getLast? = some '/' ↔ cs.getLast? = some '/' ∨ cs = [] ∧ c = '/' := by
      cases cs <;> simp
    by_cases hc : c = '/'
    · subst hc
      rw [Text.segments, if_pos rfl, List.tail_cons, empty_mem_segments_iff, ih, hlast,
        hasDoubleSlash_slash_cons]
      grind
    · obtain ⟨s, ss, hrest, hsegments⟩ := Text.segments_cons_of_ne hc cs
      rw [hrest] at ih
      rw [hsegments, hlast, hasDoubleSlash_cons_of_ne hc]
      simpa [hc] using ih

/-- The three places where a slash has nothing beside it. -/
theorem emptySegment_iff {cs : List Char} (hne : cs ≠ []) :
    (cs.head? == some '/' || cs.getLast? == some '/' || hasDoubleSlash cs) = true ↔
      [] ∈ Text.segments '/' cs := by
  rw [empty_mem_segments_iff, empty_mem_tail_iff]
  simp [hne, or_assoc]

/-- An accepted path has no empty segment. -/
theorem empty_notMem_segments {cs : List Char} (h : pathFault? cs = none) :
    [] ∉ Text.segments '/' cs := by
  unfold pathFault? at h
  split at h
  · nomatch h
  · rename_i hne
    split at h
    · nomatch h
    · split at h
      · nomatch h
      · rename_i hslashes
        exact fun hmem => hslashes ((emptySegment_iff (mt List.isEmpty_iff.mpr hne)).mpr hmem)

end Name

namespace Name

theorem notMem_of_all {test : Char → Bool} {c : Char} (hc : test c = false) {cs : List Char}
    (h : ¬ (!cs.all test) = true) : c ∉ cs := by
  intro hmem
  rw [Bool.not_eq_true, Bool.not_eq_false'] at h
  rw [List.all_eq_true.mp h c hmem] at hc
  nomatch hc

theorem notMem_of_pathFault? {cs : List Char} (h : pathFault? cs = none) {c : Char}
    (hc : isPath c = false) : c ∉ cs := by
  unfold pathFault? at h
  split at h
  · nomatch h
  · split at h
    · nomatch h
    · rename_i hall
      exact notMem_of_all hc hall

/-- An accepted namespace is one plain segment. -/
theorem plain_of_spaceFault? {cs : List Char} (h : spaceFault? cs = none) :
    cs ≠ [] ∧ ∀ c, isPlain c = false → c ∉ cs := by
  unfold spaceFault? at h
  split at h
  · nomatch h
  · rename_i hne
    split at h
    · nomatch h
    · rename_i hall
      exact ⟨fun hnil => hne (hnil ▸ rfl), fun c hc => notMem_of_all hc hall⟩

theorem notMem_of_objectiveFault? {cs : List Char} (h : objectiveFault? cs = none) {c : Char}
    (hc : isObjective c = false) : c ∉ cs := by
  unfold objectiveFault? at h
  split at h
  · nomatch h
  · split at h
    · nomatch h
    · rename_i hall
      exact notMem_of_all hc hall

theorem notMem_of_holderFault? {cs : List Char} (h : holderFault? cs = none) {c : Char}
    (hc : Text.isBlank c = true) : c ∉ cs := by
  intro hmem
  unfold holderFault? at h
  split at h
  · nomatch h
  · split at h
    · nomatch h
    · rename_i hany
      exact hany (List.any_eq_true.mpr ⟨c, hmem, hc⟩)

end Name

/-- A blank character that is none of those of paths and objectives stands in no accepted name. -/
theorem NameKind.Accepts.notMem {kind : NameKind} {name : String} (h : kind.Accepts name) {c : Char}
    (hblank : Text.isBlank c = true) (hpath : Name.isPath c = false)
    (hobjective : Name.isObjective c = false) : c ∉ name.toList := by
  cases kind with
  | space =>
    have hplain : Name.isPlain c = false := (Bool.or_eq_false_iff.mp hpath).1
    exact (Name.plain_of_spaceFault? h).2 c hplain
  | context => exact Name.notMem_of_pathFault? (Option.or_eq_none_iff.mp h).1 hpath
  | holder => exact Name.notMem_of_holderFault? (Option.or_eq_none_iff.mp h).1 hblank
  | bossBar => exact Name.notMem_of_pathFault? h hpath
  | objective => exact Name.notMem_of_objectiveFault? h hobjective

theorem NameKind.Accepts.space_notMem {kind : NameKind} {name : String} (h : kind.Accepts name) :
    ' ' ∉ name.toList :=
  h.notMem Text.isBlank_space (by decide) (by decide)

theorem NameKind.Accepts.newline_notMem {kind : NameKind} {name : String} (h : kind.Accepts name) :
    '\n' ∉ name.toList :=
  h.notMem Text.isBlank_newline (by decide) (by decide)

end CommandPack
