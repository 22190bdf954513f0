import CommandPack.Proofs.Names

namespace CommandPack

namespace Name

def SegmentCharacter (c : Char) : Prop :=
  ('a' ≤ c ∧ c ≤ 'z') ∨ ('0' ≤ c ∧ c ≤ '9') ∨ c = '_' ∨ c = '.' ∨ c = '-'

def ObjectiveCharacter (c : Char) : Prop :=
  ('a' ≤ c ∧ c ≤ 'z') ∨ ('A' ≤ c ∧ c ≤ 'Z') ∨ ('0' ≤ c ∧ c ≤ '9') ∨
    c = '_' ∨ c = '.' ∨ c = '+' ∨ c = '-'

def Word (allowed : Char → Prop) (cs : List Char) : Prop := cs ≠ [] ∧ ∀ c ∈ cs, allowed c

def Path (cs : List Char) : Prop := ∀ s ∈ Text.segments '/' cs, Word SegmentCharacter s

end Name

open Name

/-- What a name of each kind looks like. -/
def NameKind.Grammar (kind : NameKind) (name : List Char) : Prop :=
  match kind with
  | .space => Word SegmentCharacter name
  | .bossBar => Path name
  | .context => Path name ∧ ¬ ['_', '_'] <+: name
  | .objective => Word ObjectiveCharacter name
  | .holder =>
    1 ≤ name.length ∧ name.length ≤ 40 ∧ (∀ c ∈ name, Text.isBlank c = false) ∧
      ¬ ['@'] <+: name ∧ ¬ ['_', '_'] <+: name

/-- What it means that a name breaks a rule. -/
def NameFault.BrokenBy (fault : NameFault) (name : List Char) : Prop :=
  match fault with
  | .empty => name = []
  | .spaceCharacter => ∃ c ∈ name, ¬ SegmentCharacter c
  | .pathCharacter => ∃ c ∈ name, c ≠ '/' ∧ ¬ SegmentCharacter c
  | .emptySegment => [] ∈ Text.segments '/' name
  | .blank => ∃ c ∈ name, Text.isBlank c = true
  | .selectorSign => ['@'] <+: name
  | .tooLong => 40 < name.length
  | .objectiveCharacter => ∃ c ∈ name, ¬ ObjectiveCharacter c
  | .reserved => ['_', '_'] <+: name

/-- The rules for names of a kind, in the order in which they are tested. -/
def NameKind.rules : NameKind → List NameFault
  | .space => [.empty, .spaceCharacter]
  | .bossBar => [.empty, .pathCharacter, .emptySegment]
  | .context => [.empty, .pathCharacter, .emptySegment] ++ [.reserved]
  | .objective => [.empty, .objectiveCharacter]
  | .holder => [.empty, .blank, .selectorSign, .tooLong] ++ [.reserved]

/-- The name breaks this rule and none of those that are tested before it. -/
def NameKind.BreaksFirst (kind : NameKind) (fault : NameFault) (name : List Char) : Prop :=
  fault.BrokenBy name ∧ ∃ before after, kind.rules = before ++ fault :: after ∧
    ∀ earlier ∈ before, ¬ earlier.BrokenBy name

namespace Name

theorem isLower_iff (c : Char) : c.isLower = true ↔ 'a' ≤ c ∧ c ≤ 'z' :=
  Bool.and_eq_true_iff.trans (and_congr decide_eq_true_iff decide_eq_true_iff)

theorem isDigit_iff (c : Char) : c.isDigit = true ↔ '0' ≤ c ∧ c ≤ '9' :=
  Bool.and_eq_true_iff.trans (and_congr decide_eq_true_iff decide_eq_true_iff)

theorem isAlpha_iff (c : Char) :
    c.isAlpha = true ↔ ('A' ≤ c ∧ c ≤ 'Z') ∨ ('a' ≤ c ∧ c ≤ 'z') :=
  Bool.or_eq_true_iff.trans (or_congr decide_eq_true_iff (isLower_iff c))

theorem isPlain_iff (c : Char) : isPlain c = true ↔ SegmentCharacter c := by
  simp only [isPlain, SegmentCharacter, Bool.or_eq_true, beq_iff_eq, isLower_iff, isDigit_iff,
    or_assoc]

theorem isPath_iff (c : Char) : isPath c = true ↔ c = '/' ∨ SegmentCharacter c := by
  rw [isPath, Bool.or_eq_true, isPlain_iff, beq_iff_eq, or_comm]

theorem isObjective_iff (c : Char) : isObjective c = true ↔ ObjectiveCharacter c := by
  simp only [isObjective, ObjectiveCharacter, Bool.or_eq_true, beq_iff_eq, isAlpha_iff,
    isDigit_iff, or_assoc]
  exact or_left_comm

instance : DecidablePred SegmentCharacter := fun c => decidable_of_iff _ (isPlain_iff c)

instance : DecidablePred ObjectiveCharacter := fun c => decidable_of_iff _ (isObjective_iff c)

end Name

instance (fault : NameFault) (name : List Char) : Decidable (fault.BrokenBy name) :=
  match fault with
  | .empty => inferInstanceAs (Decidable (name = []))
  | .spaceCharacter => inferInstanceAs (Decidable (∃ c ∈ name, ¬ SegmentCharacter c))
  | .pathCharacter => inferInstanceAs (Decidable (∃ c ∈ name, c ≠ '/' ∧ ¬ SegmentCharacter c))
  | .emptySegment => inferInstanceAs (Decidable ([] ∈ Text.segments '/' name))
  | .blank => inferInstanceAs (Decidable (∃ c ∈ name, Text.isBlank c = true))
  | .selectorSign => inferInstanceAs (Decidable (['@'] <+: name))
  | .tooLong => inferInstanceAs (Decidable (40 < name.length))
  | .objectiveCharacter => inferInstanceAs (Decidable (∃ c ∈ name, ¬ ObjectiveCharacter c))
  | .reserved => inferInstanceAs (Decidable (['_', '_'] <+: name))

def NameFault.first? (rules : List NameFault) (name : List Char) : Option NameFault :=
  rules.find? fun fault => fault.BrokenBy name

namespace NameFault

variable {name : List Char} {fault : NameFault} {rules : List NameFault} {test : Bool}

/-- A test decides whether its rule is the first that is broken. -/
theorem first?_cons (h : test = true ↔ fault.BrokenBy name) :
    first? (fault :: rules) name = if test then some fault else first? rules name := by
  rw [first?, List.find?_cons]
  cases test with
  | true => rw [decide_eq_true (h.mp rfl), if_pos rfl]
  | false =>
    rw [decide_eq_false (mt h.mpr Bool.false_ne_true), if_neg Bool.false_ne_true]
    rfl

theorem first?_append (rules rules' : List NameFault) :
    first? (rules ++ rules') name = (first? rules name).or (first? rules' name) :=
  List.find?_append

theorem not_all_iff {test : Char → Bool} {allowed : Char → Prop}
    (h : ∀ c, test c = true ↔ allowed c) :
    (!name.all test) = true ↔ ∃ c ∈ name, ¬ allowed c := by
  simp [← h]

theorem head?_iff {c : Char} : (name.head? == some c) = true ↔ [c] <+: name := by
  cases name with
  | nil => simp
  | cons d ds => simpa using eq_comm

end NameFault

open NameFault

namespace Name

theorem spaceFault?_eq_first? (name : List Char) :
    spaceFault? name = first? [.empty, .spaceCharacter] name := by
  rw [first?_cons List.isEmpty_iff, first?_cons (not_all_iff isPlain_iff)]
  rfl

theorem objectiveFault?_eq_first? (name : List Char) :
    objectiveFault? name = first? [.empty, .objectiveCharacter] name := by
  rw [first?_cons List.isEmpty_iff, first?_cons (not_all_iff isObjective_iff)]
  rfl

/-- A slash at either end and two slashes in a row break the same rule. -/
theorem pathFault?_eq_first? (name : List Char) :
    pathFault? name = first? [.empty, .pathCharacter, .emptySegment] name := by
  have hcharacter : (!name.all isPath) = true ↔ NameFault.pathCharacter.BrokenBy name := by
    rw [not_all_iff isPath_iff]
    simp [BrokenBy]
  rw [pathFault?, first?_cons List.isEmpty_iff, first?_cons hcharacter]
  split
  · rfl
  · rename_i hne
    rw [first?_cons (emptySegment_iff (mt List.isEmpty_iff.mpr hne))]
    rfl

theorem holderFault?_eq_first? (name : List Char) :
    holderFault? name = first? [.empty, .blank, .selectorSign, .tooLong] name := by
  have hlength : decide (maxHolderLength < name.length) = true ↔
      NameFault.tooLong.BrokenBy name := decide_eq_true_iff
  rw [first?_cons List.isEmpty_iff, first?_cons List.any_eq_true, first?_cons head?_iff,
    first?_cons hlength, holderFault?]
  simp only [decide_eq_true_eq]
  rfl

theorem reservedFault?_eq_first? (name : List Char) :
    reservedFault? name = first? [.reserved] name := by
  rw [first?_cons List.isPrefixOf_iff_prefix]
  rfl

end Name

/-- Of the rules that a name breaks, the first one is reported. -/
theorem NameKind.fault?_eq_first? (kind : NameKind) (name : List Char) :
    kind.fault? name = first? kind.rules name := by
  cases kind with
  | space => exact spaceFault?_eq_first? name
  | bossBar => exact pathFault?_eq_first? name
  | objective => exact objectiveFault?_eq_first? name
  | context =>
    rw [rules, first?_append, ← pathFault?_eq_first?, ← reservedFault?_eq_first?]
    rfl
  | holder =>
    rw [rules, first?_append, ← holderFault?_eq_first?, ← reservedFault?_eq_first?]
    rfl

namespace Name

theorem word_iff {allowed : Char → Prop} {cs : List Char} :
    Word allowed cs ↔ cs ≠ [] ∧ ¬ ∃ c ∈ cs, ¬ allowed c := by
  simp [Word]

/-- The characters of the segments are those of the name that are no slashes. -/
theorem path_iff {cs : List Char} :
    Path cs ↔ [] ∉ Text.segments '/' cs ∧ ¬ ∃ c ∈ cs, c ≠ '/' ∧ ¬ SegmentCharacter c := by
  have hcharacters : (∀ s ∈ Text.segments '/' cs, ∀ c ∈ s, SegmentCharacter c) ↔
      ∀ c ∈ cs, c ≠ '/' → SegmentCharacter c := by
    rw [← List.forall_mem_flatten, Text.flatten_segments]
    simp
  have hnonempty : (∀ s ∈ Text.segments '/' cs, s ≠ []) ↔ [] ∉ Text.segments '/' cs :=
    ⟨fun h hmem => h [] hmem rfl, fun h s hs hnil => h (hnil ▸ hs)⟩
  simp only [Path, Word, imp_and, forall_and, hcharacters, hnonempty]
  simp

theorem not_path_nil : ¬ Path [] := fun h => (h [] List.mem_cons_self).1 rfl

/-- A slash keeps the segments on its two sides apart. -/
theorem path_append_slash {as bs : List Char} : Path (as ++ '/' :: bs) ↔ Path as ∧ Path bs := by
  rw [Path, Text.segments_append_sep, List.forall_mem_append]
  rfl

/-- The reserved start does not reach over a slash. -/
theorem reserved_append_slash {as bs : List Char} :
    ['_', '_'] <+: as ++ '/' :: bs ↔ ['_', '_'] <+: as := by
  match as with
  | [] | [_] => simp [List.cons_prefix_cons]
  | _ :: _ :: _ => simp [List.cons_prefix_cons]

end Name

/-- A name matches the grammar of its kind exactly if it breaks none of the rules. -/
theorem NameKind.grammar_iff {kind : NameKind} {name : List Char} :
    kind.Grammar name ↔ ∀ fault ∈ kind.rules, ¬ fault.BrokenBy name := by
  have hpath : Path name ↔
      ∀ fault ∈ [NameFault.empty, .pathCharacter, .emptySegment], ¬ fault.BrokenBy name := by
    have hne : Path name → name ≠ [] := fun h hnil => not_path_nil (hnil ▸ h)
    rw [path_iff] at hne ⊢
    simp only [List.forall_mem_cons, BrokenBy]
    grind
  cases kind with
  | space | objective =>
    rw [Grammar, word_iff]
    simp [rules, BrokenBy]
  | bossBar => exact hpath
  | context =>
    rw [rules, List.forall_mem_append, ← hpath]
    simp [Grammar, BrokenBy]
  | holder =>
    have hne : 1 ≤ name.length ↔ name ≠ [] := List.length_pos_iff
    have hblank : (∀ c ∈ name, Text.isBlank c = false) ↔ ¬ ∃ c ∈ name, Text.isBlank c = true := by
      simp
    rw [Grammar, rules, hne, hblank, ← Nat.not_lt]
    simp only [List.forall_mem_append, List.forall_mem_cons, BrokenBy]
    grind

/-- A name is accepted exactly if it matches the grammar of its kind. A refused name comes back as
it is, with its kind and the first rule that it breaks. Two accepted names of bars with a slash
between them are one again, and so are they as the name of a context if the first one is no reserved
name. -/
theorem NameKind.check_grammar :
    (∀ (kind : NameKind) (name : String),
      kind.check name = .ok () ↔ kind.Grammar name.toList) ∧
    (∀ (kind : NameKind) (name : String) (e : NameError), kind.check name = .error e ↔
      e.kind = kind ∧ e.name = name ∧ kind.BreaksFirst e.fault name.toList) ∧
    ∀ front back : String,
      (NameKind.bossBar.check (front ++ "/" ++ back) = .ok () ↔
        NameKind.bossBar.check front = .ok () ∧ NameKind.bossBar.check back = .ok ()) ∧
      (NameKind.context.check (front ++ "/" ++ back) = .ok () ↔
        NameKind.bossBar.check front = .ok () ∧ NameKind.bossBar.check back = .ok () ∧
          ¬ ['_', '_'] <+: front.toList) := by
  have hok (kind : NameKind) (name : String) :
      kind.check name = .ok () ↔ kind.Grammar name.toList := by
    rw [check_eq_ok, Accepts, fault?_eq_first?, first?, List.find?_eq_none, grammar_iff]
    simp only [decide_eq_true_eq]
  refine ⟨hok, fun kind name e => ?_, fun front back => ?_⟩
  · have hfirst (fault : NameFault) :
        kind.fault? name.toList = some fault ↔ kind.BreaksFirst fault name.toList := by
      rw [fault?_eq_first?, first?, List.find?_eq_some_iff_append]
      simp [BreaksFirst]
    rw [check_eq_error]
    constructor
    · rintro ⟨fault, hfault, rfl⟩
      exact ⟨rfl, rfl, (hfirst fault).mp hfault⟩
    · rintro ⟨rfl, rfl, hfault⟩
      exact ⟨e.fault, (hfirst e.fault).mpr hfault, rfl⟩
  · have hjoin : (front ++ "/" ++ back).toList = front.toList ++ '/' :: back.toList := by simp
    simp only [hok, Grammar, hjoin, path_append_slash, reserved_append_slash, and_assoc, and_self]

end CommandPack
