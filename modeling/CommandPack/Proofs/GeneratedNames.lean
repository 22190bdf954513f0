import CommandPack.Proofs.Actions
import CommandPack.Proofs.Moments
import CommandPack.Proofs.Names
import Mathlib.Algebra.Group.Nat.Defs

namespace CommandPack

/-! ## The text of a generated name -/

/-- A number below a power of ten has no more digits than the power has zeros. -/
theorem Text.length_digits_le {n k : Nat} (hk : 0 < k) (hn : n < 10 ^ k) :
    (digits n).length ≤ k := by
  induction k generalizing n with
  | zero => omega
  | succ k ih =>
    unfold digits
    split
    · exact hk
    · rename_i hlarge
      have hdiv : n / 10 < 10 ^ k := by
        rw [Nat.pow_succ] at hn
        omega
      have hpos : 0 < k := by
        rcases Nat.eq_zero_or_pos k with rfl | hpos
        · omega
        · exact hpos
      simpa using ih hpos hdiv

/-- The digits of a generated name are those of its number. -/
theorem filter_isDigit_generatedName {kind : String} (hkind : kind.toList.filter Char.isDigit = [])
    (k : Nat) : (generatedName kind k).toList.filter Char.isDigit = Text.digits k := by
  have hdigits : (Text.digits k).filter Char.isDigit = Text.digits k :=
    List.filter_eq_self.mpr fun _ hc => Text.isDigit_of_mem_digits hc
  have hlead : generatedLead.filter Char.isDigit = [] := by decide
  rw [toList_generatedName, List.filter_append, List.filter_append, hlead, hkind, hdigits]
  rfl

/-- Names with the same text have the same number, also across kinds. -/
theorem number_of_generatedName {kind kind' : String} (hkind : kind.toList.filter Char.isDigit = [])
    (hkind' : kind'.toList.filter Char.isDigit = []) {j k : Nat}
    (h : generatedName kind j = generatedName kind' k) : j = k := by
  apply Text.digits_injective
  rw [← filter_isDigit_generatedName hkind, h, filter_isDigit_generatedName hkind']

theorem isGenerated_generatedName (kind : String) (k : Nat) :
    Name.isGenerated (generatedName kind k).toList = true := by
  rw [Name.isGenerated, toList_generatedName, List.append_assoc, List.isPrefixOf_iff_prefix]
  exact List.prefix_append _ _

theorem reservedFault?_generatedName (kind : String) (k : Nat) :
    Name.reservedFault? (generatedName kind k).toList = some .reserved :=
  if_pos (isGenerated_generatedName kind k)

/-- No name that is accepted for a variable or a function is a generated one. -/
theorem NameKind.Accepts.ne_generatedName {name : String}
    (h : NameKind.holder.Accepts name ∨ NameKind.context.Accepts name) (kind : String) (k : Nat) :
    name ≠ generatedName kind k := by
  have hnone : Name.reservedFault? name.toList = none :=
    h.elim (fun h => (Option.or_eq_none_iff.mp h).2) fun h => (Option.or_eq_none_iff.mp h).2
  rintro rfl
  rw [reservedFault?_generatedName] at hnone
  nomatch hnone

/-! ## The rules that a generated name keeps -/

namespace Name

theorem isPlain_of_isDigit {c : Char} (h : c.isDigit = true) : isPlain c = true := by
  simp [isPlain, h]

theorem ne_of_isPlain {c d : Char} (h : isPlain c = true) (hd : isPlain d = false) : c ≠ d := by
  rintro rfl
  rw [h] at hd
  nomatch hd

theorem hasDoubleSlash_of_notMem {cs : List Char} (h : '/' ∉ cs) : hasDoubleSlash cs = false := by
  fun_induction hasDoubleSlash cs with
  | case1 cs => exact absurd List.mem_cons_self h
  | case2 c cs _ ih => exact ih fun hmem => h (List.mem_cons_of_mem _ hmem)
  | case3 => rfl

/-- One segment of plain characters is a path. -/
theorem pathFault?_of_plain {cs : List Char} (hne : cs ≠ []) (h : ∀ c ∈ cs, isPlain c = true) :
    pathFault? cs = none := by
  have hslash : '/' ∉ cs := fun hmem => ne_of_isPlain (h _ hmem) (by decide) rfl
  have hpath : cs.all isPath = true :=
    List.all_eq_true.mpr fun c hc => by simp [isPath, h c hc]
  have hhead : cs.head? ≠ some '/' := fun hc => hslash (List.mem_of_head? hc)
  have hlast : cs.getLast? ≠ some '/' := fun hc => hslash (List.mem_of_getLast? hc)
  simp [pathFault?, hne, hpath, hhead, hlast, hasDoubleSlash_of_notMem hslash]

theorem toNat_of_isLower {c : Char} (h : c.isLower = true) : 97 ≤ c.toNat ∧ c.toNat ≤ 122 := by
  obtain ⟨hlow, hhigh⟩ := Bool.and_eq_true_iff.mp h
  exact ⟨UInt32.le_iff_toNat_le.mp (of_decide_eq_true hlow),
    UInt32.le_iff_toNat_le.mp (of_decide_eq_true hhigh)⟩

theorem toNat_of_isPlain {c : Char} (h : isPlain c = true) : 0x20 < c.toNat ∧ c.toNat < 0x7F := by
  simp only [isPlain, Bool.or_eq_true, beq_iff_eq] at h
  rcases h with (((h | h) | rfl) | rfl) | rfl
  · have hlower := toNat_of_isLower h
    omega
  · have hdigit := Char.isDigit_iff_toNat.mp h
    simp only [Char.reduceToNat] at hdigit
    omega
  all_goals decide

theorem not_isBlank_of_isPlain {c : Char} (h : isPlain c = true) : Text.isBlank c = false := by
  obtain ⟨hlow, hhigh⟩ := toNat_of_isPlain h
  simp only [Text.isBlank, Text.blankRanges, List.any_eq_false, List.mem_cons, List.not_mem_nil,
    or_false, Bool.and_eq_true, decide_eq_true_eq]
  rintro r (rfl | rfl | rfl | rfl | rfl | rfl | rfl | rfl | rfl | rfl) <;> omega

/-- A few plain characters name a score holder. -/
theorem holderFault?_of_plain {cs : List Char} (hne : cs ≠ []) (h : ∀ c ∈ cs, isPlain c = true)
    (hlength : cs.length ≤ maxHolderLength) : holderFault? cs = none := by
  have hblank : cs.any Text.isBlank = false := by
    rw [List.any_eq_false]
    intro c hc
    simp [not_isBlank_of_isPlain (h c hc)]
  have hhead : cs.head? ≠ some '@' := fun hc =>
    ne_of_isPlain (h _ (List.mem_of_head? hc)) (by decide) rfl
  simp [holderFault?, hne, hblank, hhead, hlength]

end Name

theorem isPlain_of_mem_generatedName {kind : String} (hkind : kind.toList.all Name.isPlain = true)
    {k : Nat} {c : Char} (hc : c ∈ (generatedName kind k).toList) : Name.isPlain c = true := by
  rw [toList_generatedName, List.mem_append, List.mem_append] at hc
  rcases hc with (hc | hc) | hc
  · exact List.all_eq_true.mp (show generatedLead.all Name.isPlain = true by decide) c hc
  · exact List.all_eq_true.mp hkind c hc
  · exact Name.isPlain_of_isDigit (Text.isDigit_of_mem_digits hc)

theorem generatedName_ne_nil (kind : String) (k : Nat) : (generatedName kind k).toList ≠ [] := by
  rw [toList_generatedName]
  exact List.append_ne_nil_of_right_ne_nil _ (Text.digits_ne_nil k)

/-- A generated name of a function breaks no rule but the one that reserves it. -/
theorem fault?_generatedName_fn (k : Nat) :
    NameKind.context.fault? (generatedName "fn" k).toList = some .reserved := by
  have hpath := Name.pathFault?_of_plain (generatedName_ne_nil "fn" k) fun _ hc =>
    isPlain_of_mem_generatedName (by decide) hc
  rw [NameKind.fault?, hpath, Option.none_or, reservedFault?_generatedName]

/-- So does that of a variable, as long as the count fits into a machine word. -/
theorem fault?_generatedName_v {k : Nat} (hk : k < 2 ^ 64) :
    NameKind.holder.fault? (generatedName "v" k).toList = some .reserved := by
  have hdigits : (Text.digits k).length ≤ 20 := Text.length_digits_le (by decide) (by omega)
  have hlength : (generatedName "v" k).toList.length ≤ maxHolderLength := by
    rw [toList_generatedName, List.length_append]
    have hlead : (generatedLead ++ "v".toList).length = 3 := by decide
    rw [hlead, maxHolderLength]
    omega
  have hholder := Name.holderFault?_of_plain (generatedName_ne_nil "v" k)
    (fun _ hc => isPlain_of_mem_generatedName (by decide) hc) hlength
  rw [NameKind.fault?, hholder, Option.none_or, reservedFault?_generatedName]

/-! ## The names that a run generates -/

def Moment.generated? : Moment → Option (NameKind × String)
  | .act (.freshVariable _) before => some (.holder, before.draft.freshVariable.1.holder)
  | .enter (.anonymousFunction _) _ entered => some (.context, entered.draft.place.context)
  | _ => none

theorem Moment.enter_of_generated?_context {x : Moment} {name : String}
    (h : x.generated? = some (.context, name)) :
    ∃ slot before entered, x = .enter (.anonymousFunction slot) before entered ∧
      entered.draft.place.context = name := by
  cases x with
  | act a before => cases a <;> simp [generated?] at h
  | leave o before after => nomatch h
  | enter o before entered =>
    cases o with
    | anonymousFunction slot => exact ⟨slot, before, entered, rfl, by simpa [generated?] using h⟩
    | _ => nomatch h

inductive Numbered (count : Nat) : NameKind × String → Prop
  | «variable» (k : Nat) (hk : k < count) : Numbered count (.holder, generatedName "v" k)
  | function (k : Nat) (hk : k < count) : Numbered count (.context, generatedName "fn" k)

theorem Numbered.mono {n m : Nat} {g : NameKind × String} (h : Numbered n g) (hle : n ≤ m) :
    Numbered m g := by
  cases h with
  | «variable» k hk => exact .variable k (by omega)
  | function k hk => exact .function k (by omega)

/-- Names that were numbered before differ from the next one, whatever their kinds are. -/
theorem Numbered.ne_next {n : Nat} {g : NameKind × String} (h : Numbered n g) {kind : String}
    (hkind : kind.toList.filter Char.isDigit = []) : g.2 ≠ generatedName kind n := by
  intro hname
  cases h with
  | «variable» k hk =>
    have hnumber : k = n := number_of_generatedName (by decide) hkind hname
    omega
  | function k hk =>
    have hnumber : k = n := number_of_generatedName (by decide) hkind hname
    omega

/-- What a moment does to the count: it gives the next name and counts on, or it does neither. -/
def Moment.Counts (x : Moment) (before after : Nat) : Prop :=
  match x.generated? with
  | none => after = before
  | some g => after = before + 1 ∧
      (g = (.holder, generatedName "v" before) ∨ g = (.context, generatedName "fn" before))

theorem Moment.Counts.le {x : Moment} {n m : Nat} (h : x.Counts n m) : n ≤ m := by
  unfold Counts at h
  split at h <;> omega

/-- Only a fresh variable counts among the actions. -/
theorem Action.counts_read (a : Action) (p : Site) (m : Memory)
    (ha : ∀ slot, a ≠ .freshVariable slot) :
    (a.read p m).memory.generated = m.generated := by
  have hread := a.remembers_read p m
  generalize a.read p m = r at hread ⊢
  cases hread with
  | freshVariable slot => exact absurd rfl (ha slot)
  | same _ _ | «variable» _ _ | selector _ _ | bossBar _ _ _ => rfl

theorem Action.counts (a : Action) (w : Workspace) :
    (Moment.act a w).Counts w.draft.generated (a.perform w).2.draft.generated := by
  rw [a.perform_eq_record w []]
  by_cases ha : ∃ slot, a = .freshVariable slot
  · obtain ⟨slot, rfl⟩ := ha
    exact ⟨rfl, .inl rfl⟩
  · have hsame := a.counts_read (w.draft.site []) w.memory fun slot h => ha ⟨slot, h⟩
    have hnone : (Moment.act a w).generated? = none := by
      cases a with
      | freshVariable slot => exact absurd ⟨slot, rfl⟩ ha
      | _ => rfl
    rw [Moment.Counts, hnone]
    exact hsame

/-- Only a function without a name counts among the steps with a script inside. -/
theorem Opening.counts {o : Opening} {w v : Workspace} (he : o.enter w = .ok v) :
    (Moment.enter o w v).Counts w.draft.generated v.draft.generated := by
  obtain ⟨entered, hentered, hs⟩ := stands_of_enter he []
  have hcount : v.draft.generated = entered.memory.generated := congrArg Memory.generated hs.memory
  rw [hcount]
  cases o with
  | anonymousFunction slot =>
    obtain rfl := Except.ok.inj he
    obtain rfl := Except.ok.inj hentered
    exact ⟨rfl, .inr rfl⟩
  | function name slot =>
    simp only [entrance] at hentered
    cases hname : BuildError.checkName .context name with
    | error e => simp only [hname, reduceCtorEq] at hentered
    | ok u =>
      simp only [hname] at hentered
      obtain rfl := Except.ok.inj hentered
      rfl
  | tick slot =>
    obtain rfl := Except.ok.inj hentered
    rfl
  | scope _ | nest _ | when _ | whenScore _ _ | forEach _ =>
    cases entered_of_entrance hentered with
    | inScope lead hc hf => rfl
    | guarded c hc hf => rfl
    | function name generated slot hc hf => simp [functionSlot?] at hf

/-- The count is kept when a step is left, also if the script inside failed. -/
theorem Opening.generated_perform {o : Opening} {w v : Workspace} (he : o.enter w = .ok v)
    (body : Script) : (o.perform body.run w).2.draft.generated = (body.run v).2.draft.generated := by
  rw [draft_perform he body]
  rfl

/-- The count never goes back over these moments; their names are below it, and no two of them are
equal. -/
structure CountedNames (start : Nat) (ms : List Moment) (count : Nat) : Prop where
  grown : start ≤ count
  numbered : ∀ g ∈ ms.filterMap Moment.generated?, Numbered count g
  nodup : ((ms.filterMap Moment.generated?).map Prod.snd).Nodup

theorem CountedNames.nil (n : Nat) : CountedNames n [] n :=
  ⟨Nat.le_refl n, fun _ hg => absurd hg List.not_mem_nil, List.nodup_nil⟩

/-- The next name differs from all names with smaller numbers, so one more moment keeps them
distinct. -/
theorem CountedNames.concat {start : Nat} {ms : List Moment} {x : Moment} {n m : Nat}
    (h : CountedNames start ms n) (hx : x.Counts n m) : CountedNames start (ms ++ [x]) m := by
  have hgrown : start ≤ m := Nat.le_trans h.grown hx.le
  have holder : ∀ g ∈ ms.filterMap Moment.generated?, Numbered m g := fun g hg =>
    (h.numbered g hg).mono hx.le
  have hnodup := h.nodup
  unfold Moment.Counts at hx
  cases hg : x.generated? with
  | none =>
    have hsame : (ms ++ [x]).filterMap Moment.generated? = ms.filterMap Moment.generated? := by
      simp [hg]
    exact ⟨hgrown, hsame ▸ holder, hsame ▸ hnodup⟩
  | some g =>
    have hmore : (ms ++ [x]).filterMap Moment.generated? =
        ms.filterMap Moment.generated? ++ [g] := by
      simp [hg]
    rw [hg] at hx
    obtain ⟨rfl, hname⟩ := hx
    refine ⟨hgrown, ?_, ?_⟩
    · rw [hmore]
      intro g' hg'
      rcases List.mem_append.mp hg' with hg' | hg'
      · exact holder g' hg'
      · rw [List.mem_singleton.mp hg']
        rcases hname with rfl | rfl
        · exact .variable n (by omega)
        · exact .function n (by omega)
    · rw [hmore, List.map_append, List.map_singleton]
      refine List.nodup_append.mpr ⟨hnodup, by simp, ?_⟩
      intro name hmem name' hmem'
      obtain ⟨g', hg', rfl⟩ := List.mem_map.mp hmem
      rw [List.mem_singleton.mp hmem']
      rcases hname with rfl | rfl
      · exact (h.numbered g' hg').ne_next (by decide)
      · exact (h.numbered g' hg').ne_next (by decide)

/-- Over a whole run, with all failures in it, the count only grows, and the names that were
generated are below it and pairwise distinct. -/
theorem Script.countedNames_run (s : Script) (w : Workspace) :
    CountedNames w.draft.generated (s.moments w) (s.run w).2.draft.generated := by
  refine s.moments_induction
    (P := fun ms v => CountedNames w.draft.generated ms v.draft.generated) ?_ ?_ ?_ (.nil _)
  · intro ms a v h
    exact h.concat (a.counts v)
  · intro ms o v u h he
    exact h.concat (Opening.counts he)
  · intro ms inner o v u body _ he h
    refine CountedNames.concat h ?_
    rw [Opening.generated_perform he body]
    rfl

theorem Opening.generated_le_perform (o : Opening) (body : Script) (w : Workspace) :
    w.draft.generated ≤ (o.perform body.run w).2.draft.generated := by
  cases he : o.enter w with
  | error outcome =>
    simp only [perform, he]
    exact Nat.le_refl _
  | ok v =>
    rw [generated_perform he body]
    exact Nat.le_trans (counts he).le (body.countedNames_run v).grown

end CommandPack
