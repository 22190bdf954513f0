import CommandPack.Proofs.ConditionText

namespace CommandPack

open Game

namespace Game

def readNumber? (word : String) : Option Int := readInteger? word.toList

def Fits (n : Int) : Prop := -2147483648 ≤ n ∧ n ≤ 2147483647

instance : DecidablePred Fits := fun _ => inferInstanceAs (Decidable (_ ∧ _))

def readScoreNumber? (word : String) : Option Int := (readNumber? word).filter fun n => Fits n

variable (number? : String → Option Int)

def readAmount? (word : String) : Option Int := (number? word).filter (0 ≤ ·)

def readConstant? (constObjective : String) (source : Score) : Option Int32 :=
  if source.objective = constObjective then (number? source.holder).map Int32.ofInt else none

def readOperation? (constObjective sign : String) (source : Score) : Option (ScoreChange Score) :=
  match sign with
  | "=" => some (.copy source)
  | "*=" => (readConstant? number? constObjective source).map .multiply
  | ">" => (readConstant? number? constObjective source).map .atLeast
  | "<" => (readConstant? number? constObjective source).map .atMost
  | _ => none

/-- The change of a command, from its third word and what stands behind the score. -/
def readVerb? (constObjective verb : String) (rest : List String) : Option (ScoreChange Score) :=
  match verb, rest with
  | "set", [word] => (number? word).map fun n => .set (Int32.ofInt n)
  | "add", [word] => (readAmount? number? word).map fun n => .add (Int32.ofInt n)
  | "remove", [word] => (readAmount? number? word).map fun n => .add (Int32.ofInt (-n))
  | "operation", [sign, holder, objective] =>
    readOperation? number? constObjective sign ⟨holder, objective⟩
  | _, _ => none

/-- The score that a line changes, and the change. Numbers are read by `number?`. -/
def readChange? (constObjective line : String) : Option (Score × ScoreChange Score) :=
  match words line with
  | "scoreboard" :: "players" :: verb :: holder :: objective :: rest =>
    (readVerb? number? constObjective verb rest).map (⟨holder, objective⟩, ·)
  | _ => none

end Game

/-- The number in the command of a change. -/
def ScoreChange.number? {σ : Type} : ScoreChange σ → Option Int
  | .set n | .multiply n | .atLeast n | .atMost n => some n.toInt
  | .add n => some n.toInt.natAbs
  | .copy _ => none

namespace Game

variable {number? : String → Option Int} {s : Score} {o : String}

theorem readNumber?_integer (n : Int) : readNumber? (Text.integer n) = some n :=
  readInteger?_integer n

theorem readScoreNumber?_integer {n : Int} (h : Fits n) :
    readScoreNumber? (Text.integer n) = some n := by
  rw [readScoreNumber?, readNumber?_integer, Option.filter_some, if_pos (decide_eq_true h)]

theorem readConstant?_constant {n : Int32} (hn : number? (Text.integer n.toInt) = some n.toInt) :
    readConstant? number? o (.constant o n) = some n := by
  have hread : readConstant? number? o (.constant o n) =
      (number? (Text.integer n.toInt)).map Int32.ofInt := if_pos rfl
  rw [hread, hn, Option.map_some, Int32.ofInt_toInt]

theorem readAmount?_natural {n : Nat} (hn : number? (Text.integer n) = some (n : Int)) :
    readAmount? number? (Text.natural n) = some (n : Int) := by
  have hword : number? (Text.natural n) = some (n : Int) := hn
  rw [readAmount?, hword, Option.filter_some, if_pos (decide_eq_true (Int.natCast_nonneg n))]

theorem readVerb?_add {n : Int32}
    (hn : number? (Text.integer n.toInt.natAbs) = some (n.toInt.natAbs : Int)) :
    readVerb? number? o (if n < 0 then "remove" else "add") [Text.natural n.toInt.natAbs] =
      some (.add n) := by
  have hsize := natAbs_toInt n
  have hamount := readAmount?_natural hn
  split
  · rename_i hneg
    change (readAmount? number? (Text.natural n.toInt.natAbs)).map _ = _
    rw [hamount, hsize, if_pos hneg, Option.map_some, Int.neg_neg, Int32.ofInt_toInt]
  · rename_i hpos
    change (readAmount? number? (Text.natural n.toInt.natAbs)).map _ = _
    rw [hamount, hsize, if_neg hpos, Option.map_some, Int32.ofInt_toInt]

/-- A command about a score is read by its third word. -/
theorem readChange?_of_words {line verb : String} {rest : List String} {c : ScoreChange Score}
    (hwords : words line = "scoreboard" :: "players" :: verb :: s.holder :: s.objective :: rest) :
    readChange? number? o line = some (s, c) ↔ readVerb? number? o verb rest = some c := by
  rw [readChange?, hwords]
  change (readVerb? number? o verb rest).map _ = _ ↔ _
  cases readVerb? number? o verb rest <;> simp

/-- The command of a change is read back, if its number is. -/
theorem readChange?_command (hs : IsPlain s) (ho : ' ' ∉ o.toList) {c : ScoreChange Score}
    (hother : ∀ other, c = .copy other → IsPlain other)
    (hnumber : ∀ n ∈ c.number?, number? (Text.integer n) = some n) :
    readChange? number? o (c.command s o) = some (s, c) := by
  have hoperation {source : Score} (hsource : IsPlain source) {sign : String}
      (hsign : ' ' ∉ sign.toList) (hc : readOperation? number? o sign source = some c) :
      readChange? number? o (ScoreChange.operation s sign source) = some (s, c) :=
    (readChange?_of_words (words_operation hs hsource hsign)).mpr hc
  have hconstant {n : Int32} (hn : number? (Text.integer n.toInt) = some n.toInt) {sign : String}
      (hsign : ' ' ∉ sign.toList) {f : Int32 → ScoreChange Score}
      (hf : ∀ source, readOperation? number? o sign source =
        (readConstant? number? o source).map f) (hc : c = f n) :
      readChange? number? o (ScoreChange.operation s sign (.constant o n)) = some (s, c) := by
    refine hoperation (isPlain_constant ho n) hsign ?_
    rw [hf, readConstant?_constant hn, Option.map_some, hc]
  cases c with
  | set n =>
    refine (readChange?_of_words (words_set hs n.toInt)).mpr ?_
    change (number? (Text.integer n.toInt)).map _ = _
    rw [hnumber _ rfl, Option.map_some, Int32.ofInt_toInt]
  | add n => exact (readChange?_of_words (words_add hs o n)).mpr (readVerb?_add (hnumber _ rfl))
  | copy other => exact hoperation (hother other rfl) (by decide) rfl
  | multiply n => exact hconstant (hnumber _ rfl) (by decide) (fun _ => rfl) rfl
  | atLeast n => exact hconstant (hnumber _ rfl) (by decide) (fun _ => rfl) rfl
  | atMost n => exact hconstant (hnumber _ rfl) (by decide) (fun _ => rfl) rfl

/-- All numbers of commands are numbers of scores, but for the amount of the lowest addition. -/
theorem fits_number_iff {σ : Type} {c : ScoreChange σ} :
    (∀ n ∈ c.number?, Fits n) ↔ c ≠ .add Int32.minValue := by
  have hfits (n : Int32) : Fits n.toInt := ⟨n.le_toInt, Int.le_of_lt_add_one n.toInt_lt⟩
  have hone {n : Int} : (∀ m ∈ some n, Fits m) ↔ Fits n := by simp
  cases c with
  | add n =>
    have hlowest : n = Int32.minValue ↔ n.toInt = -2147483648 :=
      ⟨fun h => h ▸ rfl, fun h => Int32.toInt_inj.mp h⟩
    obtain ⟨hlow, hhigh⟩ := hfits n
    rw [ScoreChange.number?, hone, ne_eq, ScoreChange.add.injEq, hlowest, Fits]
    omega
  | set n | multiply n | atLeast n | atMost n =>
    exact ⟨fun _ => nofun, fun _ => hone.mpr (hfits n)⟩
  | copy other => exact ⟨fun _ => nofun, fun _ => nofun⟩

/-- No score has the amount that the lowest addition removes. -/
theorem readChange?_lowest (hs : IsPlain s) :
    readChange? readScoreNumber? o (ScoreChange.command s o (.add Int32.minValue)) ≠
      some (s, .add Int32.minValue) := by
  have hword : readScoreNumber? (Text.natural Int32.minValue.toInt.natAbs) = none := by
    decide +kernel
  have hnone : readVerb? readScoreNumber? o "remove"
      [Text.natural Int32.minValue.toInt.natAbs] = none := by
    change (readAmount? readScoreNumber? (Text.natural Int32.minValue.toInt.natAbs)).map _ = none
    rw [readAmount?, hword]
    rfl
  intro h
  have hread := (readChange?_of_words (words_add hs o Int32.minValue)).mp h
  rw [if_pos (by decide), hnone] at hread
  nomatch hread

theorem readChange?_command_iff (hs : IsPlain s) (ho : ' ' ∉ o.toList) {c : ScoreChange Score}
    (hother : ∀ other, c = .copy other → IsPlain other) :
    readChange? readScoreNumber? o (c.command s o) = some (s, c) ↔ c ≠ .add Int32.minValue := by
  refine ⟨?_, fun hc => readChange?_command hs ho hother fun n hn => ?_⟩
  · rintro h rfl
    exact readChange?_lowest hs h
  · exact readScoreNumber?_integer (fits_number_iff.mpr hc n hn)

end Game

/-- Behind the declarations of its constants, a change writes this line where the script stands. -/
def Draft.Appends (d : Draft) (v : Score) (c : ScoreChange Score) (line : String) : Prop :=
  (d.change v c).buffers = (d.requireConstants c.constants).buffers.append d.place.context line

def ScoreChange.Made (s : Settings) (c : ScoreChange Score) : Prop :=
  ∀ other, c = .copy other → other.Made s

namespace Draft

variable {d : Draft} {v : Score} {c : ScoreChange Score} {line : String}

/-- Outside all scopes the line is the command itself. -/
theorem appends_iff (hscopes : d.place.scopes = .empty) :
    d.Appends v c line ↔ line = c.command v d.settings.constObjective := by
  have hline : (d.change v c).buffers = (d.requireConstants c.constants).buffers.append
      d.place.context (c.command v d.settings.constObjective) := by
    rw [change, requireConstants_eq_post]
    change (d.post _).buffers.append d.place.context (d.place.scopes.text ++ _) = _
    rw [hscopes]
    exact congrArg _ String.empty_append
  rw [Appends, hline]
  exact ⟨fun h => (Buffers.line_of_append_eq h).symm, fun h => h ▸ rfl⟩

/-- Outside all scopes a change of a variable can be read back from the one line that it appends to
the context where the script stands: the variable, the change and its number, or its other variable.
As numbers of scores, only the amount of the lowest addition cannot be read; as whole numbers of any
size, all can. So changes that are not the same are never written alike. -/
theorem changes_read_back (hd : d.settings.fault? d.space = none)
    (hscopes : d.place.scopes = .empty) (hv : v.Made d.settings) (hc : c.Made d.settings) :
    ∃ line, d.Appends v c line ∧
      (readChange? readScoreNumber? d.settings.constObjective line = some (v, c) ↔
        c ≠ .add Int32.minValue) ∧
      readChange? readNumber? d.settings.constObjective line = some (v, c) ∧
      ∀ (d' : Draft) (v' : Score) (c' : ScoreChange Score), d'.settings = d.settings →
        d'.place.scopes = .empty → v'.Made d.settings → c'.Made d.settings →
        (d'.Appends v' c' line ↔ v' = v ∧ c' = c) := by
  obtain ⟨-, -, -, hvar, hconst⟩ := Settings.accepts_of_fault? hd
  have hplain {v : Score} (hv : v.Made d.settings) : IsPlain v :=
    hv.isVariable.isPlain hvar.space_notMem
  have hread {v : Score} {c : ScoreChange Score} (hv : v.Made d.settings) (hc : c.Made d.settings) :
      readChange? readNumber? d.settings.constObjective
        (c.command v d.settings.constObjective) = some (v, c) :=
    readChange?_command (hplain hv) hconst.space_notMem (fun other h => hplain (hc other h))
      fun n _ => readNumber?_integer n
  refine ⟨c.command v d.settings.constObjective, (appends_iff hscopes).mpr rfl, ?_, hread hv hc, ?_⟩
  · exact readChange?_command_iff (hplain hv) hconst.space_notMem fun other h => hplain (hc other h)
  · intro d' v' c' hsettings hscopes' hv' hc'
    rw [appends_iff hscopes', hsettings]
    refine ⟨fun h => ?_, fun h => by rw [h.1, h.2]⟩
    have hsame := hread hv hc
    rw [h, hread hv' hc'] at hsame
    exact Prod.mk.inj (Option.some.inj hsame)

/-- A variable that is called like an operation takes the value of one that is called like a
number. -/
theorem changes_read_back_lookalikes :
    let d := Draft.start "demo" {}
    let v : Score := ⟨"*=", "var"⟩
    let c : ScoreChange Score := .copy ⟨"5", "var"⟩
    d.settings.fault? d.space = none ∧ v.Made d.settings ∧ c.Made d.settings ∧
      d.Appends v c "scoreboard players operation *= var = 5 var" ∧
      readChange? readScoreNumber? "const" "scoreboard players operation *= var = 5 var" =
        some (v, c) := by
  intro d v c
  have hd : d.settings.fault? d.space = none := Settings.fault?_demo
  have hv : v.Made d.settings := .of_accepts (by decide +kernel)
  have hc : c.Made d.settings := by
    rintro other h
    obtain rfl := ScoreChange.copy.inj h
    exact .of_accepts (by decide +kernel)
  have happends : d.Appends v c "scoreboard players operation *= var = 5 var" :=
    (appends_iff rfl).mpr (by decide +kernel)
  obtain ⟨line, hline, hread, -⟩ := changes_read_back hd rfl hv hc
  rw [(appends_iff rfl).mp hline, ← (appends_iff rfl).mp happends] at hread
  exact ⟨hd, hv, hc, happends, hread.mpr nofun⟩

/-- The lowest addition removes an amount that no score has, so it cannot be read back as one. -/
theorem lowest_addition_unread :
    let d := Draft.start "demo" {}
    let v : Score := ⟨"x", "var"⟩
    d.settings.fault? d.space = none ∧ v.Made d.settings ∧
      d.Appends v (.add Int32.minValue) "scoreboard players remove x var 2147483648" ∧
      readChange? readScoreNumber? "const" "scoreboard players remove x var 2147483648" = none ∧
      readChange? readNumber? "const" "scoreboard players remove x var 2147483648" =
        some (v, .add Int32.minValue) :=
  ⟨Settings.fault?_demo, .of_accepts (by decide +kernel), (appends_iff rfl).mpr (by decide +kernel),
    by decide +kernel, by decide +kernel⟩

end Draft

end CommandPack
