import CommandPack.Proofs.Game.Scoreboard
import CommandPack.Proofs.References

namespace CommandPack

/-! ## What changes and conditions mean -/

def ScoreChange.result (c : ScoreChange Score) (b : Game.Scoreboard) (old : Int32) : Int32 :=
  match c with
  | .set n => n
  | .add n => old + n
  | .copy other => b other
  | .multiply n => old * n
  | .atLeast n => max old n
  | .atMost n => min old n

def Comparator.holds : Comparator → Int32 → Int32 → Bool
  | .less, a, b => a < b
  | .greater, a, b => b < a
  | .equal, a, b => a = b
  | .lessOrEqual, a, b => a ≤ b
  | .greaterOrEqual, a, b => b ≤ a
  | .matching, _, _ => false

/-- Conditions that compare a score once: to a literal, to another score, or to a range. -/
inductive Condition.IsSimple {σ : Type} : Condition σ → Prop
  | withLiteral (s : σ) (c : Comparator) (hc : c ≠ .matching) (n : Int32) :
    IsSimple (.withLiteral s c n)
  | between (s : σ) (c : Comparator) (hc : c ≠ .matching) (other : σ) :
    IsSimple (.between s c other)
  | within (s : σ) (span : Span) : IsSimple (.within s span)

/-- Whether a simple condition holds; others do not. -/
def Condition.holds (b : Game.Scoreboard) (c : Condition Score) : Bool :=
  match c.left, c.right with
  | .score s, .literal n => c.comparator.holds (b s) n
  | .score s, .score other => c.comparator.holds (b s) (b other)
  | .score s, .span span => span.first ≤ b s && b s ≤ span.last
  | _, _ => false

namespace Game

variable {b : Scoreboard} {o : String} {s : Score}

/-! ## Words -/

/-- The words around a space are those of its two sides. -/
theorem words_append_space (front back : String) :
    words (front ++ " " ++ back) = words front ++ words back := by
  have hchars : (front ++ " " ++ back).toList = front.toList ++ ' ' :: back.toList := by
    simp
  rw [words, hchars, Text.segments_append_sep, List.map_append]
  rfl

theorem words_of_notMem {word : String} (h : ' ' ∉ word.toList) : words word = [word] := by
  rw [words, Text.segments_of_notMem h, List.map_singleton, String.ofList_toList]

def IsPlain (s : Score) : Prop := ' ' ∉ s.holder.toList ∧ ' ' ∉ s.objective.toList

theorem words_integer (n : Int) : words (Text.integer n) = [Text.integer n] :=
  words_of_notMem (Text.notMem_integer (by decide) (by decide) n)

theorem isPlain_constant (ho : ' ' ∉ o.toList) (n : Int32) : IsPlain (.constant o n) :=
  ⟨Text.notMem_integer (by decide) (by decide) _, ho⟩

theorem words_score (h : IsPlain s) : words s.text = [s.holder, s.objective] := by
  rw [Score.text, words_append_space, words_of_notMem h.1, words_of_notMem h.2]
  rfl

/-- A command whose first words are known and end with a space. -/
theorem words_lead (lead front : String) (ws : List String) (hlead : lead = front ++ " ")
    (hfront : words front = ws) (back : String) : words (lead ++ back) = ws ++ words back := by
  rw [hlead, words_append_space front back, hfront]

/-- A command that names a score behind its first words. -/
theorem words_target (h : IsPlain s) {verb : String} (lead front : String)
    (hlead : lead = front ++ " ") (hfront : words front = ["scoreboard", "players", verb])
    (back : String) :
    words (lead ++ s.text ++ " " ++ back) =
      "scoreboard" :: "players" :: verb :: s.holder :: s.objective :: words back := by
  rw [words_append_space _ back, words_lead lead front _ hlead hfront, words_score h]
  rfl

theorem words_set (h : IsPlain s) (n : Int) :
    words ("scoreboard players set " ++ s.text ++ " " ++ Text.integer n) =
      ["scoreboard", "players", "set", s.holder, s.objective, Text.integer n] := by
  have hfront : words "scoreboard players set" = ["scoreboard", "players", "set"] := by
    decide +kernel
  rw [words_target h _ _ (by decide +kernel) hfront, words_integer]

theorem words_operation {source : Score} (h : IsPlain s) (hsource : IsPlain source) {sign : String}
    (hsign : ' ' ∉ sign.toList) :
    words (ScoreChange.operation s sign source) =
      ["scoreboard", "players", "operation", s.holder, s.objective, sign, source.holder,
        source.objective] := by
  have hfront : words "scoreboard players operation" = ["scoreboard", "players", "operation"] := by
    decide +kernel
  unfold ScoreChange.operation
  rw [words_append_space _ source.text, words_target h _ _ (by decide +kernel) hfront,
    words_score hsource, words_of_notMem hsign]
  rfl

/-- The word of an amount stands between the first two words and the score. -/
theorem words_amount (h : IsPlain s) (n : Nat) (verb lead : String)
    (hlead : "scoreboard players " ++ lead = "scoreboard players " ++ verb ++ " ")
    (hverb : words ("scoreboard players " ++ verb) = ["scoreboard", "players", verb]) :
    words ("scoreboard players " ++ lead ++ s.text ++ " " ++ Text.natural n) =
      ["scoreboard", "players", verb, s.holder, s.objective, Text.natural n] := by
  rw [words_target h _ _ hlead hverb, show Text.natural n = Text.integer n from rfl, words_integer]

/-- The size of a number, by its sign. -/
theorem natAbs_toInt (n : Int32) :
    (n.toInt.natAbs : Int) = if n < 0 then -n.toInt else n.toInt := by
  split
  · rename_i hn
    have := Int32.lt_iff_toInt_lt.mp hn
    simp at this
    omega
  · rename_i hn
    have := Int32.le_iff_toInt_le.mp (Int32.not_lt.mp hn)
    simp at this
    omega

/-- A negative number is removed. -/
theorem words_add (h : IsPlain s) (o : String) (n : Int32) :
    words (ScoreChange.command s o (.add n)) =
      ["scoreboard", "players", if n < 0 then "remove" else "add", s.holder, s.objective,
        Text.natural n.toInt.natAbs] := by
  change words ("scoreboard players " ++ (if n < 0 then "remove " else "add ") ++
    s.text ++ " " ++ Text.natural n.toInt.natAbs) = _
  split
  · exact words_amount h _ "remove" "remove " (by decide +kernel) (by decide +kernel)
  · exact words_amount h _ "add" "add " (by decide +kernel) (by decide +kernel)

/-! ## Execution -/

variable {call : String → Scoreboard → Option Scoreboard}

theorem execute_set (h : IsPlain s) (n : Int32) :
    execute call
        (words ("scoreboard players set " ++ s.text ++ " " ++ Text.integer n.toInt)) b =
      some (b.set s n) := by
  rw [words_set h]
  change (readInteger? (Text.integer n.toInt).toList).map _ = _
  rw [readInteger?_integer]
  simp

theorem execute_operation {source : Score} (h : IsPlain s) (hsource : IsPlain source)
    (sign : String) (hsign : ' ' ∉ sign.toList) {operate : Int32 → Int32 → Int32}
    (hoperate : operation? sign = some operate) :
    execute call (words (ScoreChange.operation s sign source)) b =
      some (b.set s (operate (b s) (b source))) := by
  rw [words_operation h hsource hsign]
  change (operation? sign).map _ = _
  rw [hoperate]
  rfl

theorem execute_add (h : IsPlain s) (o : String) (n : Int32) :
    execute call (words (ScoreChange.command s o (.add n))) b = some (b.set s (b s + n)) := by
  have hsize := natAbs_toInt n
  rw [words_add h]
  split at hsize
  · rename_i hn
    have hsub : b s - Int32.ofInt n.toInt.natAbs = b s + n := by
      rw [hsize, Int32.ofInt_neg, Int32.ofInt_toInt, Int32.sub_neg]
    rw [if_pos hn]
    change (readInteger? (Text.natural n.toInt.natAbs).toList).map _ = _
    rw [readInteger?_natural]
    exact congrArg (fun m => some (b.set s m)) hsub
  · rename_i hn
    have hadd : b s + Int32.ofInt n.toInt.natAbs = b s + n := by
      rw [hsize, Int32.ofInt_toInt]
    rw [if_neg hn]
    change (readInteger? (Text.natural n.toInt.natAbs).toList).map _ = _
    rw [readInteger?_natural]
    exact congrArg (fun m => some (b.set s m)) hadd

/-- A change does what it means once its constants hold their numbers. -/
theorem execute_change (h : IsPlain s) (ho : ' ' ∉ o.toList) {c : ScoreChange Score}
    (hother : ∀ other, c = .copy other → IsPlain other)
    (hb : ∀ n ∈ c.constants, b (.constant o n) = n) :
    execute call (words (c.command s o)) b = some (b.set s (c.result b (b s))) := by
  have hconstant (n : Int32) (sign : String) (hsign : ' ' ∉ sign.toList)
      {operate : Int32 → Int32 → Int32} (hoperate : operation? sign = some operate)
      (hn : b (.constant o n) = n) :
      execute call (words (ScoreChange.operation s sign (.constant o n))) b =
        some (b.set s (operate (b s) n)) := by
    rw [execute_operation h (isPlain_constant ho n) sign hsign hoperate, hn]
  cases c with
  | set n => exact execute_set h n
  | add n => exact execute_add h o n
  | copy other => exact execute_operation h (hother other rfl) "=" (by decide) rfl
  | multiply n => exact hconstant n "*=" (by decide) rfl (hb n List.mem_cons_self)
  | atLeast n => exact hconstant n ">" (by decide) rfl (hb n List.mem_cons_self)
  | atMost n => exact hconstant n "<" (by decide) rfl (hb n List.mem_cons_self)

/-! ## Conditions -/

/-- A command with another command behind a word that ends its first part. -/
theorem words_around (lead front middle key : String) (ws ks : List String)
    (hlead : lead = front ++ " ") (hmiddle : middle = " " ++ key ++ " ") (hfront : words front = ws)
    (hkey : words key = ks) (text back : String) :
    words (lead ++ text ++ middle ++ back) = ws ++ words text ++ (ks ++ words back) := by
  have hsplit : lead ++ text ++ middle ++ back =
      front ++ " " ++ text ++ " " ++ (key ++ " " ++ back) := by
    rw [hlead, hmiddle]
    simp only [String.append_assoc]
  rw [hsplit, words_append_space _ (key ++ " " ++ back), words_append_space front text,
    words_append_space key back, hfront, hkey]

theorem words_guard (c : Condition Score) (o line : String) :
    words (c.guard o ++ line) =
      "execute" :: "if" :: "score" :: words (c.text o) ++ "run" :: words line :=
  words_around "execute if score " "execute if score" " run " "run" ["execute", "if", "score"]
    ["run"] (by decide +kernel) (by decide +kernel) (by decide +kernel) (by decide +kernel)
    (c.text o) line

theorem words_spelling (c : Comparator) : words c.spelling = [c.spelling] :=
  words_of_notMem (by cases c <;> decide)

theorem words_span (span : Span) : words span.text = [span.text] := by
  refine words_of_notMem ?_
  have hspace (n : Int) := Text.notMem_integer (c := ' ') (by decide) (by decide) n
  simp [Span.text, hspace]

theorem words_between (h : IsPlain s) {other : Score} (hother : IsPlain other) (c : Comparator) :
    words (s.text ++ " " ++ c.spelling ++ " " ++ other.text) =
      [s.holder, s.objective, c.spelling, other.holder, other.objective] := by
  rw [words_append_space _ other.text, words_append_space s.text c.spelling, words_score h,
    words_score hother, words_spelling]
  rfl

/-- A comparison of two scores decides whether the command behind it is executed. -/
theorem execute_between (c : Comparator) (hc : c ≠ .matching) (s other : Score)
    (rest : List String) :
    execute call ("execute" :: "if" :: "score" ::
        [s.holder, s.objective, c.spelling, other.holder, other.objective] ++ "run" :: rest) b =
      if c.holds (b s) (b other) then execute call rest b else some b := by
  cases c with
  | matching => exact absurd rfl hc
  | less | greater | equal | lessOrEqual | greaterOrEqual => rfl

theorem words_within (h : IsPlain s) (span : Span) :
    words (s.text ++ " " ++ "matches" ++ " " ++ span.text) =
      [s.holder, s.objective, "matches", span.text] := by
  rw [words_append_space _ span.text, words_append_space s.text "matches", words_score h,
    show words "matches" = ["matches"] from words_spelling .matching, words_span]
  rfl

/-- A range for the score of a condition decides it in the same way. -/
theorem execute_within (s : Score) (span : Span) (rest : List String) :
    execute call ("execute" :: "if" :: "score" ::
        [s.holder, s.objective, "matches", span.text] ++ "run" :: rest) b =
      if span.first ≤ b s && b s ≤ span.last then execute call rest b else some b := by
  change (readRange? span.text).bind _ = _
  rw [readRange?_text, Option.bind_some]
  simp only [Int32.le_iff_toInt_le, Bool.and_eq_true, decide_eq_true_eq]

/-- A command behind a simple condition is executed only if the condition holds, once the constants
of the condition hold their numbers. -/
theorem execute_guard {c : Condition Score} (hc : c.IsSimple) (hscores : ∀ t ∈ c.scores, IsPlain t)
    (ho : ' ' ∉ o.toList) (hb : ∀ n ∈ c.literals, b (.constant o n) = n) (line : String) :
    execute call (words (c.guard o ++ line)) b =
      if c.holds b then execute call (words line) b else some b := by
  rw [words_guard]
  cases hc with
  | withLiteral s c hc n =>
    have htext : words ((Condition.withLiteral s c n).text o) = _ :=
      words_between (hscores s List.mem_cons_self) (isPlain_constant ho n) c
    rw [htext, execute_between c hc, hb n List.mem_cons_self]
    rfl
  | between s c hc other =>
    have htext : words ((Condition.between s c other).text o) = _ :=
      words_between (hscores s List.mem_cons_self)
        (hscores other (List.mem_cons_of_mem _ List.mem_cons_self)) c
    rw [htext, execute_between c hc]
    rfl
  | within s span =>
    have htext : words ((Condition.within s span).text o) = _ :=
      words_within (hscores s List.mem_cons_self) span
    rw [htext, execute_within]
    rfl

def leadOf (o : String) : List (Condition Score) → String
  | [] => ""
  | c :: guards => c.guard o ++ leadOf o guards

theorem leadOf_concat (o : String) (guards : List (Condition Score)) (c : Condition Score) :
    leadOf o (guards ++ [c]) = leadOf o guards ++ c.guard o := by
  induction guards with
  | nil => exact String.append_empty.trans String.empty_append.symm
  | cons d guards ih => rw [List.cons_append, leadOf, ih, leadOf, String.append_assoc]

/-- A command inside conditions is executed only if all of them hold. -/
theorem execute_lead (ho : ' ' ∉ o.toList) {guards : List (Condition Score)}
    (hguards : ∀ c ∈ guards, c.IsSimple ∧ ∀ t ∈ c.scores, IsPlain t)
    (hb : ∀ c ∈ guards, ∀ n ∈ c.literals, b (.constant o n) = n) (line : String) :
    execute call (words (leadOf o guards ++ line)) b =
      if guards.all (·.holds b) then execute call (words line) b else some b := by
  induction guards with
  | nil => rw [leadOf, String.empty_append, List.all_nil, if_pos rfl]
  | cons c guards ih =>
    obtain ⟨hc, hscores⟩ := hguards c List.mem_cons_self
    rw [leadOf, String.append_assoc, execute_guard hc hscores ho (hb c List.mem_cons_self),
      ih (fun c hc => hguards c (List.mem_cons_of_mem _ hc))
        (fun c hc => hb c (List.mem_cons_of_mem _ hc)), List.all_cons]
    cases c.holds b <;> simp

end Game
end CommandPack
