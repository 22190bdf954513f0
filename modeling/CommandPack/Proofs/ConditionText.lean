import CommandPack.Proofs.Game.Loading

namespace CommandPack

open Game

inductive Leaf (σ : Type)
  | score (s : σ)
  | literal (n : Int32)
  | span (s : Span)
deriving DecidableEq, Repr

/-- Operands with a comparator between each of them and the next one. -/
inductive Chain (σ : Type)
  | last (leaf : Leaf σ)
  | link (leaf : Leaf σ) (comparator : Comparator) (rest : Chain σ)
deriving DecidableEq, Repr

/-! ## Flat conditions -/

namespace Leaf

variable {σ : Type}

def scores : Leaf σ → List σ
  | .score s => [s]
  | .literal _ | .span _ => []

def literals : Leaf σ → List Int32
  | .literal n => [n]
  | .score _ | .span _ => []

def text (constObjective : String) : Leaf Score → String
  | .score s => s.text
  | .literal n => (Score.constant constObjective n).text
  | .span s => s.text

def words (constObjective : String) : Leaf Score → List String
  | .score s => [s.holder, s.objective]
  | .literal n => [Text.integer n.toInt, constObjective]
  | .span s => [s.text]

end Leaf

namespace Chain

variable {σ : Type}

def append : Chain σ → Comparator → Chain σ → Chain σ
  | .last leaf, c, back => .link leaf c back
  | .link leaf c' rest, c, back => .link leaf c' (rest.append c back)

def scores : Chain σ → List σ
  | .last leaf => leaf.scores
  | .link leaf _ rest => leaf.scores ++ rest.scores

def literals : Chain σ → List Int32
  | .last leaf => leaf.literals
  | .link leaf _ rest => leaf.literals ++ rest.literals

def text (constObjective : String) : Chain Score → String
  | .last leaf => leaf.text constObjective
  | .link leaf c rest =>
    leaf.text constObjective ++ " " ++ c.spelling ++ " " ++ rest.text constObjective

def words (constObjective : String) : Chain Score → List String
  | .last leaf => leaf.words constObjective
  | .link leaf c rest => leaf.words constObjective ++ c.spelling :: rest.words constObjective

theorem append_assoc (x y z : Chain σ) (c d : Comparator) :
    (x.append c y).append d z = x.append c (y.append d z) := by
  induction x with
  | last leaf => rfl
  | link leaf c' rest ih => exact congrArg (Chain.link leaf c') ih

theorem scores_append (x y : Chain σ) (c : Comparator) :
    (x.append c y).scores = x.scores ++ y.scores := by
  induction x with
  | last leaf => rfl
  | link leaf c' rest ih => rw [append, scores, scores, ih, List.append_assoc]

theorem literals_append (x y : Chain σ) (c : Comparator) :
    (x.append c y).literals = x.literals ++ y.literals := by
  induction x with
  | last leaf => rfl
  | link leaf c' rest ih => rw [append, literals, literals, ih, List.append_assoc]

theorem text_append (o : String) (x y : Chain Score) (c : Comparator) :
    (x.append c y).text o = x.text o ++ " " ++ c.spelling ++ " " ++ y.text o := by
  induction x with
  | last leaf => rfl
  | link leaf c' rest ih =>
    rw [append, text, text, ih]
    simp only [String.append_assoc]

end Chain

/-- The operands that are not conditions, and the comparators, in the order in which they are
written. -/
def Operand.flat {σ : Type} : Operand σ → Chain σ
  | .score s => .last (.score s)
  | .literal n => .last (.literal n)
  | .span s => .last (.span s)
  | .condition l c r => l.flat.append c r.flat

def Condition.flat {σ : Type} (c : Condition σ) : Chain σ := c.operand.flat

namespace Operand

variable {σ : Type}

/-- The text of an operand is that of its chain, so the grouping does not show. -/
theorem text_eq_flat (o : String) (a : Operand Score) : a.text o = a.flat.text o := by
  induction a with
  | score s | literal n | span s => rfl
  | condition l c r ihl ihr => rw [text, flat, Chain.text_append, ihl, ihr]

theorem literals_eq_flat (a : Operand σ) : a.literals = a.flat.literals := by
  induction a with
  | score s | literal n | span s => rfl
  | condition l c r ihl ihr => rw [literals, flat, Chain.literals_append, ihl, ihr]

theorem scores_eq_flat (a : Operand σ) : a.scores = a.flat.scores := by
  induction a with
  | score s | literal n | span s => rfl
  | condition l c r ihl ihr => rw [scores, flat, Chain.scores_append, ihl, ihr]

end Operand

/-! ## Reading a condition back -/

/-- Words tell variables, constants and comparators apart. -/
structure Settings.Legible (s : Settings) : Prop where
  varWord : ' ' ∉ s.varObjective.toList
  constWord : ' ' ∉ s.constObjective.toList
  apart : s.constObjective ≠ s.varObjective
  comparators : ∀ c : Comparator, c.spelling ≠ s.varObjective ∧ c.spelling ≠ s.constObjective

theorem Settings.legible_default : Settings.Legible {} where
  varWord := by decide
  constWord := by decide
  apart := by decide
  comparators c := by cases c <;> decide

def Leaf.read? (s : Settings) (holder objective : String) : Option (Leaf Score) :=
  if objective = s.varObjective then some (.score ⟨holder, objective⟩)
  else if objective = s.constObjective then
    (readInteger? holder.toList).map fun n => .literal (Int32.ofInt n)
  else none

def Span.read? (word : String) : Option Span :=
  (readRange? word).map fun bounds => ⟨Int32.ofInt bounds.1, Int32.ofInt bounds.2⟩

/-- Reads operands with comparators between them. An operand has two words if the second one is an
objective, and else one. -/
def Chain.read? (s : Settings) : List String → Option (Chain Score)
  | [] => none
  | [word] => (Span.read? word).map fun span => .last (.span span)
  | [first, second] => (Leaf.read? s first second).map .last
  | first :: second :: third :: rest =>
    match Leaf.read? s first second with
    | some leaf => do return .link leaf (← Comparator.ofSpelling? third) (← read? s rest)
    | none => do
      return .link (.span (← Span.read? first)) (← Comparator.ofSpelling? second)
        (← read? s (third :: rest))

theorem Span.read?_text (s : Span) : Span.read? s.text = some s := by
  rw [Span.read?, readRange?_text, Option.map_some, Int32.ofInt_toInt, Int32.ofInt_toInt]

variable {s : Settings}

theorem Leaf.read?_score {v : Score} (h : v.objective = s.varObjective) :
    Leaf.read? s v.holder v.objective = some (.score v) := if_pos h

theorem Leaf.read?_literal (hs : s.Legible) (n : Int32) :
    Leaf.read? s (Text.integer n.toInt) s.constObjective = some (.literal n) := by
  rw [Leaf.read?, if_neg hs.apart, if_pos rfl, readInteger?_integer, Option.map_some,
    Int32.ofInt_toInt]

/-- A comparator is not an objective, so the word in front of one stands alone. -/
theorem Leaf.read?_comparator (hs : s.Legible) (word : String) (c : Comparator) :
    Leaf.read? s word c.spelling = none := by
  rw [Leaf.read?, if_neg (hs.comparators c).1, if_neg (hs.comparators c).2]

namespace Chain

theorem exists_words_cons (o : String) (x : Chain Score) : ∃ w ws, x.words o = w :: ws := by
  cases x with
  | last leaf | link leaf => cases leaf <;> exact ⟨_, _, rfl⟩

theorem read?_pair {first second : String} {leaf : Leaf Score}
    (h : Leaf.read? s first second = some leaf) (c : Comparator) (rest : List String) :
    read? s (first :: second :: c.spelling :: rest) = (read? s rest).map (.link leaf c) := by
  rw [read?, h]
  simp only [Comparator.ofSpelling?_spelling]
  cases read? s rest <;> rfl

/-- The words of a chain are read back. -/
theorem read?_words (hs : s.Legible) {x : Chain Score}
    (hx : ∀ v ∈ x.scores, v.objective = s.varObjective) :
    read? s (x.words s.constObjective) = some x := by
  induction x with
  | last leaf =>
    cases leaf with
    | score v =>
      rw [words, Leaf.words, read?, Leaf.read?_score (hx v List.mem_cons_self)]
      rfl
    | literal n =>
      rw [words, Leaf.words, read?, Leaf.read?_literal hs]
      rfl
    | span span =>
      rw [words, Leaf.words, read?, Span.read?_text]
      rfl
  | link leaf c rest ih =>
    replace ih := ih fun v hv => hx v (List.mem_append_right _ hv)
    cases leaf with
    | score v =>
      have hv := Leaf.read?_score (hx v (List.mem_append_left _ List.mem_cons_self))
      exact (read?_pair hv c _).trans (congrArg _ ih)
    | literal n => exact (read?_pair (Leaf.read?_literal hs n) c _).trans (congrArg _ ih)
    | span span =>
      obtain ⟨w, ws, hwords⟩ := exists_words_cons s.constObjective rest
      rw [hwords] at ih
      rw [words, Leaf.words, hwords, List.singleton_append, read?, Leaf.read?_comparator hs]
      simp only [Span.read?_text, Comparator.ofSpelling?_spelling, ih]
      rfl

/-- Chains on plain variables fall into their words. -/
theorem words_text {o : String} (ho : ' ' ∉ o.toList) {x : Chain Score}
    (hx : ∀ v ∈ x.scores, IsPlain v) : Game.words (x.text o) = x.words o := by
  have hleaf {leaf : Leaf Score} (h : ∀ v ∈ leaf.scores, IsPlain v) :
      Game.words (leaf.text o) = leaf.words o := by
    cases leaf with
    | score v => exact words_score (h v List.mem_cons_self)
    | literal n => exact words_score (isPlain_constant ho n)
    | span span => exact words_span span
  induction x with
  | last leaf => exact hleaf hx
  | link leaf c rest ih =>
    rw [text, words_append_space _ (rest.text o), words_append_space _ c.spelling,
      hleaf fun v hv => hx v (List.mem_append_left _ hv), words_spelling,
      ih fun v hv => hx v (List.mem_append_right _ hv), words, List.append_assoc]
    rfl

/-- The text of a chain tells the chain. -/
theorem text_injective (hs : s.Legible) {x y : Chain Score} (hx : ∀ v ∈ x.scores, IsVariable s v)
    (hy : ∀ v ∈ y.scores, IsVariable s v) (h : x.text s.constObjective = y.text s.constObjective) :
    x = y := by
  have hread {x : Chain Score} (hx : ∀ v ∈ x.scores, IsVariable s v) :
      read? s (Game.words (x.text s.constObjective)) = some x := by
    rw [words_text hs.constWord fun v hv => (hx v hv).isPlain hs.varWord]
    exact read?_words hs fun v hv => (hx v hv).1
  have hsame := hread hx
  rw [h, hread hy] at hsame
  exact (Option.some.inj hsame).symm

end Chain

/-! ## Conditions on variables -/

/-- A variable that was made with these settings, by its name or with a generated one. -/
inductive Score.Made (s : Settings) : Score → Prop
  | named {d d' : Draft} {name : String} {v : Score} (hd : d.settings = s)
    (h : d.namedVariable name = .ok (v, d')) : Made s v
  | fresh {d : Draft} (hd : d.settings = s) : Made s d.freshVariable.1

/-- Accepted names and generated ones are single words. -/
theorem Score.Made.isVariable {v : Score} (h : v.Made s) : IsVariable s v := by
  cases h with
  | named hd h =>
    rename_i d d' name
    rw [Draft.namedVariable] at h
    cases hname : BuildError.checkName .holder name with
    | error e => simp only [hname, reduceCtorEq] at h
    | ok u =>
      simp only [hname, Except.ok.injEq] at h
      obtain ⟨rfl, -⟩ := Prod.mk.inj h
      exact ⟨congrArg Settings.varObjective hd, (BuildError.accepts_of_checkName hname).space_notMem⟩
  | fresh hd =>
    exact ⟨congrArg Settings.varObjective hd,
      notMem_generatedName (by decide) (by decide) (by decide) _⟩

theorem Score.Made.of_accepts {name : String} (h : NameKind.holder.Accepts name) :
    Made s ⟨name, s.varObjective⟩ := by
  have hnamed : (Draft.start "" s).namedVariable name = .ok ((Draft.start "" s).makeVariable name) := by
    rw [Draft.namedVariable, BuildError.checkName, NameKind.check_eq_ok.mpr h]
    rfl
  exact .named rfl hnamed

namespace Condition

theorem text_eq_flat (o : String) (c : Condition Score) : c.text o = c.flat.text o :=
  Operand.text_eq_flat o c.operand

theorem literals_eq_flat {σ : Type} (c : Condition σ) : c.literals = c.flat.literals :=
  Operand.literals_eq_flat c.operand

theorem scores_eq_flat {σ : Type} (c : Condition σ) : c.scores = c.flat.scores :=
  Operand.scores_eq_flat c.operand

/-- Joined conditions put their chains one after the other. -/
theorem flat_and {σ : Type} (a b : Condition σ) : (a.and b).flat = a.flat.append .equal b.flat := rfl

/-- A guard depends on no more than what is written and what is declared. -/
theorem openGuard_congr {c d : Condition Score} (htext : ∀ o, c.text o = d.text o)
    (hliterals : c.literals = d.literals) (w : Draft) : w.openGuard c = w.openGuard d := by
  have hguard (o : String) : c.guard o = d.guard o :=
    congrArg (fun text => "execute if score " ++ text ++ " run ") (htext o)
  unfold Draft.openGuard
  rw [hguard, hliterals]

/-- The written form of a condition on variables, under the usual settings, tells everything but the
grouping: two conditions are written alike exactly if they have the same operands and comparators in
the same order. Their literals are those of the operands. So it does not matter how three conditions
are joined: the text is the same, and so is what a guard declares. -/
theorem text_eq_iff :
    (∀ c d : Condition Score, (∀ v ∈ c.scores, v.Made {}) → (∀ v ∈ d.scores, v.Made {}) →
      (c.text ({} : Settings).constObjective = d.text ({} : Settings).constObjective ↔
        c.flat = d.flat)) ∧
    (∀ c : Condition Score, c.literals = c.flat.literals) ∧
    ∀ a b c : Condition Score,
      (∀ o, ((a.and b).and c).text o = (a.and (b.and c)).text o) ∧
      ((a.and b).and c).literals = (a.and (b.and c)).literals ∧
      ∀ d : Draft, d.openGuard ((a.and b).and c) = d.openGuard (a.and (b.and c)) := by
  refine ⟨fun c d hc hd => ?_, literals_eq_flat, fun a b c => ?_⟩
  · rw [scores_eq_flat] at hc hd
    rw [text_eq_flat, text_eq_flat]
    exact ⟨Chain.text_injective Settings.legible_default (fun v hv => (hc v hv).isVariable)
      fun v hv => (hd v hv).isVariable, congrArg _⟩
  · have hflat : ((a.and b).and c).flat = (a.and (b.and c)).flat := by
      simp only [flat_and, Chain.append_assoc]
    have htext (o : String) : ((a.and b).and c).text o = (a.and (b.and c)).text o := by
      rw [text_eq_flat, text_eq_flat, hflat]
    have hliterals : ((a.and b).and c).literals = (a.and (b.and c)).literals := by
      rw [literals_eq_flat, literals_eq_flat, hflat]
    exact ⟨htext, hliterals, openGuard_congr htext hliterals⟩

/-- Variables with names that look like numbers, ranges and comparators. -/
theorem text_eq_iff_lookalikes :
    let v (name : String) : Score := ⟨name, "var"⟩
    let c := (between (v "5") .equal (v "=")).and
      ((within (v "1..5") ⟨1, 5⟩).and (withLiteral (v "matches") .less 5))
    let d := ((between (v "5") .equal (v "=")).and
      (within (v "1..5") ⟨1, 5⟩)).and (withLiteral (v "matches") .less 5)
    let e := (between (v "5") .equal (v "=")).and
      ((within (v "1..5") ⟨1, 5⟩).and (between (v "matches") .less (v "5")))
    c ≠ d ∧ c.text "const" = d.text "const" ∧ c.text "const" ≠ e.text "const" ∧
      c.text "const" = "5 var = = var = 1..5 var matches 1..5 = matches var < 5 const" := by
  intro v c d e
  have hmade {names : List String} (h : ∀ name ∈ names, NameKind.holder.Accepts name) :
      ∀ x ∈ names.map v, x.Made {} := by
    intro x hx
    obtain ⟨name, hname, rfl⟩ := List.mem_map.mp hx
    exact .of_accepts (h name hname)
  have hc : ∀ x ∈ c.scores, x.Made {} := by
    rw [show c.scores = ["5", "=", "1..5", "matches"].map v from rfl]
    exact hmade (by decide +kernel)
  have hd : ∀ x ∈ d.scores, x.Made {} := by
    rw [show d.scores = ["5", "=", "1..5", "matches"].map v from rfl]
    exact hmade (by decide +kernel)
  have he : ∀ x ∈ e.scores, x.Made {} := by
    rw [show e.scores = ["5", "=", "1..5", "matches", "5"].map v from rfl]
    exact hmade (by decide +kernel)
  have hsame := text_eq_iff.1 c d hc hd
  have hother := text_eq_iff.1 c e hc he
  exact ⟨by decide, hsame.mpr (by decide), fun h => absurd (hother.mp h) (by decide),
    by decide +kernel⟩

end Condition

end CommandPack
