import CommandPack.Proofs.DefaultLines
import CommandPack.Proofs.Game.ScorePrograms
import CommandPack.Proofs.LoadOrder

namespace CommandPack

open Game

/-! ## Constants -/

theorem Score.constant_injective {o : String} {m n : Int32} (h : constant o m = constant o n) :
    m = n := by
  have htext : Text.integer m.toInt = Text.integer n.toInt := congrArg holder h
  have hread := readInteger?_integer m.toInt
  rw [htext, readInteger?_integer] at hread
  exact Int32.toInt_inj.mp (Option.some.inj hread).symm

namespace Game

variable {call : String → Scoreboard → Option Scoreboard} {o : String} {ns : List Int32}
  {b b' : Scoreboard} {i : Imprint}

theorem executeAll_cons (line : String) (lines : List String) :
    executeAll call (line :: lines) b =
      (execute call (words line) b).bind (executeAll call lines) :=
  rfl

theorem executeAll_singleton (line : String) :
    executeAll call [line] b = execute call (words line) b :=
  Option.bind_fun_some _

theorem executeAll_append (ls ms : List String) :
    executeAll call (ls ++ ms) b = (executeAll call ls b).bind (executeAll call ms) :=
  List.foldlM_append

/-- From `b` to `b'` the constants of these numbers were set, and nothing else under another
objective was changed. -/
structure Declared (o : String) (ns : List Int32) (b b' : Scoreboard) : Prop where
  holds : ∀ n ∈ ns, b' (.constant o n) = n
  others : ∀ t : Score, t.objective ≠ o → b' t = b t

theorem Declared.nil (o : String) (b : Scoreboard) : Declared o [] b b :=
  ⟨fun _ hn => absurd hn List.not_mem_nil, fun _ _ => rfl⟩

theorem Declared.concat (h : Declared o ns b b') (n : Int32) :
    Declared o (ns ++ [n]) b (b'.set (.constant o n) n) := by
  constructor
  · intro m hm
    by_cases hmn : m = n
    · rw [hmn]
      exact if_pos rfl
    · have hold : m ∈ ns := by simpa [hmn] using hm
      exact (if_neg fun heq => hmn (Score.constant_injective heq)).trans (h.holds m hold)
  · intro t ht
    have hne : t ≠ .constant o n := fun heq => ht (congrArg Score.objective heq)
    exact (if_neg hne).trans (h.others t ht)

/-- Their declarations set the constants. -/
theorem executeAll_constants (call : String → Scoreboard → Option Scoreboard)
    (ho : ' ' ∉ i.settings.constObjective.toList) (ns : List Int32) (b : Scoreboard) :
    ∃ b', executeAll call ((ns.map Line.constant).map (Line.text i)) b = some b' ∧
      Declared i.settings.constObjective ns b b' := by
  induction ns using List.reverseRecOn with
  | nil => exact ⟨b, rfl, .nil _ b⟩
  | append_singleton ns n ih =>
    obtain ⟨b', hb', hns⟩ := ih
    refine ⟨_, ?_, hns.concat n⟩
    have htext : (Line.constant n).text i = "scoreboard players set " ++
        (Score.constant i.settings.constObjective n).text ++ " " ++ Text.integer n.toInt := rfl
    rw [List.map_append, List.map_append, executeAll_append, hb', Option.bind_some,
      List.map_singleton, List.map_singleton, executeAll_singleton, htext,
      execute_set (isPlain_constant ho n)]

/-! ## The block in front -/

theorem execute_addObjective (ho : ' ' ∉ o.toList) :
    execute call (words (addObjectiveCommand o)) b = some b := by
  have hlead := words_lead "scoreboard objectives add " "scoreboard objectives add"
    ["scoreboard", "objectives", "add"] (by decide +kernel) (by decide +kernel) o
  have htail : " dummy" = " " ++ "dummy" := by decide +kernel
  unfold addObjectiveCommand
  rw [htail, ← String.append_assoc, words_append_space _ "dummy", hlead, words_of_notMem ho,
    words_of_notMem (by decide)]
  rfl

theorem execute_callCommand {f : FunctionRef} (hf : ' ' ∉ f.text.toList) :
    execute call (words f.callCommand) b = call f.text b := by
  have hlead := words_lead "function " "function" ["function"] (by decide +kernel)
    (by decide +kernel) f.text
  unfold FunctionRef.callCommand
  rw [hlead, words_of_notMem hf]
  rfl

/-- The declarations that needs put in front do what the call of the constants does, if one of them
is for constants. -/
theorem executeAll_needs (hvar : ' ' ∉ i.settings.varObjective.toList)
    (hconst : ' ' ∉ i.settings.constObjective.toList)
    (hname : ' ' ∉ (FunctionRef.text ⟨i.space, i.settings.constsContext⟩).toList)
    (needs : List Need)
    (hcall : .constants ∈ needs → ∀ b, ∃ b',
      call (FunctionRef.text ⟨i.space, i.settings.constsContext⟩) b = some b' ∧
        Declared i.settings.constObjective ns b b') (b : Scoreboard) :
    ∃ b', executeAll call ((needs.flatMap Need.lines).map (Line.text i)) b = some b' ∧
      Declared i.settings.constObjective (if .constants ∈ needs then ns else []) b b' := by
  induction needs using List.reverseRecOn with
  | nil => exact ⟨b, rfl, .nil _ b⟩
  | append_singleton needs need ih =>
    obtain ⟨b', hb', hneeds⟩ := ih fun h => hcall (List.mem_append_left _ h)
    rw [List.flatMap_append, List.map_append, executeAll_append, hb', Option.bind_some,
      List.flatMap_singleton]
    cases need with
    | «variables» =>
      have htext : Need.variables.lines.map (Line.text i) =
          [addObjectiveCommand i.settings.varObjective] := rfl
      rw [htext, executeAll_singleton, execute_addObjective hvar]
      exact ⟨b', rfl, by simpa using hneeds⟩
    | constants =>
      have htext : Need.constants.lines.map (Line.text i) =
          [addObjectiveCommand i.settings.constObjective,
            FunctionRef.callCommand ⟨i.space, i.settings.constsContext⟩] := rfl
      rw [htext, executeAll_cons, execute_addObjective hconst, Option.bind_some,
        executeAll_singleton, execute_callCommand hname]
      obtain ⟨b'', hb'', hns⟩ := hcall (List.mem_append_right _ List.mem_cons_self) b'
      refine ⟨b'', hb'', ?_⟩
      rw [if_pos (List.mem_append_right _ List.mem_cons_self)]
      exact ⟨hns.holds, fun t ht => (hns.others t ht).trans (hneeds.others t ht)⟩

end Game

/-! ## The lines of a score program -/

section Lines

variable {call : String → Scoreboard → Option Scoreboard} {s : Settings} {i : Imprint}
  {w : Written} {b b' : Scoreboard}

theorem IsVariable.isPlain {v : Score} (h : IsVariable s v) (hvar : ' ' ∉ s.varObjective.toList) :
    IsPlain v :=
  ⟨h.2, h.1 ▸ hvar⟩

theorem Written.play_eq {v : Score} {c : ScoreChange Score} (h : w.command = .change v c) :
    w.play b = Testing.eachTime.change w.guards v c b := by
  rw [play, h]

/-- A line of a score program does in the game what it does in its journal, once the constants that
it refers to hold their numbers. -/
theorem Written.IsScore.execute (hw : w.IsScore i.settings)
    (hvar : ' ' ∉ i.settings.varObjective.toList) (hconst : ' ' ∉ i.settings.constObjective.toList)
    (hb : ∀ n ∈ w.constants, b (.constant i.settings.constObjective n) = n) :
    Game.execute call (words ((Line.written w).text i)) b = some (w.play b) := by
  obtain ⟨v, c, hcommand, hv, hother⟩ := hw.command
  have hguards : ∀ g ∈ w.guards, g.IsSimple ∧ ∀ t ∈ g.scores, IsPlain t := fun g hg =>
    ⟨(hw.guards g hg).1, fun t ht => ((hw.guards g hg).2 t ht).isPlain hvar⟩
  have hliterals : ∀ g ∈ w.guards, ∀ n ∈ g.literals,
      b (.constant i.settings.constObjective n) = n := fun g hg n hn =>
    hb n (List.mem_append_left _ (List.mem_flatMap.mpr ⟨g, hg, hn⟩))
  have hconstants : ∀ n ∈ c.constants, b (.constant i.settings.constObjective n) = n := by
    intro n hn
    refine hb n (List.mem_append_right _ ?_)
    rw [hcommand]
    exact hn
  have hchange : Game.execute call (words (c.command v i.settings.constObjective)) b = _ :=
    execute_change (hv.isPlain hvar) hconst (fun other hc => (hother other hc).isPlain hvar)
      hconstants
  have hline : (Line.written w).text i = w.lead ++ w.command.text i.settings := rfl
  have hbehind : w.command.text i.settings = c.command v i.settings.constObjective :=
    congrArg (Command.text i.settings) hcommand
  rw [hline, hbehind, hw.lead, execute_lead hconst hguards hliterals, hchange,
    Written.play_eq hcommand]
  exact (apply_ite some _ _ _).symm

/-- A line of a score program changes nothing but variables. -/
theorem Written.IsScore.others (hw : w.IsScore s) {t : Score} (ht : t.objective ≠ s.varObjective) :
    w.play b t = b t := by
  obtain ⟨v, c, hcommand, hv, -⟩ := hw.command
  have hne : t ≠ v := fun heq => ht (heq ▸ hv.1)
  simp only [play, hcommand, Testing.change]
  split
  · exact if_neg hne
  · rfl

/-- The lines that a score program appends to the default context do what its journal says, once its
constants hold their numbers. -/
theorem executeAll_written (hvar : ' ' ∉ i.settings.varObjective.toList)
    (hconst : ' ' ∉ i.settings.constObjective.toList)
    (hne : i.settings.varObjective ≠ i.settings.constObjective) {es : List Entry}
    (hes : ∀ e ∈ es, e.IsScore i.settings)
    (hb : ∀ context w, .append context w ∈ es → ∀ n ∈ w.constants,
      b (.constant i.settings.constObjective n) = n) :
    executeAll call
        ((es.flatMap (Entry.written i.settings.defaultContext)).map (Line.text i)) b =
      some (es.foldl Entry.play b) := by
  induction es generalizing b with
  | nil => rfl
  | cons e es ih =>
    have hrest (e : Entry) (he : e ∈ es) := hes e (List.mem_cons_of_mem _ he)
    have hlater (context : String) (w : Written) (hw : .append context w ∈ es) :=
      hb context w (List.mem_cons_of_mem _ hw)
    cases e with
    | append context w =>
      obtain ⟨rfl, hw⟩ := hes _ List.mem_cons_self
      have hline : Game.execute call (words ((Line.written w).text i)) b = _ :=
        hw.execute hvar hconst (hb _ w List.mem_cons_self)
      have hplayed (c : String) (w' : Written) (hw' : .append c w' ∈ es) (n : Int32)
          (hn : n ∈ w'.constants) : w.play b (.constant i.settings.constObjective n) = n :=
        (hw.others hne.symm).trans (hlater c w' hw' n hn)
      rw [List.flatMap_cons, Entry.written, if_pos rfl, List.singleton_append, List.map_cons,
        executeAll_cons, hline, Option.bind_some, ih hrest hplayed]
      rfl
    | objective | constant n | touch context | prepend context w => exact ih hrest hlater

/-! ## Other scores do not matter -/

/-- The variables have the same values. -/
def SameVariables (s : Settings) (b b' : Scoreboard) : Prop :=
  ∀ v : Score, v.objective = s.varObjective → b' v = b v

theorem SameVariables.set (h : SameVariables s b b') (v : Score) (n : Int32) :
    SameVariables s (b.set v n) (b'.set v n) := by
  intro t ht
  simp only [Scoreboard.set, h t ht]

theorem ScoreChange.result_congr {c : ScoreChange Score}
    (hc : ∀ other, c = .copy other → IsVariable s other) (h : SameVariables s b b') (old : Int32) :
    c.result b' old = c.result b old := by
  cases c with
  | copy other => exact h other (hc other rfl).1
  | set n | add n | multiply n | atLeast n | atMost n => rfl

theorem Written.IsScore.play_congr (hw : w.IsScore s) (h : SameVariables s b b') :
    SameVariables s (w.play b) (w.play b') := by
  obtain ⟨v, c, hcommand, hv, hother⟩ := hw.command
  have hholds : w.guards.all (·.holds b') = w.guards.all (·.holds b) :=
    Testing.all_holds fun g hg =>
      Condition.holds_congr fun t ht => h t ((hw.guards g hg).2 t ht).1
  simp only [play, hcommand, Testing.change, Testing.eachTime, hholds, h v hv.1,
    ScoreChange.result_congr hother h]
  by_cases hall : w.guards.all (·.holds b) = true
  · simp only [hall, if_true]
    exact h.set v _
  · simp only [hall]
    exact h

/-- What a journal does to the variables depends on the variables alone. -/
theorem foldl_play_congr {es : List Entry} (hes : ∀ e ∈ es, e.IsScore s)
    (h : SameVariables s b b') :
    SameVariables s (es.foldl Entry.play b) (es.foldl Entry.play b') := by
  induction es generalizing b b' with
  | nil => exact h
  | cons e es ih =>
    refine ih (fun e he => hes e (List.mem_cons_of_mem _ he)) ?_
    cases e with
    | append context w => exact (hes _ List.mem_cons_self).2.play_congr h
    | objective | constant n | touch context | prepend context w => exact h

end Lines

/-! ## Packs -/

/-- The constants that a journal's lines refer to are asked for in it. -/
theorem Covered.constant_mem {es : List Entry} (h : Covered [] es) {context : String} {w : Written}
    (hw : .append context w ∈ es) {n : Int32} (hn : n ∈ w.constants) : .constant n ∈ es := by
  obtain ⟨front, back, rfl⟩ := List.append_of_mem hw
  obtain ⟨-, ⟨-, hconstants⟩, -⟩ := covered_append.mp h
  exact List.mem_append_left _ (hconstants n hn)

theorem mem_uses_iff {es : List Entry} {n : Int32} :
    n ∈ es.flatMap Entry.uses ↔ .constant n ∈ es := by
  rw [List.mem_flatMap]
  constructor
  · rintro ⟨e, he, hn⟩
    cases e with
    | constant m => exact List.mem_singleton.mp hn ▸ he
    | touch c | append c w | prepend c w | objective => exact absurd hn List.not_mem_nil
  · exact fun h => ⟨_, h, List.mem_singleton.mpr rfl⟩

namespace Pack

variable (p : Pack)

/-- A run of the script leaves the lines of its journal. -/
theorem buffers_run :
    (p.script.run p.start).2.draft.buffers =
      ((Draft.start p.space p.settings).post p.journal).buffers :=
  (p.script.run_evaluates p.start []).2.1

/-- A score program writes nothing but declarations to the context of the constants. -/
theorem get?_consts_of_isScore (hes : ∀ e ∈ p.journal, e.IsScore p.settings) :
    (p.script.run p.start).2.draft.buffers.get? p.settings.constsContext =
      (declarations (p.journal.flatMap Entry.uses)).map
        (·.map (Line.text ⟨p.space, p.settings⟩)) := by
  have haway : Untouched p.settings.constsContext p.journal := by
    intro hc
    obtain ⟨e, he, hc⟩ := List.mem_flatMap.mp hc
    cases e with
    | append context w =>
      obtain ⟨rfl, -⟩ := hes _ he
      exact p.consts_ne_default (List.mem_singleton.mp hc)
    | touch context | prepend context w => exact hes _ he
    | objective | constant n => exact absurd hc List.not_mem_nil
  rw [buffers_run]
  exact ((Draft.InStep.start p.space p.settings p.consts_ne_default).post p.consts_ne_default _
    haway).lines

theorem get?_default_of_isScore (hes : ∀ e ∈ p.journal, e.IsScore p.settings) :
    (p.script.run p.start).2.draft.buffers.get? p.settings.defaultContext =
      some ((frontBlock (p.journal.filterMap Entry.need?) ++
        p.journal.flatMap (Entry.written p.settings.defaultContext)).map
          (Line.text ⟨p.space, p.settings⟩)) := by
  rw [buffers_run, Draft.get?_default_post, linesOf_default p.consts_ne_default]
  exact fun w hw => hes _ hw

/-- Calling the context of the constants, once one is used, sets all constants. -/
theorem call_consts (hes : ∀ e ∈ p.journal, e.IsScore p.settings)
    (hused : ∃ n, .constant n ∈ p.journal) (depth : Nat) (b : Scoreboard) :
    ∃ b', call (functions p.space (p.script.run p.start).2.draft.buffers) (depth + 1)
        (FunctionRef.text ⟨p.space, p.settings.constsContext⟩) b = some b' ∧
      Declared p.settings.constObjective (p.journal.flatMap Entry.uses) b b' := by
  obtain ⟨-, -, -, -, hconst⟩ := Settings.accepts_of_fault? p.accepted
  obtain ⟨b', hb', hset⟩ := executeAll_constants (i := ⟨p.space, p.settings⟩)
    (call (functions p.space (p.script.run p.start).2.draft.buffers) depth) hconst.space_notMem
    (p.journal.flatMap Entry.uses).eraseDups b
  have hne : p.journal.flatMap Entry.uses ≠ [] := by
    obtain ⟨n, hn⟩ := hused
    exact List.ne_nil_of_mem (mem_uses_iff.mpr hn)
  refine ⟨b', ?_, fun n hn => hset.holds n (List.mem_eraseDups.mpr hn), hset.others⟩
  rw [call, functions_text, get?_consts_of_isScore p hes, declarations, if_neg hne,
    Option.map_some, Option.bind_some, hb']

/-- Calling the default context gives the variables the values that the journal gives them. -/
theorem call_default (hobjectives : p.settings.varObjective ≠ p.settings.constObjective)
    (hes : ∀ e ∈ p.journal, e.IsScore p.settings) (depth : Nat) (b : Scoreboard) :
    ∃ b', call (functions p.space (p.script.run p.start).2.draft.buffers) (depth + 2)
        (FunctionRef.text ⟨p.space, p.settings.defaultContext⟩) b = some b' ∧
      SameVariables p.settings (p.journal.foldl Entry.play b) b' := by
  obtain ⟨hspace, -, hconsts, hvar, hconst⟩ := Settings.accepts_of_fault? p.accepted
  have hname : ' ' ∉ (FunctionRef.text ⟨p.space, p.settings.constsContext⟩).toList := by
    simp [FunctionRef.text, hspace.space_notMem, hconsts.space_notMem]
  have hneeded : .constants ∈ (p.journal.filterMap Entry.need?).eraseDups.reverse ↔
      ∃ n, .constant n ∈ p.journal := by
    rw [List.mem_reverse, List.mem_eraseDups, constants_mem_iff]
  -- The block in front sets the constants that the lines below it read.
  obtain ⟨b₁, hb₁, hfront⟩ := executeAll_needs (i := ⟨p.space, p.settings⟩) hvar.space_notMem
    hconst.space_notMem hname (p.journal.filterMap Entry.need?).eraseDups.reverse
    (fun h b => p.call_consts hes (hneeded.mp h) depth b) b
  have hconstants : ∀ context w, .append context w ∈ p.journal → ∀ n ∈ w.constants,
      b₁ (.constant p.settings.constObjective n) = n := by
    intro context w hw n hn
    have hmem := p.covered_journal.constant_mem hw hn
    rw [if_pos (hneeded.mpr ⟨n, hmem⟩)] at hfront
    exact hfront.holds n (mem_uses_iff.mpr hmem)
  have hvariables : SameVariables p.settings b b₁ := fun v hv =>
    hfront.others v (hv ▸ hobjectives)
  refine ⟨p.journal.foldl Entry.play b₁, ?_, foldl_play_congr hes hvariables⟩
  rw [call, functions_text, get?_default_of_isScore p hes, Option.bind_some, List.map_append,
    executeAll_append, frontBlock, hb₁]
  exact executeAll_written hvar.space_notMem hconst.space_notMem hobjectives hes hconstants

/-- Loading a pack whose script is a score program, which is executing the lines of its default
context from top to bottom, gives every variable the value that it has after the script was
evaluated directly, each change testing all conditions around it. Testing every condition only when
its script is entered comes to the same if the script changes no score inside a condition that reads
it. Variables and constants must have different objectives. -/
theorem load_plays (hobjectives : p.settings.varObjective ≠ p.settings.constObjective)
    (hs : p.script.IsScore) (depth : Nat) (b : Scoreboard) :
    let run := p.script.run p.start
    let direct := p.script.play .eachTime p.settings [] {} b
    run.1 = direct.result ∧
    (∃ b', call (functions p.space run.2.draft.buffers) (depth + 2)
        (FunctionRef.text ⟨p.space, p.settings.defaultContext⟩) b = some b' ∧
      ∀ v : Score, v.objective = p.settings.varObjective → b' v = direct.board v) ∧
    (Steady p.journal → p.script.play .once p.settings true {} b = direct) := by
  intro run direct
  have hdirect : direct = ⟨_, _, p.journal.foldl Entry.play b⟩ :=
    Script.play_eachTime hs (p.start.draft.site []) {} b
  have hmemory : Memory.IsScore p.settings {} := fun _ v h => nomatch show none = some v from h
  have hes : ∀ e ∈ p.journal, e.IsScore p.settings :=
    (Script.isScore_read (p := p.start.draft.site []) hs
      ⟨rfl, rfl, fun _ hg => absurd hg List.not_mem_nil⟩ hmemory).1
  refine ⟨?_, ?_, fun hsteady => ?_⟩
  · rw [hdirect]
    exact (p.script.run_evaluates p.start []).1
  · rw [hdirect]
    exact p.call_default hobjectives hes depth b
  · exact (Script.play_once (p := p.start.draft.site []) hs b hsteady).1

def scored : Pack where
  space := "demo"
  settings := {}
  script :=
    .act (.variable "x" none) false <|
    .act (.freshVariable (some "y")) false <|
    .act (.variable "z" none) false <|
    .act (.change "x" (.set 7)) false <|
    .inside (.when (.withLiteral "x" .greater 5)) false
      (.inside (.whenScore "y" (.within "$" ⟨-3, 3⟩)) false
        (.act (.change "z" (.copy "x")) false <|
        .act (.change "z" (.multiply (-3))) false <|
        .act (.change "z" (.add (-2147483640))) false .done) <|
      .inside (.when (.between "x" .equal "y")) false (.act (.change "z" (.set 0)) false .done) <|
      .done) <|
    .act (.clamp "y" 5 20) false .done
  accepted := Settings.fault?_demo

theorem load_plays_scored :
    scored.settings.varObjective ≠ scored.settings.constObjective ∧ scored.script.IsScore ∧
    Steady scored.journal ∧
    ∃ b', call (functions "demo" (scored.script.run scored.start).2.draft.buffers) 2 "demo:default"
        (fun _ => 1) = some b' ∧
      b' ⟨"x", "var"⟩ = 7 ∧ b' ⟨"__v0", "var"⟩ = 5 ∧ b' ⟨"z", "var"⟩ = 2147483635 := by
  have hobjectives : scored.settings.varObjective ≠ scored.settings.constObjective := by
    decide +kernel
  have hs : scored.script.IsScore :=
    ⟨trivial, trivial, trivial, trivial, .withLiteral "x" .greater (by decide) 5,
      ⟨.within "$" ⟨-3, 3⟩, ⟨trivial, trivial, trivial, trivial⟩,
        .between "x" .equal (by decide) "y", ⟨trivial, trivial⟩, trivial⟩, trivial, trivial⟩
  have hsteady : Steady scored.journal := by decide +kernel
  obtain ⟨-, ⟨b', hb', hvalues⟩, honce⟩ := scored.load_plays hobjectives hs 0 fun _ => 1
  rw [← honce hsteady] at hvalues
  refine ⟨hobjectives, hs, hsteady, b', hb', ?_, ?_, ?_⟩
  · exact (hvalues ⟨"x", "var"⟩ rfl).trans (by decide +kernel)
  · exact (hvalues ⟨"__v0", "var"⟩ rfl).trans (by decide +kernel)
  · exact (hvalues ⟨"z", "var"⟩ rfl).trans (by decide +kernel)

end Pack
end CommandPack
