import CommandPack.Proofs.Game.Words
import CommandPack.Proofs.Lines

namespace CommandPack

open Game

/-- The score that a command writes. -/
def Game.target? : List String → Option Score
  | "scoreboard" :: "players" :: verb :: holder :: objective :: _ =>
    if verb ∈ ["set", "add", "remove", "operation"] then some ⟨holder, objective⟩ else none
  | _ => none

namespace Line

def lead : Line → String
  | .written w => w.lead
  | .variableObjective | .constantObjective | .constantsCall | .constant _ => ""

def command (i : Imprint) : Line → String
  | .written w => w.command.text i.settings
  | .variableObjective => Line.text i .variableObjective
  | .constantObjective => Line.text i .constantObjective
  | .constantsCall => Line.text i .constantsCall
  | .constant n => Line.text i (.constant n)

theorem text_eq_lead_append (i : Imprint) (l : Line) : l.text i = l.lead ++ l.command i := by
  cases l with
  | written w => rfl
  | variableObjective | constantObjective | constantsCall | constant n =>
    exact String.empty_append.symm

def target? (i : Imprint) (l : Line) : Option Score := Game.target? (words (l.command i))

end Line

namespace Game

theorem target?_of_verb {verb : String} (hverb : verb ∈ ["set", "add", "remove", "operation"])
    (s : Score) (rest : List String) :
    target? ("scoreboard" :: "players" :: verb :: s.holder :: s.objective :: rest) = some s :=
  if_pos hverb

theorem target?_operation {s : Score} (h : IsPlain s) (sign : String) (source : Score) :
    target? (words (ScoreChange.operation s sign source)) = some s := by
  unfold ScoreChange.operation
  have hfront : words "scoreboard players operation" = ["scoreboard", "players", "operation"] := by
    decide +kernel
  rw [words_append_space _ source.text,
    words_target h _ "scoreboard players operation" (by decide +kernel) hfront]
  exact target?_of_verb (by decide) s _

/-- Every change of a score writes that score. -/
theorem target?_change {s : Score} (h : IsPlain s) (o : String) (c : ScoreChange Score) :
    target? (words (c.command s o)) = some s := by
  have hset : words "scoreboard players set" = ["scoreboard", "players", "set"] := by
    decide +kernel
  have hadd : words "scoreboard players add" = ["scoreboard", "players", "add"] := by
    decide +kernel
  have hremove : words "scoreboard players remove" = ["scoreboard", "players", "remove"] := by
    decide +kernel
  cases c with
  | set n =>
    unfold ScoreChange.command
    rw [words_target h _ "scoreboard players set" (by decide +kernel) hset]
    exact target?_of_verb (by decide) s _
  | add n =>
    change target? (words ("scoreboard players " ++ (if n < 0 then "remove " else "add ") ++
      s.text ++ " " ++ Text.natural n.toInt.natAbs)) = _
    by_cases hn : n < 0
    · rw [if_pos hn, words_target h _ "scoreboard players remove" (by decide +kernel) hremove]
      exact target?_of_verb (by decide) s _
    · rw [if_neg hn, words_target h _ "scoreboard players add" (by decide +kernel) hadd]
      exact target?_of_verb (by decide) s _
  | copy other => exact target?_operation h "=" other
  | multiply n => exact target?_operation h "*=" _
  | atLeast n => exact target?_operation h ">" _
  | atMost n => exact target?_operation h "<" _

/-- A text whose first words are these. -/
def StartsWith (front text : String) : Prop := ∃ rest, text = front ++ " " ++ rest

theorem StartsWith.append {front text : String} (h : StartsWith front text) (more : String) :
    StartsWith front (text ++ more) := by
  obtain ⟨rest, rfl⟩ := h
  exact ⟨rest ++ more, String.append_assoc⟩

/-- The first words are enough to tell that a command writes no score. -/
theorem target?_of_startsWith {front text : String} (h : StartsWith front text) {ws : List String}
    (hfront : words front = ws) (hnone : ∀ more, target? (ws ++ more) = none) :
    target? (words text) = none := by
  obtain ⟨rest, rfl⟩ := h
  rw [words_append_space, hfront]
  exact hnone _

theorem target?_addObjective (objective : String) :
    target? (words (addObjectiveCommand objective)) = none := by
  have hstart : StartsWith "scoreboard objectives" "scoreboard objectives add " :=
    ⟨"add ", by decide +kernel⟩
  have hwords : words "scoreboard objectives" = ["scoreboard", "objectives"] := by decide +kernel
  exact target?_of_startsWith ((hstart.append _).append _) hwords fun _ => rfl

theorem target?_call (f : FunctionRef) : target? (words f.callCommand) = none := by
  have hstart : StartsWith "function" "function " := ⟨"", by decide +kernel⟩
  have hwords : words "function" = ["function"] := by decide +kernel
  exact target?_of_startsWith (hstart.append _) hwords fun _ => rfl

/-- Whoever is selected, what is done to them writes no score. -/
theorem target?_deed (s : Selector) (d : Selector.Deed) :
    target? (words (d.command s)) = none := by
  cases d with
  | spawnpoint x y z =>
    have hstart : StartsWith "spawnpoint" "spawnpoint " := ⟨"", by decide +kernel⟩
    have hwords : words "spawnpoint" = ["spawnpoint"] := by decide +kernel
    exact target?_of_startsWith (((hstart.append _).append _).append _) hwords fun _ => rfl
  | teleport x y z =>
    have hstart : StartsWith "tp" "tp " := ⟨"", by decide +kernel⟩
    have hwords : words "tp" = ["tp"] := by decide +kernel
    exact target?_of_startsWith (((hstart.append _).append _).append _) hwords fun _ => rfl
  | clear =>
    have hstart : StartsWith "clear" "clear " := ⟨"", by decide +kernel⟩
    have hwords : words "clear" = ["clear"] := by decide +kernel
    exact target?_of_startsWith (hstart.append _) hwords fun _ => rfl
  | give item amount =>
    have hstart : StartsWith "give" "give " := ⟨"", by decide +kernel⟩
    have hwords : words "give" = ["give"] := by decide +kernel
    have hitem := ((hstart.append s.text).append " ").append item
    cases amount with
    | none => exact target?_of_startsWith hitem hwords fun _ => rfl
    | some n => exact target?_of_startsWith ((hitem.append _).append _) hwords fun _ => rfl
  | joinTeam team =>
    have hstart : StartsWith "team" "team join " := ⟨"join ", by decide +kernel⟩
    have hwords : words "team" = ["team"] := by decide +kernel
    exact target?_of_startsWith (((hstart.append _).append _).append _) hwords fun _ => rfl

theorem target?_makeBar (b : BossBar) : target? (words b.command) = none := by
  have hstart : StartsWith "bossbar" "bossbar add " := ⟨"add ", by decide +kernel⟩
  have hwords : words "bossbar" = ["bossbar"] := by decide +kernel
  exact target?_of_startsWith (((hstart.append _).append _).append _) hwords fun _ => rfl

/-- A bar that shows a score reads it. -/
theorem target?_setBar (b : BossBar) (p : BossBar.Property Score Selector) :
    target? (words (p.command b)) = none := by
  have hset : StartsWith "bossbar" "bossbar set " := ⟨"set ", by decide +kernel⟩
  have hbar : words "bossbar" = ["bossbar"] := by decide +kernel
  cases p with
  | max _ | players _ | colour _ =>
    exact target?_of_startsWith (((hset.append _).append _).append _) hbar fun _ => rfl
  | value s =>
    have hstart : StartsWith "execute" "execute store result bossbar " :=
      ⟨"store result bossbar ", by decide +kernel⟩
    have hwords : words "execute" = ["execute"] := by decide +kernel
    exact target?_of_startsWith (((hstart.append _).append _).append _) hwords fun _ => rfl

theorem target?_summon (e : Entity) (x y z : String) (tag : Option String) :
    target? (words (e.command x y z tag)) = none := by
  have hstart : StartsWith "summon" "summon " := ⟨"", by decide +kernel⟩
  have hwords : words "summon" = ["summon"] := by decide +kernel
  have hplace := (((hstart.append e.id).append " ").append x).append " "
  exact target?_of_startsWith ((((hplace.append y).append " ").append z).append _) hwords
    fun _ => rfl

end Game

def Command.changes? : Command → Option Score
  | .change s _ => some s
  | .raw _ | .deed _ _ | .makeBar _ | .setBar _ _ | .call _ | .summon .. => none

/-- The words of a command tell which score it changes, if it is no raw text. -/
theorem Command.target?_text {c : Command} (hraw : ∀ text, c ≠ .raw text)
    (hplain : ∀ s ∈ c.changes?, IsPlain s) (settings : Settings) :
    Game.target? (words (c.text settings)) = c.changes? := by
  cases c with
  | raw text => exact absurd rfl (hraw text)
  | change s c => exact target?_change (hplain s rfl) settings.constObjective c
  | deed s d => exact target?_deed s d
  | makeBar b => exact target?_makeBar b
  | setBar b p => exact target?_setBar b p
  | call f => exact target?_call f
  | summon e x y z tag => exact target?_summon e x y z tag

theorem Line.target?_variableObjective (i : Imprint) : Line.variableObjective.target? i = none :=
  target?_addObjective i.settings.varObjective

theorem Line.target?_constantObjective (i : Imprint) : Line.constantObjective.target? i = none :=
  target?_addObjective i.settings.constObjective

theorem Line.target?_constantsCall (i : Imprint) : Line.constantsCall.target? i = none :=
  target?_call ⟨i.space, i.settings.constsContext⟩

/-- A declaration writes the score of its constant. -/
theorem Line.target?_constant {i : Imprint} (ho : ' ' ∉ i.settings.constObjective.toList)
    (n : Int32) :
    (Line.constant n).target? i = some (.constant i.settings.constObjective n) :=
  target?_change (isPlain_constant ho n) i.settings.constObjective (.set n)

end CommandPack
