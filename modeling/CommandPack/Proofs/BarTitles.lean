import CommandPack.Proofs.Names
import CommandPack.Proofs.QuotedText

namespace CommandPack

namespace BossBar

theorem command_eq (b : BossBar) :
    b.command = "bossbar add " ++ b.space ++ ":" ++ b.id ++ " " ++ Text.quoted b.title := by
  change "bossbar add " ++ (b.space ++ ":" ++ b.id) ++ " " ++ Text.quoted b.title = _
  simp only [String.append_assoc]

theorem toList_command (b : BossBar) :
    b.command.toList = "bossbar add ".toList ++ (b.space.toList ++ ':' ::
      (b.id.toList ++ ' ' :: Text.quotedChars b.title.toList)) := by
  rw [command_eq]
  simp [Text.quoted]

/-- Bars with accepted names are made by different commands, whatever their titles are. -/
theorem command_injective {b b' : BossBar} (hspace : NameKind.space.Accepts b.space)
    (hspace' : NameKind.space.Accepts b'.space) (hid : NameKind.bossBar.Accepts b.id)
    (hid' : NameKind.bossBar.Accepts b'.id) (h : b.command = b'.command) : b = b' := by
  have hcolon {name : String} (hname : NameKind.space.Accepts name) : ':' ∉ name.toList :=
    (Name.plain_of_spaceFault? hname).2 ':' (by decide)
  have hchars := congrArg String.toList h
  rw [toList_command, toList_command] at hchars
  obtain ⟨hsameSpace, hrest⟩ := Text.append_sep_injective (hcolon hspace) (hcolon hspace')
    (List.append_cancel_left hchars)
  obtain ⟨hsameId, hquoted⟩ :=
    Text.append_sep_injective hid.space_notMem hid'.space_notMem hrest
  obtain ⟨hsameTitle, -⟩ := Text.quotedChars_append_injective (congrArg (· ++ []) hquoted)
  rw [String.toList_inj] at hsameSpace hsameId hsameTitle
  cases b
  cases b'
  exact BossBar.mk.injEq .. ▸ ⟨hsameSpace, hsameId, hsameTitle⟩

end BossBar

namespace Draft

variable {d : Draft} {id title line : String}

/-- Making a bar succeeds and writes this line where the script stands. -/
def MakesBar (d : Draft) (id title line : String) : Prop :=
  ∃ bar after, d.makeBossBar id title = .ok (bar, after) ∧
    after.buffers = d.buffers.append d.place.context line

/-- Outside all scopes the line is the command itself. -/
theorem makesBar_iff (hscopes : d.place.scopes = .empty) :
    d.MakesBar id title line ↔
      NameKind.bossBar.Accepts id ∧ line = BossBar.command ⟨d.space, id, title⟩ := by
  have hemit (command : String) :
      (d.emit command).buffers = d.buffers.append d.place.context command := by
    change d.buffers.append d.place.context (d.place.scopes.text ++ command) = _
    rw [hscopes]
    exact congrArg _ String.empty_append
  constructor
  · rintro ⟨bar, after, hmade, hline⟩
    unfold makeBossBar at hmade
    split at hmade
    · nomatch hmade
    · rename_i hname
      cases hmade
      rw [hemit] at hline
      exact ⟨BuildError.accepts_of_checkName hname, (Buffers.line_of_append_eq hline).symm⟩
  · rintro ⟨hid, rfl⟩
    have hname : BuildError.checkName .bossBar id = .ok () := by
      rw [BuildError.checkName, NameKind.check_eq_ok.mpr hid]
      rfl
    refine ⟨⟨d.space, id, title⟩, d.emit (BossBar.command ⟨d.space, id, title⟩), ?_, hemit _⟩
    rw [makeBossBar, hname]

/-- Outside all scopes, making a bar with accepted names writes a fixed beginning with these names
and behind it one quoted text. The first mark that can close it is the last character of the line,
and what it says is the title, whatever that is. So bars that are not the same are never made by
the same line. -/
theorem bar_titles_contained (hspace : NameKind.space.Accepts d.space)
    (hid : NameKind.bossBar.Accepts id) (hscopes : d.place.scopes = .empty) (title : String) :
    ∃ line inside, d.MakesBar id title line ∧
      line = "bossbar add " ++ d.space ++ ":" ++ id ++ " " ++ String.ofList ('"' :: inside) ∧
      Text.behindMark? inside = some [] ∧
      Text.readQuoted? ('"' :: inside) = some (title.toList, []) ∧
      ∀ (d' : Draft) (id' title' : String), NameKind.space.Accepts d'.space →
        d'.place.scopes = .empty →
        (d'.MakesBar id' title' line ↔ d'.space = d.space ∧ id' = id ∧ title' = title) := by
  have hmade : d.MakesBar id title (BossBar.command ⟨d.space, id, title⟩) :=
    (makesBar_iff hscopes).mpr ⟨hid, rfl⟩
  have hmark : Text.behindMark? (Text.escape title.toList ++ ['"']) = some [] :=
    Text.behindMark?_escape title.toList []
  have hread : Text.readQuoted? ('"' :: (Text.escape title.toList ++ ['"'])) =
      some (title.toList, []) := by
    rw [← Text.readQuoted?_quotedChars title.toList [], List.append_nil]
    rfl
  refine ⟨BossBar.command ⟨d.space, id, title⟩, Text.escape title.toList ++ ['"'], hmade,
    BossBar.command_eq _, hmark, hread, ?_⟩
  intro d' id' title' hspace' hscopes'
  rw [makesBar_iff hscopes']
  constructor
  · rintro ⟨hid', hline⟩
    have hbar : (⟨d.space, id, title⟩ : BossBar) = ⟨d'.space, id', title'⟩ :=
      BossBar.command_injective hspace hspace' hid hid' hline
    obtain ⟨hs, hi, ht⟩ := BossBar.mk.inj hbar
    exact ⟨hs.symm, hi.symm, ht.symm⟩
  · rintro ⟨hs, rfl, rfl⟩
    exact ⟨hid, by rw [hs]⟩

/-- A title that looks like the end of its command and the beginning of another one. -/
theorem bar_titles_contained_lookalike :
    let d := Draft.start "demo" {}
    let title := "x\" \\\nbossbar add demo:b \"y"
    let line := "bossbar add demo:a \"x\\\" \\\\\\nbossbar add demo:b \\\"y\""
    NameKind.space.Accepts d.space ∧ NameKind.bossBar.Accepts "a" ∧ d.place.scopes = .empty ∧
      d.MakesBar "a" title line ∧ ¬ d.MakesBar "b" "y" line := by
  intro d title line
  have hspace : NameKind.space.Accepts d.space := by decide
  have hid : NameKind.bossBar.Accepts "a" := by decide
  obtain ⟨made, inside, hmade, -, -, -, hunique⟩ := bar_titles_contained hspace hid rfl title
  have hline : made = line := ((makesBar_iff rfl).mp hmade).2.trans (by decide +kernel)
  rw [hline] at hmade hunique
  refine ⟨hspace, hid, rfl, hmade, fun hother => ?_⟩
  exact absurd ((hunique d "b" "y" hspace rfl).mp hother).2.1 (by decide)

end Draft

end CommandPack
