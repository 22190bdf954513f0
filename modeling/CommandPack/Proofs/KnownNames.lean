import CommandPack.Proofs.ContextNames
import CommandPack.Proofs.GeneratedNames

namespace CommandPack

/-- A name that a context can have while this many names were generated. -/
def KnownName (count : Nat) (context : String) : Prop :=
  NameKind.context.Accepts context ∨ ∃ k < count, context = generatedName "fn" k

theorem KnownName.mono {n m : Nat} {context : String} (h : KnownName n context) (hle : n ≤ m) :
    KnownName m context :=
  h.imp_right fun ⟨k, hk, hname⟩ => ⟨k, Nat.lt_of_lt_of_le hk hle, hname⟩

/-- The names that are still to come are not known. -/
theorem KnownName.ne_generatedName {n k : Nat} {context : String} (h : KnownName n context)
    (hk : n ≤ k) : context ≠ generatedName "fn" k := by
  rcases h with h | ⟨j, hj, rfl⟩
  · exact NameKind.Accepts.ne_generatedName (.inr h) "fn" k
  · intro hname
    have hnumber : j = k := number_of_generatedName (by decide) (by decide) hname
    omega

/-- All contexts of a draft are known, the current one and those of the settings included. -/
structure Draft.WellNamed (d : Draft) : Prop where
  keys : ∀ c ∈ d.buffers.keys, KnownName d.generated c
  current : KnownName d.generated d.place.context
  default : NameKind.context.Accepts d.settings.defaultContext
  consts : NameKind.context.Accepts d.settings.constsContext

variable {w v : Workspace}

theorem Pack.wellNamed_start (p : Pack) : p.start.draft.WellNamed := by
  obtain ⟨-, hdefault, hconsts, -⟩ := Settings.accepts_of_fault? p.accepted
  refine ⟨?_, .inl hdefault, hdefault, hconsts⟩
  intro c hc
  have hc : c ∈ [p.settings.defaultContext] := hc
  rw [List.mem_singleton.mp hc]
  exact .inl hdefault

/-- A draft stays well named if all contexts that are asked for are known afterwards. -/
theorem Draft.WellNamed.record (h : w.draft.WellNamed) {es : List Entry} {m : Memory}
    (hgrown : w.draft.generated ≤ m.generated)
    (hes : ∀ c ∈ es.flatMap Entry.contexts, KnownName m.generated c) :
    (w.record es m).draft.WellNamed := by
  refine ⟨?_, h.current.mono hgrown, h.default, h.consts⟩
  intro c hc
  rcases mem_keys_foldl_apply.mp hc with hold | ⟨ev, hev, rfl⟩
  · exact (h.keys c hold).mono hgrown
  · rcases context_of_mem_eventsOf hev with hasked | hcontext | ⟨hcontext, -⟩
    · exact hes _ hasked
    · exact .inl (hcontext ▸ h.default)
    · exact .inl (hcontext ▸ h.consts)

theorem Action.wellNamed_perform {a : Action} (ha : a.addressed = []) (h : w.draft.WellNamed) :
    (a.perform w).2.draft.WellNamed := by
  have hgrown := (a.counts w).le
  rw [a.perform_eq_record w []] at hgrown ⊢
  refine h.record hgrown fun c hc => ?_
  -- An action that names no context writes where it stands.
  by_cases hhere : c = w.draft.place.context
  · exact hhere ▸ h.current.mono hgrown
  · have hnamed : c ∉ a.addressed := ha ▸ List.not_mem_nil
    exact absurd hc (a.untouched_read (w.draft.site []) w.memory hhere hnamed)

/-- A step is entered where it stands, in a function with an accepted name, or in one with the name
that was just generated. -/
theorem Opening.context_of_enter {o : Opening} (he : o.enter w = .ok v) :
    match o.functionSlot? with
    | none => v.draft.place.context = w.draft.place.context
    | some _ => NameKind.context.Accepts v.draft.place.context ∨
        (v.draft.place.context = generatedName "fn" w.draft.generated ∧
          v.draft.generated = w.draft.generated + 1) := by
  cases o with
  | function name slot =>
    simp only [enter] at he
    cases hname : BuildError.checkName .context name with
    | error e => simp only [hname, reduceCtorEq] at he
    | ok u =>
      simp only [hname] at he
      obtain rfl := Except.ok.inj he
      exact .inl (BuildError.accepts_of_checkName hname)
  | anonymousFunction slot =>
    obtain rfl := Except.ok.inj he
    exact .inr ⟨rfl, rfl⟩
  | tick slot =>
    obtain rfl := Except.ok.inj he
    have htick : NameKind.context.Accepts tickContext := by decide +kernel
    exact .inl htick
  | scope _ | nest _ | when _ | whenScore _ _ | forEach _ =>
    obtain ⟨entered, hentered, hs⟩ := stands_of_enter he []
    obtain ⟨-, -, hsame⟩ := entries_entrance hentered
    exact hs.context.trans hsame

theorem Opening.knownName_enter {o : Opening} (he : o.enter w = .ok v)
    (hcurrent : KnownName w.draft.generated w.draft.place.context) :
    KnownName v.draft.generated v.draft.place.context := by
  have hgrown := (counts he).le
  have hcontext := context_of_enter he
  cases hslot : o.functionSlot? with
  | none =>
    simp only [hslot] at hcontext
    exact hcontext ▸ hcurrent.mono hgrown
  | some slot =>
    simp only [hslot] at hcontext
    rcases hcontext with haccepted | ⟨hname, hcount⟩
    · exact .inl haccepted
    · exact .inr ⟨w.draft.generated, by omega, hname⟩

/-- A function is not entered in a context with an older generated name. -/
theorem Opening.context_enter_ne {o : Opening} (he : o.enter w = .ok v) {slot : Option Slot}
    (hslot : o.functionSlot? = some slot) {k : Nat} (hk : k < w.draft.generated) :
    v.draft.place.context ≠ generatedName "fn" k := by
  have hcontext := context_of_enter he
  simp only [hslot] at hcontext
  rcases hcontext with haccepted | ⟨hname, -⟩
  · exact NameKind.Accepts.ne_generatedName (.inr haccepted) "fn" k
  · intro hsame
    have hnumber : w.draft.generated = k :=
      number_of_generatedName (by decide) (by decide) (hname.symm.trans hsame)
    omega

/-- A function without a name makes its name known by counting it. -/
theorem Opening.wellNamed_enter {o : Opening} (he : o.enter w = .ok v) (h : w.draft.WellNamed) :
    v.draft.WellNamed := by
  have hgrown := (counts he).le
  have hcurrent := knownName_enter he h.current
  obtain ⟨entered, hentered, hs⟩ := stands_of_enter he []
  have hcount : v.draft.generated = entered.memory.generated := congrArg Memory.generated hs.memory
  obtain ⟨-, hentries⟩ := entries_entrance hentered
  have hasked : ∀ c ∈ entered.entries.flatMap Entry.contexts,
      KnownName entered.memory.generated c := by
    intro c hc
    cases hslot : o.functionSlot? with
    | some slot =>
      simp only [hslot] at hentries
      rw [hentries] at hc
      rw [List.mem_singleton.mp hc, ← hs.context, ← hcount]
      exact hcurrent
    | none =>
      simp only [hslot] at hentries
      rw [hentries.1] at hc
      exact absurd hc List.not_mem_nil
  have hmoved := h.record (hcount ▸ hgrown) hasked
  rw [← hs.recorded] at hmoved
  exact ⟨hmoved.keys, hcurrent, hmoved.default, hmoved.consts⟩

theorem Opening.wellNamed_perform {o : Opening} {body : Script} (h : w.draft.WellNamed)
    (hbody : ∀ v : Workspace, v.draft.WellNamed → (body.run v).2.draft.WellNamed) :
    (o.perform body.run w).2.draft.WellNamed := by
  cases he : o.enter w with
  | error outcome =>
    simp only [perform, he]
    exact h
  | ok v =>
    have hgrown := o.generated_le_perform body w
    have hinner := hbody v (wellNamed_enter he h)
    rw [draft_perform he body] at hgrown ⊢
    exact ⟨hinner.keys, h.current.mono hgrown, hinner.default, hinner.consts⟩

/-- Without raw lines for named contexts, a run keeps its draft well named, also if it fails. -/
theorem Script.wellNamed_run {s : Script} (hraw : s.addressed = []) (h : w.draft.WellNamed) :
    (s.run w).2.draft.WellNamed := by
  induction s generalizing w with
  | done => exact h
  | act a caught rest ih =>
    obtain ⟨ha, hrest⟩ := List.append_eq_nil_iff.mp hraw
    have hstep := Action.wellNamed_perform ha h
    simp only [run]
    cases (a.perform w).1.stop? caught with
    | some e => exact hstep
    | none => exact ih hrest hstep
  | inside o caught body rest ihb ihr =>
    obtain ⟨hbody, hrest⟩ := List.append_eq_nil_iff.mp hraw
    have hstep : (o.perform body.run w).2.draft.WellNamed :=
      Opening.wellNamed_perform h fun v hv => ihb hbody hv
    simp only [run]
    cases (o.perform body.run w).1.stop? caught with
    | some e => exact hstep
    | none => exact ihr hrest hstep

end CommandPack
