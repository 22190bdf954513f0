import CommandPack.Proofs.Game.Play
import CommandPack.Proofs.Names

namespace CommandPack

open Game

/-- A variable whose name is one word. -/
def IsVariable (s : Settings) (v : Score) : Prop :=
  v.objective = s.varObjective ∧ ' ' ∉ v.holder.toList

/-- A change of a variable inside simple conditions on variables. -/
structure Written.IsScore (s : Settings) (w : Written) : Prop where
  lead : w.lead = leadOf s.constObjective w.guards
  guards : ∀ g ∈ w.guards, g.IsSimple ∧ ∀ t ∈ g.scores, IsVariable s t
  command : ∃ v c, w.command = .change v c ∧ IsVariable s v ∧
    ∀ other, c = .copy other → IsVariable s other

def Entry.IsScore (s : Settings) : Entry → Prop
  | .append context w => context = s.defaultContext ∧ w.IsScore s
  | .objective | .constant _ => True
  | .touch _ | .prepend _ _ => False

structure Site.IsScore (p : Site) : Prop where
  context : p.context = p.imprint.settings.defaultContext
  lead : p.lead = leadOf p.imprint.settings.constObjective p.guards
  guards : ∀ g ∈ p.guards, g.IsSimple ∧ ∀ t ∈ g.scores, IsVariable p.imprint.settings t

def Memory.IsScore (s : Settings) (m : Memory) : Prop :=
  ∀ slot v, m.handles.score? slot = some v → IsVariable s v

def Reading.IsScore {ρ : Type} (s : Settings) (r : Reading ρ) : Prop :=
  (∀ e ∈ r.entries, e.IsScore s) ∧ r.memory.IsScore s

variable {p : Site} {m : Memory} {s : Settings}

theorem Memory.IsScore.keepScore (hm : m.IsScore s) {v : Score} (hv : IsVariable s v)
    (slot : Option Slot) (generated : Nat) :
    Memory.IsScore s ⟨generated, m.handles.keepScore slot v⟩ := by
  intro slot' v' h
  rcases KeyedList.of_get?_insert h with h | rfl
  · exact hm slot' v' h
  · exact hv

/-- The parts of a resolved condition are resolved. -/
theorem Condition.exists_of_resolve {σ τ : Type} {f : σ → Option τ} {c : Condition σ}
    {d : Condition τ} (h : c.resolve f = some d) :
    ∃ l r, c.left.resolve f = some l ∧ c.right.resolve f = some r ∧ d = ⟨l, c.comparator, r⟩ := by
  simp only [Condition.resolve] at h
  cases hl : c.left.resolve f with
  | none => simp only [hl, reduceCtorEq] at h
  | some l =>
    cases hr : c.right.resolve f with
    | none => simp only [hl, hr, reduceCtorEq] at h
    | some r =>
      simp only [hl, hr, Option.some.injEq] at h
      exact ⟨l, r, rfl, rfl, h.symm⟩

/-- A simple condition stays simple when its scores are found. -/
theorem Condition.IsSimple.resolve {σ τ : Type} {f : σ → Option τ} {c : Condition σ}
    {d : Condition τ} (hc : c.IsSimple) (h : c.resolve f = some d) : d.IsSimple := by
  obtain ⟨l, r, hl, hr, rfl⟩ := Condition.exists_of_resolve h
  cases hc with
  | withLiteral slot c hc n =>
    obtain ⟨t, -, rfl⟩ := Option.map_eq_some_iff.mp hl
    obtain rfl : Operand.literal n = r := Option.some.inj hr
    exact .withLiteral t c hc n
  | within slot span =>
    obtain ⟨t, -, rfl⟩ := Option.map_eq_some_iff.mp hl
    obtain rfl : Operand.span span = r := Option.some.inj hr
    exact .within t span
  | between slot c hc other =>
    obtain ⟨t, -, rfl⟩ := Option.map_eq_some_iff.mp hl
    obtain ⟨t', -, rfl⟩ := Option.map_eq_some_iff.mp hr
    exact .between t c hc t'

theorem Site.IsScore.change (hp : p.IsScore) {v : Score} (hv : IsVariable p.imprint.settings v)
    {c : ScoreChange Score} (hc : ∀ other, c = .copy other → IsVariable p.imprint.settings other) :
    ∀ e ∈ p.change v c, e.IsScore p.imprint.settings := by
  intro e he
  rcases List.mem_append.mp he with he | he
  · obtain ⟨n, -, rfl⟩ := List.mem_map.mp he
    trivial
  · rw [List.mem_singleton.mp he]
    exact ⟨hp.context, hp.lead, hp.guards, v, c, rfl, hv, hc⟩

theorem Site.IsScore.guarded (hp : p.IsScore) {c : Condition Score} (hc : c.IsSimple)
    (hscores : ∀ t ∈ c.scores, IsVariable p.imprint.settings t) : (p.guarded c).IsScore := by
  refine ⟨hp.context, ?_, ?_⟩
  · simp only [Site.guarded, leadOf_concat, hp.lead]
  · intro g hg
    rcases List.mem_append.mp hg with hg | hg
    · exact hp.guards g hg
    · rw [List.mem_singleton.mp hg]
      exact ⟨hc, hscores⟩

/-- The actions of a score program make variables and change them. -/
theorem Action.isScore_read {a : Action} (ha : a.IsScore) (hp : p.IsScore)
    (hm : m.IsScore p.imprint.settings) : (a.read p m).IsScore p.imprint.settings := by
  have hnone {r : Reading Outcome} (hr : r.entries = []) (hmemory : r.memory = m) :
      r.IsScore p.imprint.settings := by
    refine ⟨?_, hmemory ▸ hm⟩
    rw [hr]
    exact fun e he => absurd he List.not_mem_nil
  cases a with
  | «variable» name slot =>
    simp only [read]
    cases hname : BuildError.checkName .holder name with
    | error e => exact hnone rfl rfl
    | ok u =>
      refine ⟨fun e he => List.mem_singleton.mp he ▸ trivial, hm.keepScore ⟨rfl, ?_⟩ slot _⟩
      exact (BuildError.accepts_of_checkName hname).space_notMem
  | freshVariable slot =>
    refine ⟨fun e he => List.mem_singleton.mp he ▸ trivial, hm.keepScore ⟨rfl, ?_⟩ slot _⟩
    exact notMem_generatedName (by decide) (by decide) (by decide) _
  | change target c =>
    simp only [read]
    cases hv : m.handles.score? target with
    | none => exact hnone rfl rfl
    | some v =>
      cases hc : c.resolve m.handles.score? with
      | none => exact hnone rfl rfl
      | some c' =>
        refine ⟨hp.change (hm target v hv) fun other hother => ?_, hm⟩
        subst hother
        obtain ⟨slot, hslot⟩ := ScoreChange.found_of_resolve hc
        exact hm slot other hslot
  | clamp target low high =>
    simp only [read]
    cases hv : m.handles.score? target with
    | none => exact hnone rfl rfl
    | some v =>
      refine ⟨fun e he => ?_, hm⟩
      rcases List.mem_append.mp he with he | he
      · exact hp.change (c := .atLeast low) (hm target v hv) (fun _ h => by cases h) e he
      · exact hp.change (c := .atMost high) (hm target v hv) (fun _ h => by cases h) e he
  | _ => exact absurd ha id

theorem Opening.isScore_condition {o : Opening} (ho : o.IsScore) (hm : m.IsScore s)
    {c : Condition Score} (hc : o.condition? m.handles = some c) :
    c.IsSimple ∧ ∀ t ∈ c.scores, IsVariable s t := by
  have hsimple : c.IsSimple := by
    cases o with
    | when d => exact Condition.IsSimple.resolve ho hc
    | whenScore slot d =>
      obtain ⟨self, -, hd⟩ := Option.bind_eq_some_iff.mp hc
      exact Condition.IsSimple.resolve ho hd
    | _ => exact absurd ho id
  refine ⟨hsimple, fun t ht => ?_⟩
  obtain ⟨slot, hslot⟩ := found_of_condition? hc t ht
  exact hm slot t hslot

theorem Reading.IsScore.andThen {step : Reading Outcome} (hstep : step.IsScore s) (caught : Bool)
    {rest : Memory → Reading (Except BuildError Unit)}
    (hrest : ∀ {m : Memory}, m.IsScore s → (rest m).IsScore s) :
    (step.andThen caught rest).IsScore s := by
  obtain ⟨hentries, hmemory⟩ := hstep
  unfold Reading.andThen
  cases step.result.stop? caught with
  | some e => exact ⟨hentries, hmemory⟩
  | none =>
    obtain ⟨hmore, hafter⟩ := hrest hmemory
    exact ⟨fun e he => (List.mem_append.mp he).elim (hentries e) (hmore e), hafter⟩

/-- What a score program asks for are variables, constants, and lines that change variables. -/
theorem Script.isScore_read {s : Script} (hs : s.IsScore) (hp : p.IsScore)
    (hm : m.IsScore p.imprint.settings) : (s.read p m).IsScore p.imprint.settings := by
  induction s generalizing p m with
  | done => exact ⟨fun e he => absurd he List.not_mem_nil, hm⟩
  | act a caught rest ih =>
    exact (Action.isScore_read hs.1 hp hm).andThen caught fun hm => ih hs.2 hp hm
  | inside o caught body rest ihb ihr =>
    obtain ⟨ho, hbody, hrest⟩ := hs
    refine Reading.IsScore.andThen ?_ caught fun hm => ihr hrest hp hm
    obtain ⟨hslot, hentrance⟩ := ho.entrance p m
    simp only [Opening.read, hentrance]
    cases hc : o.condition? m.handles with
    | none => exact ⟨fun e he => absurd he List.not_mem_nil, hm⟩
    | some c =>
      obtain ⟨hsimple, hscores⟩ := Opening.isScore_condition ho hm hc
      obtain ⟨hentries, hmemory⟩ := ihb hbody (hp.guarded hsimple hscores) hm
      have hboth : ∀ e ∈ c.literals.map Entry.constant ++ (body.read (p.guarded c) m).entries,
          e.IsScore p.imprint.settings := by
        intro e he
        rcases List.mem_append.mp he with he | he
        · obtain ⟨n, -, rfl⟩ := List.mem_map.mp he
          trivial
        · exact hentries e he
      simp only
      cases (body.read (p.guarded c) m).result with
      | error e => exact ⟨hboth, hmemory⟩
      | ok u =>
        simp only [Opening.remember, hslot]
        exact ⟨hboth, hmemory⟩

end CommandPack
