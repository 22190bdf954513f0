import CommandPack.Proofs.Journal

namespace CommandPack

def Operand.scores {σ : Type} : Operand σ → List σ
  | .score s => [s]
  | .literal _ | .span _ => []
  | .condition l _ r => l.scores ++ r.scores

def Condition.scores {σ : Type} (c : Condition σ) : List σ := c.operand.scores

namespace Command

def scores : Command → List Score
  | .change target (.copy other) => [target, other]
  | .change target _ => [target]
  | .setBar _ (.value s) => [s]
  | .setBar _ _ | .raw _ | .deed _ _ | .makeBar _ | .call _ | .summon .. => []

def constants : Command → List Int32
  | .change _ c => c.constants
  | .setBar _ _ | .raw _ | .deed _ _ | .makeBar _ | .call _ | .summon .. => []

end Command

namespace Written

def scores (w : Written) : List Score :=
  w.guards.flatMap Condition.scores ++ w.command.scores

def constants (w : Written) : List Int32 :=
  w.guards.flatMap Condition.literals ++ w.command.constants

end Written

/-! ## Entries that are backed by earlier ones -/

/-- What a written line refers to was asked for by the entries seen before. Lines in front are read
before all others, so they refer to nothing. -/
def Entry.Backed (seen : List Entry) : Entry → Prop
  | .append _ w =>
    (w.scores ≠ [] → .objective ∈ seen) ∧ ∀ n ∈ w.constants, .constant n ∈ seen
  | .prepend _ w => w.scores = [] ∧ w.constants = []
  | .touch _ | .objective | .constant _ => True

def Covered : List Entry → List Entry → Prop
  | _, [] => True
  | seen, e :: es => e.Backed seen ∧ Covered (seen ++ [e]) es

/-- The second part of a journal may refer to what the first part asked for. -/
theorem covered_append {seen es fs : List Entry} :
    Covered seen (es ++ fs) ↔ Covered seen es ∧ Covered (seen ++ es) fs := by
  induction es generalizing seen with
  | nil => simp [Covered]
  | cons e es ih => simp [Covered, ih, and_assoc]

theorem covered_singleton {seen : List Entry} {e : Entry} : Covered seen [e] ↔ e.Backed seen := by
  simp [Covered]

theorem covered_map_constant (seen : List Entry) (ns : List Int32) :
    Covered seen (ns.map .constant) := by
  induction ns generalizing seen with
  | nil => trivial
  | cons n ns ih => exact ⟨trivial, ih _⟩

/-! ## Places and memories -/

/-- What the conditions around a script refer to was asked for. -/
def Site.Backed (p : Site) (seen : List Entry) : Prop :=
  ∀ c ∈ p.guards,
    (c.scores ≠ [] → .objective ∈ seen) ∧ ∀ n ∈ c.literals, .constant n ∈ seen

/-- A score is kept only after the variables were asked for. -/
def Memory.Backed (m : Memory) (seen : List Entry) : Prop :=
  ∀ slot s, m.handles.score? slot = some s → .objective ∈ seen

def Reading.Backed {ρ : Type} (r : Reading ρ) (seen : List Entry) : Prop :=
  Covered seen r.entries ∧ r.memory.Backed (seen ++ r.entries)

variable {seen : List Entry} {p : Site} {m : Memory}

theorem Site.Backed.append (h : p.Backed seen) (es : List Entry) : p.Backed (seen ++ es) := by
  intro c hc
  obtain ⟨hscores, hliterals⟩ := h c hc
  exact ⟨fun hs => List.mem_append_left _ (hscores hs),
    fun n hn => List.mem_append_left _ (hliterals n hn)⟩

theorem Memory.Backed.append (h : m.Backed seen) (es : List Entry) : m.Backed (seen ++ es) :=
  fun slot s hs => List.mem_append_left _ (h slot s hs)

/-! ## Resolved scores -/

/-- The scores of a resolved operand were found. -/
theorem Operand.found_of_resolve {σ τ : Type} {f : σ → Option τ} {a : Operand σ} {b : Operand τ}
    (h : a.resolve f = some b) : ∀ t ∈ b.scores, ∃ s, f s = some t := by
  induction a generalizing b with
  | score s =>
    obtain ⟨t, ht, rfl⟩ := Option.map_eq_some_iff.mp h
    exact fun u hu => ⟨s, List.mem_singleton.mp hu ▸ ht⟩
  | literal n | span s =>
    cases h
    exact fun t ht => absurd ht List.not_mem_nil
  | condition l c r ihl ihr =>
    simp only [resolve] at h
    cases hl : l.resolve f with
    | none => simp only [hl, reduceCtorEq] at h
    | some l' =>
      cases hr : r.resolve f with
      | none => simp only [hl, hr, reduceCtorEq] at h
      | some r' =>
        simp only [hl, hr] at h
        cases h
        exact fun t ht => (List.mem_append.mp ht).elim (ihl hl t) (ihr hr t)

theorem Condition.found_of_resolve {σ τ : Type} {f : σ → Option τ} {c : Condition σ}
    {d : Condition τ} (h : c.resolve f = some d) : ∀ t ∈ d.scores, ∃ s, f s = some t := by
  refine Operand.found_of_resolve (a := c.operand) (b := d.operand) ?_
  rw [operand_resolve, h]
  rfl

theorem ScoreChange.found_of_resolve {σ τ : Type} {f : σ → Option τ} {c : ScoreChange σ} {t : τ}
    (h : c.resolve f = some (.copy t)) : ∃ s, f s = some t := by
  cases c with
  | copy s =>
    obtain ⟨t', ht, hsame⟩ := Option.map_eq_some_iff.mp h
    cases hsame
    exact ⟨s, ht⟩
  | set n | add n | multiply n | atLeast n | atMost n => cases h

theorem BossBar.Property.found_of_resolve {f : Slot → Option Score} {g : Slot → Option Selector}
    {q : BossBar.Property Slot Slot} {r : BossBar.Property Score Selector} {b : BossBar}
    (h : q.resolve f g = some r) : ∀ t ∈ (Command.setBar b r).scores, ∃ s, f s = some t := by
  cases q with
  | value s =>
    obtain ⟨t, ht, rfl⟩ := Option.map_eq_some_iff.mp h
    exact fun u hu => ⟨s, List.mem_singleton.mp hu ▸ ht⟩
  | players s =>
    obtain ⟨t, -, rfl⟩ := Option.map_eq_some_iff.mp h
    exact fun u hu => absurd hu List.not_mem_nil
  | max n | colour c =>
    cases h
    exact fun u hu => absurd hu List.not_mem_nil

/-- The condition of a step refers to scores that slots hold. -/
theorem Opening.found_of_condition? {o : Opening} {h : Handles} {c : Condition Score}
    (hc : o.condition? h = some c) : ∀ t ∈ c.scores, ∃ slot, h.score? slot = some t := by
  intro t ht
  cases o with
  | when d => exact Condition.found_of_resolve hc t ht
  | whenScore self d =>
    obtain ⟨score, hself, hresolve⟩ := Option.bind_eq_some_iff.mp hc
    obtain ⟨slot, hslot⟩ := Condition.found_of_resolve hresolve t ht
    unfold Handles.scoreOrSelf? at hslot
    split at hslot
    · exact ⟨self, Option.some.inj hslot ▸ hself⟩
    · exact ⟨slot, hslot⟩
  | scope _ | nest _ | forEach _ | function _ _ | anonymousFunction _ | tick _ => cases hc

/-! ## Actions -/

theorem Site.Backed.write (hp : p.Backed seen) {c : Command}
    (hscores : c.scores ≠ [] → .objective ∈ seen)
    (hconstants : ∀ n ∈ c.constants, .constant n ∈ seen) : (p.write c).Backed seen := by
  constructor
  · intro hw
    by_cases hg : p.guards.flatMap Condition.scores = []
    · refine hscores fun hc => hw ?_
      rw [Written.scores, Site.line, hg, hc]
      rfl
    · obtain ⟨s, hs⟩ := List.exists_mem_of_ne_nil _ hg
      obtain ⟨d, hd, hsd⟩ := List.mem_flatMap.mp hs
      exact (hp d hd).1 (List.ne_nil_of_mem hsd)
  · intro n hn
    rcases List.mem_append.mp hn with hn | hn
    · obtain ⟨d, hd, hnd⟩ := List.mem_flatMap.mp hn
      exact (hp d hd).2 n hnd
    · exact hconstants n hn

/-- A command that refers to nothing can be written anywhere. -/
theorem Site.Backed.write_plain (hp : p.Backed seen) {c : Command} (hv : c.scores = [])
    (hc : c.constants = []) : (p.write c).Backed seen :=
  hp.write (fun h => absurd hv h) (fun _ hn => absurd (hc ▸ hn) List.not_mem_nil)

theorem Site.Backed.change (hp : p.Backed seen) (hv : .objective ∈ seen) (s : Score)
    (c : ScoreChange Score) : Covered seen (p.change s c) := by
  refine covered_append.mpr ⟨covered_map_constant seen _, covered_singleton.mpr ?_⟩
  refine (hp.append _).write (fun _ => List.mem_append_left _ hv) fun n hn => ?_
  exact List.mem_append_right _ (List.mem_map_of_mem hn)

theorem Memory.Backed.withFound (hm : m.Backed seen) {α : Type} {found : Option α}
    {entries : α → List Entry} (h : ∀ a, found = some a → Covered seen (entries a)) :
    (m.withFound found entries).Backed seen := by
  cases found with
  | none => exact ⟨trivial, hm.append []⟩
  | some a => exact ⟨h a rfl, hm.append _⟩

theorem Memory.Backed.keepScore (hv : .objective ∈ seen) (slot : Option Slot) (s : Score) :
    (m.withHandles (m.handles.keepScore slot s)).Backed seen :=
  fun _ _ _ => hv

/-- An action asks for the variables before it keeps a score, and for its constants before its line.
-/
theorem Action.backed_read (a : Action) (hp : p.Backed seen) (hm : m.Backed seen) :
    (a.read p m).Backed seen := by
  have hwrite {c : Command} (hv : c.scores = []) (hc : c.constants = []) :
      Covered seen [p.write c] := covered_singleton.mpr (hp.write_plain hv hc)
  cases a with
  | emit line => exact ⟨hwrite rfl rfl, hm.append _⟩
  | emitTo context line =>
    exact ⟨covered_singleton.mpr (hp.write_plain (c := .raw line) rfl rfl), hm.append _⟩
  | declareFirst context line => exact ⟨covered_singleton.mpr ⟨rfl, rfl⟩, hm.append _⟩
  | declare context line =>
    exact ⟨covered_singleton.mpr ⟨fun h => absurd rfl h, fun n hn => absurd hn List.not_mem_nil⟩,
      hm.append _⟩
  | «variable» name slot =>
    simp only [read]
    cases BuildError.checkName .holder name with
    | error e => exact ⟨trivial, hm.append []⟩
    | ok u =>
      exact ⟨covered_singleton.mpr trivial,
        .keepScore (List.mem_append_right _ List.mem_cons_self) slot _⟩
  | freshVariable slot =>
    exact ⟨covered_singleton.mpr trivial, fun _ _ _ => List.mem_append_right _ List.mem_cons_self⟩
  | change target c =>
    refine hm.withFound ?_
    rintro ⟨s, c⟩ hfound
    obtain ⟨s', hs, -⟩ := Option.bind_eq_some_iff.mp hfound
    exact hp.change (hm target s' hs) s c
  | clamp target low high =>
    refine hm.withFound fun s hs => covered_append.mpr ⟨hp.change (hm target s hs) s _, ?_⟩
    exact (hp.append _).change (List.mem_append_left _ (hm target s hs)) s _
  | constant n => exact ⟨covered_singleton.mpr trivial, hm.append _⟩
  | selector slot s => exact ⟨trivial, hm.append []⟩
  | act slot deed => exact hm.withFound fun s _ => hwrite rfl rfl
  | bossBar id title slot =>
    simp only [read]
    cases BuildError.checkName .bossBar id with
    | error e => exact ⟨trivial, hm.append []⟩
    | ok u => exact ⟨hwrite rfl rfl, hm.append _⟩
  | setBar slot property =>
    refine hm.withFound ?_
    rintro ⟨b, q⟩ hfound
    refine covered_singleton.mpr (hp.write ?_ ?_)
    · intro hq
      obtain ⟨b', -, hresolve⟩ := Option.bind_eq_some_iff.mp hfound
      obtain ⟨q', hq', heq⟩ := Option.bind_eq_some_iff.mp hresolve
      cases heq
      obtain ⟨t, ht⟩ := List.exists_mem_of_ne_nil _ hq
      obtain ⟨s, hs⟩ := BossBar.Property.found_of_resolve hq' t ht
      exact hm s t hs
    · exact fun n hn => absurd hn List.not_mem_nil
  | call slot => exact hm.withFound fun f _ => hwrite rfl rfl
  | summon entity x y z =>
    simp only [read]
    cases entity.tag with
    | error reason => exact ⟨trivial, hm.append []⟩
    | ok tag => exact ⟨hwrite rfl rfl, hm.append _⟩

/-! ## Steps with a script inside -/

/-- A condition asks for its literals before the script inside is read. -/
theorem Site.Backed.guarded (hp : p.Backed seen) {c : Condition Score}
    (hc : c.scores ≠ [] → .objective ∈ seen) :
    (p.guarded c).Backed (seen ++ c.literals.map .constant) := by
  intro d hd
  rcases List.mem_append.mp hd with hd | hd
  · exact hp.append _ d hd
  · obtain rfl := List.mem_singleton.mp hd
    exact ⟨fun h => List.mem_append_left _ (hc h),
      fun n hn => List.mem_append_right _ (List.mem_map_of_mem hn)⟩

theorem Opening.backed_condition {o : Opening} (hm : m.Backed seen) {c : Condition Score}
    (h : o.condition? m.handles = some c) (hc : c.scores ≠ []) : .objective ∈ seen := by
  obtain ⟨t, ht⟩ := List.exists_mem_of_ne_nil _ hc
  obtain ⟨slot, hslot⟩ := found_of_condition? h t ht
  exact hm slot t hslot

/-- The script inside a step stands at a backed place again. -/
theorem Opening.backed_entrance {o : Opening} (hp : p.Backed seen) (hm : m.Backed seen)
    {entered : Reading Site} (h : o.entrance p m = .ok entered) :
    entered.Backed seen ∧ entered.result.Backed (seen ++ entered.entries) := by
  cases entered_of_entrance h with
  | inScope lead _ _ => exact ⟨⟨trivial, hm.append []⟩, hp.append []⟩
  | guarded c hc _ =>
    exact ⟨⟨covered_map_constant seen _, hm.append _⟩, hp.guarded (backed_condition hm hc)⟩
  | function name generated slot _ _ =>
    exact ⟨⟨covered_singleton.mpr trivial, hm.append _⟩, fun c hc => absurd hc List.not_mem_nil⟩

theorem Opening.backed_remember {o : Opening} {inner : Site} (hm : m.Backed seen) :
    (o.remember inner m).Backed seen := by
  unfold remember
  cases o.functionSlot? with
  | none => exact hm
  | some slot => exact hm

/-! ## Scripts -/

def Backs {ρ : Type} (read : Site → Memory → Reading ρ) : Prop :=
  ∀ {p : Site} {m : Memory} {seen : List Entry}, p.Backed seen → m.Backed seen →
    (read p m).Backed seen

theorem Opening.backed_read (o : Opening) {inside : Site → Memory → Reading (Except BuildError Unit)}
    (hinside : Backs inside) : Backs (o.read inside) := by
  intro p m seen hp hm
  unfold read
  cases he : o.entrance p m with
  | error outcome => exact ⟨trivial, hm.append []⟩
  | ok entered =>
    obtain ⟨⟨hentered, hmemory⟩, hsite⟩ := backed_entrance hp hm he
    obtain ⟨hbody, hafter⟩ := hinside hsite hmemory
    have hentries := covered_append.mpr ⟨hentered, hbody⟩
    rw [List.append_assoc] at hafter
    simp only
    cases (inside entered.result entered.memory).result with
    | error e => exact ⟨hentries, hafter⟩
    | ok u => exact ⟨hentries, backed_remember hafter⟩

/-- What a step asked for stays asked for behind it. -/
theorem Reading.Backed.andThen {step : Reading Outcome} (hstep : step.Backed seen) (caught : Bool)
    {rest : Memory → Reading (Except BuildError Unit)}
    (hrest : ∀ {m : Memory}, m.Backed (seen ++ step.entries) →
      (rest m).Backed (seen ++ step.entries)) :
    (step.andThen caught rest).Backed seen := by
  obtain ⟨hentries, hmemory⟩ := hstep
  unfold Reading.andThen
  cases step.result.stop? caught with
  | some e => exact ⟨hentries, hmemory⟩
  | none =>
    obtain ⟨hmore, hafter⟩ := hrest hmemory
    rw [List.append_assoc] at hafter
    exact ⟨covered_append.mpr ⟨hentries, hmore⟩, hafter⟩

/-- Wherever a script stands, what its lines refer to was asked for by earlier entries. -/
theorem Script.backed_read (s : Script) : Backs s.read := by
  induction s with
  | done => exact fun _ hm => ⟨trivial, hm.append []⟩
  | act a caught rest ih =>
    intro p m seen hp hm
    exact (a.backed_read hp hm).andThen caught fun hm => ih (hp.append _) hm
  | inside o caught body rest ihb ihr =>
    intro p m seen hp hm
    exact (o.backed_read ihb hp hm).andThen caught fun hm => ihr (hp.append _) hm

end CommandPack
