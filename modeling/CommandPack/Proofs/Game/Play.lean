import CommandPack.Proofs.Game.Words
import CommandPack.Proofs.Journal

namespace CommandPack

open Game (Scoreboard)

/-! ## Score programs -/

def Action.IsScore : Action → Prop
  | .variable _ _ | .freshVariable _ | .change _ _ | .clamp _ _ _ => True
  | _ => False

def Opening.IsScore : Opening → Prop
  | .when c | .whenScore _ c => c.IsSimple
  | _ => False

/-- Scripts that only make variables, change them and open conditions. -/
def Script.IsScore : Script → Prop
  | .done => True
  | .act a _ rest => a.IsScore ∧ rest.IsScore
  | .inside o _ body rest => o.IsScore ∧ body.IsScore ∧ rest.IsScore

/-- How the conditions around a change are tested. -/
structure Testing (γ : Type) where
  /-- What is known inside a condition that is entered with these scores. -/
  enter : γ → Condition Score → Scoreboard → γ
  /-- Whether a change is made. -/
  passes : γ → Scoreboard → Bool

namespace Testing

def eachTime : Testing (List (Condition Score)) where
  enter guards c _ := guards ++ [c]
  passes guards b := guards.all (·.holds b)

def once : Testing Bool where
  enter live c b := live && c.holds b
  passes live _ := live

variable {γ : Type}

def change (t : Testing γ) (g : γ) (s : Score) (c : ScoreChange Score) (b : Scoreboard) :
    Scoreboard :=
  if t.passes g b then b.set s (c.result b (b s)) else b

end Testing

structure Played (ρ : Type) where
  result : ρ
  memory : Memory
  board : Scoreboard

variable {γ : Type}

def Action.play (a : Action) (t : Testing γ) (s : Settings) (g : γ) (m : Memory) (b : Scoreboard) :
    Played Outcome :=
  match a with
  | .variable name slot =>
    match BuildError.checkName .holder name with
    | .error e => ⟨.failed e, m, b⟩
    | .ok () =>
      let v : Score := ⟨name, s.varObjective⟩
      ⟨.finished (some (.score v)), m.withHandles (m.handles.keepScore slot v), b⟩
  | .freshVariable slot =>
    let v : Score := ⟨generatedName "v" m.generated, s.varObjective⟩
    ⟨.finished (some (.score v)), ⟨m.generated + 1, m.handles.keepScore slot v⟩, b⟩
  | .change target c =>
    match m.handles.score? target, c.resolve m.handles.score? with
    | some v, some c => ⟨.finished none, m, t.change g v c b⟩
    | _, _ => ⟨.unknownSlot, m, b⟩
  | .clamp target low high =>
    match m.handles.score? target with
    | some v => ⟨.finished none, m, t.change g v (.atMost high) (t.change g v (.atLeast low) b)⟩
    | none => ⟨.unknownSlot, m, b⟩
  | _ => ⟨.unknownSlot, m, b⟩

/-- Evaluates a script inside `g`. A condition on an empty slot is not entered. -/
def Script.play (t : Testing γ) (s : Settings) : Script → γ → Memory → Scoreboard →
    Played (Except BuildError Unit)
  | .done, _, m, b => ⟨.ok (), m, b⟩
  | .act a caught rest, g, m, b =>
    let step := a.play t s g m b
    match step.result.stop? caught with
    | some e => ⟨.error e, step.memory, step.board⟩
    | none => rest.play t s g step.memory step.board
  | .inside o caught body rest, g, m, b =>
    match o.condition? m.handles with
    | none => rest.play t s g m b
    | some c =>
      let inner := body.play t s (t.enter g c b) m b
      match inner.result, caught with
      | .error e, false => ⟨.error e, inner.memory, inner.board⟩
      | _, _ => rest.play t s g inner.memory inner.board

/-! ## The journal of a score program -/

def Written.play (w : Written) (b : Scoreboard) : Scoreboard :=
  match w.command with
  | .change s c => Testing.eachTime.change w.guards s c b
  | _ => b

def Entry.play (b : Scoreboard) : Entry → Scoreboard
  | .append _ w => w.play b
  | .touch _ | .prepend _ _ | .objective | .constant _ => b

theorem foldl_play_constants (ns : List Int32) (b : Scoreboard) :
    (ns.map Entry.constant).foldl Entry.play b = b := by
  induction ns with
  | nil => rfl
  | cons n ns ih => exact ih

theorem foldl_play_change (p : Site) (s : Score) (c : ScoreChange Score) (b : Scoreboard) :
    (p.change s c).foldl Entry.play b = Testing.eachTime.change p.guards s c b := by
  rw [Site.change, List.foldl_append, foldl_play_constants]
  rfl

variable {p : Site} {m : Memory}

/-- An action evaluated directly does what its entries do. -/
theorem Action.play_eachTime {a : Action} (ha : a.IsScore) (p : Site) (m : Memory)
    (b : Scoreboard) :
    a.play .eachTime p.imprint.settings p.guards m b =
      ⟨(a.read p m).result, (a.read p m).memory, (a.read p m).entries.foldl Entry.play b⟩ := by
  cases a with
  | «variable» name slot =>
    simp only [play, read]
    cases BuildError.checkName .holder name <;> rfl
  | freshVariable slot => rfl
  | change target c =>
    simp only [play, read]
    cases m.handles.score? target with
    | none => rfl
    | some v =>
      cases c.resolve m.handles.score? with
      | none => rfl
      | some c => exact congrArg (Played.mk _ _) (foldl_play_change p v c b).symm
  | clamp target low high =>
    simp only [play, read]
    cases m.handles.score? target with
    | none => rfl
    | some v =>
      refine congrArg (Played.mk _ _) ?_
      change _ = (p.change v (.atLeast low) ++ p.change v (.atMost high)).foldl Entry.play b
      rw [List.foldl_append, foldl_play_change, foldl_play_change]
  | _ => exact absurd ha id

/-- A score program opens nothing but conditions. -/
theorem Opening.IsScore.entrance {o : Opening} (ho : o.IsScore) (p : Site) (m : Memory) :
    o.functionSlot? = none ∧
    o.entrance p m =
      match o.condition? m.handles with
      | none => .error .unknownSlot
      | some c => .ok ⟨p.guarded c, c.literals.map .constant, m⟩ := by
  cases o with
  | when c => exact ⟨rfl, rfl⟩
  | whenScore slot c => exact ⟨rfl, rfl⟩
  | _ => exact absurd ho id

/-- How a condition of a score program is read. -/
theorem Script.read_inside {o : Opening} (ho : o.IsScore) {c : Condition Score}
    (hc : o.condition? m.handles = some c) (caught : Bool) (body rest : Script) :
    (Script.inside o caught body rest).read p m =
      let inner := body.read (p.guarded c) m
      let behind := rest.read p inner.memory
      match inner.result, caught with
      | .error e, false => ⟨.error e, c.literals.map .constant ++ inner.entries, inner.memory⟩
      | _, _ =>
        ⟨behind.result, c.literals.map .constant ++ inner.entries ++ behind.entries,
          behind.memory⟩ := by
  obtain ⟨hslot, hentrance⟩ := ho.entrance p m
  simp only [read, Reading.andThen, Opening.read, hentrance, hc]
  cases (body.read (p.guarded c) m).result with
  | error e => cases caught <;> rfl
  | ok u => simp only [Outcome.stop?, Opening.remember, hslot]

theorem Script.read_notInside {o : Opening} (ho : o.IsScore) (hc : o.condition? m.handles = none)
    (caught : Bool) (body rest : Script) :
    (Script.inside o caught body rest).read p m = rest.read p m := by
  simp only [read, Reading.andThen, Opening.read, (ho.entrance p m).2, hc]
  rfl

/-- Evaluating a score program directly, every change testing the conditions around it, is going
through its journal. -/
theorem Script.play_eachTime {s : Script} (hs : s.IsScore) (p : Site) (m : Memory)
    (b : Scoreboard) :
    s.play .eachTime p.imprint.settings p.guards m b =
      ⟨(s.read p m).result, (s.read p m).memory, (s.read p m).entries.foldl Entry.play b⟩ := by
  induction s generalizing p m b with
  | done => rfl
  | act a caught rest ih =>
    obtain ⟨ha, hrest⟩ := hs
    simp only [play, read, Reading.andThen, Action.play_eachTime ha]
    cases (a.read p m).result.stop? caught with
    | some e => rfl
    | none => simp only [ih hrest p, List.foldl_append]
  | inside o caught body rest ihb ihr =>
    obtain ⟨ho, hbody, hrest⟩ := hs
    simp only [play]
    cases hc : o.condition? m.handles with
    | none =>
      rw [Script.read_notInside ho hc]
      exact ihr hrest p m b
    | some c =>
      have hinner : body.play .eachTime p.imprint.settings (p.guards ++ [c]) m b = _ :=
        ihb hbody (p.guarded c) m b
      simp only [show Testing.eachTime.enter p.guards c b = p.guards ++ [c] from rfl, hinner,
        Script.read_inside ho hc]
      split
      · rw [List.foldl_append, foldl_play_constants]
      · rw [ihr hrest p, List.foldl_append, List.foldl_append, foldl_play_constants]

/-! ## Testing once -/

theorem Condition.holds_congr {c : Condition Score} {b b' : Scoreboard}
    (h : ∀ s ∈ c.scores, b' s = b s) : c.holds b' = c.holds b := by
  obtain ⟨left, comparator, right⟩ := c
  cases left with
  | score s =>
    have hs : b' s = b s := h s List.mem_cons_self
    cases right with
    | score other =>
      have hother : b' other = b other := h other (List.mem_cons_of_mem _ List.mem_cons_self)
      simp only [holds, hs, hother]
    | literal n | span n => simp only [holds, hs]
    | condition l k r => rfl
  | literal n | span n | condition l k r => rfl

/-- The line changes no score that a condition around it reads. -/
def Written.IsSteady (w : Written) : Prop :=
  match w.command with
  | .change s _ => ∀ g ∈ w.guards, s ∉ g.scores
  | _ => True

def Entry.IsSteady : Entry → Prop
  | .append _ w => w.IsSteady
  | .touch _ | .prepend _ _ | .objective | .constant _ => True

instance (e : Entry) : Decidable e.IsSteady :=
  match e with
  | .append _ ⟨_, guards, .change s _⟩ => inferInstanceAs (Decidable (∀ g ∈ guards, s ∉ g.scores))
  | .append _ ⟨_, _, .raw _⟩ | .append _ ⟨_, _, .deed _ _⟩ | .append _ ⟨_, _, .makeBar _⟩
  | .append _ ⟨_, _, .setBar _ _⟩ | .append _ ⟨_, _, .call _⟩ | .append _ ⟨_, _, .summon ..⟩
  | .touch _ | .prepend _ _ | .objective | .constant _ => .isTrue trivial

def Steady (es : List Entry) : Prop := ∀ e ∈ es, e.IsSteady

instance (es : List Entry) : Decidable (Steady es) :=
  inferInstanceAs (Decidable (∀ e ∈ es, e.IsSteady))

theorem steady_append {es fs : List Entry} : Steady (es ++ fs) ↔ Steady es ∧ Steady fs :=
  List.forall_mem_append

theorem Steady.target {s : Score} {c : ScoreChange Score} (h : Steady (p.change s c)) :
    ∀ g ∈ p.guards, s ∉ g.scores :=
  h _ (List.mem_append_right _ List.mem_cons_self)

namespace Testing

/-- A change of a score that no condition reads leaves all conditions as they were. -/
theorem holds_change {guards : List (Condition Score)} {s : Score}
    (h : ∀ g ∈ guards, s ∉ g.scores) (c : ScoreChange Score) (b : Scoreboard) :
    ∀ g ∈ guards, g.holds (eachTime.change guards s c b) = g.holds b := by
  intro g hg
  refine Condition.holds_congr fun t ht => ?_
  have hne : t ≠ s := fun hts => h g hg (hts ▸ ht)
  unfold change
  split
  · exact if_neg hne
  · rfl

theorem all_holds {guards : List (Condition Score)} {b b' : Scoreboard}
    (h : ∀ g ∈ guards, g.holds b' = g.holds b) :
    guards.all (·.holds b') = guards.all (·.holds b) := by
  rw [Bool.eq_iff_iff, List.all_eq_true, List.all_eq_true]
  exact ⟨fun hall g hg => h g hg ▸ hall g hg, fun hall g hg => (h g hg).trans (hall g hg)⟩

end Testing

/-- A step that keeps the conditions around it is evaluated the same way by both ways of testing. -/
theorem Action.play_once {a : Action} (ha : a.IsScore) (b : Scoreboard)
    (hsteady : Steady (a.read p m).entries) :
    a.play .once p.imprint.settings (p.guards.all (·.holds b)) m b =
        a.play .eachTime p.imprint.settings p.guards m b ∧
      ∀ g ∈ p.guards,
        g.holds (a.play .eachTime p.imprint.settings p.guards m b).board = g.holds b := by
  cases a with
  | «variable» name slot =>
    simp only [play]
    cases BuildError.checkName .holder name <;> exact ⟨trivial, fun _ _ => rfl⟩
  | freshVariable slot => exact ⟨rfl, fun _ _ => rfl⟩
  | change target c =>
    simp only [play, read] at hsteady ⊢
    cases hv : m.handles.score? target with
    | none => exact ⟨rfl, fun _ _ => rfl⟩
    | some v =>
      cases hc : c.resolve m.handles.score? with
      | none => exact ⟨rfl, fun _ _ => rfl⟩
      | some c =>
        simp only [hv, hc] at hsteady
        exact ⟨rfl, Testing.holds_change (Steady.target hsteady) c b⟩
  | clamp target low high =>
    simp only [play, read] at hsteady ⊢
    cases hv : m.handles.score? target with
    | none => exact ⟨rfl, fun _ _ => rfl⟩
    | some v =>
      simp only [hv] at hsteady
      obtain ⟨hlow, -⟩ := steady_append.mp hsteady
      have hfirst := Testing.holds_change hlow.target (.atLeast low) b
      have hsecond := Testing.holds_change hlow.target (.atMost high)
        (Testing.eachTime.change p.guards v (.atLeast low) b)
      refine ⟨congrArg (Played.mk _ _) ?_, fun g hg => (hsecond g hg).trans (hfirst g hg)⟩
      -- The second change finds the conditions as the first one did.
      change Testing.once.change _ v (.atMost high) (Testing.eachTime.change p.guards v _ b) = _
      rw [← Testing.all_holds hfirst]
      rfl
  | _ => exact absurd ha id

/-- Testing a condition once makes no difference for a score program that changes no score inside a
condition that reads it. -/
theorem Script.play_once {s : Script} (hs : s.IsScore) (b : Scoreboard)
    (hsteady : Steady (s.read p m).entries) :
    s.play .once p.imprint.settings (p.guards.all (·.holds b)) m b =
        s.play .eachTime p.imprint.settings p.guards m b ∧
      ∀ g ∈ p.guards,
        g.holds (s.play .eachTime p.imprint.settings p.guards m b).board = g.holds b := by
  induction s generalizing p m b with
  | done => exact ⟨rfl, fun _ _ => rfl⟩
  | act a caught rest ih =>
    obtain ⟨ha, hrest⟩ := hs
    simp only [read, Reading.andThen] at hsteady
    have hresult : (a.play .eachTime p.imprint.settings p.guards m b).result = (a.read p m).result ∧
        (a.play .eachTime p.imprint.settings p.guards m b).memory = (a.read p m).memory := by
      rw [Action.play_eachTime ha]
      exact ⟨rfl, rfl⟩
    simp only [play, hresult]
    cases hstop : (a.read p m).result.stop? caught with
    | some e =>
      simp only [hstop] at hsteady
      obtain ⟨hsame, hkeep⟩ := Action.play_once ha b hsteady
      simp only [hsame, hresult, hstop]
      exact ⟨trivial, hkeep⟩
    | none =>
      simp only [hstop] at hsteady
      obtain ⟨hstep, hrests⟩ := steady_append.mp hsteady
      obtain ⟨hsame, hkeep⟩ := Action.play_once ha b hstep
      obtain ⟨hsame', hkeep'⟩ :=
        ih hrest (a.play .eachTime p.imprint.settings p.guards m b).board hrests
      rw [Testing.all_holds hkeep] at hsame'
      simp only [hsame, hresult, hstop]
      exact ⟨hsame', fun g hg => (hkeep' g hg).trans (hkeep g hg)⟩
  | inside o caught body rest ihb ihr =>
    obtain ⟨ho, hbody, hrest⟩ := hs
    simp only [play]
    cases hc : o.condition? m.handles with
    | none =>
      rw [Script.read_notInside ho hc] at hsteady
      exact ihr hrest b hsteady
    | some c =>
      rw [Script.read_inside ho hc] at hsteady
      have hbodySteady : Steady (body.read (p.guarded c) m).entries := by
        simp only at hsteady
        split at hsteady
        · exact (steady_append.mp hsteady).2
        · exact (steady_append.mp (steady_append.mp hsteady).1).2
      have henter : Testing.once.enter (p.guards.all (·.holds b)) c b =
          (p.guarded c).guards.all (·.holds b) := by
        simp [Testing.once, Site.guarded]
      obtain ⟨hsame, hkeep⟩ := ihb (p := p.guarded c) hbody b hbodySteady
      have hinner : body.play .eachTime p.imprint.settings (Testing.eachTime.enter p.guards c b) m b =
          _ := Script.play_eachTime hbody (p.guarded c) m b
      rw [← henter, Script.play_eachTime hbody] at hsame
      rw [Script.play_eachTime hbody] at hkeep
      have himprint : (p.guarded c).imprint = p.imprint := rfl
      rw [himprint] at hsame
      -- The conditions around are kept together with `c`, so what is behind starts as before.
      have hkeep (g : Condition Score) (hg : g ∈ p.guards) := hkeep g (List.mem_append_left _ hg)
      simp only [hsame, hinner]
      split
      · exact ⟨rfl, hkeep⟩
      · have hbehind : Steady (rest.read p (body.read (p.guarded c) m).memory).entries := by
          simp only at hsteady
          exact (steady_append.mp hsteady).2
        obtain ⟨hsame', hkeep'⟩ := ihr hrest _ hbehind
        rw [Testing.all_holds hkeep] at hsame'
        exact ⟨hsame', fun g hg => (hkeep' g hg).trans (hkeep g hg)⟩

/-- A change of the score that the condition around it reads decides about what is behind it. -/
example :
    let s : Script :=
      .act (.variable "x" none) false <|
      .inside (.when (.withLiteral "x" .equal 1)) false
        (.act (.change "x" (.add 1)) false <| .act (.change "x" (.add 1)) false .done) .done
    (s.play .eachTime {} [] {} fun _ => 1).board ⟨"x", "var"⟩ = 2 ∧
      (s.play .once {} true {} fun _ => 1).board ⟨"x", "var"⟩ = 3 := by
  decide +kernel

end CommandPack
