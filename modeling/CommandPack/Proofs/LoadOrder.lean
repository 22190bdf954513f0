import CommandPack.Pack
import CommandPack.Proofs.Lines
import CommandPack.Proofs.Refinement

namespace CommandPack

/-! ## One kind of element in front of another -/

section Before

variable {α : Type} {p q : α → Prop} {l m : List α}

/-- In front of everything that satisfies `q` stands something that satisfies `p`. -/
def Before (p q : α → Prop) (l : List α) : Prop :=
  ∀ front x back, l = front ++ x :: back → q x → ∃ y ∈ front, p y

theorem Before.of_forall_not (h : ∀ x ∈ l, ¬ q x) : Before p q l := by
  rintro front x back rfl hx
  exact absurd hx (h x (List.mem_append_right _ List.mem_cons_self))

theorem Before.mono {p' : α → Prop} (h : Before p q l) (hp : ∀ y, p y → p' y) :
    Before p' q l := by
  intro front x back hl hx
  obtain ⟨y, hy, hpy⟩ := h front x back hl hx
  exact ⟨y, hy, hp y hpy⟩

/-- What stands before a later part may stand in an earlier one. -/
theorem before_append :
    Before p q (l ++ m) ↔ Before p q l ∧ ((∃ y ∈ l, p y) ∨ Before p q m) := by
  constructor
  · intro h
    constructor
    · rintro front x back rfl hx
      exact h front x (back ++ m) (by simp) hx
    · by_cases hl : ∃ y ∈ l, p y
      · exact .inl hl
      · right
        rintro front x back rfl hx
        obtain ⟨y, hy, hpy⟩ := h (l ++ front) x back (by simp) hx
        rcases List.mem_append.mp hy with hy | hy
        · exact absurd ⟨y, hy, hpy⟩ hl
        · exact ⟨y, hy, hpy⟩
  · rintro ⟨hl, hm⟩ front x back hsplit hx
    rcases List.append_eq_append_iff.mp hsplit with ⟨rest, rfl, hrest⟩ | ⟨rest, hfront, hrest⟩
    · rcases hm with ⟨y, hy, hpy⟩ | hm
      · exact ⟨y, List.mem_append_left _ hy, hpy⟩
      · obtain ⟨y, hy, hpy⟩ := hm rest x back hrest hx
        exact ⟨y, List.mem_append_right _ hy, hpy⟩
    · cases rest with
      | nil =>
        rw [List.append_nil] at hfront
        rcases hm with hm | hm
        · exact hfront ▸ hm
        · obtain ⟨y, hy, -⟩ := hm [] x back hrest.symm hx
          exact absurd hy List.not_mem_nil
      | cons z rest =>
        obtain ⟨rfl, -⟩ := List.cons.inj hrest
        exact hl front x rest hfront hx

end Before

/-! ## Within one context -/

variable {s : Settings} {es : List Entry} {e : Entry} {context : String}

/-- Lines that are put above others refer to nothing. -/
theorem Entry.refers_above (he : e.Backed es) {r : Register} {l : Line}
    (hl : l ∈ e.above s r context) : l.scores = [] ∧ l.constants = [] := by
  rcases Entry.mem_above hl with ⟨w, rfl, rfl⟩ | ⟨-, -, rfl⟩ | ⟨n, -, -, rfl | rfl⟩
  · exact he
  all_goals exact ⟨rfl, rfl⟩

/-- If the declaration that a line needs stands in its context whenever the line may be written,
it stands before the line: such lines go below all others. -/
theorem before_linesOf {p q : Line → Prop} (hes : Covered [] es)
    (hq : ∀ l, q l → l.scores ≠ [] ∨ l.constants ≠ [])
    (hp : ∀ fs w, q (.written w) → (Entry.append context w).Backed fs →
      ∃ y ∈ linesOf s fs context, p y) :
    Before p q (linesOf s es context) := by
  induction es using List.reverseRecOn with
  | nil => exact .of_forall_not fun x hx => absurd hx List.not_mem_nil
  | append_singleton es e ih =>
    obtain ⟨hes, he⟩ := covered_append.mp hes
    rw [List.nil_append, covered_singleton] at he
    rw [linesOf_concat, before_append, before_append]
    -- Only lines from below can need something, and what they need is above them already.
    have habove : ∀ l ∈ e.above s (registerAfter {} es) context, ¬ q l := by
      intro l hl hql
      obtain ⟨hscores, hconstants⟩ := Entry.refers_above he hl
      exact (hq l hql).elim (absurd hscores) (absurd hconstants)
    refine ⟨⟨.of_forall_not habove, .inr (ih hes)⟩, ?_⟩
    by_cases hbelow : ∃ l ∈ e.below s (registerAfter {} es) context, q l
    · left
      obtain ⟨l, hl, hql⟩ := hbelow
      rcases Entry.mem_below hl with ⟨w, rfl, rfl⟩ | ⟨n, -, -, rfl⟩
      · obtain ⟨y, hy, hpy⟩ := hp es w hql he
        exact ⟨y, List.mem_append_right _ hy, hpy⟩
      · exact (hq _ hql).elim (absurd rfl) (absurd rfl)
    · exact .inr (.of_forall_not fun x hx hqx => hbelow ⟨x, hx, hqx⟩)

theorem before_scores (hes : Covered [] es) :
    Before (· = .variableObjective) (·.scores ≠ []) (linesOf s es s.defaultContext) := by
  refine before_linesOf hes (fun l hl => .inl hl) fun fs w hw hback => ?_
  exact ⟨_, variableObjective_mem (hback.1 hw), rfl⟩

theorem before_constant (hes : Covered [] es) (n : Int32) :
    Before (· = .constant n) (n ∈ ·.constants) (linesOf s es s.constsContext) := by
  refine before_linesOf hes (fun l hl => .inr (List.ne_nil_of_mem hl)) fun fs w hw hback => ?_
  exact ⟨_, constant_mem (hback.2 n hw), rfl⟩

/-! ## The block of the constants -/

def ConstantFirst (es : List Entry) : Prop :=
  Before (fun e => ∃ n, e = .constant n) (· = .objective) es

/-- Some constant is used, and a variable is made before the first of them. -/
def VariableFirst (es : List Entry) : Prop := (∃ n, .constant n ∈ es) ∧ ¬ ConstantFirst es

/-- The declaration of the objective of the constants and the call of their context split the lines
of the default context into these parts. -/
structure Opened (s : Settings) (es : List Entry) (front back : List Line) : Prop where
  lines : linesOf s es s.defaultContext = front ++ .constantObjective :: .constantsCall :: back
  refers : ∀ l ∈ front, l.scores = [] ∧ l.constants = []
  once : .constantsCall ∉ front ++ back
  objective : .variableObjective ∈ front ↔ .objective ∈ es ∧ ConstantFirst es

/-- The first use of a constant opens the block in front of everything. -/
theorem opened_first (hes : Covered [] es) (hne : s.constsContext ≠ s.defaultContext)
    (hnone : ¬ ∃ n, .constant n ∈ es) (n : Int32) :
    Opened s (es ++ [.constant n]) [] (linesOf s es s.defaultContext) := by
  have hclaimed : (registerAfter {} es).constants.objective.claimed = false := by
    rw [← Bool.not_eq_true, constants_claimed_iff]
    exact hnone
  refine ⟨?_, fun l hl => absurd hl List.not_mem_nil, ?_, ?_⟩
  · rw [linesOf_concat, Entry.above, Entry.below, if_pos ⟨rfl, hclaimed⟩, if_neg fun h => hne h.1]
    exact List.append_nil _
  · intro hcall
    exact hnone (placed_of_mem hes hcall).2
  · refine ⟨fun h => absurd h List.not_mem_nil, ?_⟩
    rintro ⟨hobjective, hbefore⟩
    rcases List.mem_append.mp hobjective with hm | hm
    · obtain ⟨front, back, rfl⟩ := List.append_of_mem hm
      obtain ⟨y, hy, m, rfl⟩ := (before_append.mp hbefore).1 front _ back rfl rfl
      exact absurd ⟨m, List.mem_append_left _ hy⟩ hnone
    · simp at hm

/-- Once a constant is used, what was asked for first does not change any more. -/
theorem constantFirst_concat (hused : ∃ n, .constant n ∈ es) :
    ConstantFirst (es ++ [e]) ↔ ConstantFirst es := by
  obtain ⟨n, hn⟩ := hused
  rw [ConstantFirst, before_append]
  exact ⟨And.left, fun h => ⟨h, .inl ⟨_, hn, n, rfl⟩⟩⟩

/-- Later entries put declarations above the block and everything else below it. -/
theorem Opened.concat {front back : List Line} (h : Opened s es front back)
    (hused : ∃ n, .constant n ∈ es) (he : e.Backed es) :
    Opened s (es ++ [e]) (e.above s (registerAfter {} es) s.defaultContext ++ front)
      (back ++ e.below s (registerAfter {} es) s.defaultContext) := by
  have hclaimed := (constants_claimed_iff es).mpr hused
  refine ⟨?_, ?_, ?_, ?_⟩
  · rw [linesOf_concat, h.lines]
    simp only [List.append_assoc, List.cons_append]
  · intro l hl
    rcases List.mem_append.mp hl with hl | hl
    · exact Entry.refers_above he hl
    · exact h.refers l hl
  · have hcall : .constantsCall ∉ e.above s (registerAfter {} es) s.defaultContext ∧
        .constantsCall ∉ e.below s (registerAfter {} es) s.defaultContext := by
      cases e <;> simp [Entry.above, Entry.below, hclaimed]
    have honce := h.once
    simp only [List.mem_append, not_or] at honce ⊢
    exact ⟨⟨hcall.1, honce.1⟩, honce.2, hcall.2⟩
  · rw [constantFirst_concat hused, List.mem_append, List.mem_append, h.objective]
    cases e with
    | objective =>
      by_cases hmem : .objective ∈ es
      · have hmade := (objective_claimed_iff es).mpr hmem
        simp [Entry.above, hmade, hmem]
      · have hfresh : (registerAfter {} es).variableObjective.claimed = false := by
          rwa [← Bool.not_eq_true, objective_claimed_iff]
        have hfirst : ConstantFirst es :=
          .of_forall_not fun x hx hobjective => hmem (hobjective ▸ hx)
        simp [Entry.above, hfresh, hfirst]
    | touch _ | append _ _ | prepend _ _ | constant _ => simp [Entry.above, hclaimed]

/-- Once a constant is used, the block of the constants splits the default context. -/
theorem exists_opened (hes : Covered [] es) (hne : s.constsContext ≠ s.defaultContext)
    (hused : ∃ n, .constant n ∈ es) : ∃ front back, Opened s es front back := by
  induction es using List.reverseRecOn with
  | nil =>
    obtain ⟨n, hn⟩ := hused
    exact absurd hn List.not_mem_nil
  | append_singleton es e ih =>
    obtain ⟨hbefore, hlast⟩ := covered_append.mp hes
    rw [List.nil_append, covered_singleton] at hlast
    by_cases hearlier : ∃ n, .constant n ∈ es
    · obtain ⟨front, back, h⟩ := ih hbefore hearlier
      exact ⟨_, _, h.concat hearlier hlast⟩
    · obtain ⟨n, hn⟩ := hused
      rcases List.mem_append.mp hn with hn | hn
      · exact absurd ⟨n, hn⟩ hearlier
      · obtain rfl := List.mem_singleton.mp hn
        exact ⟨_, _, opened_first hbefore hne hearlier n⟩

/-! ## Loading -/

namespace Line

def Adds (s : Settings) (objective : String) : Line → Prop
  | .variableObjective => s.varObjective = objective
  | .constantObjective => s.constObjective = objective
  | .written _ | .constantsCall | .constant _ => False

def IsConstant : Line → Prop
  | .constant _ => True
  | .written _ | .variableObjective | .constantObjective | .constantsCall => False

def loaded (constants : List Line) : Line → List Line
  | .constantsCall => constants
  | .written w => [.written w]
  | .variableObjective => [.variableObjective]
  | .constantObjective => [.constantObjective]
  | .constant n => [.constant n]

end Line

/-- The lines that take effect when the default context is loaded after a journal. -/
def loadOrder (s : Settings) (es : List Entry) : List Line :=
  (linesOf s es s.defaultContext).flatMap (Line.loaded (linesOf s es s.constsContext))

theorem flatMap_loaded {constants ls : List Line} (h : .constantsCall ∉ ls) :
    ls.flatMap (Line.loaded constants) = ls := by
  induction ls with
  | nil => rfl
  | cons l ls ih =>
    obtain ⟨hl, hls⟩ := not_or.mp (List.mem_cons.not.mp h)
    rw [List.flatMap_cons, ih hls]
    cases l with
    | constantsCall => exact absurd rfl hl
    | written w | variableObjective | constantObjective | constant n => rfl

theorem exists_mem_linesOf {l : Line} (h : l ∈ loadOrder s es) : ∃ context, l ∈ linesOf s es context := by
  obtain ⟨k, hk, hl⟩ := List.mem_flatMap.mp h
  cases k with
  | constantsCall => exact ⟨_, hl⟩
  | written w | variableObjective | constantObjective | constant n =>
    rw [List.mem_singleton.mp hl]
    exact ⟨_, hk⟩

theorem loadOrder_of_unused (hes : Covered [] es) (h : ¬ ∃ n, .constant n ∈ es) :
    loadOrder s es = linesOf s es s.defaultContext :=
  flatMap_loaded fun hcall => h (placed_of_mem hes hcall).2

theorem Opened.loadOrder_eq {front back : List Line} (h : Opened s es front back) :
    loadOrder s es =
      front ++ ([.constantObjective] ++ (linesOf s es s.constsContext ++ back)) := by
  obtain ⟨hfront, hback⟩ := not_or.mp (List.mem_append.not.mp h.once)
  rw [loadOrder, h.lines, List.flatMap_append, List.flatMap_cons, List.flatMap_cons,
    flatMap_loaded hfront, flatMap_loaded hback]
  rfl

variable (hes : Covered [] es) (hne : s.constsContext ≠ s.defaultContext)

include hes in
theorem constant_mem_of_refers {l : Line} (hl : l ∈ linesOf s es context) {n : Int32}
    (hn : n ∈ l.constants) : .constant n ∈ linesOf s es s.constsContext := by
  have hplaced := placed_of_mem hes hl
  cases l with
  | written w => exact constant_mem (hplaced.2 n hn)
  | variableObjective | constantObjective | constantsCall | constant m =>
    exact absurd hn List.not_mem_nil

include hes hne in
theorem adds_before_constants :
    Before (Line.Adds s s.constObjective) Line.IsConstant (loadOrder s es) := by
  have hdefault : ∀ l ∈ linesOf s es s.defaultContext, ¬ l.IsConstant := by
    intro l hl hconstant
    cases l with
    | constant n => exact hne (placed_of_mem hes hl).1.symm
    | written w | variableObjective | constantObjective | constantsCall => exact hconstant
  by_cases hused : ∃ n, .constant n ∈ es
  · obtain ⟨front, back, h⟩ := exists_opened hes hne hused
    have hfront : ∀ l ∈ front, ¬ l.IsConstant := fun l hl =>
      hdefault l (h.lines ▸ List.mem_append_left _ hl)
    rw [h.loadOrder_eq, before_append, before_append]
    refine ⟨.of_forall_not hfront, .inr ⟨.of_forall_not ?_, .inl ⟨_, List.mem_cons_self, rfl⟩⟩⟩
    intro l hl hconstant
    rw [List.mem_singleton.mp hl] at hconstant
    exact hconstant
  · rw [loadOrder_of_unused hes hused]
    exact .of_forall_not hdefault

include hes hne in
theorem constant_before_uses (n : Int32) :
    Before (· = .constant n) (n ∈ ·.constants) (loadOrder s es) := by
  by_cases hmem : .constant n ∈ es
  · obtain ⟨front, back, h⟩ := exists_opened hes hne ⟨n, hmem⟩
    have hfront : ∀ l ∈ front, n ∉ l.constants := by
      intro l hl hn
      rw [(h.refers l hl).2] at hn
      exact absurd hn List.not_mem_nil
    have hobjective : ∀ l ∈ [Line.constantObjective], n ∉ l.constants := by
      intro l hl hn
      rw [List.mem_singleton.mp hl] at hn
      exact absurd hn List.not_mem_nil
    rw [h.loadOrder_eq, before_append, before_append, before_append]
    exact ⟨.of_forall_not hfront, .inr ⟨.of_forall_not hobjective,
      .inr ⟨before_constant hes n, .inl ⟨_, constant_mem hmem, rfl⟩⟩⟩⟩
  · refine .of_forall_not fun l hl hn => hmem ?_
    obtain ⟨context, hl⟩ := exists_mem_linesOf hl
    exact (placed_of_mem hes (constant_mem_of_refers hes hl hn)).2

include hes in
theorem objective_mem_of_refers {l : Line} (hl : l ∈ linesOf s es context) (hs : l.scores ≠ []) :
    .objective ∈ es := by
  have hplaced := placed_of_mem hes hl
  cases l with
  | written w => exact hplaced.1 hs
  | variableObjective | constantObjective | constantsCall | constant m => exact absurd rfl hs

/-- The objective of the variables comes too late if it is declared below the block of the
constants and the block refers to a variable. -/
theorem Opened.objective_too_late {front back : List Line} (h : Opened s es front back)
    (hes : Covered [] es) (hne : s.constsContext ≠ s.defaultContext)
    (hobjectives : s.varObjective ≠ s.constObjective) (hfront : .variableObjective ∉ front)
    {l : Line} (hl : l ∈ linesOf s es s.constsContext) (hs : l.scores ≠ []) :
    ¬ Before (Line.Adds s s.varObjective) (·.scores ≠ []) (loadOrder s es) := by
  intro hbefore
  obtain ⟨above, below, hlines⟩ := List.append_of_mem hl
  obtain ⟨y, hy, hadds⟩ := hbefore (front ++ ([.constantObjective] ++ above)) l (below ++ back)
    (by rw [h.loadOrder_eq, hlines]; simp) hs
  cases y with
  | variableObjective =>
    rcases List.mem_append.mp hy with hy | hy
    · exact hfront hy
    · rcases List.mem_append.mp hy with hy | hy
      · simp at hy
      · have hconsts : .variableObjective ∈ linesOf s es s.constsContext :=
          hlines ▸ List.mem_append_left _ hy
        exact hne (placed_of_mem hes hconsts).1
  | constantObjective => exact hobjectives hadds.symm
  | written w | constantsCall | constant n => exact hadds

/-- In every other case it is declared in time. -/
theorem Opened.objective_in_time {front back : List Line} (h : Opened s es front back)
    (hes : Covered [] es)
    (hok : s.varObjective = s.constObjective ∨ .variableObjective ∈ front ∨
      ∀ l ∈ linesOf s es s.constsContext, l.scores = []) :
    Before (Line.Adds s s.varObjective) (·.scores ≠ []) (loadOrder s es) := by
  have hfront : ∀ l ∈ front, ¬ l.scores ≠ [] := fun l hl hs => hs (h.refers l hl).1
  have hobjective : ∀ l ∈ [Line.constantObjective], ¬ l.scores ≠ [] := by
    intro l hl hs
    rw [List.mem_singleton.mp hl] at hs
    exact hs rfl
  rw [h.loadOrder_eq, before_append]
  refine ⟨.of_forall_not hfront, ?_⟩
  by_cases hvariable : .variableObjective ∈ front
  · exact .inl ⟨_, hvariable, rfl⟩
  · right
    rw [before_append]
    refine ⟨.of_forall_not hobjective, ?_⟩
    rcases hok with hsame | hmem | hnone
    · exact .inl ⟨_, List.mem_cons_self, hsame.symm⟩
    · exact absurd hmem hvariable
    · right
      rw [before_append]
      refine ⟨.of_forall_not fun l hl hs => hs (hnone l hl), .inr ?_⟩
      have hdefault := before_scores (s := s) hes
      rw [h.lines, List.append_cons, List.append_cons, before_append] at hdefault
      obtain ⟨-, ⟨y, hy, rfl⟩ | hback⟩ := hdefault
      · have hmem : .variableObjective ∈ front := by simpa using hy
        exact absurd hmem hvariable
      · exact hback.mono fun y hy => hy ▸ rfl

/-- The objective of the variables is declared in time, except where a variable is made before the
first constant is used and a function writes to the context that declares the constants. -/
theorem adds_before_scores_iff (hes : Covered [] es) (hne : s.constsContext ≠ s.defaultContext) :
    Before (Line.Adds s s.varObjective) (·.scores ≠ []) (loadOrder s es) ↔
      s.varObjective = s.constObjective ∨
        ¬ (VariableFirst es ∧ ∃ l ∈ linesOf s es s.constsContext, l.scores ≠ []) := by
  by_cases hused : ∃ n, .constant n ∈ es
  · obtain ⟨front, back, h⟩ := exists_opened hes hne hused
    constructor
    · intro hbefore
      by_contra hnot
      obtain ⟨hobjectives, hfirst⟩ := not_or.mp hnot
      obtain ⟨⟨-, hlate⟩, l, hl, hs⟩ := not_not.mp hfirst
      have hfront : .variableObjective ∉ front := fun hmem => hlate (h.objective.mp hmem).2
      exact h.objective_too_late hes hne hobjectives hfront hl hs hbefore
    · rintro (hsame | hnot)
      · exact h.objective_in_time hes (.inl hsame)
      · by_cases hscores : ∃ l ∈ linesOf s es s.constsContext, l.scores ≠ []
        · -- A variable was made, and not before the first constant: its objective was put in front
          -- of the block.
          obtain ⟨l, hl, hs⟩ := hscores
          have hfirst : ConstantFirst es := by
            by_contra hlate
            exact hnot ⟨⟨hused, hlate⟩, l, hl, hs⟩
          have hmem := h.objective.mpr ⟨objective_mem_of_refers hes hl hs, hfirst⟩
          exact h.objective_in_time hes (.inr (.inl hmem))
        · refine h.objective_in_time hes (.inr (.inr fun l hl => ?_))
          by_contra hs
          exact hscores ⟨l, hl, hs⟩
  · rw [loadOrder_of_unused hes hused]
    have hbefore : Before (Line.Adds s s.varObjective) (·.scores ≠ [])
        (linesOf s es s.defaultContext) := (before_scores hes).mono fun y hy => hy ▸ rfl
    exact ⟨fun _ => .inr fun h => hused h.1.1, fun _ => hbefore⟩

/-! ## Packs -/

/-- The lines of a context of a new draft after a journal. -/
theorem Draft.getD_post_start (space : String) (settings : Settings) (es : List Entry)
    (context : String) :
    (((Draft.start space settings).post es).buffers.get? context).getD [] =
      (linesOf settings es context).map (Line.text ⟨space, settings⟩) := by
  have hstart : (Draft.start space settings).buffers.get? context =
      (if context = settings.defaultContext then some [] else none).map
        (·.map (Line.text ⟨space, settings⟩)) := by
    change (Buffers.empty.touch settings.defaultContext).get? context = _
    rw [Buffers.get?_touch]
    split <;> rfl
  have hget := get?_foldl_apply ⟨space, settings⟩ (eventsOf settings {} es) hstart
  have hnil : (if context = settings.defaultContext then some ([] : List Line) else none).getD []
      = [] := by
    split <;> rfl
  rw [linesOf, ← hnil, ← getD_foldl_onto]
  refine (congrArg (·.getD []) hget).trans ?_
  generalize (eventsOf settings {} es).foldl _ _ = ls
  cases ls <;> rfl

namespace Pack

def journal (p : Pack) : List Entry := (p.script.read (p.start.draft.site []) {}).entries

theorem consts_ne_default (p : Pack) : p.settings.constsContext ≠ p.settings.defaultContext := by
  intro hsame
  have hfault := p.accepted
  simp only [Settings.fault?, if_pos hsame] at hfault
  split at hfault <;> nomatch hfault

theorem covered_journal (p : Pack) : Covered [] p.journal := by
  have hstart : Memory.Backed {} [] := by
    intro slot s hs
    nomatch show none = some s from hs
  exact (p.script.backed_read (fun _ hc => absurd hc List.not_mem_nil) hstart).1

/-- The lines of a context that a pack is built with. -/
theorem lines_build (p : Pack) {b : Buffers} (hb : p.build = .ok b) (context : String) :
    (b.get? context).getD [] =
      (linesOf p.settings p.journal context).map (Line.text ⟨p.space, p.settings⟩) := by
  have hrun := p.script.run_records p.start []
  rw [build_eq_ok hb, hrun]
  exact Draft.getD_post_start p.space p.settings p.journal context

/-- How a pack is loaded. Every objective is added before its first use and every constant is
declared before its first use, with one exception: the objective of the variables comes too late
exactly if a variable is made before the first constant is used, a function writes lines with
variables to the context that declares the constants, and no other objective has its name. -/
theorem load_order (p : Pack) {b : Buffers} (hb : p.build = .ok b) :
    let s := p.settings
    let order := loadOrder s p.journal
    (∀ context, (b.get? context).getD [] =
      (linesOf s p.journal context).map (Line.text ⟨p.space, s⟩)) ∧
    (Before (Line.Adds s s.varObjective) (·.scores ≠ []) order ↔
      s.varObjective = s.constObjective ∨
        ¬ (VariableFirst p.journal ∧
          ∃ l ∈ linesOf s p.journal s.constsContext, l.scores ≠ [])) ∧
    Before (Line.Adds s s.constObjective) Line.IsConstant order ∧
    (∀ n, Before (· = .constant n) (n ∈ ·.constants) order) ∧
    ∀ context, ∀ l ∈ linesOf s p.journal context, ∀ n ∈ l.constants,
      .constant n ∈ linesOf s p.journal s.constsContext := by
  intro s order
  have hes := p.covered_journal
  have hne := p.consts_ne_default
  exact ⟨p.lines_build hb, adds_before_scores_iff hes hne, adds_before_constants hes hne,
    constant_before_uses hes hne, fun _ _ hl _ hn => constant_mem_of_refers hes hl hn⟩

def timed : Pack where
  space := "demo"
  settings := {}
  script :=
    .act (.variable "x" none) false <|
    .inside (.when ⟨.score "x", .less, .literal 5⟩) false
      (.act (.change "x" (.multiply 7)) false <|
      .inside (.function "consts" none) false (.act (.bossBar "clock" "Clock" none) false .done)
        .done) <|
    .act (.call "consts") false .done
  accepted := by decide +kernel

theorem load_order_timed :
    ∃ b, timed.build = .ok b ∧
      (loadOrder timed.settings timed.journal).map (Line.text ⟨timed.space, timed.settings⟩) =
        ["scoreboard objectives add const dummy", "scoreboard players set 5 const 5",
          "scoreboard players set 7 const 7", "bossbar add demo:clock \"Clock\"",
          "scoreboard objectives add var dummy",
          "execute if score x var < 5 const run scoreboard players operation x var *= 7 const",
          "function demo:consts"] ∧
      Before (Line.Adds timed.settings "var") (·.scores ≠ [])
        (loadOrder timed.settings timed.journal) ∧
      Before (Line.Adds timed.settings "const") Line.IsConstant
        (loadOrder timed.settings timed.journal) ∧
      Before (· = .constant 7) (7 ∈ ·.constants) (loadOrder timed.settings timed.journal) := by
  cases hb : timed.build with
  | error e =>
    have hbuilt : timed.build.toOption.isSome = true := by decide +kernel
    rw [hb] at hbuilt
    nomatch hbuilt
  | ok b =>
    obtain ⟨-, hscores, hconstants, huses, -⟩ := timed.load_order hb
    have hnone : ¬ ∃ l ∈ linesOf timed.settings timed.journal timed.settings.constsContext,
        l.scores ≠ [] := by decide +kernel
    exact ⟨b, rfl, by decide +kernel, hscores.mpr (.inr fun h => hnone h.2), hconstants, huses 7⟩

def late : Pack where
  space := "demo"
  settings := {}
  script :=
    .act (.variable "x" none) false <|
    .inside (.function "consts" none) false (.act (.change "x" (.set 1)) false .done) <|
    .act (.constant 3) false .done
  accepted := by decide +kernel

/-- The variable is set before its objective is added. -/
theorem objective_late :
    late.build.toOption.map (·.entries) = some
      [("default", ["scoreboard objectives add const dummy", "function demo:consts",
        "scoreboard objectives add var dummy"]),
      ("consts", ["scoreboard players set x var 1", "scoreboard players set 3 const 3"])] ∧
    (loadOrder late.settings late.journal).map (Line.text ⟨late.space, late.settings⟩) =
      ["scoreboard objectives add const dummy", "scoreboard players set x var 1",
        "scoreboard players set 3 const 3", "scoreboard objectives add var dummy"] ∧
    ¬ Before (Line.Adds late.settings "var") (·.scores ≠ [])
      (loadOrder late.settings late.journal) := by
  refine ⟨by decide +kernel, by decide +kernel, ?_⟩
  intro hbefore
  obtain ⟨y, hy, hadds⟩ := hbefore [.constantObjective]
    (.written ⟨"", [], .change ⟨"x", "var"⟩ (.set 1)⟩) [.constant 3, .variableObjective] rfl
    (List.cons_ne_nil _ _)
  rw [List.mem_singleton.mp hy] at hadds
  have hname : "const" = "var" := hadds
  exact absurd hname (by decide)

end Pack
end CommandPack
