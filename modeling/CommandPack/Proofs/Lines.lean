import CommandPack.Proofs.Posting
import CommandPack.Proofs.References
import Mathlib.Data.List.Induction

namespace CommandPack

/-! ## What is declared after a journal -/

theorem objective_claimed_iff (es : List Entry) :
    (registerAfter {} es).variableObjective.claimed = true ↔ .objective ∈ es := by
  induction es using List.reverseRecOn with
  | nil => simp [registerAfter]
  | append_singleton es e ih =>
    rw [registerAfter_append, List.mem_append, ← ih]
    cases e <;> simp [registerAfter, Entry.register]

theorem constants_claimed_iff (es : List Entry) :
    (registerAfter {} es).constants.objective.claimed = true ↔ ∃ n, .constant n ∈ es := by
  induction es using List.reverseRecOn with
  | nil => simp [registerAfter]
  | append_singleton es e ih =>
    rw [registerAfter_append]
    cases e with
    | constant n => simp [registerAfter, Entry.register, ConstantPool.register]
    | touch _ | append _ _ | prepend _ _ | objective =>
      simpa [registerAfter, Entry.register] using ih

theorem mem_values_iff (es : List Entry) (n : Int32) :
    n ∈ (registerAfter {} es).constants.values ↔ .constant n ∈ es := by
  induction es using List.reverseRecOn with
  | nil => simp [registerAfter]
  | append_singleton es e ih =>
    rw [registerAfter_append]
    cases e with
    | constant m =>
      change n ∈ ((registerAfter {} es).constants.register m).2.values ↔ _
      rw [ConstantPool.values_register]
      split
      · rename_i hm
        have hmn : n = m → .constant n ∈ es := fun h => ih.mp (h ▸ hm)
        simpa [ih] using hmn
      · simp [ih]
    | touch _ | append _ _ | prepend _ _ | objective =>
      simpa [registerAfter, Entry.register] using ih

/-! ## How the lines of a context grow -/

def Event.write (context : String) (ls : List Line) : Event → List Line
  | .touch _ => ls
  | .append c line => if c = context then ls ++ [line] else ls
  | .prepend c line => if c = context then line :: ls else ls

theorem getD_foldl_onto (context : String) (evs : List Event) (ls : Option (List Line)) :
    (evs.foldl (Event.onto context) ls).getD [] = evs.foldl (Event.write context) (ls.getD []) := by
  induction evs generalizing ls with
  | nil => rfl
  | cons ev evs ih =>
    have hev : (ev.onto context ls).getD [] = ev.write context (ls.getD []) := by
      cases ev <;> simp only [Event.onto, Event.write] <;> split <;> rfl
    rw [List.foldl_cons, ih, hev]
    rfl

/-- The lines of a context after a journal on a new draft. -/
def linesOf (s : Settings) (es : List Entry) (context : String) : List Line :=
  (eventsOf s {} es).foldl (Event.write context) []

namespace Entry

def above (s : Settings) (r : Register) (context : String) : Entry → List Line
  | .prepend c w => if c = context then [.written w] else []
  | .objective =>
    if s.defaultContext = context ∧ r.variableObjective.claimed = false then [.variableObjective] else []
  | .constant _ =>
    if s.defaultContext = context ∧ r.constants.objective.claimed = false then
      [.constantObjective, .constantsCall]
    else []
  | .touch _ | .append _ _ => []

def below (s : Settings) (r : Register) (context : String) : Entry → List Line
  | .append c w => if c = context then [.written w] else []
  | .constant n =>
    if s.constsContext = context ∧ n ∉ r.constants.values then [.constant n] else []
  | .touch _ | .prepend _ _ | .objective => []

end Entry

variable (s : Settings) (es : List Entry) (e : Entry) (context : String)

/-- An entry puts its lines above or below all that are there. -/
theorem linesOf_concat :
    linesOf s (es ++ [e]) context =
      e.above s (registerAfter {} es) context ++ linesOf s es context ++
        e.below s (registerAfter {} es) context := by
  rw [linesOf, eventsOf_append, List.foldl_append, ← linesOf]
  simp only [eventsOf, List.append_nil]
  generalize registerAfter {} es = r
  cases e with
  | touch c => simp [Entry.events, Entry.above, Entry.below, Event.write]
  | append c w =>
    simp only [Entry.events, Entry.above, Entry.below, List.foldl_cons, List.foldl_nil, Event.write]
    split <;> simp
  | prepend c w =>
    simp only [Entry.events, Entry.above, Entry.below, List.foldl_cons, List.foldl_nil, Event.write]
    split <;> simp
  | objective =>
    simp only [Entry.events, Entry.above, Entry.below]
    cases r.variableObjective.claimed <;> by_cases hc : s.defaultContext = context <;>
      simp [Event.write, hc]
  | constant n =>
    simp only [Entry.events, Entry.above, Entry.below, List.foldl_append]
    cases r.constants.objective.claimed <;> by_cases hc : s.defaultContext = context <;>
      by_cases hk : s.constsContext = context <;> by_cases hn : n ∈ r.constants.values <;>
      simp [Event.write, hc, hk, hn]

/-! ## Which lines a context holds -/

variable {s es e context}

theorem mem_linesOf_concat {l : Line} :
    l ∈ linesOf s (es ++ [e]) context ↔
      l ∈ linesOf s es context ∨ l ∈ e.above s (registerAfter {} es) context ∨
        l ∈ e.below s (registerAfter {} es) context := by
  rw [linesOf_concat, List.mem_append, List.mem_append]
  tauto

namespace Line

def scores : Line → List Score
  | .written w => w.scores
  | .variableObjective | .constantObjective | .constantsCall | .constant _ => []

/-- The constants that a line refers to; its declaration does not count. -/
def constants : Line → List Int32
  | .written w => w.constants
  | .variableObjective | .constantObjective | .constantsCall | .constant _ => []

/-- Why a line may stand in a context after a journal. -/
def Placed (s : Settings) (es : List Entry) (context : String) : Line → Prop
  | .written w => (w.scores ≠ [] → .objective ∈ es) ∧ ∀ n ∈ w.constants, .constant n ∈ es
  | .variableObjective => context = s.defaultContext ∧ .objective ∈ es
  | .constantObjective | .constantsCall =>
    context = s.defaultContext ∧ ∃ n, .constant n ∈ es
  | .constant n => context = s.constsContext ∧ .constant n ∈ es

theorem Placed.append {l : Line} (h : l.Placed s es context) (fs : List Entry) :
    l.Placed s (es ++ fs) context := by
  have hmem {e : Entry} (he : e ∈ es) : e ∈ es ++ fs := List.mem_append_left fs he
  cases l with
  | written w => exact ⟨fun hv => hmem (h.1 hv), fun n hn => hmem (h.2 n hn)⟩
  | variableObjective => exact ⟨h.1, hmem h.2⟩
  | constantObjective | constantsCall =>
    obtain ⟨hc, n, hn⟩ := h
    exact ⟨hc, n, hmem hn⟩
  | constant n => exact ⟨h.1, hmem h.2⟩

end Line

/-- What an entry puts above other lines. -/
theorem Entry.mem_above {r : Register} {l : Line} (h : l ∈ e.above s r context) :
    (∃ w, e = .prepend context w ∧ l = .written w) ∨
    (e = .objective ∧ context = s.defaultContext ∧ l = .variableObjective) ∨
    ∃ n, e = .constant n ∧ context = s.defaultContext ∧
      (l = .constantObjective ∨ l = .constantsCall) := by
  cases e with
  | touch c | append c w => exact absurd h List.not_mem_nil
  | prepend c w =>
    obtain ⟨rfl, rfl⟩ : c = context ∧ l = .written w := by simpa [above] using h
    exact .inl ⟨w, rfl, rfl⟩
  | objective =>
    obtain ⟨⟨rfl, -⟩, hl⟩ :
        (s.defaultContext = context ∧ r.variableObjective.claimed = false) ∧
          l = .variableObjective := by
      simpa [above] using h
    exact .inr (.inl ⟨rfl, rfl, hl⟩)
  | constant n =>
    obtain ⟨⟨rfl, -⟩, hl⟩ :
        (s.defaultContext = context ∧ r.constants.objective.claimed = false) ∧
          (l = .constantObjective ∨ l = .constantsCall) := by
      simpa [above] using h
    exact .inr (.inr ⟨n, rfl, rfl, hl⟩)

/-- What an entry puts below other lines. -/
theorem Entry.mem_below {r : Register} {l : Line} (h : l ∈ e.below s r context) :
    (∃ w, e = .append context w ∧ l = .written w) ∨
    ∃ n, e = .constant n ∧ context = s.constsContext ∧ l = .constant n := by
  cases e with
  | touch c | prepend c w | objective => exact absurd h List.not_mem_nil
  | append c w =>
    obtain ⟨rfl, rfl⟩ : c = context ∧ l = .written w := by simpa [below] using h
    exact .inl ⟨w, rfl, rfl⟩
  | constant n =>
    obtain ⟨⟨rfl, -⟩, hl⟩ :
        (s.constsContext = context ∧ n ∉ r.constants.values) ∧ l = .constant n := by
      simpa [below] using h
    exact .inr ⟨n, rfl, rfl, hl⟩

theorem Entry.placed_of_mem_above (he : e.Backed es) {r : Register} {l : Line}
    (hl : l ∈ e.above s r context) : l.Placed s (es ++ [e]) context := by
  have hlast : e ∈ es ++ [e] := List.mem_append_right _ List.mem_cons_self
  rcases mem_above hl with ⟨w, rfl, rfl⟩ | ⟨rfl, hc, rfl⟩ | ⟨n, rfl, hc, rfl | rfl⟩
  · obtain ⟨hscores, hconstants⟩ := he
    exact ⟨fun h => absurd hscores h, fun n hn => absurd (hconstants ▸ hn) List.not_mem_nil⟩
  · exact ⟨hc, hlast⟩
  · exact ⟨hc, n, hlast⟩
  · exact ⟨hc, n, hlast⟩

theorem Entry.placed_of_mem_below (he : e.Backed es) {r : Register} {l : Line}
    (hl : l ∈ e.below s r context) : l.Placed s (es ++ [e]) context := by
  rcases mem_below hl with ⟨w, rfl, rfl⟩ | ⟨n, rfl, hc, rfl⟩
  · obtain ⟨hscores, hconstants⟩ := he
    exact ⟨fun h => List.mem_append_left _ (hscores h),
      fun n hn => List.mem_append_left _ (hconstants n hn)⟩
  · exact ⟨hc, List.mem_append_right _ List.mem_cons_self⟩

/-- If what lines refer to was asked for, no line stands in a context without reason. -/
theorem placed_of_mem (hes : Covered [] es) {l : Line} (hl : l ∈ linesOf s es context) :
    l.Placed s es context := by
  induction es using List.reverseRecOn with
  | nil => exact absurd hl List.not_mem_nil
  | append_singleton es e ih =>
    obtain ⟨hes, he⟩ := covered_append.mp hes
    rw [List.nil_append, covered_singleton] at he
    rcases mem_linesOf_concat.mp hl with hl | hl | hl
    · exact (ih hes hl).append [e]
    · exact Entry.placed_of_mem_above he hl
    · exact Entry.placed_of_mem_below he hl

theorem variableObjective_mem (h : .objective ∈ es) :
    .variableObjective ∈ linesOf s es s.defaultContext := by
  induction es using List.reverseRecOn with
  | nil => exact absurd h List.not_mem_nil
  | append_singleton es e ih =>
    rw [mem_linesOf_concat]
    by_cases hes : .objective ∈ es
    · exact .inl (ih hes)
    · have he : e = .objective := by simpa [hes, eq_comm] using h
      have hclaimed : (registerAfter {} es).variableObjective.claimed = false := by
        rw [← Bool.not_eq_true, objective_claimed_iff]
        exact hes
      subst he
      right; left
      rw [Entry.above, if_pos ⟨rfl, hclaimed⟩]
      exact List.mem_cons_self

theorem constant_mem {n : Int32} (h : .constant n ∈ es) :
    .constant n ∈ linesOf s es s.constsContext := by
  induction es using List.reverseRecOn with
  | nil => exact absurd h List.not_mem_nil
  | append_singleton es e ih =>
    rw [mem_linesOf_concat]
    by_cases hes : .constant n ∈ es
    · exact .inl (ih hes)
    · have he : e = .constant n := by simpa [hes, eq_comm] using h
      have hnew : n ∉ (registerAfter {} es).constants.values := by rwa [mem_values_iff]
      subst he
      right; right
      rw [Entry.below, if_pos ⟨rfl, hnew⟩]
      exact List.mem_cons_self

/-! ## Where a line comes from -/

/-- Every written line was asked for by an entry. -/
theorem written_mem_of_mem {w : Written} (h : .written w ∈ linesOf s es context) :
    .append context w ∈ es ∨ .prepend context w ∈ es := by
  induction es using List.reverseRecOn with
  | nil => exact absurd h List.not_mem_nil
  | append_singleton es e ih =>
    have hlast : e ∈ es ++ [e] := List.mem_append_right _ List.mem_cons_self
    rcases mem_linesOf_concat.mp h with h | h | h
    · exact (ih h).imp (List.mem_append_left _) (List.mem_append_left _)
    · rcases Entry.mem_above h with ⟨w', rfl, hw⟩ | ⟨-, -, hw⟩ | ⟨n, -, -, hw | hw⟩
      · cases hw
        exact .inr hlast
      · nomatch hw
      · nomatch hw
      · nomatch hw
    · rcases Entry.mem_below h with ⟨w', rfl, hw⟩ | ⟨n, -, -, hw⟩
      · cases hw
        exact .inl hlast
      · nomatch hw

theorem written_mem {w : Written} (h : .append context w ∈ es) :
    .written w ∈ linesOf s es context := by
  induction es using List.reverseRecOn with
  | nil => exact absurd h List.not_mem_nil
  | append_singleton es e ih =>
    rw [mem_linesOf_concat]
    rcases List.mem_append.mp h with h | h
    · exact .inl (ih h)
    · obtain rfl := List.mem_singleton.mp h
      right; right
      rw [Entry.below, if_pos rfl]
      exact List.mem_cons_self

/-- The context of the constants is called only if a constant is used. -/
theorem exists_constant_of_call_mem (h : .constantsCall ∈ linesOf s es context) :
    ∃ n, .constant n ∈ es := by
  induction es using List.reverseRecOn with
  | nil => exact absurd h List.not_mem_nil
  | append_singleton es e ih =>
    rcases mem_linesOf_concat.mp h with h | h | h
    · exact (ih h).imp fun n hn => List.mem_append_left _ hn
    · rcases Entry.mem_above h with ⟨w, -, hl⟩ | ⟨-, -, hl⟩ | ⟨n, rfl, -, -⟩
      · nomatch hl
      · nomatch hl
      · exact ⟨n, List.mem_append_right _ List.mem_cons_self⟩
    · rcases Entry.mem_below h with ⟨w, -, hl⟩ | ⟨n, -, -, hl⟩ <;> nomatch hl

theorem Entry.constant_notMem_above (r : Register) (n : Int32) :
    .constant n ∉ e.above s r context := by
  intro h
  rcases mem_above h with ⟨w, -, hl⟩ | ⟨-, -, hl⟩ | ⟨m, -, -, hl | hl⟩ <;> nomatch hl

/-- The declaration of a constant is put below by the first use of it. -/
theorem Entry.constant_mem_below {r : Register} {n : Int32} (h : .constant n ∈ e.below s r context) :
    e = .constant n ∧ context = s.constsContext ∧ n ∉ r.constants.values := by
  rcases mem_below h with ⟨w, -, hl⟩ | ⟨m, rfl, hc, hl⟩
  · nomatch hl
  · cases hl
    have hnew : (s.constsContext = context ∧ n ∉ r.constants.values) ∧ True := by
      simpa [below] using h
    exact ⟨rfl, hc, hnew.1.2⟩

/-- Constants are declared in one context only, and only if they are used. -/
theorem constant_mem_of_mem {n : Int32} (h : .constant n ∈ linesOf s es context) :
    context = s.constsContext ∧ .constant n ∈ es := by
  induction es using List.reverseRecOn with
  | nil => exact absurd h List.not_mem_nil
  | append_singleton es e ih =>
    rcases mem_linesOf_concat.mp h with h | h | h
    · exact (ih h).imp_right (List.mem_append_left _)
    · exact absurd h (Entry.constant_notMem_above _ n)
    · obtain ⟨rfl, hc, -⟩ := Entry.constant_mem_below h
      exact ⟨hc, List.mem_append_right _ List.mem_cons_self⟩

/-- A constant that is used is declared by exactly one line. -/
theorem exists_declaration {n : Int32} (h : .constant n ∈ es) :
    ∃ front back, linesOf s es s.constsContext = front ++ .constant n :: back ∧
      .constant n ∉ front ++ back := by
  induction es using List.reverseRecOn with
  | nil => exact absurd h List.not_mem_nil
  | append_singleton es e ih =>
    have habove : .constant n ∉ e.above s (registerAfter {} es) s.constsContext :=
      Entry.constant_notMem_above _ n
    rw [linesOf_concat]
    by_cases hes : .constant n ∈ es
    · -- It is declared already, so it is not declared again.
      obtain ⟨front, back, hlines, honce⟩ := ih hes
      have hbelow : .constant n ∉ e.below s (registerAfter {} es) s.constsContext := fun hmem =>
        (Entry.constant_mem_below hmem).2.2 ((mem_values_iff es n).mpr hes)
      obtain ⟨hfront, hback⟩ := not_or.mp (List.mem_append.not.mp honce)
      refine ⟨e.above s (registerAfter {} es) s.constsContext ++ front,
        back ++ e.below s (registerAfter {} es) s.constsContext, ?_, ?_⟩
      · rw [hlines]
        simp
      · simp [habove, hfront, hback, hbelow]
    · have he : e = .constant n := by simpa [hes, eq_comm] using h
      have hnew : n ∉ (registerAfter {} es).constants.values := by rwa [mem_values_iff]
      have hearlier : .constant n ∉ linesOf s es s.constsContext := fun hmem =>
        hes (constant_mem_of_mem hmem).2
      subst he
      refine ⟨Entry.above s (registerAfter {} es) s.constsContext (.constant n) ++
        linesOf s es s.constsContext, [], ?_, ?_⟩
      · rw [Entry.below, if_pos ⟨rfl, hnew⟩]
      · simp [habove, hearlier]

end CommandPack
