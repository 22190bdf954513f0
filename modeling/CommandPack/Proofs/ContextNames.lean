import CommandPack.Proofs.ConstantUses
import CommandPack.Proofs.Names

namespace CommandPack

/-- A name that a function can have: an accepted one, or one that was generated. -/
def FunctionName (context : String) : Prop :=
  NameKind.context.Accepts context ∨ ∃ k, context = generatedName "fn" k

theorem functionName_tick : FunctionName tickContext := .inl (by decide +kernel)

/-- No segment of such a name is empty. -/
theorem FunctionName.empty_notMem_segments {context : String} (h : FunctionName context) :
    [] ∉ Text.segments '/' context.toList := by
  rcases h with h | ⟨k, rfl⟩
  · exact Name.empty_notMem_segments (Option.or_eq_none_iff.mp h).1
  · have hslash : '/' ∉ (generatedName "fn" k).toList :=
      notMem_generatedName (by decide) (by decide) (by decide) k
    rw [Text.segments_of_notMem hslash, toList_generatedName]
    exact fun hmem => nomatch List.mem_singleton.mp hmem

def Script.addressed : Script → List String
  | .done => []
  | .act a _ rest => a.addressed ++ rest.addressed
  | .inside _ _ body rest => body.addressed ++ rest.addressed

/-- All that a script asks for is for the context it stands in, for functions and for contexts that
raw lines name. -/
def NamesOnly (here : String) (raw : List String) (es : List Entry) : Prop :=
  ∀ c ∈ es.flatMap Entry.contexts, c = here ∨ c ∈ raw ∨ FunctionName c

variable {here : String} {raw : List String} {es fs : List Entry} {p : Site} {m : Memory}

theorem NamesOnly.append (hes : NamesOnly here raw es) (hfs : NamesOnly here raw fs) :
    NamesOnly here raw (es ++ fs) := by
  intro c hc
  rw [List.flatMap_append] at hc
  exact (List.mem_append.mp hc).elim (hes c) (hfs c)

theorem NamesOnly.mono {raw' : List String} (h : NamesOnly here raw es) (hraw : raw ⊆ raw') :
    NamesOnly here raw' es :=
  fun c hc => (h c hc).imp_right (Or.imp_left fun hc => hraw hc)

/-- Inside a function, the context it writes to is the name of a function. -/
theorem NamesOnly.outside {name : String} (h : NamesOnly name raw es)
    (hname : name = here ∨ FunctionName name) : NamesOnly here raw es := by
  intro c hc
  rcases h c hc with rfl | hother
  · exact hname.imp_right .inr
  · exact .inr hother

theorem Action.namesOnly_read (a : Action) (p : Site) (m : Memory) :
    NamesOnly p.context a.addressed (a.read p m).entries := by
  intro c hc
  by_cases hhere : c = p.context
  · exact .inl hhere
  · by_cases hraw : c ∈ a.addressed
    · exact .inr (.inl hraw)
    · exact absurd hc (a.untouched_read p m hhere hraw)

/-- A step is entered where it stands, or in a function. -/
theorem Opening.functionName_of_entrance {o : Opening} {entered : Reading Site}
    (h : o.entrance p m = .ok entered) :
    entered.result.context = p.context ∨ FunctionName entered.result.context := by
  cases o with
  | function name slot =>
    simp only [entrance, BuildError.checkName] at h
    cases hname : NameKind.context.check name with
    | error e =>
      rw [hname] at h
      cases h
    | ok u =>
      rw [hname] at h
      obtain rfl := Except.ok.inj h
      exact .inr (.inl (NameKind.check_eq_ok.mp hname))
  | anonymousFunction slot =>
    obtain rfl := Except.ok.inj h
    exact .inr (.inr ⟨_, rfl⟩)
  | tick slot =>
    obtain rfl := Except.ok.inj h
    exact .inr functionName_tick
  | scope _ | nest _ | when _ | whenScore _ _ | forEach _ =>
    obtain ⟨-, -, hcontext⟩ := entries_entrance h
    exact .inl hcontext

theorem Opening.namesOnly_entrance {o : Opening} {entered : Reading Site}
    (h : o.entrance p m = .ok entered) : NamesOnly p.context [] entered.entries := by
  obtain ⟨-, hentries⟩ := entries_entrance h
  have hname := functionName_of_entrance h
  intro c hc
  cases hslot : o.functionSlot? with
  | some slot =>
    simp only [hslot] at hentries
    rw [hentries] at hc
    rw [List.mem_singleton.mp hc]
    exact hname.imp_right .inr
  | none =>
    simp only [hslot] at hentries
    rw [hentries.1] at hc
    exact absurd hc List.not_mem_nil

theorem NamesOnly.andThen {step : Reading Outcome} (hstep : NamesOnly here raw step.entries)
    (caught : Bool) {rest : Memory → Reading (Except BuildError Unit)}
    (hrest : ∀ m, NamesOnly here raw (rest m).entries) :
    NamesOnly here raw (step.andThen caught rest).entries := by
  unfold Reading.andThen
  cases step.result.stop? caught with
  | some e => exact hstep
  | none => exact hstep.append (hrest _)

/-- A script writes where it stands, to functions and to contexts that its raw lines name. -/
theorem Script.namesOnly_read (s : Script) (p : Site) (m : Memory) :
    NamesOnly p.context s.addressed (s.read p m).entries := by
  induction s generalizing p m with
  | done => exact fun c hc => absurd hc List.not_mem_nil
  | act a caught rest ih =>
    exact ((a.namesOnly_read p m).mono (List.subset_append_left _ _)).andThen caught fun m =>
      (ih p m).mono (List.subset_append_right _ _)
  | inside o caught body rest ihb ihr =>
    refine NamesOnly.andThen ?_ caught fun m => (ihr p m).mono (List.subset_append_right _ _)
    unfold Opening.read
    cases he : o.entrance p m with
    | error outcome => exact fun c hc => absurd hc List.not_mem_nil
    | ok entered =>
      have hbody := (ihb entered.result entered.memory).outside
        (Opening.functionName_of_entrance he)
      have hboth : NamesOnly p.context (body.addressed ++ rest.addressed)
          (entered.entries ++ (body.read entered.result entered.memory).entries) :=
        ((Opening.namesOnly_entrance he).mono (List.nil_subset _)).append
          (hbody.mono (List.subset_append_left _ _))
      simp only
      cases (body.read entered.result entered.memory).result with
      | error e => exact hboth
      | ok u => exact hboth

theorem Event.mem_keys_apply {i : Imprint} {b : Buffers} {e : Event} {c : String} :
    c ∈ (e.apply i b).keys ↔ c ∈ b.keys ∨ c = e.context := by
  cases e with
  | touch context | append context line | prepend context line =>
    simp only [apply, Event.context, Buffers.touch, Buffers.append, Buffers.prepend,
      KeyedList.keys_upsert]
    split
    · rename_i hknown
      exact ⟨.inl, fun h => h.elim id fun hc => hc ▸ hknown⟩
    · simp

/-- Every event makes its context, and nothing else makes one. -/
theorem mem_keys_foldl_apply {i : Imprint} {evs : List Event} {b : Buffers} {c : String} :
    c ∈ (evs.foldl (Event.apply i) b).keys ↔ c ∈ b.keys ∨ ∃ ev ∈ evs, c = ev.context := by
  induction evs generalizing b with
  | nil => simp
  | cons ev evs ih =>
    rw [List.foldl_cons, ih, Event.mem_keys_apply, or_assoc]
    simp

/-- Declarations go to the two contexts of the settings. -/
theorem Entry.context_of_mem_events {s : Settings} {r : Register} {e : Entry} {ev : Event}
    (h : ev ∈ e.events s r) :
    ev.context ∈ e.contexts ∨ ev.context = s.defaultContext ∨
      (ev.context = s.constsContext ∧ ∃ n, e = .constant n) := by
  cases e with
  | touch context | append context line | prepend context line =>
    rw [List.mem_singleton.mp h]
    exact .inl (List.mem_singleton.mpr rfl)
  | objective =>
    simp only [events] at h
    split at h
    · exact absurd h List.not_mem_nil
    · rw [List.mem_singleton.mp h]
      exact .inr (.inl rfl)
  | constant n =>
    rcases List.mem_append.mp h with h | h
    · split at h
      · exact absurd h List.not_mem_nil
      · simp only [List.mem_cons, List.not_mem_nil, or_false] at h
        rcases h with rfl | rfl <;> exact .inr (.inl rfl)
    · split at h
      · exact absurd h List.not_mem_nil
      · rw [List.mem_singleton.mp h]
        exact .inr (.inr ⟨rfl, n, rfl⟩)

theorem context_of_mem_eventsOf {s : Settings} {r : Register} {ev : Event}
    (h : ev ∈ eventsOf s r es) :
    ev.context ∈ es.flatMap Entry.contexts ∨ ev.context = s.defaultContext ∨
      (ev.context = s.constsContext ∧ ∃ n, .constant n ∈ es) := by
  induction es generalizing r with
  | nil => exact absurd h List.not_mem_nil
  | cons e es ih =>
    rw [List.flatMap_cons, List.mem_append]
    rcases List.mem_append.mp h with h | h
    · rcases Entry.context_of_mem_events h with hentry | hdefault | ⟨hconsts, n, rfl⟩
      · exact .inl (.inl hentry)
      · exact .inr (.inl hdefault)
      · exact .inr (.inr ⟨hconsts, n, List.mem_cons_self⟩)
    · rcases ih h with hentry | hdefault | ⟨hconsts, n, hn⟩
      · exact .inl (.inr hentry)
      · exact .inr (.inl hdefault)
      · exact .inr (.inr ⟨hconsts, n, List.mem_cons_of_mem _ hn⟩)

/-- Every context of a pack has the name of a function, unless a raw line names another one. -/
theorem Pack.functionName_of_mem_keys (p : Pack) {b : Buffers} (hb : p.build = .ok b)
    (hraw : ∀ c ∈ p.script.addressed, FunctionName c) {c : String} (hc : c ∈ b.keys) :
    FunctionName c := by
  obtain ⟨-, hdefault, hconsts, -⟩ := Settings.accepts_of_fault? p.accepted
  obtain ⟨-, hevents, -⟩ := p.script.run_evaluates p.start []
  rw [build_eq_ok hb, hevents] at hc
  rcases mem_keys_foldl_apply.mp hc with hstart | ⟨ev, hev, rfl⟩
  · have hc : c ∈ [p.settings.defaultContext] := hstart
    rw [List.mem_singleton.mp hc]
    exact .inl hdefault
  · rcases context_of_mem_eventsOf hev with hentry | hcontext | ⟨hcontext, -⟩
    · rcases p.script.namesOnly_read _ _ _ hentry with hhere | hnamed | hname
      · exact hhere ▸ .inl hdefault
      · exact hraw _ hnamed
      · exact hname
    · exact hcontext ▸ .inl hdefault
    · exact hcontext ▸ .inl hconsts

end CommandPack
