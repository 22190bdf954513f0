import CommandPack.Proofs.ContextNames
import CommandPack.Proofs.DefaultLines
import CommandPack.Proofs.LoadOrder

namespace CommandPack

theorem Entry.exists_event {s : Settings} {r : Register} {e : Entry} {c : String}
    (h : c ∈ e.contexts) : ∃ ev ∈ e.events s r, c = ev.context := by
  cases e with
  | touch context | append context w | prepend context w =>
    exact ⟨_, List.mem_singleton.mpr rfl, List.mem_singleton.mp h⟩
  | objective | constant n => exact absurd h List.not_mem_nil

theorem exists_mem_eventsOf {s : Settings} {r : Register} {es : List Entry} {c : String}
    (h : c ∈ es.flatMap Entry.contexts) : ∃ ev ∈ eventsOf s r es, c = ev.context := by
  induction es generalizing r with
  | nil => exact absurd h List.not_mem_nil
  | cons e es ih =>
    rw [List.flatMap_cons, List.mem_append] at h
    rcases h with h | h
    · obtain ⟨ev, hev, hc⟩ := Entry.exists_event h
      exact ⟨ev, List.mem_append_left _ hev, hc⟩
    · obtain ⟨ev, hev, hc⟩ := ih h
      exact ⟨ev, List.mem_append_right _ hev, hc⟩

/-- A context with a line exists. -/
theorem Buffers.mem_keys_of_ne_nil {b : Buffers} {c : String} (h : (b.get? c).getD [] ≠ []) :
    c ∈ b.keys := by
  rw [← KeyedList.contains_iff_mem_keys, KeyedList.contains]
  cases hc : b.get? c with
  | none => exact absurd (congrArg (·.getD []) hc) h
  | some ls => rfl

/-- The contexts of a new draft after a journal. -/
theorem Draft.mem_keys_post_start (space : String) (settings : Settings) (es : List Entry)
    (c : String) :
    c ∈ ((Draft.start space settings).post es).buffers.keys ↔
      c = settings.defaultContext ∨ c ∈ es.flatMap Entry.contexts ∨
        (c = settings.constsContext ∧ ∃ n, .constant n ∈ es) := by
  constructor
  · intro h
    rcases mem_keys_foldl_apply.mp h with hstart | ⟨ev, hev, rfl⟩
    · have hc : c ∈ [settings.defaultContext] := hstart
      exact .inl (List.mem_singleton.mp hc)
    · rcases context_of_mem_eventsOf hev with hentry | hdefault | hconsts
      · exact .inr (.inl hentry)
      · exact .inl hdefault
      · exact .inr (.inr hconsts)
  · rintro (rfl | hentry | ⟨rfl, n, hn⟩)
    · have hstart : settings.defaultContext ∈ (Draft.start space settings).buffers.keys :=
        List.mem_singleton.mpr rfl
      exact mem_keys_foldl_apply.mpr (.inl hstart)
    · exact mem_keys_foldl_apply.mpr (.inr (exists_mem_eventsOf hentry))
    · -- The declaration of the constant is a line of its context.
      refine Buffers.mem_keys_of_ne_nil ?_
      rw [Draft.getD_post_start]
      exact List.ne_nil_of_mem (List.mem_map_of_mem (constant_mem hn))

namespace Moment

/-- A moment asks for the constants that it uses, and for no others. -/
theorem uses_entries (x : Moment) : x.entries.flatMap Entry.uses = x.uses := by
  cases x with
  | act a before => exact a.uses_read _ _
  | leave o before after => rfl
  | enter o before entered =>
    simp only [entries, uses]
    cases he : o.entrance (before.draft.site []) before.memory with
    | error outcome =>
      have huses : o.uses before.handles = [] := Opening.uses_of_not_entered he
      rw [huses]
      rfl
    | ok r => exact (Opening.entries_entrance he).1

/-- A context that a moment names is asked for at that moment. -/
theorem addressed_subset_entries {x : Moment} (hx : ∀ o w v, x = .enter o w v → o.enter w = .ok v)
    {c : String} (h : c ∈ x.addressed) : c ∈ x.entries.flatMap Entry.contexts := by
  cases x with
  | act a before =>
    cases a with
    | emitTo context line | declareFirst context line | declare context line => exact h
    | _ => exact absurd h List.not_mem_nil
  | leave o before after => exact absurd h List.not_mem_nil
  | enter o w v =>
    obtain ⟨entered, hentered, hv⟩ := Opening.stands_of_enter (hx o w v rfl) []
    obtain ⟨-, hcontexts⟩ := Opening.entries_entrance hentered
    simp only [addressed] at h
    simp only [entries, hentered]
    cases hslot : o.functionSlot? with
    | some slot =>
      simp only [hslot, hv.context] at h hcontexts
      rw [hcontexts]
      exact h
    | none =>
      simp only [hslot] at h
      exact absurd h List.not_mem_nil

end Moment

theorem uses_moments (ms : List Moment) :
    (ms.flatMap Moment.entries).flatMap Entry.uses = ms.flatMap Moment.uses := by
  rw [List.flatMap_assoc]
  exact congrArg (ms.flatMap ·) (funext Moment.uses_entries)

theorem exists_constant_iff (es : List Entry) :
    (∃ n, .constant n ∈ es) ↔ es.flatMap Entry.uses ≠ [] := by
  constructor
  · rintro ⟨n, hn⟩
    exact List.ne_nil_of_mem (List.mem_flatMap.mpr ⟨_, hn, List.mem_singleton.mpr rfl⟩)
  · intro h
    obtain ⟨n, hn⟩ := List.exists_mem_of_ne_nil _ h
    obtain ⟨e, he, hn⟩ := List.mem_flatMap.mp hn
    cases e with
    | constant m => exact ⟨m, he⟩
    | touch _ | append _ _ | prepend _ _ | objective => exact absurd hn List.not_mem_nil

/-- The default context, and those that these moments name. -/
def Mentioned (s : Settings) (ms : List Moment) (context : String) : Prop :=
  context = s.defaultContext ∨ context ∈ ms.flatMap Moment.addressed

/-- After these moments of a run on a new draft, nothing was asked for but in contexts that the
moments mention. -/
structure Mentions (i : Imprint) (ms : List Moment) (w : Workspace) : Prop where
  posted : ∀ context, (Draft.start i.space i.settings).Posted context ms w.draft
  current : Mentioned i.settings ms w.draft.place.context
  asked : ∀ c ∈ (ms.flatMap Moment.entries).flatMap Entry.contexts, Mentioned i.settings ms c
  named : ∀ c ∈ ms.flatMap Moment.addressed, c ∈ (ms.flatMap Moment.entries).flatMap Entry.contexts

variable {s : Settings} {i : Imprint} {ms : List Moment} {w v : Workspace} {x : Moment}

theorem mentioned_concat {c : String} :
    Mentioned s (ms ++ [x]) c ↔ Mentioned s ms c ∨ c ∈ x.addressed := by
  rw [Mentioned, Mentioned, List.flatMap_append, List.flatMap_singleton, List.mem_append, or_assoc]

theorem Mentioned.append {c : String} (h : Mentioned s ms c) (later : List Moment) :
    Mentioned s (ms ++ later) c :=
  h.imp_right fun hc => List.flatMap_append ▸ List.mem_append_left _ hc

namespace Mentions

theorem start (i : Imprint) : Mentions i [] { draft := .start i.space i.settings } where
  posted context := .nil _ context
  current := .inl rfl
  asked _ hc := absurd hc List.not_mem_nil
  named _ hc := absurd hc List.not_mem_nil

theorem imprint (h : Mentions i ms w) : w.draft.imprint = i := (h.posted "").imprint

theorem concat (h : Mentions i ms w) (hx : ∀ o w v, x = .enter o w v → o.enter w = .ok v)
    (hposted : ∀ context, (Draft.start i.space i.settings).Posted context (ms ++ [x]) v.draft)
    (hcurrent : Mentioned i.settings (ms ++ [x]) v.draft.place.context)
    (hasked : ∀ c ∈ x.entries.flatMap Entry.contexts, Mentioned i.settings (ms ++ [x]) c) :
    Mentions i (ms ++ [x]) v := by
  refine ⟨hposted, hcurrent, ?_, ?_⟩
  · intro c hc
    rw [List.flatMap_append, List.flatMap_append, List.flatMap_singleton, List.mem_append] at hc
    exact hc.elim (fun hc => (h.asked c hc).append [x]) (hasked c)
  · intro c hc
    rw [List.flatMap_append, List.flatMap_singleton, List.mem_append] at hc
    rw [List.flatMap_append, List.flatMap_append, List.flatMap_singleton, List.mem_append]
    exact hc.imp (h.named c) (Moment.addressed_subset_entries hx)

theorem act (h : Mentions i ms w) (a : Action) : Mentions i (ms ++ [.act a w]) (a.perform w).2 := by
  refine h.concat (by simp) (fun context => (h.posted context).act a) ?_ ?_
  · rw [a.perform_eq_record w []]
    exact h.current.append _
  · -- An action writes where it stands or where it says.
    intro c hc
    by_cases hhere : c = w.draft.place.context
    · exact hhere ▸ h.current.append _
    · by_cases hnamed : c ∈ a.addressed
      · exact mentioned_concat.mpr (.inr hnamed)
      · exact absurd hc (a.untouched_read (w.draft.site []) w.memory hhere hnamed)

/-- A function is mentioned when it is entered. -/
theorem enter (h : Mentions i ms w) {o : Opening} (he : o.enter w = .ok v) :
    Mentions i (ms ++ [.enter o w v]) v := by
  obtain ⟨entered, hentered, hv⟩ := Opening.stands_of_enter he []
  obtain ⟨-, hcontexts⟩ := Opening.entries_entrance hentered
  have hx : ∀ o' w' v', Moment.enter o w v = .enter o' w' v' → o'.enter w' = .ok v' := by
    rintro o' w' v' ⟨⟩
    exact he
  have hentries : (Moment.enter o w v).entries = entered.entries := by
    simp only [Moment.entries, hentered]
  have hplace : Mentioned i.settings (ms ++ [.enter o w v]) v.draft.place.context ∧
      ∀ c ∈ entered.entries.flatMap Entry.contexts,
        Mentioned i.settings (ms ++ [.enter o w v]) c := by
    cases hslot : o.functionSlot? with
    | some slot =>
      simp only [hslot] at hcontexts
      have hnamed : Mentioned i.settings (ms ++ [.enter o w v]) v.draft.place.context :=
        mentioned_concat.mpr (.inr (by simp [Moment.addressed, hslot]))
      rw [hcontexts]
      refine ⟨hnamed, fun c hc => ?_⟩
      rw [List.mem_singleton.mp hc, ← hv.context]
      exact hnamed
    | none =>
      simp only [hslot] at hcontexts
      rw [hcontexts.1, hv.context, hcontexts.2]
      exact ⟨h.current.append _, fun c hc => absurd hc List.not_mem_nil⟩
  exact h.concat hx (fun context => (h.posted context).enter he) hplace.1 (hentries ▸ hplace.2)

theorem leave {inner : List Moment} (h : Mentions i ms w) {o : Opening} (he : o.enter w = .ok v)
    {body : Script} (hin : Mentions i (ms ++ inner) (body.run v).2) :
    Mentions i (ms ++ inner ++ [.leave o w (o.perform body.run w).2])
      (o.perform body.run w).2 := by
  refine hin.concat (by simp) (fun context => ?_) ?_ ?_
  · rw [o.draft_perform he body]
    exact (hin.posted context).leave o w (o.perform body.run w).2 w.draft.place
  · rw [o.perform_place body w, List.append_assoc]
    exact h.current.append _
  · exact fun c hc => absurd hc List.not_mem_nil

/-- The context of the constants is there once a constant was used. -/
theorem mem_keys (h : Mentions i ms w) (c : String) :
    c ∈ w.draft.buffers.keys ↔ Mentioned i.settings ms c ∨
      (c = i.settings.constsContext ∧ ms.flatMap Moment.uses ≠ []) := by
  obtain ⟨⟨p, n, hdraft⟩, -⟩ := h.posted ""
  rw [hdraft]
  have hkeys := Draft.mem_keys_post_start i.space i.settings (ms.flatMap Moment.entries) c
  rw [exists_constant_iff, uses_moments, ← or_assoc] at hkeys
  refine hkeys.trans (or_congr_left ?_)
  exact ⟨fun hc => hc.elim .inl (h.asked c), fun hc => hc.imp_right (h.named c)⟩

/-- Later moments take no context away. -/
theorem keys_subset {later : List Moment} (h : Mentions i ms w)
    (hlater : Mentions i (ms ++ later) v) :
    w.draft.buffers.keys ⊆ v.draft.buffers.keys := by
  intro c hc
  rw [h.mem_keys] at hc
  rw [hlater.mem_keys]
  refine hc.imp (·.append later) (And.imp_right fun hused => ?_)
  rw [List.flatMap_append]
  exact List.append_ne_nil_of_left_ne_nil hused _

theorem lines (h : Mentions i ms w) (c : String) :
    (w.draft.buffers.get? c).getD [] =
      (linesOf i.settings (ms.flatMap Moment.entries) c).map (Line.text i) := by
  obtain ⟨⟨p, n, hdraft⟩, -⟩ := h.posted ""
  rw [hdraft]
  exact Draft.getD_post_start i.space i.settings _ c

end Mentions

namespace Script

theorem mentions_states (s : Script) (i : Imprint) :
    let start : Workspace := { draft := .start i.space i.settings }
    Mentions i (s.moments start) (s.run start).2 ∧
    ∀ front x back, s.moments start = front ++ x :: back → Mentions i (front ++ [x]) x.after :=
  s.moments_states (fun _ a _ h => h.act a) (fun _ _ _ _ h he => h.enter he)
    (fun _ _ _ _ _ _ h he hin => h.leave he hin) (.start i)

/-- The contexts after a run on a new draft, whether it failed or not: the default one, those that
steps of the run name, and the one of the constants if a constant was used. -/
theorem mem_keys_run (s : Script) (space : String) (settings : Settings) (c : String) :
    let ms := s.moments { draft := .start space settings }
    c ∈ (s.run { draft := .start space settings }).2.draft.buffers.keys ↔
      c = settings.defaultContext ∨ c ∈ ms.flatMap Moment.addressed ∨
        (c = settings.constsContext ∧ ms.flatMap Moment.uses ≠ []) := by
  have hkeys := (s.mentions_states ⟨space, settings⟩).1.mem_keys c
  rwa [Mentioned, or_assoc] at hkeys

end Script
end CommandPack
