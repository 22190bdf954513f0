import CommandPack.Proofs.Moments

namespace CommandPack

/-! ## What a step puts around a script -/

/-- The constants that are declared on the way in, and the text in front of the lines inside. -/
structure Wrap where
  constants : List Int32
  fragment : String
deriving DecidableEq, Repr

namespace Wrap

def ofCondition (constObjective : String) (c : Condition Score) : Wrap :=
  ⟨c.literals, c.guard constObjective⟩

def join (us : List Wrap) : Wrap := ⟨us.flatMap constants, String.join (us.map fragment)⟩

theorem join_cons (u : Wrap) (us : List Wrap) :
    join (u :: us) = ⟨u.constants ++ (join us).constants, u.fragment ++ (join us).fragment⟩ := by
  simp [join]

end Wrap

/-- What a step with scopes puts around its script. A function puts nothing around it, and a step
that uses an empty slot has no script to run. -/
def Opening.wrap? (o : Opening) (h : Handles) (constObjective : String) : Option Wrap :=
  match o with
  | .scope fragment => some ⟨[], fragment⟩
  | .nest fragments => some ⟨[], String.join fragments⟩
  | .when _ | .whenScore _ _ => (o.condition? h).map (.ofCondition constObjective)
  | .forEach slot => (h.selector? slot).map fun s => ⟨[], s.guard⟩
  | .function _ _ | .anonymousFunction _ | .tick _ => none

namespace Script

def nested (os : List Opening) (body : Script) : Script := os.foldr within body

def declaring (ns : List Int32) : Script := ofActions (ns.map .constant)

end Script

/-! ## Constants that are declared already -/

namespace ConstantPool

/-- A use of the number makes no declaration. -/
def Declares (p : ConstantPool) (n : Int32) : Prop := p.objective.claimed = true ∧ n ∈ p.values

variable {p : ConstantPool} {n : Int32}

theorem declares_register (p : ConstantPool) (n : Int32) : (p.register n).2.Declares n := by
  refine ⟨rfl, ?_⟩
  rw [values_register]
  split <;> simp_all

theorem Declares.register (h : p.Declares n) (m : Int32) : (p.register m).2.Declares n := by
  refine ⟨rfl, ?_⟩
  rw [values_register]
  split
  · exact h.2
  · exact List.mem_append_left _ h.2

/-- A number that is declared is registered without any change. -/
theorem register_of_declares (h : p.Declares n) : p.register n = (⟨false, false⟩, p) := by
  obtain ⟨⟨claimed⟩, values⟩ := p
  obtain ⟨hclaimed, hn⟩ := h
  simp only at hclaimed hn
  simp [ConstantPool.register, Once.claim, hclaimed, hn]

end ConstantPool

namespace Draft

variable {d : Draft} {n : Int32}

theorem requireConstant_of_declares (h : d.constants.Declares n) : d.requireConstant n = d := by
  simp [requireConstant, ConstantPool.register_of_declares h]

theorem requireConstants_of_declares {ns : List Int32} (h : ∀ n ∈ ns, d.constants.Declares n) :
    d.requireConstants ns = d := by
  induction ns with
  | nil => rfl
  | cons n ns ih =>
    have hhead : d.requireConstant n = d := requireConstant_of_declares (h n List.mem_cons_self)
    change (d.requireConstant n).requireConstants ns = d
    rw [hhead]
    exact ih fun m hm => h m (List.mem_cons_of_mem _ hm)

theorem declares_post (h : d.constants.Declares n) (es : List Entry) :
    (d.post es).constants.Declares n := by
  induction es generalizing d with
  | nil => exact h
  | cons e es ih =>
    have hstep : (d.post [e]).constants.Declares n := by
      cases e with
      | constant m => exact h.register m
      | touch _ | append _ _ | prepend _ _ | objective => exact h
    rw [post_cons]
    exact ih hstep

theorem declares_requireConstants (d : Draft) {ns : List Int32} (hn : n ∈ ns) :
    (d.requireConstants ns).constants.Declares n := by
  induction ns generalizing d with
  | nil => exact absurd hn List.not_mem_nil
  | cons m ns ih =>
    change ((d.requireConstant m).requireConstants ns).constants.Declares n
    rcases List.mem_cons.mp hn with rfl | hn
    · have hhead : (d.requireConstant n).constants.Declares n := by
        rw [requireConstant_eq_post]
        exact d.constants.declares_register n
      rw [requireConstants_eq_post]
      exact declares_post hhead _
    · exact ih _ hn

end Draft

/-! ## Running a wrapped script -/

namespace Workspace

def inside (w : Workspace) (u : Wrap) : Workspace :=
  w.withDraft ((w.draft.requireConstants u.constants).openScope u.fragment)

theorem inside_eq_record (w : Workspace) (u : Wrap) :
    w.inside u = (w.record (u.constants.map .constant) w.memory).moveTo
      ⟨w.draft.place.context, w.draft.place.scopes.push u.fragment⟩ := by
  rw [inside, Draft.requireConstants_eq_post]
  rfl

theorem place_inside (w : Workspace) (u : Wrap) :
    (w.inside u).draft.place = ⟨w.draft.place.context, w.draft.place.scopes.push u.fragment⟩ := by
  rw [inside_eq_record]
  rfl

end Workspace

/-- The result of a script inside a wrap, and the workspace back at the place before. -/
def Wrap.run (u : Wrap) (s : Script) (w : Workspace) : Except BuildError Unit × Workspace :=
  let step := s.run (w.inside u)
  (step.1, step.2.moveTo w.draft.place)

/-- Of the open scopes, only their joined text matters to a run. -/
theorem Script.run_moveTo (s : Script) (w : Workspace) {p q : Place}
    (hcontext : p.context = q.context) (htext : p.scopes.text = q.scopes.text) :
    s.run (w.moveTo q) = ((s.run (w.moveTo p)).1, (s.run (w.moveTo p)).2.moveTo q) := by
  have hsite : (w.moveTo q).draft.site [] = (w.moveTo p).draft.site [] := by
    change (⟨_, q.context, q.scopes.text, []⟩ : Site) = ⟨_, p.context, p.scopes.text, []⟩
    rw [hcontext, htext]
    rfl
  rw [s.run_records (w.moveTo q) [], s.run_records (w.moveTo p) [], hsite]
  rfl

/-- A run leads back to where it started, so nothing changes if it is sent back there. -/
theorem Script.moveTo_run (s : Script) (w : Workspace) :
    ((s.run w).1, (s.run w).2.moveTo w.draft.place) = s.run w := by
  rw [s.run_records w []]
  rfl

/-- Two places with the same context and the same text in front are as good as each other for a
script that is sent back to where it is called. -/
theorem Script.run_back (s : Script) (w : Workspace) {p q : Place}
    (hcontext : p.context = q.context) (htext : p.scopes.text = q.scopes.text) (back : Place) :
    ((s.run (w.moveTo q)).1, (s.run (w.moveTo q)).2.moveTo back) =
      ((s.run (w.moveTo p)).1, (s.run (w.moveTo p)).2.moveTo back) := by
  rw [s.run_moveTo w hcontext htext]
  rfl

theorem foldl_append_join (fragments : List String) (text : String) :
    fragments.foldl (· ++ ·) text = text ++ String.join fragments := by
  induction fragments generalizing text with
  | nil => simp
  | cons f fs ih => rw [List.foldl_cons, ih, String.join_cons, String.append_assoc]

namespace Opening

variable {o : Opening} {w : Workspace} {u : Wrap}

theorem functionSlot?_of_wrap? {h : Handles} {constObjective : String}
    (hu : o.wrap? h constObjective = some u) : o.functionSlot? = none := by
  cases o with
  | function name slot | anonymousFunction slot | tick slot => nomatch hu
  | scope _ | nest _ | when _ | whenScore _ _ | forEach _ => rfl

/-- A step with scopes is entered with the text of its wrap in front. -/
theorem enter_of_wrap? (hu : o.wrap? w.handles w.draft.settings.constObjective = some u) :
    ∃ scopes, scopes.text = w.draft.place.scopes.text ++ u.fragment ∧
      o.enter w = .ok ((w.inside u).moveTo ⟨w.draft.place.context, scopes⟩) := by
  -- All but one of these steps push the fragment of their wrap as it is.
  have hpushed (v : Workspace) (hv : v = w.inside u) :
      ∃ scopes, scopes.text = w.draft.place.scopes.text ++ u.fragment ∧
        Except.ok v = (.ok ((w.inside u).moveTo ⟨w.draft.place.context, scopes⟩) :
          Except Outcome Workspace) := by
    refine ⟨w.draft.place.scopes.push u.fragment, rfl, ?_⟩
    rw [hv, ← w.place_inside u]
    rfl
  cases o with
  | scope fragment =>
    cases hu
    exact hpushed _ rfl
  | nest fragments =>
    cases hu
    refine ⟨fragments.foldl ScopeStack.push w.draft.place.scopes, ?_, ?_⟩
    · rw [ScopeStack.text_foldl_push, foldl_append_join]
    · simp only [enter, Draft.foldl_openScope]
      rfl
  | when c =>
    obtain ⟨d, hd, rfl⟩ := Option.map_eq_some_iff.mp hu
    have hfound : c.resolve w.handles.score? = some d := hd
    simp only [enter, hfound]
    exact hpushed _ rfl
  | whenScore slot c =>
    obtain ⟨d, hd, rfl⟩ := Option.map_eq_some_iff.mp hu
    obtain ⟨self, hself, hfound⟩ := Option.bind_eq_some_iff.mp hd
    simp only [enter, hself, hfound]
    exact hpushed _ rfl
  | forEach slot =>
    obtain ⟨s, hs, rfl⟩ := Option.map_eq_some_iff.mp hu
    simp only [enter, hs]
    exact hpushed _ rfl
  | function name slot | anonymousFunction slot | tick slot => cases hu

end Opening

namespace Script

variable {o : Opening} {w : Workspace} {u : Wrap} {us : List Wrap} {os : List Opening}

/-- A step with scopes runs its script inside its wrap. -/
theorem run_within (hu : o.wrap? w.handles w.draft.settings.constObjective = some u) (P : Script) :
    (within o P).run w = u.run P w := by
  obtain ⟨scopes, htext, hv⟩ := Opening.enter_of_wrap? hu
  have hslot := Opening.functionSlot?_of_wrap? hu
  have hdraft := Opening.draft_perform hv P
  have hresult : (within o P).run w =
      ((P.run ((w.inside u).moveTo ⟨w.draft.place.context, scopes⟩)).1,
        (P.run ((w.inside u).moveTo ⟨w.draft.place.context, scopes⟩)).2.moveTo w.draft.place) := by
    simp only [within, run, Opening.perform, hv] at hdraft ⊢
    generalize P.run ((w.inside u).moveTo ⟨w.draft.place.context, scopes⟩) = step at hdraft ⊢
    obtain ⟨result, after⟩ := step
    cases result with
    | error e =>
      simp only [Opening.close, Opening.leave, hslot, Outcome.stop?] at hdraft ⊢
      exact congrArg (fun d => (_, after.withDraft d)) hdraft
    | ok v =>
      simp only [Opening.close, Opening.keep, Opening.leave, hslot, Outcome.stop?] at hdraft ⊢
      exact congrArg (fun d => (_, after.withDraft d)) hdraft
  rw [hresult]
  have hplace := w.place_inside u
  refine P.run_back (w.inside u) (p := (w.inside u).draft.place) ?_ ?_ w.draft.place
  · rw [hplace]
  · rw [hplace, htext]
    rfl

theorem run_declaring (ns : List Int32) (w : Workspace) :
    (declaring ns).run w = (.ok (), w.withDraft (w.draft.requireConstants ns)) := by
  induction ns generalizing w with
  | nil => rfl
  | cons n ns ih => exact ih (w.withDraft (w.draft.requireConstant n))

theorem run_nil_wrap (P : Script) (w : Workspace) : Wrap.run ⟨[], ""⟩ P w = P.run w := by
  have htext : w.draft.place.scopes.text = (w.draft.place.scopes.push "").text :=
    String.append_empty.symm
  exact (P.run_back w (p := w.draft.place)
    (q := ⟨w.draft.place.context, w.draft.place.scopes.push ""⟩) rfl htext w.draft.place).trans
    (P.moveTo_run w)

/-- A wrap is its constants and then a scope with its fragment. -/
theorem run_declaring_scope (u : Wrap) (P : Script) (w : Workspace) :
    (declaring u.constants ++ within (.scope u.fragment) P).run w = u.run P w := by
  have hscope (v : Workspace) :
      (within (.scope u.fragment) P).run v = Wrap.run ⟨[], u.fragment⟩ P v := run_within rfl P
  have hplace : (w.draft.requireConstants u.constants).place = w.draft.place := by
    rw [Draft.requireConstants_eq_post]
    rfl
  rw [run_append, run_declaring]
  simp only [hscope, Wrap.run, Workspace.withDraft, hplace]
  rfl

/-- A wrap inside another one is the two of them joined. -/
theorem run_wrap_wrap (u v : Wrap) {s : Script} (P : Script) (w : Workspace)
    (hs : s.run (w.inside u) = v.run P (w.inside u)) :
    u.run s w = Wrap.run ⟨u.constants ++ v.constants, u.fragment ++ v.fragment⟩ P w := by
  have hinside : (w.inside u).inside v =
      (w.inside ⟨u.constants ++ v.constants, u.fragment ++ v.fragment⟩).moveTo
        ⟨w.draft.place.context, (w.draft.place.scopes.push u.fragment).push v.fragment⟩ := by
    rw [Workspace.inside_eq_record, w.inside_eq_record, w.inside_eq_record, List.map_append,
      ← Workspace.record_record]
    rfl
  have htext : (w.draft.place.scopes.push (u.fragment ++ v.fragment)).text =
      ((w.draft.place.scopes.push u.fragment).push v.fragment).text :=
    String.append_assoc.symm
  have hback := P.run_back (w.inside ⟨u.constants ++ v.constants, u.fragment ++ v.fragment⟩)
    (p := ⟨w.draft.place.context, w.draft.place.scopes.push (u.fragment ++ v.fragment)⟩)
    (q := ⟨w.draft.place.context, (w.draft.place.scopes.push u.fragment).push v.fragment⟩)
    rfl htext w.draft.place
  rw [← hinside, ← w.place_inside ⟨u.constants ++ v.constants, u.fragment ++ v.fragment⟩] at hback
  rw [Wrap.run, hs]
  exact hback

/-- Steps with scopes around a script are the single wrap that their wraps join to. -/
theorem run_nested (hos : os.map (·.wrap? w.handles w.draft.settings.constObjective) = us.map some)
    (P : Script) : (nested os P).run w = (Wrap.join us).run P w := by
  induction os generalizing us w with
  | nil =>
    obtain rfl : us = [] := List.map_eq_nil_iff.mp hos.symm
    exact (run_nil_wrap P w).symm
  | cons o os ih =>
    cases us with
    | nil => nomatch hos
    | cons u us =>
      obtain ⟨hu, hus⟩ := List.cons.inj hos
      rw [Wrap.join_cons, ← run_wrap_wrap u (.join us) P w]
      · exact run_within hu _
      · refine ih ?_
        rw [w.inside_eq_record u]
        exact hus

theorem declares_run {n : Int32} (h : w.draft.constants.Declares n) (s : Script) :
    (s.run w).2.draft.constants.Declares n := by
  rw [s.run_records w []]
  exact Draft.declares_post h _

/-- A script that goes on inside a wrap may as well go on inside the same wrap opened again. -/
theorem run_append_wrap {P : Script} (hP : (u.run P w).1 = .ok ()) (Q : Script) :
    u.run (P ++ Q) w = u.run Q (u.run P w).2 := by
  have hplace : (P.run (w.inside u)).2.draft.place = (w.inside u).draft.place := P.run_place _
  have hdeclared : ∀ n ∈ u.constants, (P.run (w.inside u)).2.draft.constants.Declares n :=
    fun n hn => declares_run (w.draft.declares_requireConstants hn) P
  -- The constants are declared already and the scope is put back, so nothing is new inside.
  have hagain : (u.run P w).2.inside u = (P.run (w.inside u)).2 := by
    have hdraft : (u.run P w).2.draft.requireConstants u.constants = (u.run P w).2.draft :=
      Draft.requireConstants_of_declares hdeclared
    rw [Workspace.inside, hdraft]
    change (P.run (w.inside u)).2.moveTo
      ⟨w.draft.place.context, w.draft.place.scopes.push u.fragment⟩ = _
    rw [← hplace.trans (w.place_inside u)]
    rfl
  have hresult : P.run (w.inside u) = (.ok (), (P.run (w.inside u)).2) := Prod.ext hP rfl
  simp only [Wrap.run] at hagain ⊢
  rw [run_append, hresult]
  simp only [hagain]
  rfl

/-- Steps with scopes may as well be opened again for what goes on inside them, if the slots that
they use still hold the same. -/
theorem run_nested_append {P : Script}
    (hos : os.map (·.wrap? w.handles w.draft.settings.constObjective) = us.map some)
    (hP : ((nested os P).run w).1 = .ok ())
    (hagain : os.map (·.wrap? ((nested os P).run w).2.handles w.draft.settings.constObjective) =
      us.map some) (Q : Script) :
    (nested os (P ++ Q)).run w = (nested os P ++ nested os Q).run w := by
  have hsettings : ((nested os P).run w).2.draft.settings = w.draft.settings := by
    rw [(nested os P).run_records w []]
    rfl
  have hQ : (nested os Q).run ((nested os P).run w).2 =
      (Wrap.join us).run Q ((nested os P).run w).2 := by
    refine run_nested ?_ Q
    rw [hsettings]
    exact hagain
  have hsplit : (nested os P).run w = (.ok (), ((nested os P).run w).2) := Prod.ext hP rfl
  rw [run_append, hsplit]
  simp only [hQ]
  rw [run_nested hos] at hP ⊢
  rw [run_nested hos, run_append_wrap hP]

/-- A single scope has a wrap whatever slots are filled. -/
theorem wraps_scopes (fragments : List String) (h : Handles) (constObjective : String) :
    (fragments.map Opening.scope).map (·.wrap? h constObjective) =
      (fragments.map (⟨[], ·⟩ : String → Wrap)).map some := by
  rw [List.map_map, List.map_map]
  rfl

/-- Scopes compose and distribute. Scopes inside each other have the same result and leave the same
workspace as one scope with their fragments put together, which for no scopes is the script as it
is. A scope around two scripts, if the first one does not fail, is a scope around each of them. A
condition or a repetition is the declaration of its constants, in their order, and then the scope of
its fragment; so the same holds for steps of all kinds inside each other, as long as the slots that
they use hold the same when they are opened again. -/
theorem scopes_compose (P Q : Script) (w : Workspace) :
    let wraps (os : List Opening) (h : Handles) :=
      os.map (·.wrap? h w.draft.settings.constObjective)
    (∀ fragments : List String,
      (nested (fragments.map .scope) P).run w =
        (within (.scope (String.join fragments)) P).run w) ∧
    (within (.scope "") P).run w = P.run w ∧
    (∀ fragment, ((within (.scope fragment) P).run w).1 = .ok () →
      (within (.scope fragment) (P ++ Q)).run w =
        (within (.scope fragment) P ++ within (.scope fragment) Q).run w) ∧
    (∀ o u, o.wrap? w.handles w.draft.settings.constObjective = some u →
      (within o P).run w = (declaring u.constants ++ within (.scope u.fragment) P).run w) ∧
    ∀ os us, wraps os w.handles = us.map some →
      let joined := Wrap.join us
      let after := ((nested os P).run w).2
      (nested os P).run w =
        (declaring joined.constants ++ within (.scope joined.fragment) P).run w ∧
      (((nested os P).run w).1 = .ok () → wraps os after.handles = us.map some →
        (nested os (P ++ Q)).run w = (nested os P ++ nested os Q).run w) := by
  intro wraps
  refine ⟨fun fragments => ?_, ?_, fun fragment hP => ?_, fun o u hu => ?_, fun os us hos => ?_⟩
  · have hjoin : Wrap.join (fragments.map (⟨[], ·⟩)) = ⟨[], String.join fragments⟩ := by
      simp [Wrap.join, Function.comp_def]
    rw [run_nested (wraps_scopes fragments _ _), hjoin]
    exact (run_within rfl P).symm
  · rw [run_within (u := ⟨[], ""⟩) rfl, run_nil_wrap]
  · have hwraps := wraps_scopes [fragment]
    exact run_nested_append (hwraps _ _) hP (hwraps _ _) Q
  · rw [run_within hu, run_declaring_scope]
  · exact ⟨by rw [run_nested hos, run_declaring_scope],
      fun hP hagain => run_nested_append hos hP hagain Q⟩

def filledSlots : Script :=
  .act (.variable "x" none) false <|
  .act (.selector "team" { filters := { team := some "red" }, atPlace := true }) false .done

def mixed : List Opening :=
  [.scope "execute in the_nether run ", .whenScore "x" ⟨.condition (.score "$") .less (.literal 9),
    .equal, .literal 4⟩, .forEach "team", .nest ["", "execute at @p run "]]

def failingInside : Script :=
  .act (.change "x" (.multiply 4)) false <|
  .inside (.function "deep" none) true
    (.inside (.scope "execute at @s run ") false
      (.act (.variable "no name" none) false .done) .done)
    .done

theorem scopes_compose_mixed :
    let w := (filledSlots.run { draft := .start "demo" {} }).2
    let u : Wrap := ⟨[9, 4], "execute in the_nether run " ++
      "execute if score x var < 9 const = 4 const run " ++
      "execute as @a[team=red] at @s run execute at @p run "⟩
    (nested mixed failingInside).run w =
      (declaring u.constants ++ within (.scope u.fragment) failingInside).run w ∧
    ((nested mixed failingInside).run w).1 = .ok () ∧
    (nested mixed (failingInside ++ .act (.emit "say last") false .done)).run w =
      (nested mixed failingInside ++ nested mixed (.act (.emit "say last") false .done)).run w ∧
    ((nested mixed failingInside).run w).2.draft.buffers.get? "default" =
      some ["scoreboard objectives add const dummy", "function demo:consts",
        "scoreboard objectives add var dummy",
        u.fragment ++ "scoreboard players operation x var *= 4 const"] := by
  intro w u
  let us : List Wrap :=
    [⟨[], "execute in the_nether run "⟩,
      ⟨[9, 4], "execute if score x var < 9 const = 4 const run "⟩,
      ⟨[], "execute as @a[team=red] at @s run "⟩, ⟨[], "execute at @p run "⟩]
  have hmixed : mixed.map (·.wrap? w.handles w.draft.settings.constObjective) = us.map some := by
    decide +kernel
  have hok : ((nested mixed failingInside).run w).1 = .ok () := rfl
  have hagain : mixed.map (·.wrap? ((nested mixed failingInside).run w).2.handles
      w.draft.settings.constObjective) = us.map some := by
    decide +kernel
  obtain ⟨-, -, -, -, hmany⟩ := scopes_compose failingInside (.act (.emit "say last") false .done) w
  obtain ⟨hjoin, hdistribute⟩ := hmany mixed us hmixed
  have hu : Wrap.join us = u := by decide +kernel
  rw [hu] at hjoin
  exact ⟨hjoin, hok, hdistribute hok hagain, by decide +kernel⟩

end Script
end CommandPack
