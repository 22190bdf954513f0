import CommandPack.Proofs.QuotedText
import CommandPack.Value

namespace CommandPack

/-! ## Numbers and lists in front of other text -/

namespace Text

/-- Text that does not go on with a number in front of it. -/
def Stops (cs : List Char) : Prop := ∀ c ∈ cs.head?, c.isDigit = false

theorem stops_nil : Stops [] := fun _ hc => nomatch hc

theorem stops_cons {c : Char} (h : c.isDigit = false) (cs : List Char) : Stops (c :: cs) := by
  rintro d hd
  cases hd
  exact h

theorem digits_eq_cons (n : Nat) : ∃ c cs, digits n = c :: cs ∧ c.isDigit = true := by
  obtain ⟨c, cs, hcs⟩ := List.exists_cons_of_ne_nil (digits_ne_nil n)
  exact ⟨c, cs, hcs, isDigit_of_mem_digits (hcs ▸ List.mem_cons_self)⟩

theorem takeWhile_digits_append {rest : List Char} (h : Stops rest) (n : Nat) :
    (digits n ++ rest).takeWhile Char.isDigit = digits n := by
  have hrest : rest.takeWhile Char.isDigit = [] := by
    cases rest with
    | nil => rfl
    | cons c rest =>
      rw [List.takeWhile_cons, h c rfl]
      rfl
  rw [List.takeWhile_append_of_pos fun c hc => isDigit_of_mem_digits hc, hrest, List.append_nil]

/-- The digits of a number and what stands behind them can be told apart. -/
theorem digits_append_injective {m n : Nat} {a b : List Char} (ha : Stops a) (hb : Stops b)
    (h : digits m ++ a = digits n ++ b) : m = n ∧ a = b := by
  have htaken := congrArg (List.takeWhile Char.isDigit) h
  rw [takeWhile_digits_append ha, takeWhile_digits_append hb] at htaken
  obtain rfl := digits_injective htaken
  exact ⟨rfl, List.append_cancel_left h⟩

def behindCommas {α : Type} (written : α → List Char) (xs : List α) : List Char :=
  xs.flatMap fun x => ',' :: written x

def betweenCommas {α : Type} (written : α → List Char) : List α → List Char
  | [] => []
  | x :: xs => written x ++ behindCommas written xs

section Pieces

variable {α : Type} {written : α → List Char} {close : Char} {xs ys : List α} {a b : List Char}

/-- Every piece of the one list can be told from every piece of the other, and from what stands
behind it. -/
def Separate (written : α → List Char) (xs ys : List α) : Prop :=
  ∀ x ∈ xs, ∀ y ∈ ys, ∀ a b, Stops a → Stops b → written x ++ a = written y ++ b → x = y ∧ a = b

theorem stops_behindCommas (hdigit : close.isDigit = false) (xs : List α) (a : List Char) :
    Stops (behindCommas written xs ++ close :: a) := by
  cases xs with
  | nil => exact stops_cons hdigit a
  | cons x xs => exact stops_cons (by decide) _

theorem Separate.tail {x y : α} (h : Separate written (x :: xs) (y :: ys)) :
    Separate written xs ys :=
  fun _ hx _ hy => h _ (List.mem_cons_of_mem _ hx) _ (List.mem_cons_of_mem _ hy)

/-- A comma or the closing bracket tells whether another piece follows. -/
theorem behindCommas_injective (hcomma : close ≠ ',') (hdigit : close.isDigit = false)
    (hpieces : Separate written xs ys)
    (h : behindCommas written xs ++ close :: a = behindCommas written ys ++ close :: b) :
    xs = ys ∧ a = b := by
  induction xs generalizing ys with
  | nil =>
    cases ys with
    | nil => exact ⟨rfl, (List.cons.inj h).2⟩
    | cons y ys => exact absurd (List.cons.inj h).1 hcomma
  | cons x xs ih =>
    cases ys with
    | nil => exact absurd (List.cons.inj h).1.symm hcomma
    | cons y ys =>
      simp only [behindCommas, List.flatMap_cons, List.cons_append, List.append_assoc,
        List.cons.injEq, true_and] at h
      obtain ⟨rfl, hrest⟩ := hpieces x List.mem_cons_self y List.mem_cons_self _ _
        (stops_behindCommas hdigit xs a) (stops_behindCommas hdigit ys b) h
      obtain ⟨rfl, hab⟩ := ih hpieces.tail hrest
      exact ⟨rfl, hab⟩

/-- Pieces up to a closing bracket can be told from their text, if no piece begins with that
bracket. -/
theorem betweenCommas_injective (hcomma : close ≠ ',') (hdigit : close.isDigit = false)
    (hpieces : Separate written xs ys)
    (hclose : ∀ x ∈ xs ++ ys, ∀ front rest, written x ++ front ≠ close :: rest)
    (h : betweenCommas written xs ++ close :: a = betweenCommas written ys ++ close :: b) :
    xs = ys ∧ a = b := by
  cases xs with
  | nil =>
    cases ys with
    | nil => exact ⟨rfl, (List.cons.inj h).2⟩
    | cons y ys =>
      have hfirst : written y ++ (behindCommas written ys ++ close :: b) = close :: a := by
        rw [← List.append_assoc]
        exact h.symm
      exact absurd hfirst (hclose y List.mem_cons_self _ _)
  | cons x xs =>
    cases ys with
    | nil =>
      have hfirst : written x ++ (behindCommas written xs ++ close :: a) = close :: b := by
        rw [← List.append_assoc]
        exact h
      exact absurd hfirst (hclose x List.mem_cons_self _ _)
    | cons y ys =>
      have hcommas : behindCommas written (x :: xs) ++ close :: a =
          behindCommas written (y :: ys) ++ close :: b := congrArg (',' :: ·) h
      exact behindCommas_injective hcomma hdigit hpieces hcommas

end Pieces

end Text

namespace Value

/-! ## Parts of values -/

theorem sizeOf_field_lt {f : String × Value} {fields : List (String × Value)} (h : f ∈ fields) :
    sizeOf f.2 < sizeOf fields := by
  have hfield : sizeOf f.2 < sizeOf f := by
    cases f
    simp only [Prod.mk.sizeOf_spec]
    omega
  exact Nat.lt_trans hfield (List.sizeOf_lt_of_mem h)

/-- Induction on the structure of a value: lists by their items, records by the values in them. -/
theorem induction {P : Value → Prop} (null : P .null) (flag : ∀ b, P (.flag b))
    (whole : ∀ n, P (.whole n)) (double : ∀ x, P (.double x)) (single : ∀ x, P (.single x))
    (text : ∀ s, P (.text s)) (list : ∀ items, (∀ v ∈ items, P v) → P (.list items))
    (record : ∀ fields, (∀ f ∈ fields, P f.2) → P (.record fields)) : ∀ v, P v
  | .null => null
  | .flag b => flag b
  | .whole n => whole n
  | .double x => double x
  | .single x => single x
  | .text s => text s
  | .list items => list items fun v _ =>
      induction null flag whole double single text list record v
  | .record fields => record fields fun f _ =>
      induction null flag whole double single text list record f.2
termination_by v => sizeOf v
decreasing_by
  · rename_i hv
    have hsize := List.sizeOf_lt_of_mem hv
    simp only [Value.list.sizeOf_spec]
    omega
  · rename_i hf
    have hsize := sizeOf_field_lt hf
    simp only [Value.record.sizeOf_spec]
    omega

inductive Inside : Value → Value → Prop
  | self (v : Value) : Inside v v
  | item {part v : Value} {items : List Value} (mem : v ∈ items) (inside : Inside part v) :
    Inside part (.list items)
  | field {part : Value} {f : String × Value} {fields : List (String × Value)} (mem : f ∈ fields)
    (inside : Inside part f.2) : Inside part (.record fields)

/-- No floating-point number stands inside the value. -/
structure Exact (v : Value) : Prop where
  doubles : ∀ x, ¬ Inside (.double x) v
  singles : ∀ x, ¬ Inside (.single x) v

theorem Exact.list {items : List Value} (h : ∀ v ∈ items, v.Exact) : (Value.list items).Exact := by
  constructor
  · rintro x (_ | ⟨mem, inside⟩)
    exact (h _ mem).doubles x inside
  · rintro x (_ | ⟨mem, inside⟩)
    exact (h _ mem).singles x inside

theorem Exact.record {fields : List (String × Value)} (h : ∀ f ∈ fields, f.2.Exact) :
    (Value.record fields).Exact := by
  constructor
  · rintro x (_ | _ | ⟨mem, inside⟩)
    exact (h _ mem).doubles x inside
  · rintro x (_ | _ | ⟨mem, inside⟩)
    exact (h _ mem).singles x inside

theorem Exact.item {items : List Value} (h : (Value.list items).Exact) {v : Value}
    (hv : v ∈ items) : v.Exact :=
  ⟨fun x hx => h.doubles x (.item hv hx), fun x hx => h.singles x (.item hv hx)⟩

theorem Exact.field {fields : List (String × Value)} (h : (Value.record fields).Exact)
    {f : String × Value} (hf : f ∈ fields) : f.2.Exact :=
  ⟨fun x hx => h.doubles x (.field hf hx), fun x hx => h.singles x (.field hf hx)⟩

/-! ## The first character -/

/-- What the first character of a written value tells. -/
inductive Kind
  | null | flag | whole | decimal | text | list | record
deriving DecidableEq, Repr

def kind : Value → Kind
  | .null => .null
  | .flag _ => .flag
  | .whole _ => .whole
  | .double _ | .single _ => .decimal
  | .text _ => .text
  | .list _ => .list
  | .record _ => .record

def Kind.ofFirst? (c : Char) : Option Kind :=
  if c = 'n' then some .null
  else if c = 't' ∨ c = 'f' then some .flag
  else if c = '-' ∨ c.isDigit then some .whole
  else if c = '"' then some .text
  else if c = '[' then some .list
  else if c = '\x7b' then some .record
  else none

theorem ofFirst?_of_isDigit {c : Char} (h : c.isDigit = true) : Kind.ofFirst? c = some .whole := by
  have hne {d : Char} (hd : d.isDigit = false) : c ≠ d := by
    rintro rfl
    rw [h] at hd
    nomatch hd
  simp [Kind.ofFirst?, h, hne (d := 'n'), hne (d := 't'), hne (d := 'f')]

theorem wholeChars_eq_cons (n : Int) :
    ∃ c cs, wholeChars n = c :: cs ∧ Kind.ofFirst? c = some .whole := by
  cases n with
  | ofNat n =>
    obtain ⟨c, cs, hcs, hc⟩ := Text.digits_eq_cons n
    exact ⟨c, cs, hcs, ofFirst?_of_isDigit hc⟩
  | negSucc n => exact ⟨'-', Text.digits (n + 1), rfl, by decide⟩

/-- A value without floating-point numbers shows its kind in its first character. -/
theorem Exact.chars_eq_cons {v : Value} (h : v.Exact) :
    ∃ c cs, v.chars = c :: cs ∧ Kind.ofFirst? c = some v.kind := by
  cases v with
  | null => exact ⟨'n', _, rfl, by decide⟩
  | flag b => cases b <;> exact ⟨_, _, rfl, by decide⟩
  | whole n => exact wholeChars_eq_cons n
  | double x => exact absurd (.self _) (h.doubles x)
  | single x => exact absurd (.self _) (h.singles x)
  | text s => exact ⟨'"', _, rfl, rfl⟩
  | list items => exact ⟨'[', _, rfl, rfl⟩
  | record fields => exact ⟨'\x7b', _, rfl, rfl⟩

/-- No value begins with a closing bracket. -/
theorem Exact.ne_close {v : Value} (h : v.Exact) (front rest : List Char) :
    v.chars ++ front ≠ ']' :: rest := by
  obtain ⟨c, cs, hchars, hc⟩ := h.chars_eq_cons
  rw [hchars]
  intro hclose
  obtain rfl := (List.cons.inj hclose).1
  exact Option.some_ne_none _ hc.symm

/-- Values with the same text in front of other text are of one kind. -/
theorem Exact.kind_eq {v w : Value} (hv : v.Exact) (hw : w.Exact) {a b : List Char}
    (h : v.chars ++ a = w.chars ++ b) : v.kind = w.kind := by
  obtain ⟨c, cs, hchars, hc⟩ := hv.chars_eq_cons
  obtain ⟨d, ds, hchars', hd⟩ := hw.chars_eq_cons
  rw [hchars, hchars', List.cons_append, List.cons_append] at h
  obtain rfl := (List.cons.inj h).1
  exact Option.some.inj (hc.symm.trans hd)

/-! ## Reading values from their text -/

/-- A whole number is told from what stands behind it by its sign and its digits. -/
theorem wholeChars_append_injective {m n : Int} {a b : List Char} (ha : Text.Stops a)
    (hb : Text.Stops b) (h : wholeChars m ++ a = wholeChars n ++ b) : m = n ∧ a = b := by
  have hsign (k l : Nat) (a b : List Char) : Text.digits k ++ a ≠ '-' :: (Text.digits l ++ b) := by
    obtain ⟨c, cs, hcs, hc⟩ := Text.digits_eq_cons k
    rw [hcs, List.cons_append]
    intro hsame
    obtain rfl := (List.cons.inj hsame).1
    exact absurd hc (by decide)
  cases m with
  | ofNat m =>
    cases n with
    | ofNat n =>
      obtain ⟨rfl, hab⟩ := Text.digits_append_injective ha hb h
      exact ⟨rfl, hab⟩
    | negSucc n => exact absurd h (hsign m (n + 1) a b)
  | negSucc m =>
    cases n with
    | ofNat n => exact absurd h.symm (hsign n (m + 1) b a)
    | negSucc n =>
      obtain ⟨hmn, hab⟩ := Text.digits_append_injective ha hb (List.cons.inj h).2
      exact ⟨congrArg Int.negSucc (Nat.succ.inj hmn), hab⟩

def fieldChars (f : String × Value) : List Char := Text.quotedChars f.1.toList ++ ':' :: f.2.chars

theorem itemsChars_eq (items : List Value) :
    itemsChars items = Text.betweenCommas chars items := by
  have hmore (items : List Value) : moreItemsChars items = Text.behindCommas chars items := by
    induction items with
    | nil => rfl
    | cons v items ih =>
      rw [moreItemsChars, ih]
      rfl
  cases items with
  | nil => rfl
  | cons v items => rw [itemsChars, hmore, Text.betweenCommas]

theorem fieldsChars_eq (fields : List (String × Value)) :
    fieldsChars fields = Text.betweenCommas fieldChars fields := by
  have hmore (fields : List (String × Value)) :
      moreFieldsChars fields = Text.behindCommas fieldChars fields := by
    induction fields with
    | nil => rfl
    | cons f fields ih =>
      rw [moreFieldsChars, ih]
      simp [Text.behindCommas, fieldChars]
  cases fields with
  | nil => rfl
  | cons f fields =>
    rw [fieldsChars, hmore, Text.betweenCommas]
    simp [fieldChars]

/-- A value without floating-point numbers can be told from its written form and from what stands
behind it, if that does not go on with a number. -/
theorem Exact.chars_append_injective {v w : Value} (hv : v.Exact) (hw : w.Exact) {a b : List Char}
    (ha : Text.Stops a) (hb : Text.Stops b) (h : v.chars ++ a = w.chars ++ b) : v = w ∧ a = b := by
  induction v using Value.induction generalizing w a b with
  | null =>
    cases w with
    | null => exact ⟨rfl, List.append_cancel_left h⟩
    | _ => nomatch hv.kind_eq hw h
  | flag x =>
    cases w with
    | flag y =>
      cases x <;> cases y <;> simp_all [chars, flagChars]
    | _ => nomatch hv.kind_eq hw h
  | whole m =>
    cases w with
    | whole n =>
      obtain ⟨rfl, hab⟩ := wholeChars_append_injective ha hb h
      exact ⟨rfl, hab⟩
    | _ => nomatch hv.kind_eq hw h
  | double x => exact absurd (.self _) (hv.doubles x)
  | single x => exact absurd (.self _) (hv.singles x)
  | text s =>
    cases w with
    | text t =>
      obtain ⟨hst, hab⟩ := Text.quotedChars_append_injective h
      exact ⟨congrArg Value.text (String.toList_inj.mp hst), hab⟩
    | _ => nomatch hv.kind_eq hw h
  | list items ih =>
    cases w with
    | list items' =>
      have hpieces : Text.Separate chars items items' := fun x hx y hy _ _ ha hb hxy =>
        ih x hx (hv.item hx) (hw.item hy) ha hb hxy
      have hclose : ∀ x ∈ items ++ items', ∀ front rest, x.chars ++ front ≠ ']' :: rest :=
        List.forall_mem_append.mpr
          ⟨fun x hx => (hv.item hx).ne_close, fun x hx => (hw.item hx).ne_close⟩
      simp only [chars, List.cons_append, List.append_assoc, List.cons.injEq, true_and,
        itemsChars_eq, List.nil_append] at h
      obtain ⟨rfl, hab⟩ :=
        Text.betweenCommas_injective (by decide) (by decide) hpieces hclose h
      exact ⟨rfl, hab⟩
    | _ => nomatch hv.kind_eq hw h
  | record fields ih =>
    cases w with
    | record fields' =>
      have hpieces : Text.Separate fieldChars fields fields' := by
        intro f hf g hg a b ha hb hfg
        simp only [fieldChars, List.append_assoc, List.cons_append] at hfg
        obtain ⟨hkey, hrest⟩ := Text.quotedChars_append_injective hfg
        obtain ⟨hvalue, hab⟩ :=
          ih f hf (hv.field hf) (hw.field hg) ha hb (List.cons.inj hrest).2
        exact ⟨Prod.ext (String.toList_inj.mp hkey) hvalue, hab⟩
      have hclose : ∀ f ∈ fields ++ fields', ∀ front rest,
          fieldChars f ++ front ≠ '\x7d' :: rest := by
        intro f _ front rest hchars
        exact absurd (List.cons.inj hchars).1 (by decide)
      simp only [chars, List.cons_append, List.append_assoc, List.cons.injEq, true_and,
        fieldsChars_eq, List.nil_append] at h
      obtain ⟨rfl, hab⟩ :=
        Text.betweenCommas_injective (by decide) (by decide) hpieces hclose h
      exact ⟨rfl, hab⟩
    | _ => nomatch hv.kind_eq hw h

/-- Values without floating-point numbers are never written alike. -/
theorem written_injective {v w : Value} (hv : v.Exact) (hw : w.Exact)
    (h : v.written = w.written) : v = w := by
  have hchars : v.chars ++ [] = w.chars ++ [] := congrArg (· ++ []) (String.ofList_injective h)
  exact (hv.chars_append_injective hw Text.stops_nil Text.stops_nil hchars).1

end Value
end CommandPack
