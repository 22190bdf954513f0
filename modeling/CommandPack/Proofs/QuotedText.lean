import CommandPack.Text.Quoted

namespace CommandPack.Text

def hexValue? (c : Char) : Option Nat :=
  if c.isDigit then some (c.toNat - 48)
  else if 'a' ≤ c ∧ c ≤ 'f' then some (c.toNat - 87)
  else if 'A' ≤ c ∧ c ≤ 'F' then some (c.toNat - 55)
  else none

/-- The character with this number in four hexadecimal digits. The halves of a character that needs
two numbers are not read. -/
def numbered? (a b c d : Char) : Option Char := do
  let n := (((← hexValue? a) * 16 + (← hexValue? b)) * 16 + (← hexValue? c)) * 16 + (← hexValue? d)
  if n.isValidChar then some (Char.ofNat n) else none

def lettered? : Char → Option Char
  | '"' => some '"'
  | '\\' => some '\\'
  | '/' => some '/'
  | 'b' => some '\x08'
  | 'f' => some '\x0c'
  | 'n' => some '\n'
  | 'r' => some '\r'
  | 't' => some '\t'
  | _ => none

/-- The text up to the closing quotation mark, and what stands behind the mark. Control characters
have to be escaped. -/
def readInside? : List Char → Option (List Char × List Char)
  | [] => none
  | '"' :: rest => some ([], rest)
  | '\\' :: 'u' :: a :: b :: c :: d :: rest => do
    let char ← numbered? a b c d
    let (text, behind) ← readInside? rest
    return (char :: text, behind)
  | '\\' :: letter :: rest => do
    let char ← lettered? letter
    let (text, behind) ← readInside? rest
    return (char :: text, behind)
  | char :: rest =>
    if char.toNat < 32 ∨ char = '\\' then none
    else do
      let (text, behind) ← readInside? rest
      return (char :: text, behind)

def readQuoted? : List Char → Option (List Char × List Char)
  | '"' :: cs => readInside? cs
  | _ => none

/-- What stands behind the first quotation mark that no backslash escapes. -/
def behindMark? : List Char → Option (List Char)
  | [] => none
  | '"' :: rest => some rest
  | '\\' :: _ :: rest => behindMark? rest
  | _ :: rest => behindMark? rest

theorem lettered?_of_shortEscape? {c e : Char} (h : shortEscape? c = some e) :
    lettered? e = some c ∧ e ≠ 'u' := by
  unfold shortEscape? at h
  repeat' split at h
  all_goals
    cases h
  all_goals
    subst_vars
    exact ⟨rfl, by decide⟩

theorem ne_of_shortEscape?_eq_none {c : Char} (h : shortEscape? c = none) : c ≠ '"' ∧ c ≠ '\\' := by
  constructor <;> rintro rfl <;> exact absurd h (by decide)

theorem numbered?_hexDigit {c : Char} (h : c.toNat < 32) :
    numbered? '0' '0' (hexDigit (c.toNat / 16)) (hexDigit (c.toNat % 16)) = some c := by
  have hall : ∀ n < 32, numbered? '0' '0' (hexDigit (n / 16)) (hexDigit (n % 16)) =
      some (Char.ofNat n) := by decide
  rw [hall c.toNat h, Char.ofNat_toNat]

/-- A character is read back from its written form. -/
theorem readInside?_escapeChar (c : Char) (cs : List Char) :
    readInside? (escapeChar c ++ cs) = do
      let (text, behind) ← readInside? cs
      return (c :: text, behind) := by
  unfold escapeChar
  split
  · rename_i e he
    obtain ⟨hletter, hu⟩ := lettered?_of_shortEscape? he
    change readInside? ('\\' :: e :: cs) = _
    rw [readInside?, hletter]
    · rfl
    · intro a b c d rest hmark
      exact absurd hmark hu
  · rename_i hplain
    obtain ⟨hmark, hslash⟩ := ne_of_shortEscape?_eq_none hplain
    split
    · rename_i hcontrol
      change readInside? ('\\' :: 'u' :: '0' :: '0' :: hexDigit (c.toNat / 16) ::
        hexDigit (c.toNat % 16) :: cs) = _
      rw [readInside?, numbered?_hexDigit hcontrol]
      rfl
    · rename_i hcontrol
      change readInside? (c :: cs) = _
      rw [readInside?, if_neg (not_or.mpr ⟨hcontrol, hslash⟩)]
      · exact hmark
      · exact fun _ _ _ _ _ hc => absurd hc hslash
      · exact fun _ _ hc => absurd hc hslash

theorem behindMark?_cons {c : Char} (hmark : c ≠ '"') (hslash : c ≠ '\\') (cs : List Char) :
    behindMark? (c :: cs) = behindMark? cs := by
  rw [behindMark?]
  · exact hmark
  · exact fun _ _ hc => absurd hc hslash

/-- No mark in the written form of a character can close a text. -/
theorem behindMark?_escapeChar (c : Char) (cs : List Char) :
    behindMark? (escapeChar c ++ cs) = behindMark? cs := by
  unfold escapeChar
  split
  · rfl
  · rename_i hplain
    obtain ⟨hmark, hslash⟩ := ne_of_shortEscape?_eq_none hplain
    split
    · have hhex : ∀ n < 16, hexDigit n ≠ '"' ∧ hexDigit n ≠ '\\' := by decide
      obtain ⟨hhigh, hhigh'⟩ := hhex (c.toNat / 16) (by omega)
      obtain ⟨hlow, hlow'⟩ := hhex (c.toNat % 16) (by omega)
      change behindMark? (hexDigit (c.toNat / 16) :: hexDigit (c.toNat % 16) :: cs) = _
      rw [behindMark?_cons hhigh hhigh', behindMark?_cons hlow hlow']
    · exact behindMark?_cons hmark hslash cs

theorem readInside?_escape (cs rest : List Char) :
    readInside? (escape cs ++ '"' :: rest) = some (cs, rest) := by
  induction cs with
  | nil => rfl
  | cons c cs ih =>
    rw [escape_cons, List.append_assoc, readInside?_escapeChar, ih]
    rfl

/-- The first mark that can close a quoted text is the one at its end. -/
theorem behindMark?_escape (cs rest : List Char) :
    behindMark? (escape cs ++ '"' :: rest) = some rest := by
  induction cs with
  | nil => rfl
  | cons c cs ih => rw [escape_cons, List.append_assoc, behindMark?_escapeChar, ih]

/-- A quoted text is read back, and what stands behind it is left. -/
theorem readQuoted?_quotedChars (cs rest : List Char) :
    readQuoted? (quotedChars cs ++ rest) = some (cs, rest) := by
  rw [quotedChars, List.cons_append, List.append_assoc]
  exact readInside?_escape cs rest

/-- A quoted text and what stands behind it can be told apart. -/
theorem quotedChars_append_injective {cs cs' rest rest' : List Char}
    (h : quotedChars cs ++ rest = quotedChars cs' ++ rest') : cs = cs' ∧ rest = rest' := by
  have hread := readQuoted?_quotedChars cs rest
  rw [h, readQuoted?_quotedChars] at hread
  exact Prod.mk.inj (Option.some.inj hread).symm

-- A text that looks like its own quoted form, and one that ends in a backslash.
example : readQuoted? (quotedChars "\"a\"".toList) = some ("\"a\"".toList, []) := by decide
example : readQuoted? (quotedChars ['\\'] ++ ['"']) = some (['\\'], ['"']) := by decide

end CommandPack.Text
