namespace CommandPack.Text

def lastDigit (n : Nat) : Char := Char.ofNat (48 + n % 10)

/-- Decimal digits, most significant first, without leading zeros. -/
def digits (n : Nat) : List Char :=
  if n < 10 then [lastDigit n] else digits (n / 10) ++ [lastDigit n]

def natural (n : Nat) : String := String.ofList (digits n)

def integer : Int → String
  | .ofNat n => natural n
  | .negSucc n => "-" ++ natural (n + 1)

def digitValue (c : Char) : Nat := c.toNat - 48

def ofDigits (cs : List Char) : Nat :=
  cs.foldl (fun n c => n * 10 + digitValue c) 0

theorem lastDigit_toNat (n : Nat) : (lastDigit n).toNat = 48 + n % 10 := by
  have h : n % 10 < 10 := Nat.mod_lt _ (by decide)
  unfold lastDigit
  generalize n % 10 = r at h
  revert r
  decide

theorem digitValue_lastDigit (n : Nat) : digitValue (lastDigit n) = n % 10 := by
  simp [digitValue, lastDigit_toNat]

theorem lastDigit_isDigit (n : Nat) : (lastDigit n).isDigit = true := by
  have h : n % 10 < 10 := Nat.mod_lt _ (by decide)
  unfold lastDigit
  generalize n % 10 = r at h
  revert r
  decide

theorem digits_ne_nil (n : Nat) : digits n ≠ [] := by
  unfold digits
  split <;> simp

theorem isDigit_of_mem_digits {n : Nat} {c : Char} (h : c ∈ digits n) : c.isDigit = true := by
  fun_induction digits n with
  | case1 n _ =>
    rw [List.mem_singleton.mp h]
    exact lastDigit_isDigit n
  | case2 n _ ih =>
    rcases List.mem_append.mp h with h | h
    · exact ih h
    · rw [List.mem_singleton.mp h]
      exact lastDigit_isDigit n

theorem notMem_digits {c : Char} (h : c.isDigit = false) (n : Nat) : c ∉ digits n := by
  intro hc
  rw [isDigit_of_mem_digits hc] at h
  nomatch h

theorem notMem_natural {c : Char} (h : c.isDigit = false) (n : Nat) : c ∉ (natural n).toList := by
  rw [natural, String.toList_ofList]
  exact notMem_digits h n

theorem notMem_integer {c : Char} (hdigit : c.isDigit = false) (hsign : c ≠ '-') (n : Int) :
    c ∉ (integer n).toList := by
  cases n with
  | ofNat n => exact notMem_natural hdigit n
  | negSucc n =>
    have hchars : (integer (.negSucc n)).toList = '-' :: (natural (n + 1)).toList := by
      simp [integer]
    rw [hchars]
    exact fun hc => (List.mem_cons.mp hc).elim hsign (notMem_natural hdigit _)

@[simp] theorem ofDigits_append_singleton (cs : List Char) (c : Char) :
    ofDigits (cs ++ [c]) = ofDigits cs * 10 + digitValue c := by
  simp [ofDigits]

/-- Reading the digits of a number gives the number back. -/
theorem ofDigits_digits (n : Nat) : ofDigits (digits n) = n := by
  fun_induction digits n with
  | case1 n h =>
    simp [ofDigits, digitValue_lastDigit]
    omega
  | case2 n _ ih =>
    rw [ofDigits_append_singleton, ih, digitValue_lastDigit]
    omega

theorem digits_injective {m n : Nat} (h : digits m = digits n) : m = n := by
  rw [← ofDigits_digits m, h, ofDigits_digits]

end CommandPack.Text
