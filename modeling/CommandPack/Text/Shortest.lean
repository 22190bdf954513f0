import CommandPack.Text.Decimal

namespace CommandPack.Text

/-- A binary format: bits of the significand, bits of the exponent, and the exponent of the
smallest positive number. -/
structure BinaryFormat where
  precision : Nat
  exponentBits : Nat
  minExponent : Int
deriving DecidableEq, Repr

def BinaryFormat.double : BinaryFormat := ⟨53, 11, -1074⟩

def BinaryFormat.single : BinaryFormat := ⟨24, 8, -149⟩

def BinaryFormat.unit (f : BinaryFormat) : Nat := Nat.pow 2 (f.precision - 1)

def BinaryFormat.exponents (f : BinaryFormat) : Nat := Nat.pow 2 f.exponentBits

inductive BinaryNumber
  | notANumber
  | infinite (negative : Bool)
  | finite (negative : Bool) (significand : Nat) (exponent : Int)
deriving DecidableEq, Repr

def BinaryFormat.decode (f : BinaryFormat) (bits : Nat) : BinaryNumber :=
  let fraction := bits % f.unit
  let biased := bits / f.unit % f.exponents
  let negative := bits / f.unit / f.exponents % 2 == 1
  if biased + 1 = f.exponents then
    if fraction = 0 then .infinite negative else .notANumber
  else if biased = 0 then .finite negative fraction f.minExponent
  else .finite negative (f.unit + fraction) (f.minExponent + biased - 1)

def inUnits (x : Nat) (q k : Int) : Nat × Nat :=
  (x * Nat.pow 2 q.toNat * Nat.pow 10 (-k).toNat, Nat.pow 2 (-q).toNat * Nat.pow 10 k.toNat)

def atLeastPower (m : Nat) (e k : Int) : Bool :=
  let (num, den) := inUnits m e k
  den ≤ num

/-- The power of ten of the first digit of `m * 2 ^ e`. The size in bits tells it up to one. -/
def decimalOrder (m : Nat) (e : Int) : Int :=
  let guess := Int.fdiv ((m.log2 + e) * 30103) 100000 - 1
  if atLeastPower m e (guess + 2) then guess + 2
  else if atLeastPower m e (guess + 1) then guess + 1
  else guess

/-- The numbers that read back as `m * 2 ^ e` lie between these bounds, in quarters of the last
place. Below a power of two the neighbours are twice as close. -/
def readsBackFrom (f : BinaryFormat) (m : Nat) (e : Int) : Nat × Nat :=
  (4 * m - (if m = f.unit ∧ f.minExponent < e then 1 else 2), 4 * m + 2)

/-- The multiple of `10 ^ k` nearest to `m * 2 ^ e` that reads back as it, if there is one. Only
the multiples on both sides can be; an even significand also owns its bounds. -/
def onGrid? (f : BinaryFormat) (m : Nat) (e k : Int) : Option Nat :=
  let (low, high) := readsBackFrom f m e
  let (num, den) := inUnits (4 * m) (e - 2) k
  let (lowNum, _) := inUnits low (e - 2) k
  let (highNum, _) := inUnits high (e - 2) k
  let owned (d : Nat) : Bool :=
    if m % 2 = 0 then lowNum ≤ d * den && d * den ≤ highNum
    else lowNum < d * den && d * den < highNum
  let below := num / den
  let above := below + 1
  let toBelow := num - below * den
  let toAbove := above * den - num
  match owned below, owned above with
  | true, true =>
    some (if toBelow < toAbove then below
      else if toAbove < toBelow then above
      else if below % 2 = 0 then below else above)
  | true, false => some below
  | false, true => some above
  | false, false => none

/-- The shortest decimal `d * 10 ^ k` that reads back as `m * 2 ^ e`; seventeen digits always
suffice. -/
def shortest (f : BinaryFormat) (m : Nat) (e : Int) : Nat × Int :=
  let order := decimalOrder m e
  ((List.range 17).findSome? fun (n : Nat) =>
    (onGrid? f m e (order - n)).map fun d => (d, order - n)).getD (m, e)

structure FloatLayout where
  fixedFrom : Int
  fixedTo : Int
deriving DecidableEq, Repr

def dropTrailingZeros (ds : List Char) : List Char := (ds.reverse.dropWhile (· == '0')).reverse

/-- Writes the digits `ds`, the first of which counts `10 ^ order`. Without an exponent there is
always a digit after the point; an exponent always has a sign. -/
def FloatLayout.positive (l : FloatLayout) (ds : List Char) (order : Int) : List Char :=
  if l.fixedFrom ≤ order ∧ order ≤ l.fixedTo then
    if order < 0 then '0' :: '.' :: List.replicate (-order - 1).toNat '0' ++ ds
    else
      let whole := order.toNat + 1
      let fraction := ds.drop whole
      ds.take whole ++ List.replicate (whole - ds.length) '0' ++
        '.' :: (if fraction.isEmpty then ['0'] else fraction)
  else
    let point := if ds.length ≤ 1 then [] else '.' :: ds.drop 1
    ds.take 1 ++ point ++ 'e' :: (if order < 0 then '-' else '+') :: digits order.natAbs

def FloatLayout.chars? (l : FloatLayout) (f : BinaryFormat) (bits : Nat) : Option (List Char) :=
  match f.decode bits with
  | .notANumber | .infinite _ => none
  | .finite negative m e =>
    let sign := if negative then ['-'] else []
    if m = 0 then some (sign ++ ['0', '.', '0'])
    else
      let (d, k) := shortest f m e
      let ds := digits d
      some (sign ++ l.positive (dropTrailingZeros ds) (k + ds.length - 1))

end CommandPack.Text
