import Mathlib.Algebra.Order.Ring.Nat
import Mathlib.Data.Nat.Log
import Mathlib.Data.Rat.Defs
import Mathlib.Tactic.Common

/-!
The numbers of cJSON (`third_party/cJSON/cJSON.c`). A `double` is the rational
number it stands for, or an infinity; the parser can produce nothing else, and
nothing reads the sign of a zero. Below are the functions of the C library that
the parser and the printer call on numbers: `strtod`, which reads a decimal
number and rounds it to the nearest `double`, and the conversions `%d` and `%g`
of `sprintf`. A text is a list of bytes.
-/

namespace Savvy.CJson

inductive Double
  | finite (q : ℚ)
  | inf (neg : Bool)
  deriving DecidableEq

/-! ### Rounding -/

def roundHalfEven (n d : ℕ) : ℕ :=
  let q := n / d
  let r := n % d
  if 2 * r < d ∨ 2 * r = d ∧ q % 2 = 0 then q else q + 1

/-- `a / b` divided by `2 ^ k`, as numerator and denominator. -/
def scaleTwo (a b : ℕ) (k : ℤ) : ℕ × ℕ :=
  if 0 ≤ k then (a, b * 2 ^ k.toNat) else (a * 2 ^ (-k).toNat, b)

/-- The exponent of the last place of the `double` nearest to `a / b`: there are
53 bits above it, or as many as the least exponent leaves. -/
def lastPlace (a b : ℕ) : ℤ :=
  let k := (Nat.log2 a : ℤ) - Nat.log2 b - 53
  let (n, d) := scaleTwo a b k
  max (-1074) (if n / d < 2 ^ 53 then k else k + 1)

/-- `m * 2 ^ k`, as numerator and denominator. -/
def timesTwo (m : ℕ) (k : ℤ) : ℕ × ℕ :=
  if 0 ≤ k then (m * 2 ^ k.toNat, 1) else (m, 2 ^ (-k).toNat)

def signed (neg : Bool) (n d : ℕ) : ℚ := mkRat (if neg then -(n : ℤ) else n) d

def roundDouble (neg : Bool) (a b : ℕ) : Double :=
  if a = 0 then .finite 0
  else
    let k := lastPlace a b
    let (n, d) := scaleTwo a b k
    let (vn, vd) := timesTwo (roundHalfEven n d) k
    if vd * 2 ^ 1024 ≤ vn then .inf neg else .finite (signed neg vn vd)

def Double.ofRat (q : ℚ) : Double := roundDouble (decide (q < 0)) q.num.natAbs q.den

/-! ### Decimal numbers -/

def isDigit (b : UInt8) : Bool := 48 ≤ b && b ≤ 57

def digitsValue (ds : List UInt8) : ℕ := ds.foldl (fun n b => 10 * n + (b.toNat - 48)) 0

def scanSign : List UInt8 → Bool × List UInt8
  | 45 :: s => (true, s)
  | 43 :: s => (false, s)
  | s => (false, s)

def scanExponent (s : List UInt8) : ℤ × List UInt8 :=
  match s with
  | b :: t =>
      if b = 101 ∨ b = 69 then
        let (neg, t) := scanSign t
        let ds := t.takeWhile isDigit
        if ds = [] then (0, s)
        else (if neg then -(digitsValue ds : ℤ) else digitsValue ds, t.dropWhile isDigit)
      else (0, s)
  | [] => (0, s)

def scanFraction : List UInt8 → List UInt8 × List UInt8
  | 46 :: s => (s.takeWhile isDigit, s.dropWhile isDigit)
  | s => ([], s)

/-- `strtod` on a text of digits, signs, points and exponent letters: the value
and the text behind it, or nothing if there is no number. -/
def strtod (s : List UInt8) : Option (Double × List UInt8) :=
  let (neg, s) := scanSign s
  let int := s.takeWhile isDigit
  let (frac, s) := scanFraction (s.dropWhile isDigit)
  if int = [] ∧ frac = [] then none
  else
    let (exp, s) := scanExponent s
    let digits := digitsValue (int ++ frac)
    let scale : ℤ := exp - frac.length
    some (if 0 ≤ scale then roundDouble neg (digits * 10 ^ scale.toNat) 1
      else roundDouble neg digits (10 ^ (-scale).toNat), s)

/-! ### Printing -/

def decimalLoop : ℕ → ℕ → List UInt8 → List UInt8
  | 0, _, acc => acc
  | fuel + 1, n, acc =>
      let acc := UInt8.ofNat (48 + n % 10) :: acc
      if n / 10 = 0 then acc else decimalLoop fuel (n / 10) acc

def decimal (n : ℕ) : List UInt8 := decimalLoop (n + 1) n []

/-- The conversion `%d`. -/
def formatInt (i : ℤ) : List UInt8 :=
  if i < 0 then 45 :: decimal i.natAbs else decimal i.natAbs

/-- The exponent of the first decimal digit of `a / b`. -/
def firstPlace (a b : ℕ) : ℤ :=
  if b ≤ a then (Nat.log 10 (a / b) : ℤ) else -((Nat.log 10 ((b - 1) / a) : ℤ) + 1)

/-- `a / b` divided by `10 ^ k`, as numerator and denominator. -/
def scaleTen (a b : ℕ) (k : ℤ) : ℕ × ℕ :=
  if 0 ≤ k then (a, b * 10 ^ k.toNat) else (a * 10 ^ (-k).toNat, b)

/-- The `p` significant digits of `a / b` as one number, and the exponent of the
first of them. -/
def significant (p a b : ℕ) : ℕ × ℤ :=
  let x := firstPlace a b
  let (n, d) := scaleTen a b (x - p + 1)
  let m := roundHalfEven n d
  if m = 10 ^ p then (10 ^ (p - 1), x + 1) else (m, x)

def stripZeros (ds : List UInt8) : List UInt8 := (ds.reverse.dropWhile (· = 48)).reverse

def withFraction (int frac : List UInt8) : List UInt8 :=
  if stripZeros frac = [] then int else int ++ 46 :: stripZeros frac

def formatExponent (x : ℤ) : List UInt8 :=
  let ds := decimal x.natAbs
  101 :: (if x < 0 then 45 else 43) :: (if ds.length < 2 then 48 :: ds else ds)

/-- The conversion `%1.<p>g` of a number other than zero. -/
def formatGeneral (p : ℕ) (q : ℚ) : List UInt8 :=
  let (m, x) := significant p q.num.natAbs q.den
  let ds := decimal m
  let body :=
    if -4 ≤ x ∧ x < p then
      if 0 ≤ x then withFraction (ds.take (x.toNat + 1)) (ds.drop (x.toNat + 1))
      else withFraction [48] (List.replicate ((-x).toNat - 1) 48 ++ ds)
    else withFraction (ds.take 1) (ds.drop 1) ++ formatExponent x
  if q < 0 then 45 :: body else body

/-! ### The numbers of an item -/

def intMin : ℤ := -2147483648

def intMax : ℤ := 2147483647

/-- The `valueint` that `parse_number` stores with a number. -/
def Double.valueint : Double → ℤ
  | .inf neg => if neg then intMin else intMax
  | .finite q =>
      if (intMax : ℚ) ≤ q then intMax
      else if q ≤ (intMin : ℚ) then intMin
      else q.num.tdiv q.den

def fabs (q : ℚ) : ℚ := if q < 0 then -q else q

/-- `compare_double` with a number `b` that is finite, with the rounding of its
difference and product. -/
def compareDouble (a : Double) (b : ℚ) : Bool :=
  match a with
  -- the difference and the product are both infinite
  | .inf _ => true
  | .finite a =>
      let maxVal := if fabs b < fabs a then fabs a else fabs b
      match Double.ofRat (a - b), Double.ofRat (maxVal * mkRat 1 (2 ^ 52)) with
      | .finite diff, .finite bound => decide (fabs diff ≤ bound)
      | .finite _, .inf _ => true
      | .inf _, _ => false

def printNumber (d : Double) : List UInt8 :=
  match d with
  | .inf _ => [110, 117, 108, 108]
  | .finite q =>
      if q = (d.valueint : ℚ) then formatInt d.valueint
      else
        let short := formatGeneral 15 q
        match strtod short with
        | some (test, _) => if compareDouble test q then short else formatGeneral 17 q
        | none => formatGeneral 17 q

end Savvy.CJson
