/-! Decimal numbers as binary doubles hold them: a literal is read in double arithmetic, where every
result is rounded to the nearest double (a tie to the even mantissa), and shown with the fewest
digits for which that double is the nearest. -/
namespace ServletContainer

/-- The number `± digits · 10 ^ exponent`. -/
structure Decimal where
  negative : Bool
  digits : Nat
  exponent : Int
  deriving DecidableEq

namespace Decimal

/-- A quotient of natural numbers. -/
structure Ratio where
  num : Nat
  den : Nat
  deriving DecidableEq

namespace Ratio

def scaled (b m : Nat) (e : Int) : Ratio :=
  if 0 ≤ e then ⟨m * b.pow e.toNat, 1⟩ else ⟨m, b.pow (-e).toNat⟩

def mul (q r : Ratio) : Ratio := ⟨q.num * r.num, q.den * r.den⟩

def div (q r : Ratio) : Ratio := ⟨q.num * r.den, q.den * r.num⟩

def lt (q r : Ratio) : Bool := q.num * r.den < r.num * q.den

def le (q r : Ratio) : Bool := q.num * r.den ≤ r.num * q.den

def nearest (q : Ratio) : Nat :=
  let n := q.num / q.den
  let twice := 2 * (q.num % q.den)
  if q.den < twice ∨ (twice = q.den ∧ n % 2 = 1) then n + 1 else n

end Ratio

/-- A double's mantissa and power of two. The mantissa is less than twice `Double.half`, and not
less than it unless the power is the smallest one. -/
structure Double where
  mantissa : Nat
  power : Int
  deriving DecidableEq

def Double.half : Nat := 0x10000000000000

def Ratio.toDouble (q : Ratio) : Option Double :=
  let guess : Int := (Nat.log2 q.num : Int) - Nat.log2 q.den - 53
  let power := max guess (-1074)
  let mantissaAt := fun (e : Int) => (q.div (.scaled 2 1 e)).nearest
  let fit := fun (e : Int) => mantissaAt e ≤ 2 * Double.half
  let power := if fit power then power else if fit (power + 1) then power + 1 else power + 2
  let m := mantissaAt power
  let (m, power) := if m = 2 * Double.half then (Double.half, power + 1) else (m, power)
  if 971 < power then none else some ⟨m, power⟩

def Double.ratio (d : Double) : Ratio := Ratio.scaled 2 d.mantissa d.power

/-- The interval of numbers that round to a double, and whether its ends belong to it. -/
def Double.interval (d : Double) : Ratio × Ratio × Bool :=
  let low :=
    if d.mantissa = half ∧ -1074 < d.power then Ratio.scaled 2 (4 * d.mantissa - 1) (d.power - 2)
    else Ratio.scaled 2 (2 * d.mantissa - 1) (d.power - 1)
  (low, Ratio.scaled 2 (2 * d.mantissa + 1) (d.power - 1), d.mantissa % 2 == 0)

/-- Of the two neighbours of the value on the grid of `10 ^ e`, the nearer one that rounds to it. -/
def Double.onGrid (d : Double) (e : Int) : Option Nat :=
  let scaled := d.ratio.div (.scaled 10 1 e)
  let (low, high, closed) := d.interval
  let inside := fun (n : Nat) =>
    let q := Ratio.scaled 10 n e
    if closed then low.le q && q.le high else low.lt q && q.lt high
  let near := scaled.nearest
  let down := scaled.num / scaled.den
  let far := if near = down then down + 1 else down
  if near != 0 && inside near then some near else if far != 0 && inside far then some far else none

/-- Tries finer and finer grids, from `10 ^ e` on. -/
def Double.search (d : Double) : Nat → Int → Nat × Int
  | 0, e => ((d.onGrid e).getD d.mantissa, e)
  | fuel + 1, e =>
    match d.onGrid e with
    | some n => (n, e)
    | none => Double.search d fuel (e - 1)

/-- The decimal exponent of a positive quotient's first digit, searched downwards. -/
def Ratio.magnitude (q : Ratio) : Nat → Int → Int
  | 0, e => e
  | fuel + 1, e => if (Ratio.scaled 10 1 e).le q then e else q.magnitude fuel (e - 1)

def Double.tenTo (n : Nat) : Option Double := (Ratio.scaled 10 1 n).toDouble

def Double.mul (d f : Double) : Option Double := (d.ratio.mul f.ratio).toDouble

def Double.div (d f : Double) : Option Double := (d.ratio.div f.ratio).toDouble

/-- The double that `digits · 10 ^ exponent` is read as, `none` when it is too large. Digits and
power are each rounded first, and a power that no double holds is divided by in two steps. -/
def Double.ofLiteral (digits : Nat) (exponent : Int) : Option Double :=
  if digits = 0 ∨ exponent < -616 then some ⟨0, 0⟩
  else if 308 < exponent then none
  else do
    let d ← Ratio.toDouble ⟨digits, 1⟩
    if 0 ≤ exponent then d.mul (← tenTo exponent.toNat)
    else if -308 ≤ exponent then d.div (← tenTo (-exponent).toNat)
    else
      let d ← d.div (← tenTo 308)
      d.div (← tenTo (-(exponent + 308)).toNat)

def isHuge (digits : Nat) (exponent : Int) : Bool :=
  let size : Int := (Nat.toDigits 10 digits).length + exponent
  digits != 0 && (310 < size || (0 ≤ size && (Ratio.scaled 10 digits exponent).toDouble.isNone))

def ofDouble (negative : Bool) (d : Double) : Decimal :=
  if d.mantissa = 0 then ⟨negative, 0, 0⟩
  else
    let top := d.ratio.magnitude 650 309 + 1
    let (n, e) := d.search 18 top
    ⟨negative, n, e⟩

/-- The shortest decimal for the double that `± digits · 10 ^ exponent` is read as; a number that
is too large stays as it is written. -/
def ofLiteral (negative : Bool) (digits : Nat) (exponent : Int) : Decimal :=
  match Double.ofLiteral digits exponent with
  | some d => ofDouble negative d
  | none => ⟨negative, digits, exponent⟩

/-- Positional between `10 ^ -5` and `10 ^ 16`, with an exponent otherwise; a whole number ends in
`.0`. -/
def text (d : Decimal) : String :=
  let ds := Nat.toDigits 10 d.digits
  let point : Int := ds.length + d.exponent
  let zeros := fun (n : Int) => List.replicate n.toNat '0'
  let body : List Char :=
    if d.digits = 0 then ['0', '.', '0']
    else if 0 ≤ d.exponent ∧ point ≤ 16 then ds ++ zeros d.exponent ++ ['.', '0']
    else if 0 < point ∧ point ≤ 16 then ds.take point.toNat ++ '.' :: ds.drop point.toNat
    else if -5 < point ∧ point ≤ 0 then '0' :: '.' :: zeros (-point) ++ ds
    else
      let exp := 'e' :: (toString (point - 1)).toList
      if ds.length = 1 then ds ++ exp else ds.take 1 ++ '.' :: ds.drop 1 ++ exp
  String.ofList (if d.negative then '-' :: body else body)

end Decimal

end ServletContainer
