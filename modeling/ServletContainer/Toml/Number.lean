import ServletContainer.Decimal.Shortest
import ServletContainer.Text.Blank
import ServletContainer.Toml.Text

/-! Numbers, dates and times in TOML texts. -/
namespace ServletContainer.Toml

open Json (hexDigit?)

def digitRun? (isDigit : Char → Bool) : List Char → Option (List Char × List Char)
  | [] => none
  | c :: '_' :: rest =>
    if isDigit c then (digitRun? isDigit rest).map fun (ds, rest) => (c :: ds, rest) else none
  | c :: rest =>
    if isDigit c then
      match digitRun? isDigit rest with
      | some (ds, rest) => some (c :: ds, rest)
      | none => some ([c], rest)
    else none

def digitsIn (base : Nat) (ds : List Char) : Nat :=
  ds.foldl (fun n c => n * base + (hexDigit? c).getD 0) 0

def sign (cs : List Char) : Bool × List Char :=
  match cs with
  | '+' :: rest => (false, rest)
  | '-' :: rest => (true, rest)
  | cs => (false, cs)

/-- Decimal digits without a needless zero before them. -/
def wholeDigits? (cs : List Char) : Option (List Char × List Char) := do
  let (ds, rest) ← digitRun? Char.isDigit cs
  if ds.length > 1 && ds.head? == some '0' then none else return (ds, rest)

def bounded? (n : Int) : Option Int :=
  if -0x8000000000000000 ≤ n ∧ n < 0x8000000000000000 then some n else none

def inBase? (base : Nat) (isDigit : Char → Bool) (cs : List Char) : Option (Int × List Char) := do
  let (ds, rest) ← digitRun? isDigit cs
  return (← bounded? (digitsIn base ds), rest)

def integer? (cs : List Char) : Option (Int × List Char) :=
  match cs with
  | '0' :: 'x' :: rest => inBase? 16 (fun c => (hexDigit? c).isSome) rest
  | '0' :: 'o' :: rest => inBase? 8 (fun c => '0' ≤ c ∧ c ≤ '7') rest
  | '0' :: 'b' :: rest => inBase? 2 (fun c => c == '0' || c == '1') rest
  | cs => do
    let (negative, rest) := sign cs
    let (ds, rest) ← wholeDigits? rest
    let n : Int := digitsIn 10 ds
    return (← bounded? (if negative then -n else n), rest)

def exponent? (cs : List Char) : Option (Int × List Char) :=
  match cs with
  | c :: rest =>
    if c == 'e' || c == 'E' then do
      let (negative, rest) := sign rest
      let (ds, rest) ← digitRun? Char.isDigit rest
      let n : Int := digitsIn 10 ds
      return (if negative then -n else n, rest)
    else none
  | [] => none

def scaling? (cs : List Char) : Option (List Char × Int × List Char) :=
  match cs with
  | '.' :: rest => do
    let (ds, rest) ← digitRun? Char.isDigit rest
    match exponent? rest with
    | some (e, rest) => return (ds, e, rest)
    | none => return (ds, 0, rest)
  | cs => (exponent? cs).map fun (e, rest) => ([], e, rest)

/-- Reads over a number with a fraction or an exponent, or a special one. Too large a positive
number is refused. -/
def real? (cs : List Char) : Option (List Char) :=
  let (negative, rest) := sign cs
  match rest with
  | 'i' :: 'n' :: 'f' :: rest => some rest
  | 'n' :: 'a' :: 'n' :: rest => some rest
  | rest => do
    let (whole, rest) ← wholeDigits? rest
    let (fraction, e, rest) ← scaling? rest
    let huge := Decimal.isHuge (digitsIn 10 (whole ++ fraction)) (e - fraction.length)
    if huge && !negative then none else return rest

def fixed? (n top : Nat) (cs : List Char) : Option (List Char × List Char) :=
  let ds := cs.take n
  if ds.length = n ∧ ds.all Char.isDigit ∧ digitsIn 10 ds ≤ top then some (ds, cs.drop n) else none

def isLeapYear (y : Nat) : Bool := y % 4 == 0 && (y % 100 != 0 || y % 400 == 0)

def daysIn (y m : Nat) : Nat :=
  if m = 2 then (if isLeapYear y then 29 else 28)
  else if m = 4 ∨ m = 6 ∨ m = 9 ∨ m = 11 then 30
  else 31

def after? (c : Char) : List Char → Option (List Char)
  | d :: rest => if c = d then some rest else none
  | [] => none

def date? (cs : List Char) : Option (List Char × List Char) := do
  let (y, rest) ← fixed? 4 9999 cs
  let (m, rest) ← fixed? 2 12 (← after? '-' rest)
  let month := digitsIn 10 m
  let (d, rest) ← fixed? 2 (daysIn (digitsIn 10 y) month) (← after? '-' rest)
  if month = 0 ∨ digitsIn 10 d = 0 then none
  else return (y ++ '-' :: m ++ '-' :: d, rest)

/-- The part of a second, with nine places at most and no zeros at its end. -/
def secondFraction (cs : List Char) : List Char × List Char :=
  match cs with
  | '.' :: rest =>
    let ds := rest.takeWhile Char.isDigit
    let shown := Text.dropEnd (· == '0') (ds.take 9)
    if ds.isEmpty then ([], cs)
    else (if shown.isEmpty then [] else '.' :: shown, rest.dropWhile Char.isDigit)
  | cs => ([], cs)

def time? (cs : List Char) : Option (List Char × List Char) := do
  let (h, rest) ← fixed? 2 23 cs
  let (m, rest) ← fixed? 2 59 (← after? ':' rest)
  let (s, rest) ← fixed? 2 60 (← after? ':' rest)
  let (fraction, rest) := secondFraction rest
  return (h ++ ':' :: m ++ ':' :: s ++ fraction, rest)

def offset? (cs : List Char) : Option (List Char × List Char) :=
  let amount := fun (sign : Char) (rest : List Char) => do
    let (h, rest) ← fixed? 2 23 rest
    let (m, rest) ← fixed? 2 59 (← after? ':' rest)
    let isZero := digitsIn 10 (h ++ m) = 0
    return ((if isZero then '+' else sign) :: h ++ ':' :: m, rest)
  match cs with
  | 'Z' :: rest => some (['Z'], rest)
  | 'z' :: rest => some (['Z'], rest)
  | '+' :: rest => amount '+' rest
  | '-' :: rest => amount '-' rest
  | _ => none

def timeOfDate? (cs : List Char) : Option (List Char × List Char) :=
  match cs with
  | [] => none
  | c :: rest =>
    if c == 'T' || c == 't' || c == ' ' then do
      let (t, rest) ← time? rest
      match offset? rest with
      | some (o, rest) => return ('T' :: t ++ o, rest)
      | none => return ('T' :: t, rest)
    else none

def moment? (cs : List Char) : Option (String × List Char) :=
  match date? cs with
  | some (d, rest) =>
    match timeOfDate? rest with
    | some (t, rest) => some (String.ofList (d ++ t), rest)
    | none => some (String.ofList d, rest)
  | none => (time? cs).map fun (t, rest) => (String.ofList t, rest)

end ServletContainer.Toml
