import ServletContainer.Json.Basic

/-! Reading JSON texts by the strict grammar. Whole numbers of at most 64 bits are exact. -/
namespace ServletContainer.Json

def isSpace (c : Char) : Bool := c == ' ' || c == '\n' || c == '\r' || c == '\t'

def skipSpace (cs : List Char) : List Char := cs.dropWhile isSpace

def hexDigit? (c : Char) : Option Nat :=
  if '0' ≤ c ∧ c ≤ '9' then some (c.toNat - '0'.toNat)
  else if 'a' ≤ c ∧ c ≤ 'f' then some (c.toNat - 'a'.toNat + 10)
  else if 'A' ≤ c ∧ c ≤ 'F' then some (c.toNat - 'A'.toNat + 10)
  else none

def hex4? (a b c d : Char) : Option Nat := do
  let a ← hexDigit? a
  let b ← hexDigit? b
  let c ← hexDigit? c
  let d ← hexDigit? d
  return ((a * 16 + b) * 16 + c) * 16 + d

def simpleEscape? : Char → Option Char
  | '"' => some '"'
  | '\\' => some '\\'
  | '/' => some '/'
  | 'b' => some '\x08'
  | 'f' => some '\x0c'
  | 'n' => some '\n'
  | 'r' => some '\r'
  | 't' => some '\t'
  | _ => none

def stringBody? : List Char → Option (List Char × List Char)
  | [] => none
  | '"' :: rest => some ([], rest)
  | '\\' :: 'u' :: a :: b :: c :: d :: '\\' :: 'u' :: e :: f :: g :: h :: rest => do
    let unit ← hex4? a b c d
    if 0xD800 ≤ unit ∧ unit ≤ 0xDBFF then
      let low ← hex4? e f g h
      if 0xDC00 ≤ low ∧ low ≤ 0xDFFF then
        let (cs, rest) ← stringBody? rest
        return (Char.ofNat (0x10000 + (unit - 0xD800) * 0x400 + (low - 0xDC00)) :: cs, rest)
      else none
    else if 0xDC00 ≤ unit ∧ unit ≤ 0xDFFF then none
    else
      let (cs, rest) ← stringBody? ('\\' :: 'u' :: e :: f :: g :: h :: rest)
      return (Char.ofNat unit :: cs, rest)
  | '\\' :: 'u' :: a :: b :: c :: d :: rest => do
    let unit ← hex4? a b c d
    if 0xD800 ≤ unit ∧ unit ≤ 0xDFFF then none
    else
      let (cs, rest) ← stringBody? rest
      return (Char.ofNat unit :: cs, rest)
  | '\\' :: e :: rest => do
    let c ← simpleEscape? e
    let (cs, rest) ← stringBody? rest
    return (c :: cs, rest)
  | c :: rest =>
    if c.toNat < 0x20 then none
    else do
      let (cs, rest) ← stringBody? rest
      return (c :: cs, rest)

def digitsOf (cs : List Char) : Nat := cs.foldl (fun n c => n * 10 + (c.toNat - '0'.toNat)) 0

def fraction? : List Char → Option (List Char × List Char)
  | '.' :: rest =>
    let ds := rest.takeWhile Char.isDigit
    if ds.isEmpty then none else some (ds, rest.dropWhile Char.isDigit)
  | rest => some ([], rest)

def exponent? (cs : List Char) : Option (Option Int × List Char) :=
  let number := fun (negative : Bool) (rest : List Char) =>
    let ds := rest.takeWhile Char.isDigit
    if ds.isEmpty then none
    else
      let n : Int := digitsOf ds
      some (some (if negative then -n else n), rest.dropWhile Char.isDigit)
  match cs with
  | c :: rest =>
    if c == 'e' || c == 'E' then
      match rest with
      | '+' :: rest => number false rest
      | '-' :: rest => number true rest
      | rest => number false rest
    else some (none, cs)
  | [] => some (none, [])

/-- Appends digits to a number as long as it fits 64 bits, and counts those that are left over. -/
def appendDigits (n : Nat) : List Char → Nat × Nat
  | [] => (n, 0)
  | c :: cs =>
    let next := n * 10 + (c.toNat - '0'.toNat)
    if next ≤ 0xFFFFFFFFFFFFFFFF then appendDigits next cs else (n, cs.length + 1)

def number? (negative : Bool) (cs : List Char) : Option (Json × List Char) := do
  let whole := cs.takeWhile Char.isDigit
  let rest := cs.dropWhile Char.isDigit
  if whole.isEmpty || (whole.length > 1 && whole.head? == some '0') then none
  else
    let (frac, rest) ← fraction? rest
    let (exp, rest) ← exponent? rest
    let n := digitsOf whole
    let limit := if negative then 0x8000000000000000 else 0xFFFFFFFFFFFFFFFF
    if frac.isEmpty && exp.isNone && n ≤ limit && !(negative && n == 0) then
      return (.int (if negative then -n else n), rest)
    else
      let (n, above) := appendDigits 0 whole
      let (n, left) := appendDigits n frac
      let shift : Int := above - (frac.length - left : Nat)
      return (.real (Decimal.ofLiteral negative n (shift + exp.getD 0)), rest)

mutual

/-- A value; `fuel` bounds the number of steps. -/
def value? : Nat → List Char → Option (Json × List Char)
  | 0, _ => none
  | fuel + 1, cs =>
    match skipSpace cs with
    | 'n' :: 'u' :: 'l' :: 'l' :: rest => some (.null, rest)
    | 't' :: 'r' :: 'u' :: 'e' :: rest => some (.bool true, rest)
    | 'f' :: 'a' :: 'l' :: 's' :: 'e' :: rest => some (.bool false, rest)
    | '"' :: rest => do
      let (s, rest) ← stringBody? rest
      return (.str (String.ofList s), rest)
    | '[' :: rest =>
      match skipSpace rest with
      | ']' :: rest => some (.arr [], rest)
      | rest => do
        let (items, rest) ← items? fuel rest
        return (.arr items, rest)
    | '\x7b' :: rest =>
      match skipSpace rest with
      | '\x7d' :: rest => some (.obj [], rest)
      | rest => do
        let (members, rest) ← members? fuel rest
        return (.obj members, rest)
    | '-' :: rest => number? true rest
    | rest => number? false rest

def items? : Nat → List Char → Option (List Json × List Char)
  | 0, _ => none
  | fuel + 1, cs => do
    let (v, rest) ← value? fuel cs
    match skipSpace rest with
    | ',' :: rest =>
      let (vs, rest) ← items? fuel rest
      return (v :: vs, rest)
    | ']' :: rest => return ([v], rest)
    | _ => none

def members? : Nat → List Char → Option (List (String × Json) × List Char)
  | 0, _ => none
  | fuel + 1, cs =>
    match skipSpace cs with
    | '"' :: rest => do
      let (k, rest) ← stringBody? rest
      match skipSpace rest with
      | ':' :: rest =>
        let (v, rest) ← value? fuel rest
        match skipSpace rest with
        | ',' :: rest =>
          let (ms, rest) ← members? fuel rest
          return ((String.ofList k, v) :: ms, rest)
        | '\x7d' :: rest => return ([(String.ofList k, v)], rest)
        | _ => none
      | _ => none
    | _ => none

end

def parse? (s : String) : Option Json := do
  let cs := s.toList
  let (v, rest) ← value? (2 * cs.length + 2) cs
  if (skipSpace rest).isEmpty then return v else none

end ServletContainer.Json
