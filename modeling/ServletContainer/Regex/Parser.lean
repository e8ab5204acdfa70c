import ServletContainer.Regex.Expr

/-! The written form of regular expressions: literals, classes with set operations, groups,
alternation, greedy and lazy repetition, anchors, word edges and inline flags. -/
namespace ServletContainer.Regex

structure Flags where
  ignoreCase : Bool := false
  multiLine : Bool := false
  dotAll : Bool := false
  extended : Bool := false
  unicode : Bool := true
  crlf : Bool := false

/-- What has been read, the flags in force after it, and the rest. -/
structure Read (α : Type) where
  value : α
  flags : Flags
  rest : List Char

def Flags.set (fl : Flags) (s : CharSet) : CharSet := if fl.ignoreCase then .anyCase s else s

def single (c : Char) : CharSet := .range c c

def Flags.literal (fl : Flags) (c : Char) : Expr := .char (fl.set (single c))

/-- In extended mode, blank characters and comments to the end of the line mean nothing. -/
def skipComment : List Char → List Char
  | [] => []
  | '\n' :: cs => cs
  | _ :: cs => skipComment cs

def skipIgnored (fl : Flags) : Nat → List Char → List Char
  | 0, cs => cs
  | fuel + 1, cs =>
    if !fl.extended then cs
    else
      match cs with
      | '#' :: rest => skipIgnored fl fuel (skipComment rest)
      | c :: rest => if isBlank c then skipIgnored fl fuel rest else cs
      | [] => []

def skip (fl : Flags) (cs : List Char) : List Char := skipIgnored fl cs.length cs

def isMeta (c : Char) : Bool := "\\.+*?()|[]\x7b\x7d^$#&-~".toList.contains c

def isEscapable (c : Char) : Bool :=
  isMeta c || (c.toNat < 128 && !c.isAlphanum && c != '<' && c != '>')

def hexValue? (cs : List Char) : Option Nat :=
  if cs.isEmpty then none
  else cs.foldlM (fun n c =>
    if c.isDigit then some (n * 16 + (c.toNat - 48))
    else if 'a' ≤ c ∧ c ≤ 'f' then some (n * 16 + (c.toNat - 87))
    else if 'A' ≤ c ∧ c ≤ 'F' then some (n * 16 + (c.toNat - 55))
    else none) 0

def charOf? (n : Nat) : Option Char := if n.isValidChar then some (Char.ofNat n) else none

/-- The number after `\x`, `\u` or `\U`: so many digits, or any number of them in braces. -/
def hexEscape? (width : Nat) : List Char → Option (Char × List Char)
  | '\x7b' :: rest => do
    let digits := rest.takeWhile (· != '\x7d')
    match rest.drop digits.length with
    | _ :: rest => if digits.length > 8 then none else return (← charOf? (← hexValue? digits), rest)
    | [] => none
  | cs =>
    if cs.length < width then none
    else do return (← charOf? (← hexValue? (cs.take width)), cs.drop width)

/-- What a backslash and the characters after it stand for. -/
inductive Escape where
  | literal (c : Char)
  | set (s : CharSet)
  | look (l : Look)

def namedEdge? (u : Bool) (cs : List Char) : Option (Look × List Char) :=
  let name := cs.takeWhile (· != '\x7d')
  let rest := cs.drop (name.length + 1)
  match String.ofList name with
  | "start" => some (.wordStart u, rest)
  | "end" => some (.wordEnd u, rest)
  | "start-half" => some (.wordStartHalf u, rest)
  | "end-half" => some (.wordEndHalf u, rest)
  | _ => none

def escape? (fl : Flags) : List Char → Option (Escape × List Char)
  | [] => none
  | c :: rest =>
    let u := fl.unicode
    let negated := fun (s : CharSet) => if u then some (Escape.set (.compl s), rest) else none
    match c with
    | 'x' => (hexEscape? 2 rest).map fun (c, r) => (.literal c, r)
    | 'u' => (hexEscape? 4 rest).map fun (c, r) => (.literal c, r)
    | 'U' => (hexEscape? 8 rest).map fun (c, r) => (.literal c, r)
    | 'd' => some (.set (.digit u), rest)
    | 's' => some (.set (.space u), rest)
    | 'w' => some (.set (.word u), rest)
    | 'D' => negated (.digit u)
    | 'S' => negated (.space u)
    | 'W' => negated (.word u)
    | 'a' => some (.literal '\x07', rest)
    | 'f' => some (.literal '\x0c', rest)
    | 't' => some (.literal '\t', rest)
    | 'n' => some (.literal '\n', rest)
    | 'r' => some (.literal '\r', rest)
    | 'v' => some (.literal '\x0b', rest)
    | 'A' => some (.look .textStart, rest)
    | 'z' => some (.look .textEnd, rest)
    | 'B' => some (.look (.notWordEdge u), rest)
    | '<' => some (.look (.wordStart u), rest)
    | '>' => some (.look (.wordEnd u), rest)
    | 'b' =>
      match rest with
      | '\x7b' :: more =>
        match more with
        | d :: _ =>
          if d.isAlpha || d == '-' then (namedEdge? u more).map fun (l, r) => (.look l, r)
          else some (.look (.wordEdge u), rest)
        | [] => none
      | _ => some (.look (.wordEdge u), rest)
    | c => if isEscapable c then some (.literal c, rest) else none

def namedClass? : String → Option CharSet
  | "alnum" => some (.union (.union (.range '0' '9') (.range 'A' 'Z')) (.range 'a' 'z'))
  | "alpha" => some (.union (.range 'A' 'Z') (.range 'a' 'z'))
  | "ascii" => some (.range '\x00' '\x7f')
  | "blank" => some (.union (single '\t') (single ' '))
  | "cntrl" => some (.union (.range '\x00' '\x1f') (single '\x7f'))
  | "digit" => some (.range '0' '9')
  | "graph" => some (.range '!' '~')
  | "lower" => some (.range 'a' 'z')
  | "print" => some (.range ' ' '~')
  | "punct" =>
    some (.union (.union (.range '!' '/') (.range ':' '@')) (.union (.range '[' '\x60')
      (.range '\x7b' '~')))
  | "space" => some (.union (.range '\t' '\x0d') (single ' '))
  | "upper" => some (.range 'A' 'Z')
  | "word" =>
    some (.union (.union (.union (.range '0' '9') (.range 'A' 'Z')) (single '_')) (.range 'a' 'z'))
  | "xdigit" => some (.union (.union (.range '0' '9') (.range 'A' 'F')) (.range 'a' 'f'))
  | _ => none

def bracketName? : List Char → Option (CharSet × List Char)
  | ':' :: cs =>
    let (negated, cs) := match cs with
      | '^' :: cs => (true, cs)
      | cs => (false, cs)
    let name := cs.takeWhile (· != ':')
    match cs.drop name.length with
    | ':' :: ']' :: rest =>
      (namedClass? (String.ofList name)).map fun s => (if negated then .compl s else s, rest)
    | _ => none
  | _ => none

/-- The set operations inside brackets. -/
inductive SetOp where
  | inter
  | diff
  | symmDiff

def SetOp.apply : SetOp → CharSet → CharSet → CharSet
  | .inter => .inter
  | .diff => .diff
  | .symmDiff => .symmDiff

def closeOp (op : Option (SetOp × CharSet)) (s : CharSet) : CharSet :=
  match op with
  | some (op, left) => op.apply left s
  | none => s

mutual

/-- The members of a bracketed class up to its closing bracket: `op` holds an operator waiting for
its right side, `acc` the members of the current operand. -/
def members? (fl : Flags) : Nat → Option (SetOp × CharSet) → CharSet → List Char →
    Option (CharSet × List Char)
  | 0, _, _, _ => none
  | fuel + 1, op, acc, cs =>
    match skip fl cs with
    | [] => none
    | ']' :: rest => some (closeOp op acc, rest)
    | '&' :: '&' :: rest => members? fl fuel (some (.inter, closeOp op acc)) .none rest
    | '-' :: '-' :: rest => members? fl fuel (some (.diff, closeOp op acc)) .none rest
    | '~' :: '~' :: rest => members? fl fuel (some (.symmDiff, closeOp op acc)) .none rest
    | '[' :: rest =>
      match bracketName? rest with
      | some (s, rest) => members? fl fuel op (.union acc (fl.set s)) rest
      | none => do
        let (s, rest) ← bracket? fl fuel rest
        members? fl fuel op (.union acc s) rest
    | cs => do
      let (first, rest) ← item? fl cs
      match first with
      | .set s => members? fl fuel op (.union acc (fl.set s)) rest
      | .look _ => none
      | .literal low =>
        match skip fl rest with
        | '-' :: more =>
          match skip fl more with
          | [] => none
          | ']' :: _ => members? fl fuel op (.union acc (fl.set (single low))) rest
          | '-' :: _ => members? fl fuel op (.union acc (fl.set (single low))) rest
          | more => do
            let (second, rest) ← item? fl more
            match second with
            | .literal high =>
              if low ≤ high then members? fl fuel op (.union acc (fl.set (.range low high))) rest
              else none
            | _ => none
        | rest => members? fl fuel op (.union acc (fl.set (single low))) rest

def item? (fl : Flags) : List Char → Option (Escape × List Char)
  | '\\' :: rest => escape? fl rest
  | c :: rest => some (.literal c, rest)
  | [] => none

def bracket? (fl : Flags) : Nat → List Char → Option (CharSet × List Char)
  | 0, _ => none
  | fuel + 1, cs =>
    let cs := skip fl cs
    let (negated, cs) := match cs with
      | '^' :: cs => (true, skip fl cs)
      | cs => (false, cs)
    if negated && !fl.unicode then none
    else do
      let dashes := cs.takeWhile (· == '-')
      let cs := skip fl (cs.drop dashes.length)
      let start := if dashes.isEmpty then CharSet.none else fl.set (single '-')
      let (start, cs) := match dashes, cs with
        | [], ']' :: cs => (fl.set (single ']'), cs)
        | _, cs => (start, cs)
      let (s, rest) ← members? fl fuel none start cs
      return (if negated then .compl s else s, rest)

end

def count? (cs : List Char) : Option (Nat × List Char) :=
  let cs := cs.dropWhile isBlank
  let ds := cs.takeWhile Char.isDigit
  let n := ds.foldl (fun n c => n * 10 + (c.toNat - 48)) 0
  if ds.isEmpty || n > 0xFFFFFFFF then none
  else some (n, (cs.drop ds.length).dropWhile isBlank)

def repeated (low : Nat) (high : Option Nat) (e : Expr) : Expr :=
  match low, high with
  | 0, none => .star e
  | low, none => .seq (.times low e) (.star e)
  | 0, some high => .upTo high e
  | low, some high => .seq (.times low e) (.upTo (high - low) e)

/-- A counted repetition after its opening brace: its bounds. -/
def counted? (fl : Flags) (cs : List Char) : Option ((Nat × Option Nat) × List Char) := do
  let (low, rest) ← count? (skip fl cs)
  match rest with
  | '\x7d' :: rest => return ((low, some low), rest)
  | ',' :: rest =>
    match skip fl rest with
    | '\x7d' :: rest => return ((low, none), rest)
    | rest =>
      let (high, rest) ← count? rest
      match rest with
      | '\x7d' :: rest => if low ≤ high then return ((low, some high), rest) else none
      | _ => none
  | _ => none

def flagLetters? (fl : Flags) (on : Bool) (seen : List Char) : List Char →
    Option (Flags × Bool × List Char)
  | [] => none
  | ')' :: rest => if seen.head? == some '-' then none else some (fl, false, rest)
  | ':' :: rest => if seen.head? == some '-' then none else some (fl, true, rest)
  | c :: rest =>
    if seen.contains c then none
    else
      match c with
      | '-' => flagLetters? fl false ('-' :: seen) rest
      | 'i' => flagLetters? { fl with ignoreCase := on } on ('i' :: seen) rest
      | 'm' => flagLetters? { fl with multiLine := on } on ('m' :: seen) rest
      | 's' => flagLetters? { fl with dotAll := on } on ('s' :: seen) rest
      | 'U' => flagLetters? fl on ('U' :: seen) rest
      | 'u' => flagLetters? { fl with unicode := on } on ('u' :: seen) rest
      | 'R' => flagLetters? { fl with crlf := on } on ('R' :: seen) rest
      | 'x' => flagLetters? { fl with extended := on } on ('x' :: seen) rest
      | _ => none

def isNameChar (first : Bool) (c : Char) : Bool :=
  c == '_' || (if first then isWordChar c && !isDigitChar c
    else isWordChar c || c == '.' || c == '[' || c == ']')

def groupName? (cs : List Char) : Option (List Char) :=
  let name := cs.takeWhile (· != '>')
  match name, cs.drop name.length with
  | c :: more, _ :: rest => if isNameChar true c && more.all (isNameChar false) then some rest else none
  | _, _ => none

/-- What an opening parenthesis begins. -/
inductive Opening where
  | group (fl : Flags) (rest : List Char)
  | flags (fl : Flags) (rest : List Char)

def opening? (fl : Flags) (cs : List Char) : Option Opening :=
  match skip fl cs with
  | '?' :: cs =>
    match cs with
    | '=' :: _ => none
    | '!' :: _ => none
    | '<' :: '=' :: _ => none
    | '<' :: '!' :: _ => none
    | 'P' :: '<' :: rest => (groupName? rest).map (.group fl)
    | '<' :: rest => (groupName? rest).map (.group fl)
    | ')' :: _ => none
    | rest =>
      (flagLetters? fl true [] rest).map fun (fl', isGroup, rest) =>
        if isGroup then .group fl' rest else .flags fl' rest
  | cs => some (.group fl cs)

def dropLazy (fl : Flags) (cs : List Char) : List Char :=
  match skip fl cs with
  | '?' :: rest => rest
  | _ => cs

def Flags.dot (fl : Flags) : Option Expr :=
  if !fl.unicode then none
  else if fl.dotAll then some (.char (.compl .none))
  else if fl.crlf then some (.char (.compl (.union (single '\n') (single '\r'))))
  else some (.char (.compl (single '\n')))

def Flags.caret (fl : Flags) : Expr :=
  .look (if fl.multiLine then .lineStart fl.crlf else .textStart)

def Flags.dollar (fl : Flags) : Expr :=
  .look (if fl.multiLine then .lineEnd fl.crlf else .textEnd)

/-- What precedes, followed by the atom that a repetition could still apply to. -/
def finish (acc : Expr) (atom : Option Expr) : Expr :=
  match atom with
  | some e => .seq acc e
  | none => acc

mutual

def alternatives? : Nat → Flags → List Char → Option (Read Expr)
  | 0, _, _ => none
  | fuel + 1, fl, cs => do
    let first ← branch? fuel fl .empty none cs
    match first.rest with
    | '|' :: rest =>
      let more ← alternatives? fuel first.flags rest
      return ⟨.alt first.value more.value, more.flags, more.rest⟩
    | _ => return first

/-- One alternative: `acc` precedes `atom`, to which the next repetition mark applies. -/
def branch? : Nat → Flags → Expr → Option Expr → List Char → Option (Read Expr)
  | 0, _, _, _, _ => none
  | fuel + 1, fl, acc, atom, cs =>
    let repetition := fun (low : Nat) (high : Option Nat) (rest : List Char) =>
      match atom with
      | none => none
      | some e => branch? fuel fl acc (some (repeated low high e)) (dropLazy fl rest)
    let next := fun (e : Expr) (rest : List Char) =>
      branch? fuel fl (finish acc atom) (some e) rest
    match skip fl cs with
    | [] => some ⟨finish acc atom, fl, []⟩
    | '|' :: rest => some ⟨finish acc atom, fl, '|' :: rest⟩
    | ')' :: rest => some ⟨finish acc atom, fl, ')' :: rest⟩
    | '*' :: rest => repetition 0 none rest
    | '+' :: rest => repetition 1 none rest
    | '?' :: rest => repetition 0 (some 1) rest
    | '\x7b' :: rest =>
      match counted? fl rest with
      | some ((low, high), rest) => repetition low high rest
      | none => none
    | '(' :: rest =>
      match opening? fl rest with
      | none => none
      | some (.flags fl' rest) => branch? fuel fl' (finish acc atom) none rest
      | some (.group fl' rest) =>
        match alternatives? fuel fl' rest with
        | some ⟨e, _, ')' :: rest⟩ => next e rest
        | _ => none
    | '[' :: rest =>
      match bracket? fl (2 * rest.length + 2) rest with
      | some (s, rest) => next (.char s) rest
      | none => none
    | '.' :: rest =>
      match fl.dot with
      | some e => next e rest
      | none => none
    | '^' :: rest => next fl.caret rest
    | '$' :: rest => next fl.dollar rest
    | '\\' :: rest =>
      match escape? fl rest with
      | some (.literal c, rest) => next (fl.literal c) rest
      | some (.set s, rest) => next (.char s) rest
      | some (.look l, rest) => next (.look l) rest
      | none => none
    | c :: rest => next (fl.literal c) rest

end

/-- The greatest weight that an expression may have. -/
def weightLimit : Nat := 400000

/-- Reads a whole expression. One that would grow too heavy is refused. -/
def parse? (s : String) : Option Expr := do
  let cs := s.toList
  let r ← alternatives? (2 * cs.length + 2) {} cs
  if r.rest.isEmpty && r.value.weight ≤ weightLimit then return r.value else none

end ServletContainer.Regex
