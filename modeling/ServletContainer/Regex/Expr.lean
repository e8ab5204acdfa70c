import ServletContainer.Text.Blank
import ServletContainer.Regex.Classes

/-! Regular expressions and where they match. An expression maps a set of positions in the text to
the set of positions that a match from one of them can end at, so matching never backtracks. -/
namespace ServletContainer.Regex

/-- A set of characters. -/
inductive CharSet where
  | range (low high : Char)
  | word (unicode : Bool)
  | digit (unicode : Bool)
  | space (unicode : Bool)
  | none
  | compl (s : CharSet)
  | union (s t : CharSet)
  | inter (s t : CharSet)
  | diff (s t : CharSet)
  | symmDiff (s t : CharSet)
  /-- The members of `s` and all that differ from one in case only. -/
  | anyCase (s : CharSet)
  deriving DecidableEq

def isAsciiWord (c : Char) : Bool := c.isAlphanum || c == '_'

def CharSet.has : CharSet → Char → Bool
  | .range low high, c => low ≤ c && c ≤ high
  | .word unicode, c => if unicode then isWordChar c else isAsciiWord c
  | .digit unicode, c => if unicode then isDigitChar c else c.isDigit
  | .space unicode, c =>
    if unicode then isBlank c else c == ' ' || (9 ≤ c.toNat && c.toNat ≤ 13)
  | .none, _ => false
  | .compl s, c => !s.has c
  | .union s t, c => s.has c || t.has c
  | .inter s t, c => s.has c && t.has c
  | .diff s t, c => s.has c && !t.has c
  | .symmDiff s t, c => s.has c != t.has c
  | .anyCase s, c => s.has c || (caseVariants c).any fun d => s.has d

/-- A condition on a position. -/
inductive Look where
  | textStart
  | textEnd
  | lineStart (crlf : Bool)
  | lineEnd (crlf : Bool)
  | wordEdge (unicode : Bool)
  | notWordEdge (unicode : Bool)
  | wordStart (unicode : Bool)
  | wordEnd (unicode : Bool)
  | wordStartHalf (unicode : Bool)
  | wordEndHalf (unicode : Bool)
  deriving DecidableEq

inductive Expr where
  | empty
  | char (s : CharSet)
  | look (l : Look)
  | seq (e f : Expr)
  | alt (e f : Expr)
  | star (e : Expr)
  /-- Exactly `n` times. -/
  | times (n : Nat) (e : Expr)
  /-- At most `n` times. -/
  | upTo (n : Nat) (e : Expr)
  deriving DecidableEq

/-- How much a set adds to an expression: a set of ASCII characters counts one, a class of the whole
of Unicode more. -/
def CharSet.weight : CharSet → Nat
  | .range _ high => if high.toNat < 128 then 1 else 4
  | .word unicode => if unicode then 300 else 1
  | .digit unicode => if unicode then 60 else 1
  | .space unicode => if unicode then 10 else 1
  | .none => 1
  | .compl s => 10 + s.weight
  | .union s t => max s.weight t.weight
  | .inter s t => max s.weight t.weight
  | .diff s t => max s.weight t.weight
  | .symmDiff s t => max s.weight t.weight
  | .anyCase s => s.weight

/-- The weight of an expression with its counted repetitions written out. -/
def Expr.weight : Expr → Nat
  | .empty => 1
  | .char s => s.weight
  | .look _ => 1
  | .seq e f => e.weight + f.weight
  | .alt e f => e.weight + f.weight + 1
  | .star e => e.weight + 1
  | .times n e => n * e.weight
  | .upTo n e => n * (e.weight + 1)

/-- A place in the text: the character before it and the characters after it. -/
structure Place where
  before : Option Char
  after : List Char
  deriving DecidableEq

def isWordAt (unicode : Bool) : Option Char → Bool
  | none => false
  | some c => if unicode then isWordChar c else isAsciiWord c

def Look.holds (l : Look) (p : Place) : Bool :=
  let left := fun u => isWordAt u p.before
  let right := fun u => isWordAt u p.after.head?
  match l with
  | .textStart => p.before.isNone
  | .textEnd => p.after.isEmpty
  | .lineStart false => p.before.isNone || p.before == some '\n'
  | .lineStart true =>
    p.before.isNone || p.before == some '\n' ||
      (p.before == some '\r' && p.after.head? != some '\n')
  | .lineEnd false => p.after.isEmpty || p.after.head? == some '\n'
  | .lineEnd true =>
    p.after.isEmpty || p.after.head? == some '\r' ||
      (p.after.head? == some '\n' && p.before != some '\r')
  | .wordEdge u => left u != right u
  | .notWordEdge u => left u == right u
  | .wordStart u => !left u && right u
  | .wordEnd u => left u && !right u
  | .wordStartHalf u => !left u
  | .wordEndHalf u => !right u

/-- Both sets of places, without repetition. -/
def join (ps qs : List Place) : List Place :=
  qs.foldl (fun acc q => if acc.any fun p => p.after.length == q.after.length then acc else acc ++ [q])
    ps

/-- Applies `f` so many times, unless nothing is left before. -/
def repeatTimes (f : List Place → List Place) : Nat → List Place → List Place
  | 0, ps => ps
  | n + 1, ps => if ps.isEmpty then [] else repeatTimes f n (f ps)

/-- All places reached by at most `n` applications. -/
def reach (f : List Place → List Place) : Nat → List Place → List Place
  | 0, ps => ps
  | n + 1, ps =>
    let next := f ps
    if next.isEmpty then ps
    else
      let all := join ps next
      if all.length = ps.length then ps else reach f n all

/-- The places at which a match from one of the given places can end; `size` is the length of the
text, which bounds how often a star makes progress. -/
def Expr.ends (size : Nat) : Expr → List Place → List Place
  | .empty, ps => ps
  | .char s, ps => ps.filterMap fun p =>
    match p.after with
    | c :: cs => if s.has c then some ⟨some c, cs⟩ else none
    | [] => none
  | .look l, ps => ps.filter l.holds
  | .seq e f, ps => f.ends size (e.ends size ps)
  | .alt e f, ps => join (e.ends size ps) (f.ends size ps)
  | .star e, ps => reach (e.ends size) (size + 1) ps
  | .times n e, ps => repeatTimes (e.ends size) n ps
  | .upTo n e, ps => reach (e.ends size) n ps

def placesFrom (before : Option Char) : List Char → List Place
  | [] => [⟨before, []⟩]
  | c :: cs => ⟨before, c :: cs⟩ :: placesFrom (some c) cs

def Expr.occursIn (e : Expr) (text : List Char) : Bool :=
  !(e.ends text.length (placesFrom none text)).isEmpty

end ServletContainer.Regex
