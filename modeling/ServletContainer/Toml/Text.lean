import ServletContainer.Json.Parser

/-! The characters of TOML texts: blanks, comments, line ends, strings and keys. Each reader gives
what it read and the rest of the text. -/
namespace ServletContainer.Toml

open Json (hexDigit?)

def isSpace (c : Char) : Bool := c == ' ' || c == '\t'

def skipSpace (cs : List Char) : List Char := cs.dropWhile isSpace

def isTextChar (c : Char) : Bool := c == '\t' || (0x20 ≤ c.toNat && c.toNat != 0x7F)

def newline? : List Char → Option (List Char)
  | '\n' :: rest => some rest
  | '\r' :: '\n' :: rest => some rest
  | _ => none

def lineEnd? (cs : List Char) : Option (List Char) :=
  let cs := match skipSpace cs with
    | '#' :: rest => rest.dropWhile isTextChar
    | cs => cs
  if cs.isEmpty then some [] else newline? cs

def skipLines? (inComment : Bool) : List Char → Option (List Char)
  | [] => some []
  | '\n' :: rest => skipLines? false rest
  | '\r' :: '\n' :: rest => skipLines? false rest
  | c :: rest =>
    if inComment then if isTextChar c then skipLines? true rest else none
    else if c == '#' then skipLines? true rest
    else if isSpace c then skipLines? false rest
    else some (c :: rest)

def scalar? (digits : List Char) : Option Char := do
  let n ← digits.foldlM (fun n c => (hexDigit? c).map (n * 16 + ·)) 0
  if n.isValidChar then return Char.ofNat n else none

def shortEscape? : Char → Option Char
  | '"' => some '"'
  | '\\' => some '\\'
  | 'b' => some '\x08'
  | 'f' => some '\x0c'
  | 'n' => some '\n'
  | 'r' => some '\r'
  | 't' => some '\t'
  | _ => none

def putFirst (c : Char) (r : Option (List Char × List Char)) : Option (List Char × List Char) :=
  r.map fun (cs, rest) => (c :: cs, rest)

def basicBody? : List Char → Option (List Char × List Char)
  | [] => none
  | '"' :: rest => some ([], rest)
  | '\\' :: 'u' :: a :: b :: c :: d :: rest => do
    putFirst (← scalar? [a, b, c, d]) (basicBody? rest)
  | '\\' :: 'U' :: a :: b :: c :: d :: e :: f :: g :: h :: rest => do
    putFirst (← scalar? [a, b, c, d, e, f, g, h]) (basicBody? rest)
  | '\\' :: c :: rest => do putFirst (← shortEscape? c) (basicBody? rest)
  | c :: rest => if isTextChar c then putFirst c (basicBody? rest) else none

/-- The rest of a string of several lines after its opening quotes and a line end that may follow
them. A backslash at the end of a line takes the blanks and line ends after it away; `skipping` is
true among these. Up to two quotes may stand before the closing ones. -/
def basicLines? (skipping : Bool) : List Char → Option (List Char × List Char)
  | [] => none
  | '"' :: '"' :: '"' :: '"' :: '"' :: rest => some (['"', '"'], rest)
  | '"' :: '"' :: '"' :: '"' :: rest => some (['"'], rest)
  | '"' :: '"' :: '"' :: rest => some ([], rest)
  | '\\' :: 'u' :: a :: b :: c :: d :: rest => do
    putFirst (← scalar? [a, b, c, d]) (basicLines? false rest)
  | '\\' :: 'U' :: a :: b :: c :: d :: e :: f :: g :: h :: rest => do
    putFirst (← scalar? [a, b, c, d, e, f, g, h]) (basicLines? false rest)
  | '\\' :: c :: rest =>
    if (newline? (skipSpace (c :: rest))).isSome then basicLines? true (c :: rest)
    else do putFirst (← shortEscape? c) (basicLines? false rest)
  | '\r' :: '\n' :: rest =>
    if skipping then basicLines? true rest else putFirst '\n' (basicLines? false rest)
  | c :: rest =>
    if skipping && (isSpace c || c == '\n') then basicLines? true rest
    else if isTextChar c || c == '\n' then putFirst c (basicLines? false rest)
    else none

def literalBody? (cs : List Char) : Option (List Char × List Char) :=
  let isBody := fun c => isTextChar c && c != '\''
  match cs.dropWhile isBody with
  | '\'' :: rest => some (cs.takeWhile isBody, rest)
  | _ => none

def literalLines? : List Char → Option (List Char × List Char)
  | [] => none
  | '\'' :: '\'' :: '\'' :: '\'' :: '\'' :: rest => some (['\'', '\''], rest)
  | '\'' :: '\'' :: '\'' :: '\'' :: rest => some (['\''], rest)
  | '\'' :: '\'' :: '\'' :: rest => some ([], rest)
  | '\r' :: '\n' :: rest => putFirst '\n' (literalLines? rest)
  | c :: rest =>
    if isTextChar c || c == '\n' then putFirst c (literalLines? rest) else none

def dropNewline (cs : List Char) : List Char := (newline? cs).getD cs

def string? : List Char → Option (List Char × List Char)
  | '"' :: '"' :: '"' :: rest => basicLines? false (dropNewline rest)
  | '"' :: rest => basicBody? rest
  | '\'' :: '\'' :: '\'' :: rest => literalLines? (dropNewline rest)
  | '\'' :: rest => literalBody? rest
  | _ => none

def isBareKeyChar (c : Char) : Bool := c.isAlphanum || c == '-' || c == '_'

def keyPart? (cs : List Char) : Option (List Char × List Char) :=
  match cs with
  | '"' :: rest => basicBody? rest
  | '\'' :: rest => literalBody? rest
  | cs =>
    let part := cs.takeWhile isBareKeyChar
    if part.isEmpty then none else some (part, cs.dropWhile isBareKeyChar)

def key? : Nat → List Char → Option (List String × List Char)
  | 0, _ => none
  | limit + 1, cs => do
    let (part, rest) ← keyPart? (skipSpace cs)
    match skipSpace rest with
    | '.' :: rest =>
      let (parts, rest) ← key? limit rest
      return (String.ofList part :: parts, rest)
    | rest => return ([String.ofList part], rest)

end ServletContainer.Toml
