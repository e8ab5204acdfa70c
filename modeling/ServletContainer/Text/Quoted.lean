import ServletContainer.Text.Printable

/-! Texts in double quotes, as messages show them. -/
namespace ServletContainer.Text

def quoteChar (c : Char) : List Char :=
  match c with
  | '\x00' => ['\\', '0']
  | '\t' => ['\\', 't']
  | '\r' => ['\\', 'r']
  | '\n' => ['\\', 'n']
  | '"' => ['\\', '"']
  | '\\' => ['\\', '\\']
  | c =>
    if isHidden c then '\\' :: 'u' :: '\x7b' :: Nat.toDigits 16 c.toNat ++ ['\x7d'] else [c]

def quoted (s : String) : String :=
  String.ofList ('"' :: s.toList.flatMap quoteChar ++ ['"'])

def quotedList (xs : List String) : String :=
  "[" ++ ", ".intercalate (xs.map quoted) ++ "]"

def quotedEntries (xs : List (String × String)) : String :=
  "\x7b" ++ ", ".intercalate (xs.map fun (k, v) => quoted k ++ ": " ++ quoted v) ++ "\x7d"

end ServletContainer.Text
