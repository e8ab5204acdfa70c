/-! Texts as octets and octets as texts. Reading never fails: `decodeLossy` puts one replacement
character for each longest piece that cannot be part of a character, `decode?` refuses such input. -/
namespace ServletContainer

abbrev Bytes := List UInt8

namespace Utf8

def encode (s : String) : Bytes := s.toList.flatMap String.utf8EncodeChar

theorem encode_injective {s t : String} (h : encode s = encode t) : s = t := by
  have hbytes : s.toList.utf8Encode = t.toList.utf8Encode := congrArg List.toByteArray h
  rwa [String.utf8Encode_toList, String.utf8Encode_toList, String.toByteArray_inj] at hbytes

/-- A character that has begun: the octets it still needs, the bounds of the next one, and the
value of the bits read. -/
structure Open where
  owed : Nat
  low : UInt8
  high : UInt8
  value : Nat
  deriving DecidableEq

def start (b : UInt8) : Option Char ⊕ Open :=
  let n := b.toNat
  if n ≤ 0x7F then .inl (some (Char.ofNat n))
  else if 0xC2 ≤ n ∧ n ≤ 0xDF then .inr ⟨0, 0x80, 0xBF, n - 0xC0⟩
  else if n = 0xE0 then .inr ⟨1, 0xA0, 0xBF, 0⟩
  else if n = 0xED then .inr ⟨1, 0x80, 0x9F, 0xD⟩
  else if 0xE1 ≤ n ∧ n ≤ 0xEF then .inr ⟨1, 0x80, 0xBF, n - 0xE0⟩
  else if n = 0xF0 then .inr ⟨2, 0x90, 0xBF, 0⟩
  else if 0xF1 ≤ n ∧ n ≤ 0xF3 then .inr ⟨2, 0x80, 0xBF, n - 0xF0⟩
  else if n = 0xF4 then .inr ⟨2, 0x80, 0x8F, 4⟩
  else .inl none

/-- The characters of the octets that follow an open one; `none` stands for a malformed piece. -/
def units : Option Open → Bytes → List (Option Char)
  | none, [] => []
  | some _, [] => [none]
  | none, b :: bs =>
    match start b with
    | .inl c => c :: units none bs
    | .inr o => units (some o) bs
  | some o, b :: bs =>
    if o.low ≤ b ∧ b ≤ o.high then
      let value := o.value * 64 + (b.toNat - 0x80)
      if o.owed = 0 then some (Char.ofNat value) :: units none bs
      else units (some ⟨o.owed - 1, 0x80, 0xBF, value⟩) bs
    else
      none :: match start b with
        | .inl c => c :: units none bs
        | .inr o' => units (some o') bs

/-- Reads octets, with U+FFFD for every malformed piece. -/
def decodeLossy (bs : Bytes) : String :=
  String.ofList ((units none bs).map (·.getD '\uFFFD'))

def decode? (bs : Bytes) : Option String :=
  ((units none bs).mapM id).map String.ofList

end Utf8

def hexOf (bs : Bytes) : String :=
  String.ofList (bs.flatMap fun b =>
    [Nat.digitChar (b.toNat / 16), Nat.digitChar (b.toNat % 16)])

end ServletContainer
