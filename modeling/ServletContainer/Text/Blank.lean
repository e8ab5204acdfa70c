/-! White space as Unicode defines it, and trimming at either end. `dropEnd_cons` gives the end of a
text by recursion from its start. -/
namespace ServletContainer

def isBlank (c : Char) : Bool :=
  let n := c.toNat
  (9 ≤ n && n ≤ 13) || n == 0x20 || n == 0x85 || n == 0xA0 || n == 0x1680 ||
    (0x2000 ≤ n && n ≤ 0x200A) || n == 0x2028 || n == 0x2029 || n == 0x202F || n == 0x205F ||
    n == 0x3000

namespace Text

def dropStart (p : Char → Bool) (cs : List Char) : List Char := cs.dropWhile p

theorem head?_dropStart_ne (c : Char) (cs : List Char) : (dropStart (· == c) cs).head? ≠ some c := by
  intro hhead
  have hnot := List.head?_dropWhile_not (· == c) cs
  rw [← dropStart, hhead] at hnot
  simp at hnot

def dropEnd (p : Char → Bool) (cs : List Char) : List Char := (cs.reverse.dropWhile p).reverse

def trimChars (cs : List Char) : List Char := dropEnd isBlank (dropStart isBlank cs)

def trim (s : String) : String := String.ofList (trimChars s.toList)

theorem dropEnd_cons (p : Char → Bool) (c : Char) (cs : List Char) :
    dropEnd p (c :: cs) =
      if dropEnd p cs = [] then (if p c then [] else [c]) else c :: dropEnd p cs := by
  simp only [dropEnd, List.reverse_cons, List.dropWhile_append]
  by_cases h : (List.dropWhile p cs.reverse).isEmpty
  · have h' : List.dropWhile p cs.reverse = [] := by simpa using h
    by_cases hc : p c <;> simp [h', hc]
  · have h' : List.dropWhile p cs.reverse ≠ [] := by simpa using h
    simp [h, h']

end Text

end ServletContainer
