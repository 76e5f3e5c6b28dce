/-! Blank characters are those with the Unicode property White_Space. Trimming takes them
off one or both ends of a text and leaves everything between untouched. -/
namespace Sketchbook.Text

/-- The 25 code points of White_Space. -/
def isBlank (c : Char) : Bool :=
  let n := c.toNat
  (9 ≤ n && n ≤ 13) || n == 0x20 || n == 0x85 || n == 0xA0 || n == 0x1680 ||
    (0x2000 ≤ n && n ≤ 0x200A) || n == 0x2028 || n == 0x2029 || n == 0x202F ||
    n == 0x205F || n == 0x3000

def dropRightWhile (p : Char → Bool) (cs : List Char) : List Char :=
  (cs.reverse.dropWhile p).reverse

def trimRight (cs : List Char) : List Char := dropRightWhile isBlank cs

def trim (cs : List Char) : List Char := trimRight (cs.dropWhile isBlank)

def isBlankText (s : String) : Bool := s.toList.all isBlank

theorem dropRightWhile_append (p : Char → Bool) (cs : List Char) :
    ∃ tail, cs = dropRightWhile p cs ++ tail ∧ ∀ c ∈ tail, p c := by
  refine ⟨(cs.reverse.takeWhile p).reverse, ?_, ?_⟩
  · rw [dropRightWhile, ← List.reverse_append, List.takeWhile_append_dropWhile,
      List.reverse_reverse]
  · intro c hc
    rw [List.mem_reverse] at hc
    exact List.all_eq_true.mp (List.all_takeWhile) c hc

end Sketchbook.Text
