import MapScript.Text.Ranges

/-!
# Blanks

Blank characters are the white space of Unicode together with the four separators U+001C to U+001F. Trimming takes
away blanks at the ends of a text and nothing else.
-/

namespace MapScript

/-- Closed ranges of the blank characters. -/
def blanks : List (Nat × Nat) :=
  [(0x09, 0x0d), (0x1c, 0x20), (0x85, 0x85), (0xa0, 0xa0), (0x1680, 0x1680), (0x2000, 0x200a), (0x2028, 0x2029),
    (0x202f, 0x202f), (0x205f, 0x205f), (0x3000, 0x3000)]

def isBlank (c : CodePoint) : Bool := inRanges blanks c

def trimStart (text : List CodePoint) : List CodePoint := text.dropWhile isBlank

def trimEnd (text : List CodePoint) : List CodePoint := (text.reverse.dropWhile isBlank).reverse

def trim (text : List CodePoint) : List CodePoint := trimEnd (trimStart text)

theorem length_trim_le (text : List CodePoint) : (trim text).length ≤ text.length := by
  have h₁ := (List.dropWhile_sublist isBlank (l := text)).length_le
  have h₂ := (List.dropWhile_sublist isBlank (l := (trimStart text).reverse)).length_le
  simp only [List.length_reverse, trimStart] at h₂
  simp only [trim, trimEnd, trimStart, List.length_reverse]
  omega

theorem trimEnd_append_of_not_blank (text : List CodePoint) {c : CodePoint} (h : isBlank c = false) :
    trimEnd (text ++ [c]) = text ++ [c] := by
  simp [trimEnd, h]

end MapScript
