import BlockScript.Text.Ranges

/-!
# Blank text

* `blankRanges`: the code points that count as white space;
* `trim`: text without the white space at its two ends;
* `isBlank`: whether nothing is left after trimming.
-/

namespace BlockScript.Text

/-- The white space characters: tab to carriage return, the space, next line, the no-break space
    and the wider spaces and separators. -/
def blankRanges : List Range :=
  [(0x9, 5), (0x20, 1), (0x85, 1), (0xa0, 1), (0x1680, 1), (0x2000, 11), (0x2028, 2), (0x202f, 1),
    (0x205f, 1), (0x3000, 1)]

/-- Whether the character is white space. -/
def isBlankChar (c : Char) : Bool :=
  inRanges blankRanges c.toNat

/-- Drops white space at both ends. -/
def trimChars (cs : List Char) : List Char :=
  ((cs.dropWhile isBlankChar).reverse.dropWhile isBlankChar).reverse

/-- Text without the white space at its two ends. -/
def trim (s : String) : String :=
  String.ofList (trimChars s.toList)

/-- Whether the text holds white space only. -/
def isBlank (s : String) : Bool :=
  s.toList.all isBlankChar

/-- Whether two texts agree up to the case of the letters a to z. -/
def eqIgnoringAsciiCase (a b : String) : Bool :=
  a.toList.map Char.toLower == b.toList.map Char.toLower

theorem dropWhile_of_all {cs : List Char} (h : cs.all isBlankChar = true) :
    cs.dropWhile isBlankChar = [] := by
  induction cs with
  | nil => rfl
  | cons c cs ih =>
    simp only [List.all_cons, Bool.and_eq_true] at h
    simp [List.dropWhile, h.1, ih h.2]

/-- **Blank text trims to nothing.** -/
theorem trimChars_of_all {cs : List Char} (h : cs.all isBlankChar = true) : trimChars cs = [] := by
  simp [trimChars, dropWhile_of_all h]

end BlockScript.Text
