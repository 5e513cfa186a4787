import Montage.Text.Ranges

/-!
# Blank characters

The characters that count as white space in a setting: the white space of Unicode, and the four
separator controls from U+001C to U+001F. Stripping a text removes them from both ends.
-/

namespace Montage.Text

/-- The blank characters, in ascending order. -/
def blankRanges : List Range :=
  [(0x09, 0x0D), (0x1C, 0x20), (0x85, 0x85), (0xA0, 0xA0), (0x1680, 0x1680), (0x2000, 0x200A),
    (0x2028, 0x2029), (0x202F, 0x202F), (0x205F, 0x205F), (0x3000, 0x3000)]

/-- Whether a character is blank. -/
def isBlank (c : Char) : Bool :=
  inRanges blankRanges c.toNat

/-- The text without the blank characters at its two ends. -/
def strip (s : String) : String :=
  String.ofList (((s.toList.dropWhile isBlank).reverse.dropWhile isBlank).reverse)

/-- Whether a text holds nothing but blank characters. -/
def isAllBlank (s : String) : Bool :=
  s.toList.all isBlank

end Montage.Text
