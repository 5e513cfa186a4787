import Montage.Text.Unprintable

/-!
# Quoted text

Text in a message is written between quotes, so that its ends and its invisible characters show. The
quote is an apostrophe, or a double quote where the text holds apostrophes and no double quote. A
backslash and the quote itself take a backslash before them, the common line controls have letters,
and every other character without a glyph is written by its code point in hexadecimal.
-/

namespace Montage.Text

/-- The `width` last hexadecimal digits of a number, in lower case. -/
def hexDigits (width n : Nat) : List Char :=
  (List.range width).reverse.map fun i => Nat.digitChar (n >>> (4 * i) % 16)

/-- The quote that a text is written in. -/
def quoteFor (s : List Char) : Char :=
  if s.contains '\'' && !s.contains '"' then '"' else '\''

/-- How one character is written between two quotes of the given kind. -/
def escapeChar (quote c : Char) : List Char :=
  if c == quote || c == '\\' then ['\\', c]
  else if c == '\n' then ['\\', 'n']
  else if c == '\r' then ['\\', 'r']
  else if c == '\t' then ['\\', 't']
  else if isPrintable c then [c]
  else if c.toNat < 0x100 then '\\' :: 'x' :: hexDigits 2 c.toNat
  else if c.toNat < 0x10000 then '\\' :: 'u' :: hexDigits 4 c.toNat
  else '\\' :: 'U' :: hexDigits 8 c.toNat

/-- The text between quotes. -/
def quote (s : String) : String :=
  let mark := quoteFor s.toList
  String.ofList (mark :: s.toList.flatMap (escapeChar mark) ++ [mark])

end Montage.Text
