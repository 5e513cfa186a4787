import Montage.Text.Blank
import Montage.Text.DecimalDigit

/-!
# Numerals

Numbers written in decimal. A numeral of the expression language is a run of ASCII digits; a setting
may also hold a sign, blanks around the number, single underscores between digits and the digits of
any script. Numerals of more than 4300 digits are neither read nor written. The main statements,
`value?_eq_some_iff`, `written_eq_ok_iff` and `written_eq_error_iff`, say exactly which runs have a
value and which numbers have a numeral.
-/

namespace Montage.Numeral

/-- The most digits that a numeral may have. -/
def longest : Nat := 4300

/-- Why a numeral is refused. -/
inductive Fault where
  /-- A numeral that was to be read has too many digits. -/
  | read (digits : Nat)
  /-- A number that was to be written has too many digits. -/
  | written
  deriving DecidableEq, Repr

/-- The text of a fault. -/
def Fault.message (fault : Fault) : String :=
  let found := match fault with
    | read digits => s!": value has {digits} digits"
    | written => ""
  s!"Exceeds the limit ({longest} digits) for integer string conversion" ++ found ++
    "; use sys.set_int_max_str_digits() to increase the limit"

/-- The value of a run of ASCII digits, unless the run is too long. -/
def value? (digits : List Char) : Option Nat :=
  if digits.length ≤ longest then some (Nat.ofDigitChars 10 digits 0) else none

/-- A run has a value exactly when it is not too long. -/
theorem value?_eq_some_iff {digits : List Char} {n : Nat} :
    value? digits = some n ↔ digits.length ≤ longest ∧ Nat.ofDigitChars 10 digits 0 = n := by
  unfold value?
  split
  · simp_all
  · rename_i h
    simp [h]

/-- A run of digits without its superfluous zeros. -/
def stripZeros (digits : List Char) : List Char :=
  match digits.dropWhile (· == '0') with
  | [] => ['0']
  | significant => significant

/-- The characters of an integer in decimal. -/
def decimal (n : Int) : List Char :=
  (toString n).toList

/-- The numeral of an integer, unless it has too many digits. -/
def written (n : Int) : Except Fault String :=
  if (decimal n.natAbs).length ≤ longest then .ok (toString n) else .error .written

/-- An integer has a numeral exactly when that is not too long. -/
theorem written_eq_ok_iff {n : Int} {text : String} :
    written n = .ok text ↔ (decimal n.natAbs).length ≤ longest ∧ toString n = text := by
  unfold written
  split
  · rename_i hshort
    rw [Except.ok.injEq]
    exact ⟨fun h => ⟨hshort, h⟩, And.right⟩
  · rename_i hlong
    constructor
    · intro h
      cases h
    · rintro ⟨hshort, -⟩
      exact absurd hshort hlong

/-- An integer has no more digits than a numeral may have. -/
def Writable (n : Int) : Prop :=
  (decimal n.natAbs).length ≤ longest

instance (n : Int) : Decidable (Writable n) :=
  inferInstanceAs (Decidable (_ ≤ _))

/-- A writable integer is written. -/
theorem Writable.written_eq {n : Int} (h : Writable n) : written n = .ok (toString n) :=
  if_pos h

/-- An integer has no numeral exactly when it is not writable. -/
theorem written_eq_error_iff {n : Int} {fault : Fault} :
    written n = .error fault ↔ fault = .written ∧ ¬ Writable n := by
  unfold written Writable
  split
  · rename_i hshort
    exact ⟨nofun, fun h => absurd hshort h.2⟩
  · rename_i hlong
    exact ⟨fun h => ⟨(Except.error.inj h).symm, hlong⟩, fun h => congrArg _ h.1.symm⟩

/-! ## Integers in settings -/

/-- A character of a setting as the reader sees it: a blank beyond ASCII is a space, a digit of any
script is an ASCII digit, and any other character beyond ASCII is no part of a number. -/
def toAscii (c : Char) : Char :=
  if c.toNat < 0x80 then c
  else if Text.isBlank c then ' '
  else match Text.digitValue? c with
    | some d => Nat.digitChar d
    | none => '?'

/-- The blanks of ASCII that may stand around a number. -/
def isAsciiBlank (c : Char) : Bool :=
  c == ' ' || (0x09 ≤ c.toNat && c.toNat ≤ 0x0D)

/-- Whether underscores stand only one at a time between two digits. -/
def wellSpaced : List Char → Bool
  | [] => false
  | [c] => c.isDigit
  | c :: d :: rest => (c.isDigit || c == '_' && d.isDigit) && wellSpaced (d :: rest)

/-- The value of a run of digits and underscores. -/
def readSpaced? (body : List Char) : Option Nat :=
  if body.head?.any Char.isDigit && wellSpaced body then value? (body.filter Char.isDigit) else none

/-- Reads an integer in decimal with an optional sign. -/
def readSigned? : List Char → Option Int
  | '-' :: body => (readSpaced? body).map fun n => -(n : Int)
  | '+' :: body => (readSpaced? body).map Int.ofNat
  | body => (readSpaced? body).map Int.ofNat

/-- Reads an integer as a setting gives it. -/
def readInteger? (s : String) : Option Int :=
  let text := (s.toList.map toAscii).dropWhile isAsciiBlank
  readSigned? (text.reverse.dropWhile isAsciiBlank).reverse

end Montage.Numeral
