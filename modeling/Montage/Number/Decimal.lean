import Montage.Number.Binary64

/-!
# Decimal text of a floating-point number

In a message a number is written with the fewest digits that read back as it, the nearest of those,
or with a fixed number of places. Which digits these are is a matter of exact arithmetic; how they
are laid out is the decision of a `Layout`.
-/

namespace Montage.Decimal

/-- The decimal `digits * 10 ^ exponent`. -/
structure Scientific where
  /-- The digits, as a number without superfluous zeros at its end. -/
  digits : Nat
  /-- The power of ten. -/
  exponent : Int
  deriving DecidableEq, Repr

/-- A quotient of whole numbers, the divisor being positive. -/
structure Ratio where
  /-- The dividend. -/
  num : Nat
  /-- The divisor. -/
  den : Nat

/-- A quotient divided by a power of ten. -/
def Ratio.scale (r : Ratio) (exponent : Int) : Ratio :=
  if 0 ≤ exponent then ⟨r.num, r.den * Nat.pow 10 exponent.toNat⟩
  else ⟨r.num * Nat.pow 10 exponent.natAbs, r.den⟩

/-- Whether one quotient is below another. -/
def Ratio.less (r q : Ratio) : Bool :=
  r.num * q.den < q.num * r.den

/-- The size of a number, in quarters of a unit, with the half-way points to its two neighbours. -/
def bounds (mantissa shift : Nat) : Ratio × Ratio :=
  let below := if mantissa = Binary64.leadingBit ∧ 0 < shift then 1 else 2
  let quarters := 4 * Binary64.unitsPerOne
  (⟨(4 * mantissa - below) <<< shift, quarters⟩, ⟨(4 * mantissa + 2) <<< shift, quarters⟩)

/-- Whether a decimal reads back as the number: it lies between the half-way points to the two
neighbours, which belong to the number when its mantissa is even. -/
def readsBack (mantissa shift : Nat) (decimal : Ratio) : Bool :=
  let (low, high) := bounds mantissa shift
  if mantissa % 2 = 0 then !decimal.less low && !high.less decimal
  else low.less decimal && decimal.less high

/-- The least power of ten above a positive quotient, at least the power that the search starts
from. -/
def leastPowerAbove (r : Ratio) : Nat → Int → Int
  | 0, start => start
  | fuel + 1, start =>
    let scaled := r.scale start
    if scaled.num < scaled.den then start else leastPowerAbove r fuel (start + 1)

/-- The decimal with a given grid that reads back as the number, the nearer of two. -/
def onGrid? (mantissa shift : Nat) (value : Ratio) (exponent : Int) : Option Scientific :=
  let scaled := value.scale exponent
  let below := scaled.num / scaled.den
  let fits (n : Nat) : Bool := readsBack mantissa shift ((⟨n, 1⟩ : Ratio).scale (-exponent))
  match fits below, fits (below + 1) with
  | true, true => some ⟨roundHalfEven scaled.num scaled.den, exponent⟩
  | true, false => some ⟨below, exponent⟩
  | false, true => some ⟨below + 1, exponent⟩
  | false, false => none

/-- Moves the zeros at the end of the digits into the exponent. -/
def strip : Nat → Scientific → Scientific
  | 0, d => d
  | fuel + 1, d =>
    if d.digits ≠ 0 ∧ d.digits % 10 = 0 then strip fuel ⟨d.digits / 10, d.exponent + 1⟩ else d

/-- The decimal with the fewest digits that reads back as a positive number. -/
def shortest (mantissa shift : Nat) : Scientific :=
  let value : Ratio := ⟨mantissa <<< shift, Binary64.unitsPerOne⟩
  let bits : Int := Nat.log2 (mantissa <<< shift)
  let top := leastPowerAbove value 4 ((bits - 1074) * 30103 / 100000 - 1)
  let grids := (List.range 17).map fun (n : Nat) => top - 1 - (n : Int)
  match grids.findSome? (onGrid? mantissa shift value) with
  | some d => strip 17 d
  | none => ⟨mantissa, 0⟩

/-! ## Layout -/

/-- How decimals are laid out. -/
structure Layout where
  /-- The point stands at most so many places before the first digit in positional notation. -/
  leadingZeros : Int
  /-- The point stands at most so many places behind the first digit in positional notation. -/
  positionalDigits : Int
  /-- The least number of digits of an exponent. -/
  exponentDigits : Nat

/-- Messages write numbers from `0.0001` up to but not including `10^16` positionally, always with a
place behind the point, and exponents with two digits at least. -/
def messageLayout : Layout :=
  ⟨3, 16, 2⟩

/-- Zeros before a text, up to a width. -/
def padZeros (width : Nat) (s : String) : String :=
  String.ofList (List.replicate (width - s.length) '0') ++ s

/-- The text of a positive decimal. -/
def Layout.render (l : Layout) (d : Scientific) : String :=
  let digits := toString d.digits
  let point := d.exponent + digits.length
  if -l.leadingZeros ≤ point ∧ point ≤ l.positionalDigits then
    if point ≤ 0 then "0." ++ padZeros (digits.length + point.natAbs) digits
    else if digits.length ≤ point.toNat then
      digits ++ String.ofList (List.replicate (point.toNat - digits.length) '0') ++ ".0"
    else
      (digits.take point.toNat).copy ++ "." ++ (digits.drop point.toNat).copy
  else
    let fraction := (digits.drop 1).copy
    let mantissa := (digits.take 1).copy ++ (if fraction = "" then "" else "." ++ fraction)
    let sign := if point ≤ 0 then "-" else "+"
    mantissa ++ "e" ++ sign ++ padZeros l.exponentDigits (toString (point - 1).natAbs)

/-- The sign of a number in text. -/
def signText (x : Binary64) : String :=
  if x.isNegative then "-" else ""

/-- The text of a number with the fewest digits. -/
def text : Binary64 → String
  | .nan => "nan"
  | x@(.infinite _) => signText x ++ "inf"
  | x@(.finite _ 0 _) => signText x ++ "0.0"
  | x@(.finite _ mantissa shift) => signText x ++ messageLayout.render (shortest mantissa shift)

/-- The text of a number with a fixed number of places behind the point. -/
def fixed (places : Nat) : Binary64 → String
  | .nan => "nan"
  | x@(.infinite _) => signText x ++ "inf"
  | x@(.finite _ _ _) =>
    let power := Nat.pow 10 places
    let scaled := roundHalfEven (x.magnitude * power) Binary64.unitsPerOne
    let whole := toString (scaled / power)
    let fraction := padZeros places (toString (scaled % power))
    signText x ++ whole ++ "." ++ fraction

end Montage.Decimal
