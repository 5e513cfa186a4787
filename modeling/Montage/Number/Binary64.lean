import Montage.Number.Rounding

/-!
# Floating-point numbers of 64 bits

A finite number is a sign and a whole number of units of `2^-1074`, the smallest positive number of
the format. At most 53 bits of that whole number differ from zero, so it is kept as a mantissa
below `2^53` and a shift. Every operation takes the exact result, which is a quotient of whole
numbers, and rounds it once to the nearest number of the format, a tie to the even mantissa. All of
it is exact arithmetic on integers, so that facts about sizes can be proved without trusting a
processor.
-/

namespace Montage

/-- A number of the format. -/
inductive Binary64 where
  /-- No number. -/
  | nan
  /-- An infinity. -/
  | infinite (negative : Bool)
  /-- The number of `mantissa * 2 ^ shift` units. -/
  | finite (negative : Bool) (mantissa shift : Nat)
  deriving DecidableEq, Repr

namespace Binary64

/-- The number of units in one. -/
def unitsPerOne : Nat := 1 <<< 1074

/-- The leading bit of a mantissa, `2^52`. -/
def leadingBit : Nat := 0x10000000000000

/-- The number nearest to `num / den` units, an infinity where that lies beyond the format. -/
def round (negative : Bool) (num den : Nat) : Binary64 :=
  let shift := Nat.log2 (num / den) - 52
  let mantissa := roundHalfEven num (den <<< shift)
  let carried := if mantissa = 2 * leadingBit then (leadingBit, shift + 1) else (mantissa, shift)
  if 2045 < carried.2 then infinite negative else finite negative carried.1 carried.2

/-- The number nearest to a quotient of whole numbers. -/
def ofRatio (negative : Bool) (num den : Nat) : Binary64 :=
  round negative (num * unitsPerOne) den

/-- The number nearest to a natural number. -/
def ofNat (n : Nat) : Binary64 :=
  ofRatio false n 1

/-- Zero, of either sign. -/
def zero (negative : Bool) : Binary64 :=
  finite negative 0 0

/-- One. -/
def one : Binary64 :=
  finite false leadingBit 1022

/-- Whether the sign of a number is negative; that of a zero counts. -/
def isNegative : Binary64 → Bool
  | nan => false
  | infinite negative => negative
  | finite negative _ _ => negative

/-- Whether a number is finite. -/
def isFinite : Binary64 → Bool
  | finite _ _ _ => true
  | _ => false

/-- The size of a finite number in units. -/
def magnitude : Binary64 → Nat
  | finite _ mantissa shift => mantissa <<< shift
  | _ => 0

/-- The value of a finite number in units. -/
def units (x : Binary64) : Int :=
  if x.isNegative then -(x.magnitude : Int) else x.magnitude

/-- Whether a number is zero, of either sign. -/
def isZero (x : Binary64) : Bool :=
  x.isFinite && x.magnitude == 0

/-- Whether one number is less than another; `nan` is neither less nor greater than anything. -/
def less : Binary64 → Binary64 → Bool
  | nan, _ => false
  | _, nan => false
  | infinite s, infinite t => s && !t
  | infinite s, finite _ _ _ => s
  | finite _ _ _, infinite t => !t
  | x@(finite _ _ _), y@(finite _ _ _) => x.units < y.units

/-- The smaller of two numbers, the first where neither is smaller. -/
def minimum (x y : Binary64) : Binary64 :=
  if y.less x then y else x

/-- The larger of two numbers, the first where neither is larger. -/
def maximum (x y : Binary64) : Binary64 :=
  if x.less y then y else x

/-- The product of two numbers. -/
def mul : Binary64 → Binary64 → Binary64
  | nan, _ => nan
  | _, nan => nan
  | x@(finite s _ _), y@(finite t _ _) => round (s != t) (x.magnitude * y.magnitude) unitsPerOne
  | x, y => if x.isZero || y.isZero then nan else infinite (x.isNegative != y.isNegative)

/-- The quotient of a number and a positive whole number. -/
def divNat : Binary64 → Nat → Binary64
  | x@(finite s _ _), n => round s x.magnitude n
  | x, _ => x

/-- The sum of a number that is not negative and a quotient of whole numbers. -/
def addRatio : Binary64 → Nat → Nat → Binary64
  | x@(finite s _ _), num, den => round s (x.magnitude * den + num * unitsPerOne) den
  | x, _, _ => x

/-- The whole number nearest to a finite number, the even one of two that are equally near. -/
def toNearestInt (x : Binary64) : Int :=
  let size := roundHalfEven x.magnitude unitsPerOne
  if x.isNegative then -(size : Int) else size

/-- The whole part of a finite number. -/
def truncate (x : Binary64) : Int :=
  let size := x.magnitude / unitsPerOne
  if x.isNegative then -(size : Int) else size

/-- The 64 bits of a number: the sign, eleven bits of exponent, and the mantissa without its leading
bit, which only the numbers below `2^-1022` lack. -/
def toBits (x : Binary64) : Nat :=
  let sign := if x.isNegative then 0x8000000000000000 else 0
  match x with
  | nan => 0x7FF8000000000000
  | infinite _ => sign + 0x7FF0000000000000
  | finite _ mantissa shift =>
    if mantissa < leadingBit then sign + mantissa
    else sign + (shift + 1) * leadingBit + (mantissa - leadingBit)

/-- The number as the processor computes with it. -/
def toFloat (x : Binary64) : Float :=
  Float.ofBits (UInt64.ofNat x.toBits)

/-! ## Dividing whole numbers -/

/-- Why two whole numbers have no quotient in the format. -/
inductive QuotientFault where
  /-- The divisor is zero. -/
  | byZero
  /-- The quotient lies beyond the format. -/
  | tooLarge
  deriving DecidableEq, Repr

/-- The number nearest to the quotient of two whole numbers. A zero has the sign of the quotient. -/
def quotient (a b : Int) : Except QuotientFault Binary64 :=
  if b = 0 then .error .byZero
  else match ofRatio (decide (a < 0) != decide (b < 0)) a.natAbs b.natAbs with
    | infinite _ => .error .tooLarge
    | x => .ok x

/-- The number nearest to a whole number, unless that lies beyond the format. -/
def ofInt? (n : Int) : Option Binary64 :=
  match ofRatio (decide (n < 0)) n.natAbs 1 with
  | infinite _ => none
  | x => some x

end Binary64

end Montage
