/-!
# Double-precision numbers

`Double` is a 64-bit binary floating-point number, kept as its bit pattern.  Two patterns can
stand for equal numbers (`0.0` and `-0.0`), and a not-a-number differs from itself, so there are
two notions of equality: `=` on patterns and `Double.same` on the numbers they stand for.

## Main definitions

* `Double`, `Double.same`, `Double.isFinite` — numbers by bit pattern, and their comparison.
* `Double.ofInt` — the double nearest to a 64-bit integer.
* `Double.ofDecimal?` — the double a decimal literal is read as.
-/

namespace PipelineEditor

/-- A 64-bit binary floating-point number, by its bit pattern. -/
structure Double where
  bits : UInt64
  deriving DecidableEq, Inhabited

namespace Double

/-- The biased exponent, eleven bits. -/
def exponentField (x : Double) : Nat := (x.bits >>> 52 &&& 0x7FF).toNat

/-- The stored part of the significand, fifty-two bits. -/
def fractionField (x : Double) : Nat := (x.bits &&& 0xFFFFFFFFFFFFF).toNat

/-- Whether the sign bit is set. -/
def isNegative (x : Double) : Bool := x.bits >>> 63 = 1

/-- Whether the pattern stands for a number, infinities excluded. -/
def isFinite (x : Double) : Bool := x.exponentField ≠ 2047

def isNaN (x : Double) : Bool := x.exponentField = 2047 ∧ x.fractionField ≠ 0

/-- Whether the pattern is one of the two zeros. -/
def isZero (x : Double) : Bool := x.bits &&& 0x7FFFFFFFFFFFFFFF = 0

/-- Numeric equality: the two zeros agree, and a not-a-number agrees with nothing. -/
def same (x y : Double) : Bool :=
  !x.isNaN && (x = y || (x.isZero && y.isZero))

/-- Positive zero. -/
def zero : Double := ⟨0⟩

/-- Zero with the sign bit set. -/
def negativeZero : Double := ⟨0x8000000000000000⟩

instance : OfNat Double 0 := ⟨zero⟩

theorem same_self {x : Double} (h : x.isNaN = false) : x.same x = true := by
  simp [same, h]

/-- The pattern of a machine number. -/
def ofFloat (x : Float) : Double := ⟨x.toBits⟩

/-- The double nearest to an integer of at most 64 bits. -/
def ofInt (n : Int) : Double :=
  let magnitude := n.natAbs.toUInt64.toFloat
  ofFloat (if n < 0 then -magnitude else magnitude)

/-- Ten to a power of at most 308, as a machine number. -/
def powerOfTen (k : Nat) : Float := Float.ofScientific 1 false k

/-- Divides by the largest machine power of ten until what is left of the exponent is one too;
four rounds take every 64-bit significand to zero. -/
def scaleDown : Nat → Float → Nat → Float
  | 0, x, _ => x
  | rounds + 1, x, k =>
    if k ≤ 308 then x / powerOfTen k
    else scaleDown rounds (x / powerOfTen 308) (k - 308)

/-- The double a decimal literal is read as: its significand as a double, times or over a power
of ten.  There is none where the magnitude is too large for a finite double. -/
def ofDecimal? (negative : Bool) (significand : Nat) (exponent : Int) : Option Double :=
  let x := significand.toUInt64.toFloat
  let signed (magnitude : Float) := ofFloat (if negative then -magnitude else magnitude)
  if significand = 0 then some (signed x)
  else if exponent < 0 then some (signed (scaleDown 4 x exponent.natAbs))
  else if exponent ≤ 308 then
    let magnitude := x * powerOfTen exponent.natAbs
    if magnitude.isInf then none else some (signed magnitude)
  else none

end Double

end PipelineEditor
