import PipelineEditor.Number.Double

/-!
# The shortest decimal that reads back

A finite nonzero double stands for `m · 2^q`, and every real number closer to it than to its
neighbours reads back as it.  `Double.shortest` finds, for one, two, … digits, the points of that
decimal grid on either side of the number, and takes the first grid with a point inside the
interval; of two such points it takes the nearer, and the even one on a tie.  All comparisons are
made in natural numbers.

## Main definitions

* `Double.shortest` — the fewest decimal digits that read back, with their exponent.
* `Double.text` — the written form: positional from `1e-5` up to `1e16`, else with an exponent.
-/

namespace PipelineEditor

namespace Double

/-- The reals that read back as a number: `value`, `lower` and `upper` are over one denominator,
and the ends belong to the interval when `closed`. -/
structure Rounding where
  lower : Nat
  value : Nat
  upper : Nat
  denominator : Nat
  closed : Bool

/-- The interval around the magnitude of a finite nonzero double.  Below a power of two the next
double is half as far away. -/
def rounding (x : Double) : Rounding :=
  let fraction := x.fractionField
  let field := x.exponentField
  let significand := if field = 0 then fraction else fraction + 0x10000000000000
  -- the magnitude is `4 * significand` units of `2 ^ (scale - 1077)`
  let scale := if field = 0 then 1 else field
  let up := 1 <<< (scale - 1077)
  let down := 1 <<< (1077 - scale)
  let gapBelow := if fraction = 0 && field > 1 then 1 else 2
  { lower := (4 * significand - gapBelow) * up
    value := 4 * significand * up
    upper := (4 * significand + 2) * up
    denominator := down
    closed := significand % 2 = 0 }

namespace Rounding

/-- The exponent `e` with `10^e ≤ value < 10^(e+1)`. -/
def magnitude (r : Rounding) : Int :=
  if r.denominator ≤ r.value then
    ((Nat.toDigits 10 (r.value / r.denominator)).length : Int) - 1
  else
    match (List.range 400).find? fun k => r.denominator ≤ r.value * Nat.pow 10 k with
    | some k => -(k : Int)
    | none => 0

/-- The point of the grid of step `10^place` that reads back and is nearest to the value, if one
of the value's two neighbours on the grid reads back. -/
def onGrid? (r : Rounding) (place : Int) : Option Nat :=
  let times := Nat.pow 10 (-place).toNat
  let unit := r.denominator * Nat.pow 10 place.toNat
  let value := r.value * times
  let inside (digits : Nat) : Bool :=
    let point := digits * unit
    if r.closed then r.lower * times ≤ point && point ≤ r.upper * times
    else r.lower * times < point && point < r.upper * times
  let below := value / unit
  let rest := value % unit
  match inside below, inside (below + 1) with
  | true, true =>
    if 2 * rest < unit then some below
    else if unit < 2 * rest then some (below + 1)
    else some (if below % 2 = 0 then below else below + 1)
  | true, false => some below
  | false, true => some (below + 1)
  | false, false => none

end Rounding

/-- The fewest decimal digits that read back as the magnitude of a finite nonzero double, and the
power of ten that the last of them counts. -/
def shortest (x : Double) : Nat × Int :=
  let r := x.rounding
  let top := r.magnitude
  let places := (List.range 17).map fun (k : Nat) => top - k
  match places.findSome? fun place => (r.onGrid? place).map (·, place) with
  | some found => found
  | none => (0, 0)

/-- Digits without trailing zeros, and how many zeros were dropped. -/
def trimZeros (digits : List Char) : List Char × Nat :=
  let trimmed := (digits.reverse.dropWhile (· = '0')).reverse
  (trimmed, digits.length - trimmed.length)

/-- The decimal text of a finite double: the shortest digits that read back, positional with a
decimal point from `1e-5` up to `1e16`, else with an exponent. -/
def text (x : Double) : String :=
  let sign := if x.isNegative then "-" else ""
  if x.isZero then sign ++ "0.0"
  else
    let (number, place) := x.shortest
    let (digits, dropped) := trimZeros (Nat.toDigits 10 number)
    let count := digits.length
    let exponent : Int := place + dropped + count - 1
    let zeros (n : Int) : List Char := List.replicate n.toNat '0'
    let body : List Char :=
      if 0 ≤ exponent && exponent < 16 then
        let whole := exponent.toNat + 1
        let fraction := digits.drop whole
        digits.take whole ++ zeros (whole - count) ++
          '.' :: (if fraction.isEmpty then ['0'] else fraction)
      else if -5 ≤ exponent && exponent < 0 then
        '0' :: '.' :: zeros (-exponent - 1) ++ digits
      else
        let fraction := digits.drop 1
        digits.take 1 ++ (if fraction.isEmpty then [] else '.' :: fraction) ++
          'e' :: (if exponent < 0 then '-' else '+') :: Nat.toDigits 10 exponent.natAbs
    sign ++ String.ofList body

end Double

end PipelineEditor
