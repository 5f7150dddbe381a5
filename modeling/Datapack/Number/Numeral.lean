/-!
# Numbers and their numerals

Whole numbers and binary floating-point numbers, read from decimal numerals and
written as such. All arithmetic is exact, on natural numbers.
-/

namespace Datapack

/-! ## Decimal numerals

Whole numbers in base ten, without grouping and without leading zeros. -/

/-- The power of ten with `n` zeros. -/
def tenTo (n : Nat) : Nat := Nat.pow 10 n

/-- Decimal text of a natural number. -/
def decimal (n : Nat) : String := String.ofList (Nat.toDigits 10 n)

/-- Decimal text of an integer: a minus sign stands in front of a negative one. -/
def signedDecimal : Int → String
  | .ofNat n => decimal n
  | .negSucc n => "-" ++ decimal (n + 1)

/-- Value of one decimal digit. -/
def digitValue (c : Char) : Nat := c.toNat - '0'.toNat

/-- Value of a run of decimal digits, the most significant first. -/
def digitsValue (cs : List Char) : Nat := cs.foldl (fun n c => 10 * n + digitValue c) 0

/-- One more digit multiplies the value by ten and adds the digit. -/
theorem digitsValue_append_singleton (cs : List Char) (c : Char) :
    digitsValue (cs ++ [c]) = 10 * digitsValue cs + digitValue c := by
  simp [digitsValue]

/-! ## Binary floating-point numbers of 64 bits

A number is its bit pattern: one sign bit, eleven exponent bits, fifty-two
fraction bits. Below the sign, the patterns of the finite numbers are ordered as
the numbers are, so a value of `significand · 2 ^ (shift - 1074)` has the pattern
`shift · 2 ^ 52 + significand`, in the subnormal range (`shift = 0`) as well as
above it. Decimal numerals are rounded to the nearest such number, a tie going
to the even pattern, in exact natural-number arithmetic. -/

/-- A 64-bit binary floating-point number, given by its bit pattern. -/
structure Binary64 where
  /-- Sign, exponent and fraction, most significant first. -/
  bits : UInt64
  deriving DecidableEq, Repr

/-- The power of two with exponent `n`. -/
def twoTo (n : Nat) : Nat := Nat.pow 2 n

/-- The quotient rounded to the nearest natural number, a tie going to the even one. -/
def roundDivEven (num den : Nat) : Nat :=
  let q := num / den
  let r := num % den
  if 2 * r < den then q else if den < 2 * r then q + 1 else q + q % 2

namespace Binary64

/-- The least positive number is `2 ^ (-1074)`; magnitudes are counted in these units. -/
def unitExponent : Nat := 1074

/-- Pattern of the infinite magnitude, one above the largest finite one. -/
def infiniteMagnitude : Nat := 0x7ff * twoTo 52

/-- Weight of the sign bit. -/
def signWeight : Nat := twoTo 63

/-- Pattern, sign bit left out. -/
def magnitude (x : Binary64) : Nat := x.bits.toNat % signWeight

/-- Whether the sign bit is set, for zeros and infinities too. -/
def isNegative (x : Binary64) : Bool := decide (signWeight ≤ x.bits.toNat)

/-- The number with the sign bit inverted. -/
def negate (x : Binary64) : Binary64 := ⟨x.bits ^^^ 0x8000000000000000⟩

/-- The non-negative number with a given magnitude pattern. -/
def ofMagnitude (pattern : Nat) : Binary64 := ⟨UInt64.ofNat pattern⟩

/-- Positive infinity. -/
def infinity : Binary64 := ofMagnitude infiniteMagnitude

/-- Number of trailing binary places that a magnitude of `n` units loses to rounding. -/
def excessPlaces (n : Nat) : Nat := n.log2 - 52

/-- Magnitude pattern nearest to `num / den` units, ties to even, before the range is checked. -/
def nearestPattern (num den : Nat) : Nat :=
  let shift := excessPlaces (num / den)
  shift * twoTo 52 + roundDivEven num (den * twoTo shift)

/-- The number nearest to `digits / 10 ^ places`, infinite when that is out of range. -/
def ofDecimal (digits places : Nat) : Binary64 :=
  let pattern := nearestPattern (digits * twoTo unitExponent) (tenTo places)
  if pattern < infiniteMagnitude then ofMagnitude pattern else infinity

/-- Bit pattern as sixteen lower-case hexadecimal digits. -/
def hex (x : Binary64) : String :=
  let digits := Nat.toDigits 16 x.bits.toNat
  String.ofList (List.replicate (16 - digits.length) '0' ++ digits)

end Binary64

/-! ## Shortest decimal text of a floating-point number

The text of a finite number has the fewest digits that read back as that
number: the coarsest power of ten is taken whose multiples meet the interval of
reals rounding to it, and of its multiples the nearest one, upward on a tie.
Digits are always written positionally, without exponent and without a
fraction of zero. All comparisons are exact, in quarters of the unit
`2 ^ (-1074)` scaled by a fixed power of ten. -/

namespace Binary64

/-- A positive finite number as `significand · 2 ^ shift` units. -/
structure Scaled where
  significand : Nat
  shift : Nat

/-- Reads a finite magnitude pattern as a number of units. -/
def Scaled.ofPattern (pattern : Nat) : Scaled :=
  if pattern < twoTo 52 then ⟨pattern, 0⟩
  else ⟨twoTo 52 + pattern % twoTo 52, pattern / twoTo 52 - 1⟩

/-- The reals that round to a number, in quarter units, around the number itself. -/
structure Interval where
  low : Nat
  centre : Nat
  high : Nat
  /-- Whether the two ends round to the number as well. -/
  closed : Bool

/-- Half way to each neighbour; the neighbour below a power of two is only half as far away. -/
def Scaled.interval (s : Scaled) : Interval where
  low := (4 * s.significand - (if s.significand = twoTo 52 then 1 else 2)) * twoTo s.shift
  centre := 4 * s.significand * twoTo s.shift
  high := (4 * s.significand + 2) * twoTo s.shift
  closed := s.significand % 2 == 0

/-- Whether `num / den` quarter units lie in the interval. -/
def Interval.contains (i : Interval) (num den : Nat) : Bool :=
  if i.closed then i.low * den ≤ num && num ≤ i.high * den
  else i.low * den < num && num < i.high * den

/-- Grids are numbered from `10 ^ (-gridOffset)` upward. -/
def gridOffset : Nat := 340

/-- Quarter units in one, over the scale of the finest grid. -/
def gridScale : Nat := 4 * twoTo unitExponent

/-- The multiple of `10 ^ (j - gridOffset)` next to the centre that the interval holds, if any. -/
def Interval.onGrid? (i : Interval) (j : Nat) : Option Nat :=
  let den := tenTo gridOffset
  let step := gridScale * tenTo j
  let below := i.centre * den / step
  let above := below + 1
  match i.contains (below * step) den, i.contains (above * step) den with
  | true, true =>
    if i.centre * den - below * step < above * step - i.centre * den then some below else some above
  | true, false => some below
  | false, true => some above
  | false, false => none

/-- Digits and grid number of the coarsest grid from `j` downward with a hit. -/
def Interval.coarsest (i : Interval) : Nat → Nat × Nat
  | 0 => ((i.onGrid? 0).getD 0, 0)
  | j + 1 =>
    match i.onGrid? (j + 1) with
    | some digits => (digits, j + 1)
    | none => i.coarsest j

/-- Positional text of `digits · 10 ^ (grid - gridOffset)`. -/
def positional (digits grid : Nat) : String :=
  if gridOffset ≤ grid then
    decimal (digits * tenTo (grid - gridOffset))
  else
    let places := gridOffset - grid
    let whole := Nat.toDigits 10 (digits / tenTo places)
    let fraction := Nat.toDigits 10 (digits % tenTo places)
    String.ofList (whole ++ '.' :: List.replicate (places - fraction.length) '0' ++ fraction)

/-- Text of a magnitude pattern. -/
def magnitudeText (pattern : Nat) : String :=
  if pattern = 0 then "0"
  else if pattern = infiniteMagnitude then "inf"
  else
    let (digits, grid) := (Scaled.ofPattern pattern).interval.coarsest (gridOffset + 309)
    positional digits grid

/-- Text of the number; a value that is not a number has no sign. -/
def text (x : Binary64) : String :=
  if infiniteMagnitude < x.magnitude then "NaN"
  else (if x.isNegative then "-" else "") ++ magnitudeText x.magnitude

end Binary64

end Datapack
