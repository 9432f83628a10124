/-!
# Decimal text of single-precision numbers

A number is written with the fewest digits that read back as the same number, and of the
decimals with that many digits with the nearest one; half way between two, the larger is
taken. `Reals` describes the numbers that round
to a given one: they form an interval around `mantissa · 2 ^ exponent`, wider above than below
at a power of two, whose ends belong to it when the mantissa is even. `shortest?` takes the
coarsest power of ten that has a multiple in the interval.

`Style` holds the choices of a format: from where on an exponent is written, and how many
places a positional text has at least.
-/

namespace Typecase.Text

/-- A positive number `digits · 10 ^ exponent`. -/
structure Decimal where
  digits : Nat
  exponent : Int
  deriving DecidableEq, Repr

/-- The interval of the real numbers that round to `mantissa · 2 ^ exponent`. -/
structure Reals where
  mantissa : Nat
  exponent : Int
  /-- Whether the mantissa is the least with its exponent, so that the numbers below are twice
  as dense. -/
  least : Bool
  deriving DecidableEq, Repr

namespace Reals

/-- The interval of a positive finite number, from its thirty-two bits. -/
def ofBits (bits : Nat) : Reals :=
  let field : Nat := bits / 0x800000 % 0x100
  let fraction := bits % 0x800000
  if field = 0 then ⟨fraction, -149, false⟩
  else ⟨fraction + 0x800000, (field : Int) - 150, fraction = 0⟩

/-- Compares `a · 2 ^ p` with `b · 10 ^ e`. -/
def compareScaled (a : Nat) (p : Int) (b : Nat) (e : Int) : Ordering :=
  compare (a * Nat.pow 2 p.toNat * Nat.pow 10 (-e).toNat)
    (b * Nat.pow 10 e.toNat * Nat.pow 2 (-p).toNat)

/-- Whether `d · 10 ^ e` lies in the interval. The ends are given in quarters of a unit of the
mantissa. -/
def contains (r : Reals) (d : Nat) (e : Int) : Bool :=
  let low := compareScaled (4 * r.mantissa - if r.least then 1 else 2) (r.exponent - 2) d e
  let high := compareScaled (4 * r.mantissa + 2) (r.exponent - 2) d e
  if r.mantissa % 2 = 0 then low != .gt && high != .lt else low == .lt && high == .gt

/-- The largest `d` with `d · 10 ^ e` at or below the number. -/
def floorAt (r : Reals) (e : Int) : Nat :=
  r.mantissa * Nat.pow 2 r.exponent.toNat * Nat.pow 10 (-e).toNat /
    (Nat.pow 10 e.toNat * Nat.pow 2 (-r.exponent).toNat)

/-- The nearest positive multiple of `10 ^ e` in the interval, if there is one, and the larger
of two that are equally near. -/
def nearest? (r : Reals) (e : Int) : Option Nat :=
  let d := r.floorAt e
  let below := 0 < d && r.contains d e
  let above := r.contains (d + 1) e
  if below && above then
    if compareScaled (2 * r.mantissa) r.exponent (2 * d + 1) e == .lt then some d else some (d + 1)
  else if below then some d
  else if above then some (d + 1)
  else none

/-- Tries the powers of ten from `10 ^ e` down. -/
def search? (r : Reals) (e : Int) : Nat → Option Decimal
  | 0 => none
  | tries + 1 =>
    match r.nearest? e with
    | some d => some ⟨d, e⟩
    | none => r.search? (e - 1) tries

/-- The shortest decimal in the interval. Single-precision numbers lie below `10 ^ 39` and are
told apart by multiples of `10 ^ -60`. -/
def shortest? (r : Reals) : Option Decimal := r.search? 39 100

/-- One half and one tenth. -/
example : (ofBits 0x3F000000).shortest? = some ⟨5, -1⟩ ∧
    (ofBits 0x3DCCCCCD).shortest? = some ⟨1, -1⟩ := by decide +kernel

/-- The number 2546102.75 is half way between two decimals of eight digits. -/
example : (ofBits 0x4A1B66DB).shortest? = some ⟨25461028, -1⟩ := by decide +kernel

end Reals

/-- The choices of a decimal format. -/
structure Style where
  /-- Numbers from this power of ten on are written with an exponent. -/
  largePower : Nat
  /-- Numbers below this negative power of ten are written with an exponent. -/
  smallPower : Nat
  /-- The least number of places after the point of a positional text. -/
  places : Nat

/-- The digits of a number, the highest first. -/
def decimalDigits (n : Nat) : List Char := (toString n).toList

/-- A decimal with its point, and at least `places` places after it. -/
def positional (places : Nat) (d : Decimal) : List Char :=
  let digits := decimalDigits d.digits ++ List.replicate d.exponent.toNat '0'
  let padded := digits.leftpad ((-d.exponent).toNat + 1) '0'
  let whole := padded.take (padded.length - (-d.exponent).toNat)
  let part := (padded.drop whole.length).rightpad places '0'
  if part.isEmpty then whole else whole ++ '.' :: part

/-- A decimal with one digit before the point and an exponent. -/
def scientific (d : Decimal) : List Char :=
  match decimalDigits d.digits with
  | [] => []
  | first :: rest =>
    let power := d.exponent + rest.length
    let tail := 'e' :: (toString power).toList
    if rest.isEmpty then first :: tail else first :: '.' :: rest ++ tail

/-- The text of a single-precision number. -/
def Style.render (s : Style) (x : Float32) : String :=
  let bits := x.toBits.toNat
  let sign := if bits / 0x80000000 = 0 then "" else "-"
  let size := bits % 0x80000000
  if 0x7F800000 < size then "NaN"
  else if size = 0x7F800000 then sign ++ "inf"
  else if size = 0 then sign ++ String.ofList (positional s.places ⟨0, 0⟩)
  else
    match (Reals.ofBits size).shortest? with
    | none => ""
    | some d =>
      let small := x.abs < Float32.ofScientific 1 true s.smallPower
      let large := Float32.ofScientific 1 false s.largePower ≤ x.abs
      sign ++ String.ofList (if small || large then scientific d else positional s.places d)

end Typecase.Text
