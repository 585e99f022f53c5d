/-
# `GridFill.Clock.Basic` — durations as clock text

A duration is shown as hours, minutes and seconds, the seconds with two places.
The hours take all the digits they need.  The seconds are cut off from the
minutes before they are rounded, so they may read `60.00`.

A finite double is known by its exact value, a rational number.  `Double.nearest`
rounds any rational to the nearest double, a tie to the even one.  With it the
floor division of doubles is spelled out: the remainder of the division toward
zero is exact, and each further step is rounded once.
-/
import GridFill.Fault

namespace GridFill

/-! ## Double arithmetic on exact values -/

namespace Double

/-- The quotient of two natural numbers rounded to the nearest whole number, a
tie to the even one. -/
def divNearest (n d : Nat) : Nat :=
  let q := n / d
  let r := n % d
  if 2 * r < d then q
  else if d < 2 * r then q + 1
  else if q % 2 = 0 then q else q + 1

/-- Two to an integer power. -/
def twoTo (e : Int) : Rat :=
  if 0 ≤ e then (Nat.pow 2 e.toNat : Rat) else 1 / (Nat.pow 2 (-e).toNat : Rat)

/-- The exponent of the binary digit in front, for a positive fraction `n / d`. -/
def topExponent (n d : Nat) : Int :=
  let e : Int := (n.log2 : Int) - (d.log2 : Int)
  if (n : Rat) / d < twoTo e then e - 1 else e

/-- The double nearest to a rational; its exponent may be as great as it takes. -/
def nearest (q : Rat) : Rat :=
  if q.num = 0 then 0
  else
    let n := q.num.natAbs
    let unit := twoTo (max (-1074) (topExponent n q.den - 52))
    let scaled : Rat := ((n : Rat) / q.den) / unit
    let r : Rat := (divNearest scaled.num.natAbs scaled.den : Nat) * unit
    if q.num < 0 then -r else r

/-- The remainder of the division toward zero. -/
def truncRemainder (a b : Rat) : Rat :=
  let q := a / b
  let t : Int := if q.num < 0 then -(-q).floor else q.floor
  a - t * b

/-- Quotient and remainder of two doubles, the divisor positive: the remainder
gets the sign of the divisor, and a quotient that rounding left just below a
whole number is raised to it. -/
def divMod (a b : Rat) : Int × Rat :=
  let m := truncRemainder a b
  let d := nearest (nearest (a - m) / b)
  let (d, m) := if m.num < 0 then (nearest (d - 1), nearest (m + b)) else (d, m)
  let q := d.floor
  (if 1 / 2 < d - q then q + 1 else q, m)

end Double

/-! ## Clock text -/

namespace Clock

/-- A duration in seconds: an exact number, a double by its exact value, or a
double that is not finite. -/
inductive Seconds where
  | exact (q : Rat)
  | double (q : Rat)
  | notFinite

/-- Hours, minutes and seconds. -/
structure Reading where
  hours : Int
  minutes : Int
  seconds : Rat
deriving DecidableEq

/-- Quotient and remainder of exact numbers, the quotient rounded down. -/
def divMod (a b : Rat) : Int × Rat :=
  let q := (a / b).floor
  (q, a - q * b)

/-- Splits a duration with a given division. -/
def split (div : Rat → Rat → Int × Rat) (q : Rat) : Reading :=
  let hours := div q 3600
  let minutes := div hours.2 60
  ⟨hours.1, minutes.1, minutes.2⟩

/-- The reading of a duration, each kind of number divided in its own way. -/
def Seconds.reading : Seconds → Except Fault Reading
  | .exact q => .ok (split divMod q)
  | .double q => .ok (split Double.divMod q)
  | .notFinite => .error .notANumber

/-- A text filled up in front with zeros; a sign stays in front of them. -/
def padded (width : Nat) (n : Int) : String :=
  let digits := Nat.toDigits 10 n.natAbs
  let sign := if n < 0 then ['-'] else []
  String.ofList
    (sign ++ List.replicate (width - digits.length - sign.length) '0' ++ digits)

/-- A number that is not negative in hundredths, a tie going to the even one. -/
def hundredths (q : Rat) : Nat :=
  Double.divNearest (100 * q.num.natAbs) q.den

/-- The text of a reading. -/
def Reading.text (r : Reading) : String :=
  let cents := hundredths r.seconds
  s!"{padded 2 r.hours}:{padded 2 r.minutes}:{padded 2 (cents / 100 : Nat)}." ++
    padded 2 (cents % 100 : Nat)

/-- A duration as clock text. -/
def text (s : Seconds) : Except Fault String :=
  Reading.text <$> s.reading

end Clock

end GridFill
