/-! Decimal numbers as they are written, and their text with two places. -/

namespace TestMigration

/-- The number `mantissa / 10 ^ places`. -/
structure Decimal where
  mantissa : Int
  places : Nat := 0
  deriving DecidableEq, Repr, Inhabited

namespace Decimal

instance {n : Nat} : OfNat Decimal n := ⟨⟨n, 0⟩⟩

/-- The quotient rounded to the nearest whole; a half goes to the even neighbour. -/
def roundDiv (num den : Nat) : Nat :=
  let q := num / den
  let twice := 2 * (num % den)
  if twice < den || (twice == den && q % 2 == 0) then q else q + 1

/-- Numerator and denominator of the double that a word encodes, without its sign. -/
def ratioOfBits (bits : UInt64) : Nat × Nat :=
  let exponent := (bits.toNat >>> 52) % 2048
  let fraction := bits.toNat % Nat.pow 2 52
  let (m, e) := if exponent == 0 then (fraction, 1) else (fraction + Nat.pow 2 52, exponent)
  if e ≥ 1075 then (m * Nat.pow 2 (e - 1075), 1) else (m, Nat.pow 2 (1075 - e))

/-- Two places behind the point, of the double nearest to the number. -/
def twoPlaces (d : Decimal) : String :=
  let (num, den) := ratioOfBits (Float.ofScientific d.mantissa.natAbs true d.places).toBits
  let hundredths := roundDiv (num * 100) den
  let cents := toString (hundredths % 100)
  (if d.mantissa < 0 then "-" else "") ++ toString (hundredths / 100) ++ "." ++
    (if cents.length < 2 then "0" ++ cents else cents)

end Decimal

end TestMigration
