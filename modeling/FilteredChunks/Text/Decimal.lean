/-!
# Fixed-point decimals

A quotient is written with a fixed number of decimal places; a tie goes to the even neighbour.  A
finite floating-point number is a quotient, taken from its bits.
-/

namespace FilteredChunks.Decimal

/-- The integer nearest to a quotient, the even one of two. -/
def roundDiv (num den : Nat) : Nat :=
  let q := num / den
  let twice := 2 * (num % den)
  if den < twice ∨ twice = den ∧ q % 2 = 1 then q + 1 else q

/-- The digits of a number, with zeros in front to fill a width. -/
def zeroPadded (width n : Nat) : String :=
  let digits := Nat.toDigits 10 n
  String.ofList (List.replicate (width - digits.length) '0' ++ digits)

/-- A quotient with a number of decimal places, at least one. -/
def fixed (places num den : Nat) : String :=
  let unit := Nat.pow 10 places
  let scaled := roundDiv (num * unit) den
  toString (scaled / unit) ++ "." ++ zeroPadded places (scaled % unit)

/-- Numerator and denominator of a finite number that is not negative. -/
def exactQuotient (x : Float) : Nat × Nat :=
  let bits := x.toBits
  let fraction := (bits &&& 0xfffffffffffff).toNat
  let exponent := (bits >>> 52 &&& 0x7ff).toNat
  let significand := if exponent = 0 then fraction else 0x10000000000000 + fraction
  let shift := max exponent 1
  if 1075 ≤ shift then (significand <<< (shift - 1075), 1) else (significand, 1 <<< (1075 - shift))

/-- A finite number that is not negative, with a number of decimal places. -/
def fixedFloat (places : Nat) (x : Float) : String :=
  let (num, den) := exactQuotient x
  fixed places num den

/-- The text after blanks that fill a width. -/
def padLeft (width : Nat) (text : String) : String :=
  String.ofList (List.replicate (width - text.length) ' ') ++ text

/-- The text before blanks that fill a width. -/
def padRight (width : Nat) (text : String) : String :=
  text ++ String.ofList (List.replicate (width - text.length) ' ')

/-! ### Lemmas -/

/-- Rounding is off by at most half a unit. -/
theorem roundDiv_close (num : Nat) {den : Nat} (h : 0 < den) :
    2 * num ≤ 2 * (roundDiv num den * den) + den ∧
      2 * (roundDiv num den * den) ≤ 2 * num + den := by
  have hq : den * (num / den) + num % den = num := Nat.div_add_mod num den
  have hm : num % den < den := Nat.mod_lt _ h
  simp only [roundDiv]
  split
  · rw [Nat.add_mul, Nat.one_mul, Nat.mul_comm (num / den)]
    omega
  · rw [Nat.mul_comm (num / den)]
    omega

end FilteredChunks.Decimal
