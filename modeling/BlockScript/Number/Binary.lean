/-
  BlockScript — the exact value of a floating-point number.

  Every finite number is a sign and a natural significand times a power of
  two.  What has to be exact (its decimal text, a remainder) is computed on
  this form, in natural numbers.

  * `NumberForm.ofFloat x`: what `x` is, read off its bits;
  * `Binary.toFloat b`: the number with the value `b`, for a value that has
    one.
-/
namespace BlockScript

/-- The value `± significand · 2 ^ exponent`. -/
structure Binary where
  negative : Bool
  significand : Nat
  exponent : Int
  deriving DecidableEq

/-- What a floating-point number is. -/
inductive NumberForm where
  /-- a number with an exact value; the two zeros differ in their sign -/
  | finite (value : Binary)
  | infinite (negative : Bool)
  /-- the result of an operation that has no value -/
  | undefined
  deriving DecidableEq

/-- The form of the number with the given 64 bits: the sign, eleven bits of
    exponent, and 52 bits of significand. -/
def NumberForm.ofBits (bits : Nat) : NumberForm :=
  let negative := decide (1 <<< 63 ≤ bits)
  let exponent : Nat := (bits >>> 52) % (1 <<< 11)
  let fraction : Nat := bits % (1 <<< 52)
  if exponent = 2047 then
    if fraction = 0 then .infinite negative else .undefined
  else if exponent = 0 then .finite ⟨negative, fraction, -1074⟩
  else .finite ⟨negative, (1 <<< 52) + fraction, (exponent : Int) - 1075⟩

/-- The form of a floating-point number. -/
def NumberForm.ofFloat (x : Float) : NumberForm :=
  .ofBits x.toBits.toNat

/-- A number is determined by its bits. -/
theorem eq_of_toBits {x y : Float} (h : x.toBits.toNat = y.toBits.toNat) : x = y := by
  obtain ⟨⟨bits, _⟩⟩ := x
  obtain ⟨⟨bits', _⟩⟩ := y
  cases UInt64.toNat_inj.1 h
  rfl

/-- A zero significand has the bits of one of the two zeros. -/
theorem NumberForm.bits_of_zero {bits : Nat} {b : Binary} (hbits : bits < UInt64.size)
    (h : NumberForm.ofBits bits = .finite b) (hb : b.significand = 0) :
    bits = 0 ∨ bits = 1 <<< 63 := by
  simp only [UInt64.size] at hbits
  simp only [NumberForm.ofBits, Nat.shiftLeft_eq, Nat.shiftRight_eq_div_pow] at h ⊢
  split at h
  · split at h <;> cases h
  · split at h <;> cases h
    · simp only at hb
      omega
    · simp only at hb
      omega

/-- A zero significand is that of a number equal to zero. -/
theorem NumberForm.eq_zero_of_significand {x : Float} {b : Binary}
    (h : NumberForm.ofFloat x = .finite b) (hb : b.significand = 0) : (x == 0.0) = true := by
  rcases NumberForm.bits_of_zero x.toBits.toNat_lt_size h hb with h0 | h0
  · rw [eq_of_toBits (x := x) (y := 0.0) (h0.trans (by decide))]
    decide
  · rw [eq_of_toBits (x := x) (y := -0.0) (h0.trans (by decide))]
    decide

/-- The bits of the magnitude `m · 2 ^ q`.  The significand is moved so that it
    has 53 bits, or the least exponent; bits below that are dropped, and a
    value of a floating-point number has none there. -/
def magnitudeBits (m : Nat) (q : Int) : Nat :=
  if m = 0 then 0
  else
    let exponent := max (q + m.log2 - 52) (-1074)
    let significand :=
      if exponent ≤ q then m <<< (q - exponent).toNat else m >>> (exponent - q).toNat
    if significand < 1 <<< 52 then significand
    else ((exponent + 1075).toNat <<< 52) + (significand - (1 <<< 52))

/-- The number with the given value. -/
def Binary.toFloat (b : Binary) : Float :=
  let bits := magnitudeBits b.significand b.exponent
  Float.ofBits (UInt64.ofNat (if b.negative then (1 <<< 63) + bits else bits))

/-- The integer that a value is, if it is one. -/
def Binary.toInt? (b : Binary) : Option Int :=
  let magnitude : Option Nat :=
    if 0 ≤ b.exponent then some (b.significand <<< b.exponent.toNat)
    else
      let unit := 1 <<< (-b.exponent).toNat
      if b.significand % unit = 0 then some (b.significand / unit) else none
  magnitude.map fun n => if b.negative then -(n : Int) else n

end BlockScript
