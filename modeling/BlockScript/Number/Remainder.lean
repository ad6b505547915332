/-
  BlockScript — the remainder of two floating-point numbers.

  The remainder of `x` by `y` is `x` less the multiple of `y` nearest to it on
  the side of zero: it is exact, smaller than `y` and has the sign of `x`.

  * `remainder? x y`: the remainder, absent for a finite `x` and a zero `y`.
-/
import BlockScript.Number.Binary

namespace BlockScript

/-- The remainder of two exact values, the second of which is not zero.  Both
    significands are brought to the smaller exponent. -/
def Binary.remainder (a b : Binary) : Binary :=
  let q := min a.exponent b.exponent
  let m := a.significand <<< (a.exponent - q).toNat
  let n := b.significand <<< (b.exponent - q).toNat
  ⟨a.negative, m % n, q⟩

/-- The remainder of `x` by `y`, with the sign of `x`.  A finite number is its
    own remainder by an infinity; an infinite dividend, or an undefined number
    on either side, has an undefined remainder. -/
def remainder? (x y : Float) : Option Float :=
  match NumberForm.ofFloat x, NumberForm.ofFloat y with
  | .finite a, .finite b => if b.significand = 0 then none else some (a.remainder b).toFloat
  | .finite _, .infinite _ => some x
  | _, _ => some (0.0 / 0.0)

/-- A remainder is absent only for a divisor that equals zero. -/
theorem eq_zero_of_remainder?_eq_none {x y : Float} (h : remainder? x y = none) :
    (y == 0.0) = true := by
  unfold remainder? at h
  split at h
  · rename_i hy
    split at h
    · rename_i hb
      exact NumberForm.eq_zero_of_significand hy hb
    · cases h
  · cases h
  · cases h

end BlockScript
