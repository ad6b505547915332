/-
  BlockScript — the shortest decimal that names a floating-point number.

  A decimal names the number that it is rounded to.  The decimals rounded to
  `m · 2 ^ q` form an interval around it that reaches half way to the
  neighbours; its ends belong to it if `m` is even.  Of the decimals in the
  interval with the fewest digits, the one nearest to the number is chosen.

  The search runs through the grids of one, two, … seventeen significant
  digits.  On each it tests the two points next to the number, in exact
  natural arithmetic.

  * `Decimal`: a natural number times a power of ten;
  * `Binary.shortest b`: the shortest decimal that names the magnitude `b`.
-/
import BlockScript.Number.Binary

namespace BlockScript

/-- The magnitude `digits · 10 ^ exponent`. -/
structure Decimal where
  digits : Nat
  exponent : Int
  deriving DecidableEq

/-- The magnitude `m · 2 ^ q` on the grid of the multiples of `10 ^ g`, as a
    fraction.  All is counted in quarters of `2 ^ q`: a grid point `c` compares
    with `k` quarters as `c * cell` with `k * quarter`. -/
structure Grid where
  cell : Nat
  quarter : Nat

/-- The grid of the multiples of `10 ^ g`, seen from the exponent `q`. -/
def Grid.of (q g : Int) : Grid where
  cell := Nat.pow 10 g.toNat <<< (2 - q).toNat
  quarter := Nat.pow 10 (-g).toNat <<< (q - 2).toNat

/-- The number of quarters from a number down to the end of its interval: two,
    but one if the lower neighbour is half as far as the upper one, as it is
    where the exponent changes. -/
def quartersBelow (m : Nat) (q : Int) : Nat :=
  if m = 1 <<< 52 ∧ -1074 < q then 1 else 2

/-- Whether the grid point `c` lies in the interval of `m · 2 ^ q`. -/
def Grid.names (grid : Grid) (m : Nat) (q : Int) (c : Nat) : Bool :=
  let point := c * grid.cell
  let low := (4 * m - quartersBelow m q) * grid.quarter
  let high := (4 * m + 2) * grid.quarter
  if m % 2 = 0 then decide (low ≤ point ∧ point ≤ high) else decide (low < point ∧ point < high)

/-- The grid point next to `m · 2 ^ q` that names it; the nearer one if both
    neighbours do, the even one if they are equally near. -/
def Grid.nearest? (grid : Grid) (m : Nat) (q : Int) : Option Nat :=
  let here := 4 * m * grid.quarter
  let below := here / grid.cell
  let fromBelow := here - below * grid.cell
  let fromAbove := (below + 1) * grid.cell - here
  let belowWins := fromBelow < fromAbove ∨ (fromBelow = fromAbove ∧ below % 2 = 0)
  match grid.names m q below, grid.names m q (below + 1) with
  | true, true => some (if belowWins then below else below + 1)
  | true, false => some below
  | false, true => some (below + 1)
  | false, false => none

/-- The number of decimal digits of `n`. -/
def digitCount (n : Nat) : Nat :=
  (Nat.repr n).length

/-- The number of places before the decimal point of `m · 2 ^ q`: the least `k`
    such that the magnitude is below `10 ^ k`.  It is counted on the whole part
    of the magnitude times `10 ^ shift`, which is not zero: `10 ^ 4` is above
    `2 ^ 13`, and the magnitude is not below `2 ^ (q + log2 m)`. -/
def pointPlace (m : Nat) (q : Int) : Int :=
  let shift := (-(q + m.log2)).toNat * 4 / 13 + 1
  digitCount ((Nat.pow 10 shift * m) <<< q.toNat >>> (-q).toNat) - shift

/-- The shortest decimal that names the magnitude `m · 2 ^ q`, which is not
    zero. -/
def shortestDecimal (m : Nat) (q : Int) : Decimal :=
  let point := pointPlace m q
  let onGrid (n : Nat) : Option Decimal :=
    let g := point - n
    ((Grid.of q g).nearest? m q).map fun c => ⟨c, g⟩
  ((List.range' 1 17).findSome? onGrid).getD ⟨0, 0⟩

/-- The shortest decimal that names the magnitude of a value. -/
def Binary.shortest (b : Binary) : Decimal :=
  if b.significand = 0 then ⟨0, 0⟩ else shortestDecimal b.significand b.exponent

end BlockScript
