/-
  BlockScript — sets of characters given by tables of code point ranges.

  A table lists closed ranges in increasing order, so a lookup stops at the
  first range that starts above the character.

  * `CharTable.has t c`: the character `c` lies in one of the ranges of `t`;
  * `CharTable.offset? t c`: how far `c` lies into its range, if it has one.
-/
namespace BlockScript

/-- Closed ranges `(first, last)` of code points, in increasing order. -/
abbrev CharTable := List (Nat × Nat)

/-- The distance of `c` from the start of the range that holds it. -/
def CharTable.offset? : CharTable → Char → Option Nat
  | [], _ => none
  | (first, last) :: rest, c =>
    if c.toNat < first then none
    else if c.toNat ≤ last then some (c.toNat - first)
    else CharTable.offset? rest c

/-- Whether some range of the table holds `c`. -/
def CharTable.has (t : CharTable) (c : Char) : Bool :=
  (t.offset? c).isSome

end BlockScript
