import Mathlib.Data.Int.Order.Basic
import Mathlib.Algebra.Order.Group.Unbundled.Int
import Mathlib.Tactic.Ring
import Mathlib.Tactic.Linarith

/-!
# Proportional shares, rounded down

`share total part whole` is what falls to `part` of `whole` when `total` is
shared out in proportion and rounded down.  The lemmas are the facts a gradual
release rests on: a share is never negative and never above the total, and it
grows with the part.

`share_split` is the multiplication in two words: the share of
`hi * base + lo` is put together from a quotient for the high word and a second
quotient that takes up the remainder of the first.
-/

namespace LatchContracts.Lib

/-- What falls to `part` of `whole`, rounded down. -/
def share (total part whole : ℤ) : ℤ := total * part / whole

variable {total part part' whole : ℤ}

theorem share_nonneg (htotal : 0 ≤ total) (hpart : 0 ≤ part) (hwhole : 0 ≤ whole) :
    0 ≤ share total part whole :=
  Int.ediv_nonneg (Int.mul_nonneg htotal hpart) hwhole

theorem share_mono (htotal : 0 ≤ total) (hwhole : 0 < whole) (h : part ≤ part') :
    share total part whole ≤ share total part' whole :=
  Int.ediv_le_ediv hwhole (Int.mul_le_mul_of_nonneg_left h htotal)

theorem share_whole (hwhole : 0 < whole) : share total whole whole = total :=
  Int.mul_ediv_cancel _ hwhole.ne'

theorem share_le (htotal : 0 ≤ total) (hwhole : 0 < whole) (h : part ≤ whole) :
    share total part whole ≤ total :=
  (share_mono htotal hwhole h).trans_eq (share_whole hwhole)

/-- The share of a number of two words. -/
theorem share_split (hi lo base part : ℤ) (hwhole : whole ≠ 0) :
    share (hi * base + lo) part whole =
      hi * part / whole * base + (hi * part % whole * base + lo * part) / whole := by
  have hdiv : whole * (hi * part / whole) + hi * part % whole = hi * part :=
    Int.mul_ediv_add_emod _ _
  have hsum : (hi * base + lo) * part =
      (hi * part % whole * base + lo * part) + hi * part / whole * base * whole := by
    calc (hi * base + lo) * part
        = hi * part * base + lo * part := by ring
      _ = (whole * (hi * part / whole) + hi * part % whole) * base + lo * part := by rw [hdiv]
      _ = _ := by ring
  rw [share, hsum, Int.add_mul_ediv_right _ _ hwhole]
  exact Int.add_comm _ _

end LatchContracts.Lib
