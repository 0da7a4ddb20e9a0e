import Mathlib.Order.Basic
import Mathlib.Order.Lattice
import Mathlib.Data.Int.Order.Basic
import Mathlib.Tactic.Linarith

/-!
# Bounded machine integers

A Rust integer type is an interval of the integers.  `Bounded lo hi` is that
interval as a structure: a value carries the proof that it is in range, so a
value out of range cannot be built.  The operations are the ones of the Rust
integer types:

* `checked_*` answers `none` when the exact result is out of range;
* `saturating_*` moves an exact result that is out of range to the nearest
  bound;
* `as` wraps the exact value modulo the size of the target type.

Every operation is the exact integer operation followed by one of the three
conversions `ofInt?`, `clamp` and `wrap`, so each has one lemma that says when
the conversion changes nothing.

The arithmetic in a crate that is built with `overflow-checks` is the checked
one: an operator that overflows aborts the call.
-/

namespace LatchContracts.Lib

/-- The integers from `lo` to `hi`. -/
@[ext]
structure Bounded (lo hi : ℤ) where
  val : ℤ
  lo_le : lo ≤ val
  le_hi : val ≤ hi
  deriving DecidableEq

namespace Bounded

variable {lo hi : ℤ}

theorem val_injective : Function.Injective (val : Bounded lo hi → ℤ) :=
  fun _ _ h => Bounded.ext h

instance : LinearOrder (Bounded lo hi) :=
  LinearOrder.lift' val val_injective

theorem le_def {a b : Bounded lo hi} : a ≤ b ↔ a.val ≤ b.val := Iff.rfl

theorem lt_def {a b : Bounded lo hi} : a < b ↔ a.val < b.val := Iff.rfl

/-- A type with a value is not empty. -/
theorem lo_le_hi (a : Bounded lo hi) : lo ≤ hi := a.lo_le.trans a.le_hi

/-! ## The three conversions from an exact result -/

/-- The value `n`, when it is in range. -/
def ofInt? (lo hi n : ℤ) : Option (Bounded lo hi) :=
  if h : lo ≤ n ∧ n ≤ hi then some ⟨n, h.1, h.2⟩ else none

/-- The value in range that is nearest to `n`. -/
def clamp (h : lo ≤ hi) (n : ℤ) : Bounded lo hi :=
  ⟨max lo (min hi n), le_max_left _ _, max_le h (min_le_left _ _)⟩

/-- The value in range that is congruent to `n` modulo the size of the type. -/
def wrap (h : lo ≤ hi) (n : ℤ) : Bounded lo hi :=
  have hpos : 0 < hi - lo + 1 := by omega
  ⟨lo + (n - lo) % (hi - lo + 1), by have := Int.emod_nonneg (n - lo) hpos.ne'; omega,
    by have := Int.emod_lt_of_pos (n - lo) hpos; omega⟩

theorem ofInt?_eq_some {n : ℤ} {a : Bounded lo hi} : ofInt? lo hi n = some a ↔ a.val = n := by
  unfold ofInt?
  split
  · rename_i h
    rw [Option.some.injEq, Bounded.ext_iff]
    exact eq_comm
  · rename_i h
    refine iff_of_false (by simp) ?_
    intro heq
    subst heq
    exact h ⟨a.lo_le, a.le_hi⟩

/-- An exact result in range is answered. -/
theorem exists_ofInt? {n : ℤ} (hlo : lo ≤ n) (hhi : n ≤ hi) :
    ∃ a : Bounded lo hi, ofInt? lo hi n = some a ∧ a.val = n :=
  ⟨⟨n, hlo, hhi⟩, ofInt?_eq_some.mpr rfl, rfl⟩

theorem val_clamp (h : lo ≤ hi) (n : ℤ) : (clamp h n).val = max lo (min hi n) := rfl

/-- An exact result in range is not clamped. -/
theorem val_clamp_of_mem (h : lo ≤ hi) {n : ℤ} (hlo : lo ≤ n) (hhi : n ≤ hi) :
    (clamp h n).val = n := by
  rw [val_clamp]
  omega

/-- An exact result in range is not wrapped. -/
theorem val_wrap_of_mem (h : lo ≤ hi) {n : ℤ} (hlo : lo ≤ n) (hhi : n ≤ hi) :
    (wrap h n).val = n := by
  change lo + (n - lo) % (hi - lo + 1) = n
  rw [Int.emod_eq_of_lt (by omega) (by omega)]
  omega

/-- The range of the type is not empty. -/
class Range (lo hi : ℤ) : Prop where
  le : lo ≤ hi

/-- The value of an exact result of another type: `as`. -/
def ofInt [Range lo hi] (n : ℤ) : Bounded lo hi := wrap Range.le n

instance [Range lo hi] {n : ℕ} : OfNat (Bounded lo hi) n := ⟨ofInt n⟩

theorem val_ofInt_of_mem [Range lo hi] {n : ℤ} (hlo : lo ≤ n) (hhi : n ≤ hi) :
    (ofInt n : Bounded lo hi).val = n :=
  val_wrap_of_mem _ hlo hhi

/-! ## The Rust operations -/

/-- `checked_add`. -/
def checkedAdd (a b : Bounded lo hi) : Option (Bounded lo hi) := ofInt? lo hi (a.val + b.val)

/-- `checked_mul`. -/
def checkedMul (a b : Bounded lo hi) : Option (Bounded lo hi) := ofInt? lo hi (a.val * b.val)

/-- `checked_div`: the quotient is rounded toward zero, and a zero divisor
answers `none`. -/
def checkedDiv (a b : Bounded lo hi) : Option (Bounded lo hi) :=
  if b.val = 0 then none else ofInt? lo hi (a.val.tdiv b.val)

/-- `checked_rem`: the remainder has the sign of the dividend. -/
def checkedRem (a b : Bounded lo hi) : Option (Bounded lo hi) :=
  if b.val = 0 then none else ofInt? lo hi (a.val.tmod b.val)

/-- `checked_sub`. -/
def checkedSub (a b : Bounded lo hi) : Option (Bounded lo hi) := ofInt? lo hi (a.val - b.val)

/-- `checked_pow`. -/
def checkedPow (a : Bounded lo hi) (n : ℕ) : Option (Bounded lo hi) := ofInt? lo hi (a.val ^ n)

/-- `saturating_add`. -/
def saturatingAdd (a b : Bounded lo hi) : Bounded lo hi := clamp a.lo_le_hi (a.val + b.val)

/-- `saturating_sub`. -/
def saturatingSub (a b : Bounded lo hi) : Bounded lo hi := clamp a.lo_le_hi (a.val - b.val)

theorem val_saturatingAdd (a b : Bounded lo hi) :
    (a.saturatingAdd b).val = max lo (min hi (a.val + b.val)) := rfl

theorem val_saturatingSub (a b : Bounded lo hi) :
    (a.saturatingSub b).val = max lo (min hi (a.val - b.val)) := rfl

theorem checkedAdd_eq_some {a b c : Bounded lo hi} :
    a.checkedAdd b = some c ↔ c.val = a.val + b.val :=
  ofInt?_eq_some

theorem checkedSub_eq_some {a b c : Bounded lo hi} :
    a.checkedSub b = some c ↔ c.val = a.val - b.val :=
  ofInt?_eq_some

theorem checkedMul_eq_some {a b c : Bounded lo hi} :
    a.checkedMul b = some c ↔ c.val = a.val * b.val :=
  ofInt?_eq_some

theorem checkedPow_eq_some {a c : Bounded lo hi} {n : ℕ} :
    a.checkedPow n = some c ↔ c.val = a.val ^ n :=
  ofInt?_eq_some

theorem checkedDiv_eq_some {a b c : Bounded lo hi} :
    a.checkedDiv b = some c ↔ b.val ≠ 0 ∧ c.val = a.val.tdiv b.val := by
  unfold checkedDiv
  split
  · rename_i h
    simp [h]
  · rename_i h
    rw [ofInt?_eq_some]
    exact (and_iff_right h).symm

theorem checkedRem_eq_some {a b c : Bounded lo hi} :
    a.checkedRem b = some c ↔ b.val ≠ 0 ∧ c.val = a.val.tmod b.val := by
  unfold checkedRem
  split
  · rename_i h
    simp [h]
  · rename_i h
    rw [ofInt?_eq_some]
    exact (and_iff_right h).symm

/-- The quotient of unsigned values is in range. -/
theorem exists_checkedDiv {a b : Bounded 0 hi} (hb : 0 < b.val) :
    ∃ c, a.checkedDiv b = some c ∧ c.val = a.val / b.val := by
  have ha : 0 ≤ a.val := a.lo_le
  have hdiv : a.val.tdiv b.val = a.val / b.val := Int.tdiv_eq_ediv_of_nonneg ha
  have hle : a.val / b.val ≤ hi := (Int.ediv_le_self _ ha).trans a.le_hi
  refine ⟨⟨a.val / b.val, Int.ediv_nonneg ha hb.le, hle⟩, ?_, rfl⟩
  exact checkedDiv_eq_some.mpr ⟨hb.ne', hdiv.symm⟩

/-- The remainder of unsigned values is in range. -/
theorem exists_checkedRem {a b : Bounded 0 hi} (hb : 0 < b.val) :
    ∃ c, a.checkedRem b = some c ∧ c.val = a.val % b.val := by
  have ha : 0 ≤ a.val := a.lo_le
  have hmod : a.val.tmod b.val = a.val % b.val := Int.tmod_eq_emod_of_nonneg ha
  have hle : a.val % b.val ≤ hi := (Int.emod_lt_of_pos _ hb).le.trans b.le_hi
  refine ⟨⟨a.val % b.val, Int.emod_nonneg _ hb.ne', hle⟩, ?_, rfl⟩
  exact checkedRem_eq_some.mpr ⟨hb.ne', hmod.symm⟩

/-- A sum clears a bound below the top of the type exactly when the saturated
sum does.  At the top itself the saturated sum always does. -/
theorem saturatingAdd_le_iff {a b l : Bounded lo hi} (hb : lo ≤ a.val + b.val)
    (hl : l.val < hi) : a.saturatingAdd b ≤ l ↔ a.val + b.val ≤ l.val := by
  rw [le_def, val_saturatingAdd]
  omega

/-- Summands that are not negative can be added in any order, saturated or not. -/
theorem saturatingAdd_right_comm {a b c : Bounded lo hi} (hb : 0 ≤ b.val) (hc : 0 ≤ c.val) :
    (a.saturatingAdd b).saturatingAdd c = (a.saturatingAdd c).saturatingAdd b := by
  have hlo := a.lo_le
  have hhi := a.le_hi
  apply Bounded.ext
  rw [val_saturatingAdd, val_saturatingAdd, val_saturatingAdd, val_saturatingAdd]
  omega

theorem foldl_saturatingAdd_perm {us us' : List (Bounded lo hi)} (hperm : us.Perm us')
    (hnonneg : ∀ u ∈ us, 0 ≤ u.val) (start : Bounded lo hi) :
    us.foldl saturatingAdd start = us'.foldl saturatingAdd start := by
  refine hperm.foldl_eq' ?_ start
  intro x hx y hy z
  exact saturatingAdd_right_comm (hnonneg x hx) (hnonneg y hy)

end Bounded

/-! ## The widths -/

abbrev U32 := Bounded 0 (2 ^ 32 - 1)
abbrev U64 := Bounded 0 (2 ^ 64 - 1)
abbrev U128 := Bounded 0 (2 ^ 128 - 1)
abbrev I32 := Bounded (-2 ^ 31) (2 ^ 31 - 1)
abbrev I64 := Bounded (-2 ^ 63) (2 ^ 63 - 1)
abbrev I128 := Bounded (-2 ^ 127) (2 ^ 127 - 1)

instance : Bounded.Range 0 (2 ^ 32 - 1) := ⟨by decide⟩

instance : Bounded.Range 0 (2 ^ 64 - 1) := ⟨by decide⟩

instance : Bounded.Range 0 (2 ^ 128 - 1) := ⟨by decide⟩

instance : Bounded.Range (-2 ^ 127) (2 ^ 127 - 1) := ⟨by decide⟩

end LatchContracts.Lib
