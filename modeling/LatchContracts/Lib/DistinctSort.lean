import Mathlib.Data.List.Perm.Basic
import Mathlib.Data.List.Sort
import Mathlib.Order.Compare
import Mathlib.Tactic.Basic

/-!
# Insertion sort that refuses duplicates

`insertDistinct` walks a list in increasing order, puts a new element before the
first greater one, and answers `none` when it meets an equal one.
`distinctSort` inserts the elements of a list one after another.

`distinctSort_eq_some` says everything about the result: it is there exactly
when the input has no duplicate, and it is then the one increasing list with the
elements of the input, so the order of the input does not matter.
-/

namespace LatchContracts.Lib

variable {α : Type}

/-- Insert `x` before the first greater element, and fail at an equal one. -/
def insertDistinct (cmp : α → α → Ordering) (x : α) : List α → Option (List α)
  | [] => some [x]
  | y :: ys =>
    match cmp y x with
    | .eq => none
    | .gt => some (x :: y :: ys)
    | .lt => (insertDistinct cmp x ys).map (y :: ·)

/-- Insert the elements of a list, from the first one on, into `acc`. -/
def insertAllDistinct (cmp : α → α → Ordering) : List α → List α → Option (List α)
  | [], acc => some acc
  | x :: xs, acc => (insertDistinct cmp x acc).bind (insertAllDistinct cmp xs)

/-- Sort a list without duplicates. -/
def distinctSort (cmp : α → α → Ordering) (l : List α) : Option (List α) :=
  insertAllDistinct cmp l []

variable [LinearOrder α]

/-- Inserting into an increasing list fails on an element of it, and otherwise
answers an increasing list with that element more. -/
theorem insertDistinct_cases (x : α) {l : List α} (hl : l.Pairwise (· < ·)) :
    (x ∈ l ∧ insertDistinct compare x l = none) ∨
      (x ∉ l ∧ ∃ l', insertDistinct compare x l = some l' ∧ l'.Pairwise (· < ·) ∧
        l'.Perm (x :: l)) := by
  induction l with
  | nil => exact .inr ⟨List.not_mem_nil, [x], rfl, List.pairwise_singleton _ x, .refl [x]⟩
  | cons y ys ih =>
    obtain ⟨hhead, htail⟩ := List.pairwise_cons.mp hl
    rcases hcmp : compare y x with _ | _ | _
    · -- the new element belongs further back
      have hlt : y < x := compare_lt_iff_lt.mp hcmp
      rcases ih htail with ⟨hmem, hnone⟩ | ⟨hmem, l', hsome, hsorted, hperm⟩
      · refine .inl ⟨List.mem_cons_of_mem y hmem, ?_⟩
        simp only [insertDistinct, hcmp, hnone, Option.map_none]
      · refine .inr ⟨?_, y :: l', ?_, ?_, ?_⟩
        · intro hx
          rcases List.mem_cons.mp hx with rfl | hx
          · exact lt_irrefl x hlt
          · exact hmem hx
        · simp only [insertDistinct, hcmp, hsome, Option.map_some]
        · refine List.pairwise_cons.mpr ⟨?_, hsorted⟩
          intro z hz
          rcases List.mem_cons.mp (hperm.mem_iff.mp hz) with rfl | hz
          · exact hlt
          · exact hhead z hz
        · exact (hperm.cons y).trans (.swap x y ys)
    · have heq : y = x := compare_eq_iff_eq.mp hcmp
      refine .inl ⟨heq ▸ List.mem_cons_self, ?_⟩
      simp only [insertDistinct, hcmp]
    · have hgt : x < y := compare_gt_iff_gt.mp hcmp
      have hall : ∀ z ∈ y :: ys, x < z := by
        intro z hz
        rcases List.mem_cons.mp hz with rfl | hz
        · exact hgt
        · exact hgt.trans (hhead z hz)
      refine .inr ⟨?_, x :: y :: ys, ?_, List.pairwise_cons.mpr ⟨hall, hl⟩, .refl _⟩
      · intro hx
        exact lt_irrefl x (hall x hx)
      · simp only [insertDistinct, hcmp]

/-- Inserting a list into an increasing list succeeds exactly when no element is
there twice, and answers the increasing list of all elements. -/
theorem insertAllDistinct_eq_some {xs acc l : List α} (hacc : acc.Pairwise (· < ·)) :
    insertAllDistinct compare xs acc = some l ↔
      (xs ++ acc).Nodup ∧ l.Pairwise (· < ·) ∧ l.Perm (xs ++ acc) := by
  induction xs generalizing acc with
  | nil =>
    have hnodup : acc.Nodup := hacc.imp (fun hab => hab.ne)
    constructor
    · intro h
      obtain rfl := Option.some.inj h
      exact ⟨hnodup, hacc, .refl acc⟩
    · intro h'
      rcases h' with ⟨_, hl, hperm⟩
      rw [insertAllDistinct, hperm.eq_of_pairwise' hl hacc]
  | cons x xs ih =>
    rcases insertDistinct_cases x hacc with ⟨hmem, hnone⟩ | ⟨_, acc', hsome, hacc', hperm⟩
    · -- the element is a duplicate
      have hdup : ¬ (x :: xs ++ acc).Nodup := by
        intro hnodup
        exact (List.nodup_cons.mp hnodup).1 (List.mem_append_right xs hmem)
      rw [insertAllDistinct, hnone]
      exact iff_of_false (by simp) (fun h => hdup h.1)
    · have hmove : (xs ++ acc').Perm (x :: xs ++ acc) :=
        (hperm.append_left xs).trans List.perm_middle
      rw [insertAllDistinct, hsome, Option.bind_some, ih hacc', hmove.nodup_iff]
      refine and_congr_right fun _ => and_congr_right fun _ => ?_
      exact ⟨fun h => h.trans hmove, fun h => h.trans hmove.symm⟩

/-- The sort succeeds exactly when there is no duplicate, and answers the one
increasing list with the elements of the input. -/
theorem distinctSort_eq_some {xs l : List α} :
    distinctSort compare xs = some l ↔ xs.Nodup ∧ l.Pairwise (· < ·) ∧ l.Perm xs := by
  rw [distinctSort, insertAllDistinct_eq_some List.Pairwise.nil, List.append_nil]

/-- A list without duplicates has an increasing rearrangement. -/
theorem exists_increasing_perm {xs : List α} (hnodup : xs.Nodup) :
    ∃ l : List α, l.Pairwise (· < ·) ∧ l.Perm xs := by
  have hperm : (xs.insertionSort (· ≤ ·)).Perm xs := List.perm_insertionSort (· ≤ ·) xs
  have hle : (xs.insertionSort (· ≤ ·)).Pairwise (· ≤ ·) := List.pairwise_insertionSort (· ≤ ·) xs
  have hne : (xs.insertionSort (· ≤ ·)).Pairwise (· ≠ ·) := hperm.nodup_iff.mpr hnodup
  refine ⟨xs.insertionSort (· ≤ ·), ?_, hperm⟩
  exact hle.imp₂ (fun _ _ h h' => lt_of_le_of_ne h h') hne

end LatchContracts.Lib
