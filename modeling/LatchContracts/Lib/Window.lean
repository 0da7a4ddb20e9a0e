import Mathlib.Algebra.BigOperators.Group.List.Basic
import Mathlib.Algebra.Order.BigOperators.Group.List
import Mathlib.Algebra.Order.Ring.Rat
import Mathlib.Data.Rat.Cast.Order
import Mathlib.Data.List.Pairwise
import Mathlib.Tactic.Linarith
import Mathlib.Tactic.Ring

/-!
# Logs of charges and rolling windows

A log lists charges, each with a time and an amount, in the order in which they
were made.  A rolling limiter admits a charge by a look at its *trailing*
window only: the charges of the last `period` time units before it.

`Admitted period limit capacity` is the set of logs that such a limiter can
build: every charge, when it was appended, kept the sum of its trailing window
within `limit` and found fewer than `capacity` charges in it.  The two results
are about every window, not only the trailing ones: the charges in *any*
`period` consecutive time units add up to at most `limit`
(`Admitted.within_total_le`), and there are at most `capacity` of them
(`Admitted.within_length_le`).

The reason is that the last charge in a window sees all earlier charges of that
window in its own trailing window, so the induction runs over the log from its
end: either the last charge is outside the window and can be dropped, or its
admission check bounds the whole window.

`live` is what a limiter may keep of a log: the charges that the trailing window
of the last charge still holds.  A limiter that evicts from the front gets it
from `dropWhile_eq_filter`.
-/

namespace LatchContracts.Lib

/-- One charge of a log. -/
@[ext]
structure Charge where
  time : ℤ
  amount : ℤ
  deriving DecidableEq

namespace Charge

/-- The sum of the amounts. -/
def total (log : List Charge) : ℤ := (log.map amount).sum

/-- The charges at times `start` to `stop`. -/
def within (start stop : ℤ) (log : List Charge) : List Charge :=
  log.filter (fun c => start ≤ c.time ∧ c.time ≤ stop)

/-- The charges that the window of the last `period` time units up to `now`
holds. -/
def trailing (period now : ℤ) (log : List Charge) : List Charge :=
  log.filter (fun c => now - period < c.time)

/-- The charges that the trailing window of the last charge holds. -/
def live (period : ℤ) (log : List Charge) : List Charge :=
  match log.getLast? with
  | none => []
  | some last => trailing period last.time log

@[simp] theorem total_cons (c : Charge) (log : List Charge) :
    total (c :: log) = c.amount + total log := by
  simp [total]

@[simp] theorem total_append (log log' : List Charge) :
    total (log ++ log') = total log + total log' := by
  simp [total]

@[simp] theorem total_singleton (c : Charge) : total [c] = c.amount := by
  simp [total]

/-- The window of a log that just grew is that of its last charge. -/
theorem live_snoc {period : ℤ} (hperiod : 0 < period) (log : List Charge) (c : Charge) :
    live period (log ++ [c]) = trailing period c.time log ++ [c] := by
  have hself : c.time - period < c.time := by omega
  simp only [live, List.getLast?_append_cons, List.getLast?_singleton, trailing,
    List.filter_append, List.filter_cons, List.filter_nil, decide_eq_true_eq, hself, if_true]

/-- Charges with no negative amount add up to no negative total. -/
theorem total_nonneg {log : List Charge} (h : ∀ c ∈ log, 0 ≤ c.amount) : 0 ≤ total log := by
  apply List.sum_nonneg
  intro a ha
  obtain ⟨c, hc, rfl⟩ := List.mem_map.mp ha
  exact h c hc

/-- Part of a log with no negative amount has no greater total. -/
theorem total_le_of_sublist {log log' : List Charge} (hsub : log.Sublist log')
    (h : ∀ c ∈ log', 0 ≤ c.amount) : total log ≤ total log' := by
  induction hsub with
  | slnil => exact le_refl _
  | cons c _ ih =>
    have hc := h c List.mem_cons_self
    have hrest := ih (fun x hx => h x (List.mem_cons_of_mem c hx))
    rw [total_cons]
    omega
  | cons_cons c _ ih =>
    have hrest := ih (fun x hx => h x (List.mem_cons_of_mem c hx))
    rw [total_cons, total_cons]
    omega

/-- The trailing window shrinks as time passes. -/
theorem trailing_trailing {period now later : ℤ} (h : now ≤ later) (log : List Charge) :
    trailing period later (trailing period now log) = trailing period later log := by
  unfold trailing
  rw [List.filter_filter]
  apply List.filter_congr
  intro c _
  by_cases hc : later - period < c.time
  · have : now - period < c.time := by omega
    simp [hc, this]
  · simp [hc]

theorem live_sublist (period : ℤ) (log : List Charge) : (live period log).Sublist log := by
  unfold live
  split
  · exact List.nil_sublist log
  · exact List.filter_sublist

/-- At a later time the trailing window of a log is that of its live part. -/
theorem trailing_live {period now : ℤ} {log : List Charge} (h : ∀ c ∈ log, c.time ≤ now) :
    trailing period now (live period log) = trailing period now log := by
  unfold live
  split
  · rename_i hnone
    rw [List.getLast?_eq_none_iff.mp hnone]
  · rename_i last hlast
    exact trailing_trailing (h last (List.mem_of_getLast? hlast)) log

end Charge

open Charge

/-! ## Eviction from the front -/

/-- In a log in time order the charges up to a cutoff are a prefix, so a loop
that drops them from the front drops them all. -/
theorem dropWhile_eq_filter {log : List Charge}
    (h : log.Pairwise (fun a b => a.time ≤ b.time)) (cutoff : ℤ) :
    log.dropWhile (fun c => c.time ≤ cutoff) = log.filter (fun c => cutoff < c.time) := by
  induction log with
  | nil => rfl
  | cons c rest ih =>
    obtain ⟨hhead, hrest⟩ := List.pairwise_cons.mp h
    by_cases hc : c.time ≤ cutoff
    · rw [List.dropWhile_cons_of_pos (by simpa using hc),
        List.filter_cons_of_neg (by simpa using hc), ih hrest]
    · -- the rest of the log is later than `c`, so nothing more is dropped
      have hall : ∀ x ∈ c :: rest, decide (cutoff < x.time) = true := by
        intro x hx
        rcases List.mem_cons.mp hx with rfl | hx
        · simpa using hc
        · have := hhead x hx
          simp only [decide_eq_true_eq]
          omega
      rw [List.dropWhile_cons_of_neg (by simpa using hc), List.filter_eq_self.mpr hall]

/-! ## Logs that a rolling limiter admits -/

/-- The logs whose charges were each admitted against their trailing window. -/
inductive Admitted (period limit : ℤ) (capacity : ℕ) : List Charge → Prop
  | nil : Admitted period limit capacity []
  | snoc {log : List Charge} {c : Charge} (h : Admitted period limit capacity log)
      (later : ∀ x ∈ log, x.time ≤ c.time) (nonneg : 0 ≤ c.amount)
      (fits : total (trailing period c.time log) + c.amount ≤ limit)
      (room : (trailing period c.time log).length < capacity) :
      Admitted period limit capacity (log ++ [c])

namespace Admitted

variable {period limit : ℤ} {capacity : ℕ} {log : List Charge}

theorem amount_nonneg (h : Admitted period limit capacity log) : ∀ c ∈ log, 0 ≤ c.amount := by
  induction h with
  | nil => simp
  | snoc _ _ nonneg _ _ ih =>
    intro c hc
    rcases List.mem_append.mp hc with hc | hc
    · exact ih c hc
    · rw [List.mem_singleton.mp hc]
      exact nonneg

/-- The log is in time order. -/
theorem sorted (h : Admitted period limit capacity log) :
    log.Pairwise (fun a b => a.time ≤ b.time) := by
  induction h with
  | nil => exact List.Pairwise.nil
  | snoc _ later _ _ _ ih =>
    refine List.pairwise_append.mpr ⟨ih, List.pairwise_singleton _ _, ?_⟩
    intro a ha b hb
    rw [List.mem_singleton.mp hb]
    exact later a ha

/-- Inside a window that holds the last charge, every charge is in the trailing
window of the last one. -/
private theorem within_sublist_trailing {c : Charge} {w : ℤ} (hw : c.time ≤ w + period - 1)
    (log : List Charge) :
    (within w (w + period - 1) log).Sublist (trailing period c.time log) := by
  apply List.monotone_filter_right
  intro x hx
  simp only [decide_eq_true_eq] at hx ⊢
  omega

private theorem within_snoc_of_mem {c : Charge} {start stop : ℤ}
    (h : start ≤ c.time ∧ c.time ≤ stop) (log : List Charge) :
    within start stop (log ++ [c]) = within start stop log ++ [c] := by
  simp [within, List.filter_append, h]

private theorem within_snoc_of_not_mem {c : Charge} {start stop : ℤ}
    (h : ¬ (start ≤ c.time ∧ c.time ≤ stop)) (log : List Charge) :
    within start stop (log ++ [c]) = within start stop log := by
  simp [within, List.filter_append, h]

/-- The charges in any `period` consecutive time units fit the limit. -/
theorem within_total_le (h : Admitted period limit capacity log) (hlimit : 0 ≤ limit) (w : ℤ) :
    total (within w (w + period - 1) log) ≤ limit := by
  induction h with
  | nil => exact hlimit
  | @snoc log c h later nonneg fits room ih =>
    by_cases hc : w ≤ c.time ∧ c.time ≤ w + period - 1
    · have htrailing : ∀ x ∈ trailing period c.time log, 0 ≤ x.amount :=
        fun x hx => h.amount_nonneg x (List.mem_of_mem_filter hx)
      have hle := total_le_of_sublist (within_sublist_trailing hc.2 log) htrailing
      rw [within_snoc_of_mem hc, total_append, total_singleton]
      omega
    · rw [within_snoc_of_not_mem hc]
      exact ih

/-- There are at most `capacity` charges in any `period` consecutive time
units. -/
theorem within_length_le (h : Admitted period limit capacity log) (w : ℤ) :
    (within w (w + period - 1) log).length ≤ capacity := by
  induction h with
  | nil => exact Nat.zero_le _
  | @snoc log c h later nonneg fits room ih =>
    by_cases hc : w ≤ c.time ∧ c.time ≤ w + period - 1
    · have hle := (within_sublist_trailing hc.2 log).length_le
      rw [within_snoc_of_mem hc, List.length_append, List.length_singleton]
      omega
    · rw [within_snoc_of_not_mem hc]
      exact ih

end Admitted

/-! ## Rounding down, once per charge -/

/-- Values that are each less than one above their rounded value add up to less
than one per value above the rounded sum. -/
theorem sum_lt_sum_add_length {β : Type} {l : List β} (hne : l ≠ []) {exact : β → ℚ}
    {rounded : β → ℤ} (h : ∀ x ∈ l, exact x < rounded x + 1) :
    (l.map exact).sum < ((l.map rounded).sum : ℤ) + l.length := by
  induction l with
  | nil => exact absurd rfl hne
  | cons x rest ih =>
    have hx := h x List.mem_cons_self
    by_cases hrest : rest = []
    · subst hrest
      simpa using hx
    · have hsum := ih hrest (fun y hy => h y (List.mem_cons_of_mem x hy))
      rw [List.map_cons, List.map_cons, List.sum_cons, List.sum_cons, List.length_cons,
        Int.cast_add, Nat.cast_succ]
      linarith

end LatchContracts.Lib
