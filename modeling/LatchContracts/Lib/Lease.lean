import Mathlib.Data.Int.Order.Basic
import Mathlib.Data.List.Chain
import Mathlib.Tactic.Basic

/-!
# Leases that are renewed lazily

A lease that is renewed at time `a` lasts until `a + span`.  A renewal is lazy:
at a time that is at most `idle` after the last effective renewal it does
nothing, so the lease then ends when it would have ended anyway.

`effective idle a ts` keeps of the renewals `ts` those that have an effect, and
`Unbroken span idle a ts stop` says that none of these, nor `stop`, comes more
than `span` after the one before it.  `unbroken_cons` takes one renewal off the
front, for a proof by induction over the renewals, and `Unbroken.le` is what an
unbroken lease is for: it lasts at least until any time that is not after the
next renewal.

A ledger renews an entry when not more than a threshold is left of its lifetime.
Whether it does so when exactly the threshold is left is up to the ledger, and
`TtlRule` says it.  `TtlRule.acts_lease_iff` turns the rule into the idle time of a
lease.
-/

namespace LatchContracts.Lib

/-- The last effective renewal, after a renewal at time `t`. -/
def renew (idle a t : ℤ) : ℤ := if a + idle < t then t else a

/-- The renewals that have an effect. -/
def effective (idle : ℤ) : ℤ → List ℤ → List ℤ
  | _, [] => []
  | a, t :: ts => if a + idle < t then t :: effective idle t ts else effective idle a ts

/-- From the renewal at `a` on, the lease lasts until `stop`. -/
def Unbroken (span idle a : ℤ) (ts : List ℤ) (stop : ℤ) : Prop :=
  (a :: effective idle a ts ++ [stop]).IsChain (fun x y => y ≤ x + span)

variable {span idle a t stop now : ℤ} {ts : List ℤ}

theorem unbroken_nil : Unbroken span idle a [] stop ↔ stop ≤ a + span := by
  show [a, stop].IsChain _ ↔ _
  simp

/-- An effective renewal comes in time, and one without effect comes in time by
itself. -/
theorem unbroken_cons (hidle : idle ≤ span) :
    Unbroken span idle a (t :: ts) stop ↔
      t ≤ a + span ∧ Unbroken span idle (renew idle a t) ts stop := by
  unfold Unbroken
  by_cases hlate : a + idle < t
  · simp only [effective, renew, hlate, if_true, List.cons_append, List.isChain_cons_cons]
  · have hsoon : t ≤ a + span := by omega
    simp only [effective, renew, hlate, if_false, hsoon, true_and]

/-- Renewals without effect leave the lease to end by itself. -/
theorem unbroken_of_idle (h : ∀ t ∈ ts, t ≤ a + idle) :
    Unbroken span idle a ts stop ↔ stop ≤ a + span := by
  have hnone : effective idle a ts = [] := by
    induction ts with
    | nil => rfl
    | cons t ts ih =>
      obtain ⟨ht, hrest⟩ := List.forall_mem_cons.mp h
      rw [effective, if_neg (not_lt.mpr ht)]
      exact ih hrest
  have hends : Unbroken span idle a [] stop ↔ stop ≤ a + span := unbroken_nil
  rw [Unbroken, hnone]
  exact hends

/-- An unbroken lease lasts until any time that is not after the next renewal. -/
theorem Unbroken.le (hidle : idle ≤ span) (h : Unbroken span idle a ts stop)
    (hts : ∀ t ∈ ts, now ≤ t) (hstop : now ≤ stop) : now ≤ a + span := by
  cases ts with
  | nil =>
    have hend := unbroken_nil.mp h
    omega
  | cons t ts =>
    have hnext := ((unbroken_cons hidle).mp h).1
    have hnow := hts t List.mem_cons_self
    omega

/-! ## The rule of a ledger -/

/-- How a ledger treats the lifetimes of its entries. -/
structure TtlRule where
  /-- An extension acts when exactly its threshold is left, and not only below. -/
  atThreshold : Bool
  /-- A new entry, and a restored one, lives for this long. -/
  initial : ℤ

namespace TtlRule

variable (rule : TtlRule) {left threshold span a now : ℤ}

/-- An extension acts on an entry with `left` to live. -/
def Acts (left threshold : ℤ) : Prop :=
  if rule.atThreshold then left ≤ threshold else left < threshold

instance (left threshold : ℤ) : Decidable (rule.Acts left threshold) :=
  inferInstanceAs (Decidable (if rule.atThreshold then left ≤ threshold else left < threshold))

/-- One, when an extension acts at its threshold. -/
def margin : ℤ := if rule.atThreshold then 1 else 0

theorem margin_nonneg : 0 ≤ rule.margin := by
  unfold margin
  split <;> omega

theorem margin_le_one : rule.margin ≤ 1 := by
  unfold margin
  split <;> omega

theorem acts_iff : rule.Acts left threshold ↔ left < threshold + rule.margin := by
  unfold Acts margin
  split <;> omega

/-- On an entry that was last extended at `a`, an extension acts when it comes
late enough. -/
theorem acts_lease_iff :
    rule.Acts (a + span - now) threshold ↔ a + (span - threshold - rule.margin) < now := by
  rw [acts_iff]
  omega

end TtlRule

end LatchContracts.Lib
