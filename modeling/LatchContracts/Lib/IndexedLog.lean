import LatchContracts.Lib.Bounded
import LatchContracts.Lib.KeyedStore

/-!
# Lists kept as a counter and one record per index

A contract cannot store a list that grows without bound in one entry, so it
keeps the length in one entry and each element under its index in an entry of
its own.  `Holds count records log` says that a counter and a store of records
are such a list: the counter is its length, and the record under every index is
the element there, which is none from the length on.

`Holds.push` is the append: the next element goes under the counter, and the
counter goes up by one as long as it fits its type.
-/

namespace LatchContracts.Lib

variable {hi : ℤ} {V : Type}

/-- The counter and the records hold the list `log`. -/
structure Holds (count : Bounded 0 hi) (records : Store (Bounded 0 hi) V) (log : List V) :
    Prop where
  count_eq : count.val = log.length
  records_eq : ∀ i, records i = log[i.val.toNat]?

namespace Holds

variable {count next : Bounded 0 hi} {records : Store (Bounded 0 hi) V} {log : List V}

/-- There is a record exactly below the counter. -/
theorem has_iff (h : Holds count records log) (i : Bounded 0 hi) : records.has i ↔ i < count := by
  have hnonneg := i.lo_le
  rw [Store.has, h.records_eq, isSome_getElem?, Bounded.lt_def, h.count_eq]
  omega

/-- Appending an element. -/
theorem push (h : Holds count records log) (hnext : next.val = count.val + 1) (v : V) :
    Holds next (records.set count v) (log ++ [v]) := by
  have hcount := h.count_eq
  refine ⟨?_, ?_⟩
  · rw [hnext, hcount, List.length_append, List.length_singleton]
    omega
  · intro i
    have hnonneg := i.lo_le
    by_cases hi : i = count
    · subst hi
      have hlast : i.val.toNat = log.length := by omega
      rw [Store.set_self, hlast, List.getElem?_concat_length]
    · have hne : i.val ≠ count.val := fun heq => hi (Bounded.ext heq)
      rw [Store.set_of_ne _ _ hi, h.records_eq]
      by_cases hlt : i.val.toNat < log.length
      · rw [List.getElem?_append_left hlt]
      · have hout : log.length < i.val.toNat := by omega
        rw [List.getElem?_eq_none (by omega), List.getElem?_eq_none]
        rw [List.length_append, List.length_singleton]
        omega

end Holds

end LatchContracts.Lib
