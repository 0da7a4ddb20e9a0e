import Mathlib.Data.List.Basic
import Mathlib.Tactic.Basic

/-!
# Filling a buffer in place

A buffer is a list that is written at an index.  A write outside of the buffer
fails, and so does a loop that makes one.

A loop that writes its output one value after another is a `writeAll` of the
whole output.  `writeAll_eq_some` says what the buffer then holds, and that the
loop fails exactly when its output does not fit.
-/

namespace LatchContracts.Lib

variable {β : Type}

/-- Write a value at an index. -/
def write (buffer : List β) (i : ℕ) (v : β) : Option (List β) :=
  if i < buffer.length then some (buffer.set i v) else none

/-- Write values one after another, from an index on. -/
def writeAll : List β → List β → ℕ → Option (List β)
  | [], buffer, _ => some buffer
  | v :: vs, buffer, i => (write buffer i v).bind (fun buffer' => writeAll vs buffer' (i + 1))

/-- The values stand where they were written, and the rest of the buffer is as
it was. -/
theorem writeAll_eq_some {vs buffer buffer' : List β} {i : ℕ} (h : vs ≠ []) :
    writeAll vs buffer i = some buffer' ↔
      i + vs.length ≤ buffer.length ∧
        buffer' = buffer.take i ++ (vs ++ buffer.drop (i + vs.length)) := by
  induction vs generalizing buffer i with
  | nil => exact absurd rfl h
  | cons v vs ih =>
    rw [writeAll, write, List.length_cons]
    by_cases hi : i < buffer.length
    · have hset : buffer.set i v = buffer.take i ++ v :: buffer.drop (i + 1) :=
        List.set_eq_take_append_cons_drop.trans (if_pos hi)
      have hlength : (buffer.set i v).length = buffer.length := List.length_set
      have htake : (buffer.set i v).take (i + 1) = buffer.take i ++ [v] := by
        rw [hset, List.take_append, List.take_take, List.length_take]
        have hmin : min i buffer.length = i := by omega
        have hone : i + 1 - i = 1 := by omega
        have hmin' : min (i + 1) i = i := by omega
        rw [hmin, hone, hmin']
        rfl
      have hdrop : ∀ n, (buffer.set i v).drop (i + 1 + n) = buffer.drop (i + 1 + n) := by
        intro n
        exact List.drop_set_of_lt (by omega)
      rw [if_pos hi, Option.bind_some]
      cases vs with
      | nil =>
        rw [writeAll, Option.some.injEq, hset, List.length_nil]
        constructor
        · intro heq
          exact ⟨by omega, heq.symm⟩
        · intro heq
          exact heq.2.symm
      | cons w ws =>
        rw [ih (List.cons_ne_nil w ws), hlength, htake, hdrop, List.append_assoc,
          Nat.add_right_comm i 1, Nat.add_assoc i]
        rfl
    · rw [if_neg hi]
      constructor
      · intro heq
        cases heq
      · intro heq
        omega

end LatchContracts.Lib
