import LatchContracts.Lib.Call
import Mathlib.Logic.Function.Basic

/-!
# Stores with one entry per key

A `Store K V` is the persistent storage of a shared contract: at most one entry
under each key.  A call is `LocalAt k` when it reads the entry under `k` only and
writes there only, and a family of calls is `Local` for an addressing of its
inputs when every call is local at its own key.

`Local.noninterference` is the two-run statement about such a family.  Take any
run, and the run that is left of it after every call with another key is
deleted.  The calls with key `k` have the same outcomes in both, and each leaves
the same entry under `k`.  The proof is an induction over the inputs with the
relation "the two stores agree at `k`": a call with another key keeps it by the
frame half of `Local`, and a call with key `k` keeps it by the congruence half.
-/

namespace LatchContracts.Lib

/-- Storage with at most one entry under each key. -/
abbrev Store (K V : Type) := K → Option V

namespace Store

variable {K V : Type}

/-- The storage of a contract that was never called. -/
def empty : Store K V := fun _ => none

/-- `storage.has(key)`. -/
def has (s : Store K V) (k : K) : Prop := (s k).isSome

instance (s : Store K V) (k : K) : Decidable (s.has k) :=
  inferInstanceAs (Decidable ((s k).isSome = true))

theorem has_iff {s : Store K V} {k : K} : s.has k ↔ ∃ v, s k = some v :=
  Option.isSome_iff_exists

theorem not_has_iff {s : Store K V} {k : K} : ¬ s.has k ↔ s k = none := by
  rw [has, Option.not_isSome_iff_eq_none]

theorem has_congr {s t : Store K V} {k : K} (h : s k = t k) : s.has k ↔ t.has k := by
  rw [has, has, h]

variable [DecidableEq K]

/-- `storage.set(key, value)`. -/
def set (s : Store K V) (k : K) (v : V) : Store K V := Function.update s k (some v)

/-- `storage.remove(key)`. -/
def remove (s : Store K V) (k : K) : Store K V := Function.update s k none

@[simp] theorem set_self (s : Store K V) (k : K) (v : V) : s.set k v k = some v :=
  Function.update_self _ _ _

@[simp] theorem remove_self (s : Store K V) (k : K) : s.remove k k = none :=
  Function.update_self _ _ _

theorem set_of_ne (s : Store K V) {k k' : K} (v : V) (h : k' ≠ k) : s.set k v k' = s k' :=
  Function.update_of_ne h _ _

theorem remove_of_ne (s : Store K V) {k k' : K} (h : k' ≠ k) : s.remove k k' = s k' :=
  Function.update_of_ne h _ _

/-! ## Invariants of the entries -/

/-- Every entry of the store has the property `P`. -/
def All (P : V → Prop) (s : Store K V) : Prop := ∀ k v, s k = some v → P v

omit [DecidableEq K] in
theorem all_empty (P : V → Prop) : (empty : Store K V).All P := fun _ _ h => by cases h

theorem All.set {P : V → Prop} {s : Store K V} (h : s.All P) (k : K) {v : V} (hv : P v) :
    (s.set k v).All P := by
  intro k' v' hk'
  by_cases hkk : k' = k
  · subst hkk
    rw [set_self] at hk'
    cases hk'
    exact hv
  · rw [set_of_ne _ _ hkk] at hk'
    exact h k' v' hk'

theorem All.remove {P : V → Prop} {s : Store K V} (h : s.All P) (k : K) : (s.remove k).All P := by
  intro k' v' hk'
  by_cases hkk : k' = k
  · subst hkk
    rw [remove_self] at hk'
    cases hk'
  · rw [remove_of_ne _ hkk] at hk'
    exact h k' v' hk'

end Store

/-! ## Calls that stay at their key -/

section Locality

variable {K V ι ε ρ : Type}

/-- The part of an answer that is visible at one key. -/
def cellView (k : K) (x : Except ε (ρ × Store K V)) : Except ε (ρ × Option V) :=
  x.map (fun p => (p.1, p.2 k))

@[simp] theorem cellView_bind {α : Type} (k : K) (x : Except ε α)
    (f : α → Except ε (ρ × Store K V)) :
    cellView k (x >>= f) = x >>= fun a => cellView k (f a) := by
  cases x <;> rfl

@[simp] theorem cellView_pure (k : K) (r : ρ) (s : Store K V) :
    cellView k (pure (r, s) : Except ε (ρ × Store K V)) = pure (r, s k) := rfl

/-- The call reads and writes the entry under `k` only. -/
structure LocalAt (k : K) (f : Store K V → Except ε (ρ × Store K V)) : Prop where
  /-- A successful call keeps the entries under all other keys. -/
  frame : ∀ {s r s'}, f s = .ok (r, s') → ∀ k' ≠ k, s' k' = s k'
  /-- Two stores with the same entry under `k` give the same answer, up to the
  entries under the other keys. -/
  congr : ∀ {s t}, s k = t k → cellView k (f s) = cellView k (f t)

/-- Every call of the family reads and writes the entry under its own key
only. -/
def Local (addr : ι → K) (exec : ι → Store K V → Except ε (ρ × Store K V)) : Prop :=
  ∀ i, LocalAt (addr i) (exec i)

/-- What a settled call shows at key `k`: the input, the outcome, and the entry
it left under `k`. -/
def observe (k : K) (c : Settled ι (Store K V) ε ρ) : ι × Except ε ρ × Option V :=
  (c.input, c.outcome, c.post k)

variable {addr : ι → K} {exec : ι → Store K V → Except ε (ρ × Store K V)}

/-- The observation of a settled call is a function of its cell view. -/
theorem observe_settle (i : ι) (s : Store K V) (k : K) :
    observe k (settle exec i s) = match cellView k (exec i s) with
      | .ok (r, v) => (i, .ok r, v)
      | .error e => (i, .error e, s k) := by
  rcases settle_cases exec i s with ⟨e, he, hset⟩ | ⟨r, s', hok, hset⟩
  · rw [hset, he]; rfl
  · rw [hset, hok]; rfl

theorem Local.observe_congr (h : Local addr exec) {i : ι} {s t : Store K V}
    (hst : s (addr i) = t (addr i)) :
    observe (addr i) (settle exec i s) = observe (addr i) (settle exec i t) := by
  rw [observe_settle, observe_settle, (h i).congr hst, hst]

theorem Local.settle_of_ne (h : Local addr exec) {i : ι} {k : K} (hne : addr i ≠ k)
    (s : Store K V) : (settle exec i s).post k = s k := by
  refine settle_post (P := fun t : Store K V => t k = s k) rfl ?_
  intro r s' hok
  exact (h i).frame hok k hne.symm

/-- Deleting the calls with other keys changes nothing that is visible at
`k`. -/
theorem Local.noninterference [DecidableEq K] (h : Local addr exec) (k : K) (is : List ι)
    {s t : Store K V} (hst : s k = t k) :
    ((trace exec is s).filter (fun c => addr c.input = k)).map (observe k) =
        (trace exec (is.filter (fun i => addr i = k)) t).map (observe k) ∧
      run exec is s k = run exec (is.filter (fun i => addr i = k)) t k := by
  induction is generalizing s t with
  | nil => exact ⟨rfl, hst⟩
  | cons i is ih =>
    by_cases hk : addr i = k
    · -- the call is kept: it shows the same in both runs
      subst hk
      have hobs := h.observe_congr hst
      have hpost : (settle exec i s).post (addr i) = (settle exec i t).post (addr i) :=
        congrArg (fun o => o.2.2) hobs
      obtain ⟨htrace, hrun⟩ := ih hpost
      constructor
      · simp only [trace, settle_input, List.filter_cons, decide_true, if_true, List.map_cons,
          hobs, htrace]
      · simpa only [run, List.filter_cons, decide_true, if_true] using hrun
    · -- the call is deleted: it leaves the entry under `k`
      have hpost : (settle exec i s).post k = t k := (h.settle_of_ne hk s).trans hst
      obtain ⟨htrace, hrun⟩ := ih hpost
      constructor
      · simpa only [trace, settle_input, List.filter_cons, hk, decide_false, Bool.false_eq_true,
          if_false] using htrace
      · simpa only [run, List.filter_cons, hk, decide_false, Bool.false_eq_true, if_false]
          using hrun

/-- In every run, the calls with key `k` have the outcomes, and leave the
entries under `k`, that they have in the run of these calls alone. -/
def NonInterfering [DecidableEq K] (addr : ι → K)
    (exec : ι → Store K V → Except ε (ρ × Store K V)) : Prop :=
  ∀ (k : K) (is : List ι) (s : Store K V),
    ((trace exec is s).filter (fun c => addr c.input = k)).map (observe k) =
      (trace exec (is.filter (fun i => addr i = k)) s).map (observe k)

theorem Local.nonInterfering [DecidableEq K] (h : Local addr exec) : NonInterfering addr exec :=
  fun k is _ => (h.noninterference k is rfl).1

end Locality

end LatchContracts.Lib
