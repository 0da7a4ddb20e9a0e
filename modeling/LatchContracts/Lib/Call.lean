import Mathlib.Data.List.Basic
import Mathlib.Tactic.Basic

/-!
# Fallible calls and the runs they form

A call reads a state and either fails, or answers a reply together with the
state it leaves.  A call that fails leaves the state as it found it, so
`settle` is the transaction around a call.  A run is a list of inputs that are
settled one after another, and `trace` records what each of them did.

The first part is the small vocabulary a call is written in: `ensure` for a
check that aborts, `unwrapOr` for an optional value that must be there, and one
inversion lemma for each, so that a proof takes a call apart with `simp only`
instead of a case split per check.

The second part is the induction over runs.  `run_invariant` is the rule for a
property of states, and `trace_append` and `run_append` cut a run at any point,
which is how a statement about every moment of a run is stated: for every run,
and every next input.
-/

namespace LatchContracts.Lib

variable {ι σ ε ρ α β : Type}

/-! ## Checks -/

/-- Go on when `c` holds, and fail with `e` otherwise. -/
def ensure (c : Prop) [Decidable c] (e : ε) : Except ε Unit :=
  if c then .ok () else .error e

/-- The value of `o`, and the failure `e` when there is none. -/
def unwrapOr (o : Option α) (e : ε) : Except ε α :=
  match o with
  | some a => .ok a
  | none => .error e

theorem bind_eq_ok {x : Except ε α} {f : α → Except ε β} {b : β} :
    (x >>= f) = .ok b ↔ ∃ a, x = .ok a ∧ f a = .ok b := by
  cases x with
  | error e => exact iff_of_false (fun h => by cases h) (fun ⟨_, h, _⟩ => by cases h)
  | ok a => exact ⟨fun h => ⟨a, rfl, h⟩, fun ⟨_, h, hf⟩ => by cases h; exact hf⟩

theorem ensure_eq_ok {c : Prop} [Decidable c] {e : ε} {u : Unit} : ensure c e = .ok u ↔ c := by
  unfold ensure
  split <;> simp [*]

theorem ensure_congr {c d : Prop} [Decidable c] [Decidable d] (h : c ↔ d) (e : ε) :
    ensure c e = ensure d e := by
  unfold ensure
  simp only [h]

theorem unwrapOr_eq_ok {o : Option α} {e : ε} {a : α} : unwrapOr o e = .ok a ↔ o = some a := by
  cases o <;> simp [unwrapOr]

theorem ensure_bind_eq_ok {c : Prop} [Decidable c] {e : ε} {f : Unit → Except ε β} {b : β} :
    (ensure c e >>= f) = .ok b ↔ c ∧ f () = .ok b := by
  rw [bind_eq_ok]
  constructor
  · intro h
    rcases h with ⟨⟨⟩, hc, hf⟩
    exact ⟨ensure_eq_ok.mp hc, hf⟩
  · intro h
    rcases h with ⟨hc, hf⟩
    exact ⟨(), ensure_eq_ok.mpr hc, hf⟩

theorem unwrapOr_bind_eq_ok {o : Option α} {e : ε} {f : α → Except ε β} {b : β} :
    (unwrapOr o e >>= f) = .ok b ↔ ∃ a, o = some a ∧ f a = .ok b := by
  rw [bind_eq_ok]
  simp only [unwrapOr_eq_ok]

theorem pure_eq_ok {a b : α} : (pure a : Except ε α) = .ok b ↔ a = b := by
  simp [pure, Except.pure]

theorem throw_ne_ok {e : ε} {b : α} : (throw e : Except ε α) ≠ .ok b := nofun

@[simp] theorem ensure_true_bind {c : Prop} [Decidable c] {e : ε} {f : Unit → Except ε β}
    (h : c) : (ensure c e >>= f) = f () := by
  rw [ensure, if_pos h]; rfl

@[simp] theorem ensure_false_bind {c : Prop} [Decidable c] {e : ε} {f : Unit → Except ε β}
    (h : ¬ c) : (ensure c e >>= f) = .error e := by
  rw [ensure, if_neg h]; rfl

@[simp] theorem unwrapOr_some_bind {a : α} {e : ε} {f : α → Except ε β} :
    (unwrapOr (some a) e >>= f) = f a := rfl

@[simp] theorem unwrapOr_none_bind {e : ε} {f : α → Except ε β} :
    (unwrapOr none e >>= f) = .error e := rfl

/-! ## Runs -/

/-- What one settled call did: the input, the state it met, the outcome and the
state it left. -/
structure Settled (ι σ ε ρ : Type) where
  input : ι
  pre : σ
  outcome : Except ε ρ
  post : σ

namespace Settled

/-- The call was accepted. -/
def accepted (c : Settled ι σ ε ρ) : Prop := ∃ r, c.outcome = .ok r

end Settled

section Runs

variable (exec : ι → σ → Except ε (ρ × σ))

/-- Settle one call: the new state on success and the old one on failure. -/
def settle (i : ι) (s : σ) : Settled ι σ ε ρ :=
  match exec i s with
  | .ok (r, s') => ⟨i, s, .ok r, s'⟩
  | .error e => ⟨i, s, .error e, s⟩

/-- The state that a list of inputs leads to. -/
def run : List ι → σ → σ
  | [], s => s
  | i :: is, s => run is (settle exec i s).post

/-- The settled calls of a list of inputs, in order. -/
def trace : List ι → σ → List (Settled ι σ ε ρ)
  | [], _ => []
  | i :: is, s => settle exec i s :: trace is (settle exec i s).post

/-- The states that some run reaches from `s₀`. -/
def Reachable (s₀ s : σ) : Prop := ∃ is, run exec is s₀ = s

variable {exec}

@[simp] theorem settle_input (i : ι) (s : σ) : (settle exec i s).input = i := by
  unfold settle
  split <;> rfl

@[simp] theorem settle_pre (i : ι) (s : σ) : (settle exec i s).pre = s := by
  unfold settle
  split <;> rfl

theorem settle_of_ok {i : ι} {s s' : σ} {r : ρ} (h : exec i s = .ok (r, s')) :
    settle exec i s = ⟨i, s, .ok r, s'⟩ := by
  rw [settle, h]

theorem settle_of_error {i : ι} {s : σ} {e : ε} (h : exec i s = .error e) :
    settle exec i s = ⟨i, s, .error e, s⟩ := by
  rw [settle, h]

/-- A call fails and leaves its state, or it succeeds with the state it
answers. -/
theorem settle_cases (exec : ι → σ → Except ε (ρ × σ)) (i : ι) (s : σ) :
    (∃ e, exec i s = .error e ∧ settle exec i s = ⟨i, s, .error e, s⟩) ∨
      ∃ r s', exec i s = .ok (r, s') ∧ settle exec i s = ⟨i, s, .ok r, s'⟩ := by
  rcases h : exec i s with e | ⟨r, s'⟩
  · exact .inl ⟨e, rfl, settle_of_error h⟩
  · exact .inr ⟨r, s', rfl, settle_of_ok h⟩

theorem settle_of_accepted {i : ι} {s : σ} (h : (settle exec i s).accepted) :
    ∃ r s', exec i s = .ok (r, s') ∧ settle exec i s = ⟨i, s, .ok r, s'⟩ := by
  rcases settle_cases exec i s with ⟨e, _, hset⟩ | hok
  · rw [hset] at h
    obtain ⟨r, hr⟩ := h
    cases hr
  · exact hok

/-- What holds of the state before a call, and of the state that it leaves if it
succeeds, holds after it. -/
theorem settle_post {P : σ → Prop} {i : ι} {s : σ} (hs : P s)
    (hok : ∀ r s', exec i s = .ok (r, s') → P s') : P (settle exec i s).post := by
  rcases settle_cases exec i s with ⟨e, _, hset⟩ | ⟨r, s', h, hset⟩
  · rw [hset]
    exact hs
  · rw [hset]
    exact hok r s' h

theorem run_append (is js : List ι) (s : σ) :
    run exec (is ++ js) s = run exec js (run exec is s) := by
  induction is generalizing s with
  | nil => rfl
  | cons i is ih => exact ih _

theorem run_snoc (is : List ι) (i : ι) (s : σ) :
    run exec (is ++ [i]) s = (settle exec i (run exec is s)).post := by
  rw [run_append]; rfl

theorem trace_append (is js : List ι) (s : σ) :
    trace exec (is ++ js) s = trace exec is s ++ trace exec js (run exec is s) := by
  induction is generalizing s with
  | nil => rfl
  | cons i is ih => exact congrArg _ (ih _)

theorem trace_snoc (is : List ι) (i : ι) (s : σ) :
    trace exec (is ++ [i]) s = trace exec is s ++ [settle exec i (run exec is s)] := by
  rw [trace_append]; rfl

/-- A settled call of a run met the state that the inputs before it led to. -/
theorem exists_of_mem_trace {c : Settled ι σ ε ρ} {is : List ι} {s : σ}
    (h : c ∈ trace exec is s) :
    ∃ before i after, is = before ++ i :: after ∧ c = settle exec i (run exec before s) := by
  induction is generalizing s with
  | nil => cases h
  | cons i is ih =>
    rcases List.mem_cons.mp h with rfl | h
    · exact ⟨[], i, is, rfl, rfl⟩
    · obtain ⟨before, j, after, rfl, rfl⟩ := ih h
      exact ⟨i :: before, j, after, rfl, rfl⟩

/-- A property that holds at the start and is kept by every successful call
holds in every state of a run. -/
theorem run_invariant {P : σ → Prop} (hstep : ∀ i s r s', P s → exec i s = .ok (r, s') → P s')
    (is : List ι) {s : σ} (hs : P s) : P (run exec is s) := by
  induction is generalizing s with
  | nil => exact hs
  | cons i is ih =>
    apply ih
    exact settle_post hs (fun r s' hok => hstep i s r s' hs hok)

theorem Reachable.invariant {P : σ → Prop} {s₀ s : σ}
    (hstep : ∀ i s r s', P s → exec i s = .ok (r, s') → P s') (h₀ : P s₀)
    (h : Reachable exec s₀ s) : P s := by
  obtain ⟨is, rfl⟩ := h
  exact run_invariant hstep is h₀

end Runs

end LatchContracts.Lib
