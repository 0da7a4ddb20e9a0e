import LatchContracts.Lib.Call

/-!
# States that no call tells apart

Two states can differ in what a contract stores and still be the same for its
callers.  `Alike` lifts a relation to calls: both fail with the same error, or both
succeed with related results.  It goes through `bind`, so a call is followed along
its checks.

A `Bisimulation` relates states from which every call is alike, with related
replies and related states after it.  `Bisimulation.trace` is what it is for: from
related states, every run is answered alike, call by call.
-/

namespace LatchContracts.Lib

variable {ι σ ε ρ α β : Type}

/-! ## Calls that are alike -/

/-- Both fail with the same error, or both succeed with related results. -/
inductive Alike (Q : α → α → Prop) : Except ε α → Except ε α → Prop
  | error (e : ε) : Alike Q (.error e) (.error e)
  | ok {a b : α} (h : Q a b) : Alike Q (.ok a) (.ok b)

namespace Alike

variable {Q : α → α → Prop} {Q' : β → β → Prop} {x y : Except ε α}

theorem pure {a b : α} (h : Q a b) : Alike Q (Pure.pure a : Except ε α) (Pure.pure b) := .ok h

theorem bind {f g : α → Except ε β} (h : Alike Q x y)
    (hrest : ∀ a b, Q a b → Alike Q' (f a) (g b)) : Alike Q' (x >>= f) (y >>= g) := by
  cases h with
  | error e => exact .error e
  | ok hab => exact hrest _ _ hab

/-- The same first part, which may be known to have succeeded. -/
theorem bind_same (x : Except ε α) {f g : α → Except ε β}
    (hrest : ∀ a, x = .ok a → Alike Q' (f a) (g a)) : Alike Q' (x >>= f) (x >>= g) := by
  cases x with
  | error e => exact .error e
  | ok a => exact hrest a rfl

theorem map {f g : α → β} (h : Alike Q x y) (hfg : ∀ a b, Q a b → Q' (f a) (g b)) :
    Alike Q' (x.map f) (y.map g) := by
  cases h with
  | error e => exact .error e
  | ok hab => exact .ok (hfg _ _ hab)

end Alike

/-! ## Runs that are alike -/

/-- From related states every call is alike. -/
def Bisimulation (exec : ι → σ → Except ε (ρ × σ)) (Q : ρ → ρ → Prop) (R : σ → σ → Prop) : Prop :=
  ∀ i s t, R s t → Alike (fun p q => Q p.1 q.1 ∧ R p.2 q.2) (exec i s) (exec i t)

/-- Two settled calls of one input are answered alike. -/
def AnsweredAlike (Q : ρ → ρ → Prop) (c d : Settled ι σ ε ρ) : Prop :=
  c.input = d.input ∧ Alike Q c.outcome d.outcome

namespace Bisimulation

variable {exec : ι → σ → Except ε (ρ × σ)} {Q : ρ → ρ → Prop} {R : σ → σ → Prop} {s t : σ}

theorem settle (h : Bisimulation exec Q R) (hst : R s t) (i : ι) :
    AnsweredAlike Q (Lib.settle exec i s) (Lib.settle exec i t) ∧
      R (Lib.settle exec i s).post (Lib.settle exec i t).post := by
  have hcall := h i s t hst
  unfold Lib.settle
  generalize exec i s = x at hcall ⊢
  generalize exec i t = y at hcall ⊢
  cases hcall with
  | error e => exact ⟨⟨rfl, .error e⟩, hst⟩
  | ok hab => exact ⟨⟨rfl, .ok hab.1⟩, hab.2⟩

theorem trace (h : Bisimulation exec Q R) (hst : R s t) (is : List ι) :
    List.Forall₂ (AnsweredAlike Q) (Lib.trace exec is s) (Lib.trace exec is t) := by
  induction is generalizing s t with
  | nil => exact .nil
  | cons i is ih =>
    obtain ⟨hanswer, hpost⟩ := h.settle hst i
    exact .cons hanswer (ih hpost)

end Bisimulation

end LatchContracts.Lib
