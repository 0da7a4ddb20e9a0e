import LatchContracts.Lib.Call

/-!
# Event logs

A call that succeeds publishes events, and a call that fails publishes none.  The
log of a run is what all its calls published.

`Audited` is what a log is good for.  Applying its events to a view of the first
state gives the view of the last one, so that the view can be kept up outside of
the contract, and every event is justified by the view that the events before it
lead to.

`audited_of_publishes` asks for this of single calls, for contracts whose calls
publish one event at most.
-/

namespace LatchContracts.Lib

variable {ι σ ε ρ ev ν : Type}

/-- The events of a settled call. -/
def eventsOf (events : ρ → List ev) (c : Settled ι σ ε ρ) : List ev :=
  match c.outcome with
  | .ok r => events r
  | .error _ => []

/-- The log of settled calls. -/
def published (events : ρ → List ev) (t : List (Settled ι σ ε ρ)) : List ev :=
  t.flatMap (eventsOf events)

/-- A call changes the view as the event says that it publishes, and leaves it
when it publishes none. -/
inductive Publishes (P : ν → ev → Prop) (apply : ν → ev → ν) (v v' : ν) : List ev → Prop
  | silent (hsame : v' = v) : Publishes P apply v v' []
  | one {e : ev} (hjust : P v e) (happly : v' = apply v e) : Publishes P apply v v' [e]

/-- The log of a run accounts for the run. -/
structure Audited (exec : ι → σ → Except ε (ρ × σ)) (events : ρ → List ev)
    (P : ν → ev → Prop) (apply : ν → ev → ν) (view : σ → ν) : Prop where
  /-- Applying the log gives the view of the last state. -/
  replay : ∀ is s, view (run exec is s) =
    (published events (trace exec is s)).foldl apply (view s)
  /-- Every event is justified when it comes. -/
  justified : ∀ is s before e after,
    published events (trace exec is s) = before ++ e :: after → P (before.foldl apply (view s)) e

section Audit

variable {exec : ι → σ → Except ε (ρ × σ)} {events : ρ → List ev} {P : ν → ev → Prop}
  {apply : ν → ev → ν} {view : σ → ν}

theorem published_cons (events : ρ → List ev) (i : ι) (is : List ι) (s : σ) :
    published events (trace exec (i :: is) s) =
      eventsOf events (settle exec i s) ++
        published events (trace exec is (settle exec i s).post) :=
  List.flatMap_cons

theorem publishes_settle
    (h : ∀ i s r s', exec i s = .ok (r, s') → Publishes P apply (view s) (view s') (events r))
    (i : ι) (s : σ) :
    Publishes P apply (view s) (view (settle exec i s).post)
      (eventsOf events (settle exec i s)) := by
  rcases settle_cases exec i s with ⟨e, _, hset⟩ | ⟨r, s', hok, hset⟩
  · rw [hset]
    exact .silent rfl
  · rw [hset]
    exact h i s r s' hok

theorem Publishes.foldl_eq {v v' : ν} {es : List ev} (h : Publishes P apply v v' es) :
    v' = es.foldl apply v := by
  cases h with
  | silent hsame => exact hsame
  | one _ happly => exact happly

theorem audited_of_publishes
    (h : ∀ i s r s', exec i s = .ok (r, s') → Publishes P apply (view s) (view s') (events r)) :
    Audited exec events P apply view where
  replay := by
    intro is s
    induction is generalizing s with
    | nil => rfl
    | cons i is ih =>
      show view (run exec is (settle exec i s).post) = _
      rw [ih, published_cons, List.foldl_append, ← (publishes_settle h i s).foldl_eq]
  justified := by
    intro is s before e after hlog
    induction is generalizing s before with
    | nil => cases before <;> cases hlog
    | cons i is ih =>
      rw [published_cons] at hlog
      have hcall := publishes_settle h i s
      cases hnow : eventsOf events (settle exec i s) with
      | nil =>
        rw [hnow] at hcall hlog
        cases hcall with
        | silent hsame =>
          rw [← hsame]
          exact ih _ _ hlog
      | cons first rest =>
        rw [hnow] at hcall hlog
        cases hcall with
        | one hjust happly =>
          -- the event is the one of this call, or comes later
          cases before with
          | nil =>
            obtain ⟨rfl, _⟩ := List.cons.inj hlog
            exact hjust
          | cons e' before =>
            obtain ⟨rfl, hlater⟩ := List.cons.inj hlog
            rw [List.foldl_cons, ← happly]
            exact ih _ _ hlater

end Audit

end LatchContracts.Lib
