import LatchContracts.Lib.Call
import Mathlib.Data.List.Induction

/-!
# The last write decides

A setting is written by some calls of a run and cleared by others, and the rest
of the calls leave it alone.  What it is at any moment can then be read off the
settled calls so far: `LastGrant grants revokes v cs` says that some call of
`cs` granted `v` and that no later one granted or revoked anything.

`LastWrite` is the step condition on one kind of call at a time, and
`LastWrite.view_run` the statement about runs.
-/

namespace LatchContracts.Lib

section List

variable {C V : Type} (grants : V → C → Prop) (revokes : C → Prop)

/-- The last of the calls that write at all granted `v`. -/
def LastGrant (v : V) (cs : List C) : Prop :=
  ∃ before c after, cs = before ++ c :: after ∧ grants v c ∧
    ∀ c' ∈ after, (∀ w, ¬ grants w c') ∧ ¬ revokes c'

variable {grants revokes} {v : V} {cs : List C} {c : C}

theorem not_lastGrant_nil : ¬ LastGrant grants revokes v [] := by
  intro h
  rcases h with ⟨before, c, after, hnil, _⟩
  simp at hnil

/-- A call at the end that grants is the last one. -/
theorem lastGrant_snoc_of_grants (h : grants v c) : LastGrant grants revokes v (cs ++ [c]) :=
  ⟨cs, c, [], rfl, h, by simp⟩

/-- Take the end off: either it is the granting call, or it leaves the earlier
calls to decide. -/
theorem LastGrant.snoc_cases (h : LastGrant grants revokes v (cs ++ [c])) :
    grants v c ∨ (LastGrant grants revokes v cs ∧ (∀ w, ¬ grants w c) ∧ ¬ revokes c) := by
  rcases h with ⟨before, d, after, heq, hgrants, hafter⟩
  rcases List.eq_nil_or_concat after with hnil | ⟨rest, e, hconcat⟩
  · subst hnil
    obtain ⟨_, hlast⟩ := List.append_inj' heq rfl
    rw [List.singleton_inj.mp hlast]
    exact .inl hgrants
  · rw [List.concat_eq_append] at hconcat
    subst hconcat
    have heq' : cs ++ [c] = (before ++ d :: rest) ++ [e] := by
      rw [heq, List.append_assoc]
      rfl
    obtain ⟨hfirst, hlast⟩ := List.append_inj' heq' rfl
    rw [List.singleton_inj.mp hlast]
    refine .inr ⟨⟨before, d, rest, hfirst, hgrants, ?_⟩, hafter e (by simp)⟩
    intro c' hc'
    exact hafter c' (List.mem_append_left _ hc')

/-- A call at the end that writes nothing leaves the earlier calls to decide. -/
theorem LastGrant.snoc (h : LastGrant grants revokes v cs) (hgrants : ∀ w, ¬ grants w c)
    (hrevokes : ¬ revokes c) : LastGrant grants revokes v (cs ++ [c]) := by
  rcases h with ⟨before, d, after, rfl, hd, hafter⟩
  refine ⟨before, d, after ++ [c], by simp, hd, ?_⟩
  intro c' hc'
  rcases List.mem_append.mp hc' with hc' | hc'
  · exact hafter c' hc'
  · rw [List.mem_singleton.mp hc']
    exact ⟨hgrants, hrevokes⟩

end List

section Runs

variable {ι σ ε ρ V : Type} {exec : ι → σ → Except ε (ρ × σ)}
  {grants : V → Settled ι σ ε ρ → Prop} {revokes : Settled ι σ ε ρ → Prop} {view : σ → Option V}

variable (exec grants revokes view) in
/-- What one settled call does to the setting. -/
structure LastWrite : Prop where
  grant : ∀ i s v, grants v (settle exec i s) → view (settle exec i s).post = some v
  revoke : ∀ i s, revokes (settle exec i s) → view (settle exec i s).post = none
  keep : ∀ i s, (∀ v, ¬ grants v (settle exec i s)) → ¬ revokes (settle exec i s) →
    view (settle exec i s).post = view s

/-- From a state without the setting, a run leaves what its last write granted. -/
theorem LastWrite.view_run (h : LastWrite exec grants revokes view) {s : σ} (hs : view s = none)
    (is : List ι) {v : V} :
    view (run exec is s) = some v ↔ LastGrant grants revokes v (trace exec is s) := by
  induction is using List.reverseRecOn generalizing v with
  | nil =>
    refine iff_of_false ?_ not_lastGrant_nil
    rw [run, hs]
    nofun
  | append_singleton is i ih =>
    rw [run_snoc, trace_snoc]
    by_cases hgrant : ∃ w, grants w (settle exec i (run exec is s))
    · obtain ⟨w, hw⟩ := hgrant
      rw [h.grant i _ w hw]
      constructor
      · intro heq
        rw [← Option.some.inj heq]
        exact lastGrant_snoc_of_grants hw
      · intro hlast
        rcases hlast.snoc_cases with hv | ⟨_, hno, _⟩
        · rw [← h.grant i _ w hw, h.grant i _ v hv]
        · exact absurd hw (hno w)
    · have hno : ∀ w, ¬ grants w (settle exec i (run exec is s)) := fun w hw => hgrant ⟨w, hw⟩
      by_cases hrevoke : revokes (settle exec i (run exec is s))
      · rw [h.revoke i _ hrevoke]
        refine iff_of_false nofun ?_
        intro hlast
        rcases hlast.snoc_cases with hv | ⟨_, _, hnot⟩
        · exact hno v hv
        · exact hnot hrevoke
      · rw [h.keep i _ hno hrevoke, ih]
        constructor
        · intro hlast
          exact hlast.snoc hno hrevoke
        · intro hlast
          rcases hlast.snoc_cases with hv | ⟨hlast', _⟩
          · exact absurd hv (hno v)
          · exact hlast'

end Runs

end LatchContracts.Lib
