import LatchContracts.Host.Types
import LatchContracts.Lib.Expiry

/-!
# The lifetime of a contract instance

Some contracts keep everything in the storage of their instance, which is one
entry of the ledger with one lifetime.  A call of the contract runs when the
instance is live, or when its transaction restores it.

`InstanceLives` says what the lifetime means for a contract: nothing is lost when
the instance is archived, everything is back when it is restored, and it stays
live as long as the calls that extend it leave its lease unbroken.
-/

namespace LatchContracts.Host

open LatchContracts.Lib

variable {ι σ ε ρ : Type}

/-- How a contract uses its instance.  The key `true` is the instance; the calls
that need nothing have the key `false`. -/
def instanceExpiry (σ : Type) (ledger : ι → U32) (needs extendsTtl : ι → Bool)
    (threshold extendTo : ℤ) (ttl : TtlRule) : Expiry ι σ Bool where
  addr := needs
  time := fun i => (ledger i).val
  present := fun _ k => k
  touches := extendsTtl
  threshold := threshold
  span := extendTo
  ttl := ttl

/-- How long the instance lives that a constructor has created and extended. -/
def newLifetime (E : Expiry ι σ Bool) : ℤ :=
  if E.ttl.Acts E.ttl.initial E.threshold then E.span else E.ttl.initial

/-- A contract at the ledger of its constructor. -/
def newInstance (E : Expiry ι σ Bool) (s : σ) (ledger : ℤ) : Dated σ Bool :=
  ⟨s, fun _ => ledger + newLifetime E⟩

/-- What the lifetime of its instance means for a contract. -/
structure InstanceLives (E : Expiry ι σ Bool) (exec : ι → σ → Except (Fault ε) (ρ × σ)) :
    Prop where
  /-- The state is what the calls lead to that the host let run. -/
  refines : ∀ os d, (run (E.onLedger exec .trap) os d).state =
    run exec (E.ran exec .trap os d) d.state
  /-- A call that needs the archived instance and does not restore it fails and
  changes nothing. -/
  archived : ∀ d i, E.addr i = true → d.liveUntil true < E.time i →
    settle (E.onLedger exec .trap) (.call i false) d = ⟨.call i false, d, .error .trap, d⟩
  /-- A call that restores the instance does what the contract does. -/
  restoring : ∀ d i,
    let c := settle (E.onLedger exec .trap) (.call i true) d
    c.outcome = (settle exec i d.state).outcome.map some ∧
      c.post.state = (settle exec i d.state).post
  /-- And so does every call right after a restoration. -/
  restored : ∀ d i restores,
    let c := settle (E.onLedger exec .trap) (.call i restores)
      (settle (E.onLedger exec .trap) (.restore true (E.time i)) d).post
    c.outcome = (settle exec i d.state).outcome.map some ∧
      c.post.state = (settle exec i d.state).post
  /-- The instance of a new contract lives by a lease. -/
  lease : ∀ s first os stop, os.Pairwise (fun o o' => E.opTime o ≤ E.opTime o') →
    (∀ o ∈ os, first ≤ E.opTime o) → (∀ o ∈ os, E.opTime o ≤ stop) → first ≤ stop →
      (E.LiveThroughout exec .trap true first stop os (newInstance E s first) ↔
        Unbroken E.span (E.span - E.threshold - E.ttl.margin) (first + newLifetime E - E.span)
          (E.touchTimes exec .trap true os (newInstance E s first)) stop)

section Instance

variable {E : Expiry ι σ Bool} {exec : ι → σ → Except (Fault ε) (ρ × σ)}

theorem accepted_map_some {x : Except ε ρ} : (∃ r, x.map some = .ok r) ↔ ∃ r, x = .ok r := by
  cases x with
  | error e => exact iff_of_false nofun nofun
  | ok r => exact iff_of_true ⟨some r, rfl⟩ ⟨r, rfl⟩

/-- After a restoration the instance is live. -/
theorem live_restored (hpresent : ∀ s k, E.present s k = k) (hinitial : 0 ≤ E.ttl.initial)
    (d : Dated σ Bool) (k : Bool) (time : ℤ) :
    E.Live (settle (E.onLedger exec .trap) (.restore true time) d).post k time := by
  intro hk
  rw [hpresent] at hk
  subst hk
  show time ≤ (if E.Live d true time then d.liveUntil
    else Function.update d.liveUntil true (time + E.ttl.initial)) true
  by_cases hlive : E.Live d true time
  · rw [if_pos hlive]
    exact hlive (hpresent _ _)
  · rw [if_neg hlive, Function.update_self]
    omega

theorem instanceLives (hpresent : ∀ s k, E.present s k = k) (hthreshold : 0 ≤ E.threshold)
    (hinitial : 0 ≤ E.ttl.initial) : InstanceLives E exec where
  refines := fun os d => Expiry.run_state os d
  archived := by
    intro d i haddr hlate
    refine settle_of_error (Expiry.onLedger_archived ?_)
    intro hadmits
    rcases hadmits with hrestores | hlive
    · cases hrestores
    · have htime := hlive (by rw [hpresent, haddr])
      rw [haddr] at htime
      omega
  restoring := fun d i => Expiry.settle_call (.inl rfl)
  restored := by
    intro d i restores
    exact Expiry.settle_call (.inr (live_restored hpresent hinitial d (E.addr i) (E.time i)))
  lease := by
    intro s first os stop hclock hfirst hend hstop
    refine Expiry.stays_live_iff hthreshold ?_ (fun _ _ _ => hpresent _ _) hclock hfirst hend hstop
    show first + newLifetime E = first + newLifetime E - E.span + E.span
    omega

theorem newLifetime_nonneg (hspan : 0 ≤ E.span) (hinitial : 0 ≤ E.ttl.initial) :
    0 ≤ newLifetime E := by
  unfold newLifetime
  split
  · exact hspan
  · exact hinitial

/-- When every call comes before an extension acts, the instance ends with its
first lifetime. -/
theorem InstanceLives.not_liveThroughout (h : InstanceLives E exec) (hthreshold : 0 ≤ E.threshold)
    (hlifetime : 0 ≤ newLifetime E) {s : σ} {first stop : ℤ} {os : List (Operation ι Bool)}
    (hclock : os.Pairwise (fun o o' => E.opTime o ≤ E.opTime o'))
    (hsoon : ∀ o ∈ os, first ≤ E.opTime o ∧
      ¬ E.ttl.Acts (first + newLifetime E - E.opTime o) E.threshold)
    (hstop : first + newLifetime E < stop) :
    ¬ E.LiveThroughout exec .trap true first stop os (newInstance E s first) := by
  intro hlive
  have hmargin := E.ttl.margin_nonneg
  have hbefore : ∀ o ∈ os, E.opTime o ≤ first + newLifetime E - E.threshold - E.ttl.margin := by
    intro o ho
    have hidle := (hsoon o ho).2
    rw [E.ttl.acts_iff] at hidle
    omega
  have hend : ∀ o ∈ os, E.opTime o ≤ stop := by
    intro o ho
    have hlast := hbefore o ho
    omega
  have hlease := (h.lease s first os stop hclock (fun o ho => (hsoon o ho).1) hend
    (by omega)).mp hlive
  have hidle : ∀ t ∈ E.touchTimes exec .trap true os (newInstance E s first),
      t ≤ first + newLifetime E - E.span + (E.span - E.threshold - E.ttl.margin) := by
    intro t ht
    obtain ⟨o, ho, rfl⟩ := Expiry.exists_of_mem_touchTimes ht
    have hlast := hbefore o ho
    omega
  have hends := (unbroken_of_idle hidle).mp hlease
  omega

end Instance

end LatchContracts.Host
