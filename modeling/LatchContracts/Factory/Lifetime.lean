import LatchContracts.Factory.Deployment
import LatchContracts.Host.Instance

/-!
# The lifetime of the factory

The configuration is in the storage of the instance.  The constructor extends the
instance, and so does every call that reads the configuration.  The call
`extend_ttl(100, 1_555_200)` acts only when a hundred ledgers are left or less,
which is about eight minutes.  So a factory in daily use is archived all the same,
when no call comes in these minutes.  `factory_instance_lifetime` says how long it
lives, and that the archival is not more than an interruption.
-/

namespace LatchContracts.Factory

open LatchContracts.Lib LatchContracts.Host

/-- A call of the factory at a ledger. -/
structure TimedInput where
  ledger : U32
  input : FactoryInput

/-- The threshold of `extend_ttl(100, 1_555_200)`. -/
def ttlThreshold : ℤ := 100

/-- The lifetime that `extend_ttl(100, 1_555_200)` extends to. -/
def extendTo : ℤ := 1555200

/-- The calls that go through `get_config`. -/
def FactoryCall.readsConfig : FactoryCall → Bool
  | .getAccountAddress _ => false
  | _ => true

/-- How the calls use the instance.  Every call needs it, and the ones that read
the configuration extend it. -/
def lifetime (ttl : TtlRule) : Expiry TimedInput FactoryState Bool :=
  instanceExpiry FactoryState TimedInput.ledger (fun _ => true)
    (fun i => i.input.call.readsConfig) ttlThreshold extendTo ttl

/-- Dispatch a call at its ledger. -/
def timedExec (host : FactoryHost) (i : TimedInput) (s : FactoryState) :
    Except (Fault FactoryError) (FactoryReply × FactoryState) :=
  exec host i.input s

section Lifetime

variable {host : FactoryHost} {ttl : TtlRule}

/-- A run at given ledgers is a run. -/
theorem run_timedExec (is : List TimedInput) (s : FactoryState) :
    run (timedExec host) is s = run (exec host) (is.map TimedInput.input) s := by
  induction is generalizing s with
  | nil => rfl
  | cons i is ih =>
    have hstep : (settle (timedExec host) i s).post = (settle (exec host) i.input s).post := by
      rcases settle_cases (exec host) i.input s with ⟨e, he, hset⟩ | ⟨r, s', hok, hset⟩
      · rw [hset, settle_of_error (show timedExec host i s = .error e from he)]
      · rw [hset, settle_of_ok (show timedExec host i s = .ok (r, s') from hok)]
    show run (timedExec host) is (settle (timedExec host) i s).post = _
    rw [ih, hstep]
    rfl

/-- The instance of a factory lives by the lease of the calls that read the
configuration.  When every call comes before `extend_ttl` acts, the factory is
archived, however many calls there were.  Being archived changes neither the
configuration nor an account, and with a restoration every call does what it does
in a factory that was never archived. -/
theorem factory_instance_lifetime (hinitial : 0 ≤ ttl.initial) :
    InstanceLives (lifetime ttl) (timedExec host) ∧
    (∀ s first os stop, os.Pairwise (fun o o' =>
        (lifetime ttl).opTime o ≤ (lifetime ttl).opTime o') →
      (∀ o ∈ os, first ≤ (lifetime ttl).opTime o ∧
        ¬ ttl.Acts (first + newLifetime (lifetime ttl) - (lifetime ttl).opTime o) ttlThreshold) →
      first + newLifetime (lifetime ttl) < stop →
        ¬ (lifetime ttl).LiveThroughout (timedExec host) .trap true first stop os
          (newInstance (lifetime ttl) s first)) ∧
    ∀ os d,
      let d' := run ((lifetime ttl).onLedger (timedExec host) .trap) os d
      d'.state.config = d.state.config ∧
        ∀ a x, d.state.contracts a = some x → d'.state.contracts a = some x := by
  have hthreshold : 0 ≤ (lifetime ttl).threshold := by
    show (0 : ℤ) ≤ ttlThreshold
    decide
  have hlives : InstanceLives (lifetime ttl) (timedExec host) :=
    instanceLives (fun _ _ => rfl) hthreshold hinitial
  refine ⟨hlives, ?_, ?_⟩
  · intro s first os stop hclock hsoon hstop
    have hlifetime : 0 ≤ newLifetime (lifetime ttl) :=
      newLifetime_nonneg (by show (0 : ℤ) ≤ extendTo; decide) hinitial
    exact hlives.not_liveThroughout hthreshold hlifetime hclock hsoon hstop
  · intro os d d'
    have hstate : d'.state = run (exec host) (((lifetime ttl).ran (timedExec host) .trap os
        d).map TimedInput.input) d.state := by
      rw [← run_timedExec]
      exact hlives.refines os d
    rw [hstate]
    exact ⟨run_keeps_config _, fun a x hx => run_keeps_contract _ hx⟩

end Lifetime

/-- A factory on the network: the constructor at ledger 10 extends nothing, so
the instance lives until ledger 4105, and a call in ledger 4004, with 101 ledgers
left, does not keep it longer. -/
theorem factory_instance_lifetime_sample :
    ¬ (lifetime networkTtl).LiveThroughout (timedExec sampleHost) .trap true 10 4106
      [.call ⟨4004, ⟨⟨fun _ => true⟩, .getThresholdPolicy⟩⟩ false]
      (newInstance (lifetime networkTtl) sampleFactory 10) := by
  have hinitial : (0 : ℤ) ≤ networkTtl.initial := by decide
  have hlifetime : newLifetime (lifetime networkTtl) = 4095 := rfl
  refine (factory_instance_lifetime hinitial).2.1 _ _ _ _ (List.pairwise_singleton _ _) ?_ ?_
  · intro o ho
    rw [List.mem_singleton.mp ho, hlifetime]
    decide
  · rw [hlifetime]
    decide

end LatchContracts.Factory
