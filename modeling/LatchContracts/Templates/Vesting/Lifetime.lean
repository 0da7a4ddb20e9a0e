import LatchContracts.Host.Instance
import LatchContracts.Templates.Vesting.Funding

/-!
# The lifetime of a vesting schedule

The schedule is in the storage of the instance.  Every entrypoint extends the
lifetime of the instance first, and a schedule may run for years, so the instance
may well be archived in between.

`vesting_survives_archival` says that this costs nothing but a restoration.
Whatever was called before, and however often and long the instance was archived,
the owner restores it and claims all that has vested, in one transaction or in
two.  How long it lives without a restoration is the lease of `InstanceLives`, of
thirty days with a day of idling.
-/

namespace LatchContracts.Templates.Vesting

open LatchContracts.Lib LatchContracts.Host

/-- `DAY_IN_LEDGERS`. -/
def dayInLedgers : ℤ := 17280

/-- `INSTANCE_EXTEND_AMOUNT`. -/
def instanceExtendAmount : ℤ := 30 * dayInLedgers

/-- `INSTANCE_TTL_THRESHOLD`. -/
def instanceTtlThreshold : ℤ := instanceExtendAmount - dayInLedgers

/-- The call is one of the contract, and so extends its instance. -/
def VestingCall.extendsInstance : VestingCall → Bool
  | .transfer _ _ _ _ => false
  | _ => true

/-- How the calls use the instance. -/
def lifetime (W : Type) (ttl : TtlRule) : Expiry VestingInput (VestingState W) Bool :=
  instanceExpiry (VestingState W) (fun i => i.env.sequence) (fun i => i.call.extendsInstance)
    (fun i => i.call.extendsInstance) instanceTtlThreshold instanceExtendAmount ttl

section Lifetime

variable {W : Type} {tokens : TokenWorld W} {self : Address} {ttl : TtlRule}
  {os : List (Operation VestingInput Bool)} {d : Dated (VestingState W) Bool}

theorem vesting_instanceLives (tokens : TokenWorld W) (self : Address)
    (hinitial : 0 ≤ ttl.initial) :
    InstanceLives (lifetime W ttl) (exec tokens self) :=
  instanceLives (fun _ _ => rfl) (by show (0 : ℤ) ≤ instanceTtlThreshold; decide) hinitial

/-- The calls that ran are calls of the run, and the ledger does not go back. -/
theorem ran_clock
    (hclock : os.Pairwise (fun o o' =>
      (lifetime W ttl).opTime o ≤ (lifetime W ttl).opTime o')) :
    Clock ((lifetime W ttl).ran (exec tokens self) .trap os d) := by
  have hcalls : Clock (os.filterMap Operation.call?) := by
    refine List.Pairwise.filterMap Operation.call? ?_ hclock
    intro o o' hle i hi j hj
    cases o with
    | restore k time => cases hi
    | call i' _ =>
      cases o' with
      | restore k time => cases hj
      | call j' _ =>
        obtain rfl := Option.some.inj hi
        obtain rfl := Option.some.inj hj
        exact Bounded.le_def.mpr hle
  exact hcalls.sublist (Expiry.ran_sublist os d)

theorem ran_until {last : U32}
    (huntil : ∀ o ∈ os, (lifetime W ttl).opTime o ≤ last.val) :
    ∀ i ∈ (lifetime W ttl).ran (exec tokens self) .trap os d, i.env.sequence ≤ last := by
  intro i hi
  obtain ⟨o, ho, heq⟩ := List.mem_filterMap.mp ((Expiry.ran_sublist os d).subset hi)
  cases o with
  | restore k time => cases heq
  | call j _ =>
    obtain rfl := Option.some.inj heq
    exact Bounded.le_def.mpr (huntil _ ho)

variable {owner token : Address} {totalAmount : I128} {startLedger endLedger : U32}
  {cliffLedger : Option U32} {created : List ScheduleCreated} {s₀ s₁ : VestingState W}

/-- After any operations on the ledger, a claim by the owner that restores the
instance, or that comes right after its restoration, releases all that has vested
and was not released before. -/
theorem vesting_survives_archival (tokens : TokenWorld W) (self : Address)
    (hinitial : 0 ≤ ttl.initial)
    (hconstruct : construct owner token totalAmount startLedger cliffLedger endLedger s₀ =
      .ok (created, s₁))
    (first : U32) (env : Env)
    (hclock : os.Pairwise (fun o o' =>
      (lifetime W ttl).opTime o ≤ (lifetime W ttl).opTime o'))
    (huntil : ∀ o ∈ os, (lifetime W ttl).opTime o ≤ env.sequence.val) :
    let E := lifetime W ttl
    let d := run (E.onLedger (exec tokens self) .trap) os (newInstance E s₁ first.val)
    let restored := (settle (E.onLedger (exec tokens self) .trap)
      (.restore true env.sequence.val) d).post
    InstanceLives E (exec tokens self) ∧
    ∃ claimed vested : I128,
      d.state.schedule =
        some ⟨owner, token, totalAmount, startLedger, cliffLedger, endLedger, claimed⟩ ∧
      computeVested totalAmount startLedger cliffLedger endLedger env.sequence = some vested ∧
      claimed.val ≤ vested.val ∧
      ∀ target amount, amount.val = vested.val - claimed.val → ∀ restores before,
        before = restored ∨ restores = true ∧ before = d →
        let c := settle (E.onLedger (exec tokens self) .trap)
          (.call ⟨env, .claim target⟩ restores) before
        (c.accepted ↔ env.auth owner = true ∧ (0 < amount.val → ∃ w,
          tokens.transfer ⟨env, some self, token, self, target, amount⟩ d.state.world = some w)) ∧
        (c.accepted → c.post.state.schedule =
          some ⟨owner, token, totalAmount, startLedger, cliffLedger, endLedger, vested⟩) := by
  intro E d restored
  have hlives := vesting_instanceLives tokens self hinitial
  obtain ⟨hamount, _, _, howes⟩ := construct_eq_ok hconstruct
  have hterms : 0 ≤ totalAmount.val := hamount.le
  -- the claims of the calls that ran are those of a run without lifetimes
  have hstate : d.state = run (exec tokens self)
      (E.ran (exec tokens self) .trap os (newInstance E s₁ first.val)) s₁ :=
    hlives.refines os _
  obtain ⟨claimed, hrun, _, _⟩ := run_owes tokens self hterms (howes 0) (ran_clock hclock)
    (fun i _ => i.env.sequence.lo_le) (show (0 : U32) ≤ env.sequence from env.sequence.lo_le)
    (ran_until huntil)
  rw [← hstate] at hrun
  obtain ⟨vested, claimable, hdue⟩ := hrun.exists_due hterms
  refine ⟨hlives, claimed, vested, hrun.stored, hdue.computed, hdue.curve ▸ hrun.vested, ?_⟩
  intro target amount hval restores before hbefore c
  obtain rfl : amount = claimable := Bounded.ext (hval.trans hdue.left.symm)
  -- either way the claim is the one of the contract without lifetimes
  have hsame : c.outcome =
        (settle (exec tokens self) ⟨env, .claim target⟩ d.state).outcome.map some ∧
      c.post.state = (settle (exec tokens self) ⟨env, .claim target⟩ d.state).post := by
    rcases hbefore with rfl | ⟨rfl, rfl⟩
    · exact hlives.restored d ⟨env, .claim target⟩ restores
    · exact hlives.restoring d ⟨env, .claim target⟩
  obtain ⟨houtcome, hpost⟩ := hsame
  have haccepted : c.accepted ↔
      (settle (exec tokens self) ⟨env, .claim target⟩ d.state).accepted := by
    rw [Settled.accepted, houtcome]
    exact accepted_map_some
  rw [haccepted, accepted_claim_iff]
  refine ⟨claim_accepted_iff hrun hdue, ?_⟩
  intro h
  obtain ⟨⟨⟨paid, es⟩, s'⟩, hok⟩ := h
  have hexec : exec tokens self ⟨env, .claim target⟩ d.state = .ok (.claimed paid es, s') := by
    simp only [exec, hok]
    rfl
  rw [hpost, settle_of_ok hexec]
  exact (claim_owes hrun hdue hok).stored

end Lifetime

/-- The sample schedule runs for seven ledgers.  Its instance is archived a month
later, and the owner restores it and claims everything in one transaction. -/
theorem vesting_survives_archival_sample :
    (settle ((lifetime Balances networkTtl).onLedger (exec Balances.world sampleContract) .trap)
      (.call ⟨sampleEnv 600000, .claim sampleOwner⟩ true)
      (newInstance (lifetime Balances networkTtl) sampleStart 10)).accepted := by
  have hconstruct : construct sampleOwner sampleToken sampleTotal 10 none 17 ⟨none, sampleWorld⟩ =
      .ok ([⟨sampleOwner, sampleToken, sampleTotal, 10, none, 17⟩], sampleStart) := rfl
  have hinitial : (0 : ℤ) ≤ networkTtl.initial := by decide
  obtain ⟨_, claimed, vested, hstored, hvested, _, hclaims⟩ :=
    vesting_survives_archival Balances.world sampleContract hinitial hconstruct 10
      (sampleEnv 600000) List.Pairwise.nil (fun o ho => absurd ho List.not_mem_nil)
  obtain rfl : 0 = claimed := congrArg ScheduleData.claimedAmount (Option.some.inj hstored)
  obtain rfl : sampleTotal = vested := Option.some.inj hvested
  exact (hclaims sampleOwner sampleTotal rfl true _ (.inr ⟨rfl, rfl⟩)).1.mpr
    ⟨by decide, fun _ => ⟨_, rfl⟩⟩

end LatchContracts.Templates.Vesting
