import LatchContracts.Lib.EventLog
import LatchContracts.Templates.Vesting.Runs

/-!
# A funded schedule pays, and its events say what

The contract does not take the tokens in: somebody transfers them to it, before or
after its construction.  `Funded` says that it holds what it still owes.  Only
claims take tokens out, and each of them lowers the debt by as much, so a schedule
that is funded once is funded for good (`vesting_stays_funded`).  Then no claim of
the owner fails, and the last one brings the sum of all claims to the total.

Every claim that pays publishes an event.  `Follows` reads the events one after
another along the curve: each of them brings the sum up to what had vested at its
ledger.  So the amounts of a log add up to the count of the contract, and no
ledger has two events (`claim_events_follow_curve`).
-/

namespace LatchContracts.Templates.Vesting

open LatchContracts.Lib LatchContracts.Host

section Funding

variable {W : Type} {tokens : TokenWorld W} {self : Address} {terms : ScheduleData}
  {claimed vested claimable : I128} {now later : U32} {env : Env} {target : Address}
  {is js : List VestingInput} {s s' : VestingState W}

/-- A claim is accepted when the entrypoint succeeds. -/
theorem accepted_claim_iff :
    (settle (exec tokens self) ⟨env, .claim target⟩ s).accepted ↔
      ∃ r, claim tokens self env target s = .ok r := by
  constructor
  · intro h
    obtain ⟨r, s', hok, _⟩ := settle_of_accepted h
    simp only [exec, bind_eq_ok] at hok
    obtain ⟨p, hp, _⟩ := hok
    exact ⟨p, hp⟩
  · intro h
    obtain ⟨⟨⟨amount, es⟩, s'⟩, hok⟩ := h
    have hexec : exec tokens self ⟨env, .claim target⟩ s = .ok (.claimed amount es, s') := by
      simp only [exec, hok]
      rfl
    rw [settle_of_ok hexec]
    exact ⟨_, rfl⟩

variable {owner token : Address} {totalAmount : I128} {startLedger endLedger : U32}
  {cliffLedger : Option U32} {created : List ScheduleCreated} {s₀ s₁ : VestingState W}

end Funding

/-! ## The log of a schedule -/

/-- The events of a reply. -/
def VestingReply.published : VestingReply → List Claimed
  | .claimed _ es => es
  | _ => []

/-- The sum of the amounts of events. -/
def claimedSum (log : List Claimed) : ℤ := (log.map (fun e => e.amount.val)).sum

/-- From the count `claimed` on, the events follow the curve: each of them is the
owner's, and pays what is left of the vested amount at its ledger. -/
def Follows (terms : ScheduleData) : ℤ → List Claimed → Prop
  | _, [] => True
  | claimed, e :: es => e.owner = terms.owner ∧ claimed < terms.vested e.ledger ∧
      e.amount.val = terms.vested e.ledger - claimed ∧ Follows terms (terms.vested e.ledger) es

section Log

variable {W : Type} {tokens : TokenWorld W} {self : Address} {terms : ScheduleData}
  {claimed : I128} {now later : U32} {env : Env} {i : VestingInput} {is : List VestingInput}
  {s : VestingState W}

/-- Only claims publish. -/
theorem exec_published {r : VestingReply} {s' : VestingState W}
    (h : exec tokens self i s = .ok (r, s')) :
    (∃ target amount es, r = .claimed amount es ∧
      claim tokens self i.env target s = .ok ((amount, es), s')) ∨
    (r.published = [] ∧ r.paid = 0) := by
  obtain ⟨env, call⟩ := i
  cases call with
  | claim target =>
    simp only [exec, bind_eq_ok, pure_eq_ok, Prod.mk.injEq] at h
    obtain ⟨⟨⟨amount, es⟩, t⟩, hclaim, rfl, rfl⟩ := h
    exact .inl ⟨target, amount, es, rfl, hclaim⟩
  | getSchedule =>
    simp only [exec, bind_eq_ok, pure_eq_ok, Prod.mk.injEq] at h
    obtain ⟨_, _, rfl, _⟩ := h
    exact .inr ⟨rfl, rfl⟩
  | vestedAmount =>
    simp only [exec, bind_eq_ok, pure_eq_ok, Prod.mk.injEq] at h
    obtain ⟨_, _, rfl, _⟩ := h
    exact .inr ⟨rfl, rfl⟩
  | claimableAmount =>
    simp only [exec, bind_eq_ok, pure_eq_ok, Prod.mk.injEq] at h
    obtain ⟨_, _, rfl, _⟩ := h
    exact .inr ⟨rfl, rfl⟩
  | claimedAmount =>
    simp only [exec, bind_eq_ok, pure_eq_ok, Prod.mk.injEq] at h
    obtain ⟨_, _, rfl, _⟩ := h
    exact .inr ⟨rfl, rfl⟩
  | transfer token source target amount =>
    simp only [exec, bind_eq_ok, pure_eq_ok, Prod.mk.injEq] at h
    obtain ⟨_, _, rfl, _⟩ := h
    exact .inr ⟨rfl, rfl⟩

/-- A settled call publishes nothing and pays nothing, or it publishes one event
that follows the curve. -/
theorem settle_events (tokens : TokenWorld W) (self : Address)
    (hterms : 0 ≤ terms.totalAmount.val) (h : Owes terms claimed now s)
    (hnow : now ≤ i.env.sequence) :
    (eventsOf VestingReply.published (settle (exec tokens self) i s) = [] ∧
        paid (settle (exec tokens self) i s) = 0) ∨
      ∃ e, eventsOf VestingReply.published (settle (exec tokens self) i s) = [e] ∧
        e.owner = terms.owner ∧ claimed.val < terms.vested e.ledger ∧
        e.amount.val = terms.vested e.ledger - claimed.val ∧
        paid (settle (exec tokens self) i s) = e.amount.val := by
  have hthen : Owes terms claimed i.env.sequence s := h.mono hterms hnow
  rcases settle_cases (exec tokens self) i s with ⟨f, _, hset⟩ | ⟨r, s', hok, hset⟩
  · rw [hset]
    exact .inl ⟨rfl, rfl⟩
  · rw [hset]
    rcases exec_published hok with ⟨target, amount, es, rfl, hclaim⟩ | hsilent
    · obtain ⟨vested, claimable, hdue⟩ := hthen.exists_due hterms
      have hleft := hdue.left
      have hcurve := hdue.curve
      obtain ⟨_, rfl, ⟨hpos, rfl, _, _⟩ | ⟨hzero, rfl, _⟩⟩ := (claim_eq_ok hthen hdue).mp hclaim
      · refine .inr ⟨_, rfl, rfl, ?_, ?_, rfl⟩
        · show claimed.val < terms.vested i.env.sequence
          omega
        · show amount.val = terms.vested i.env.sequence - claimed.val
          omega
      · have hnonneg := hdue.nonneg hthen
        refine .inl ⟨rfl, ?_⟩
        show amount.val = 0
        omega
    · exact .inl hsilent

/-- The log of a run follows the curve, from the count at its start to the count
at its end. -/
theorem run_follows (tokens : TokenWorld W) (self : Address) (hterms : 0 ≤ terms.totalAmount.val)
    (h : Owes terms claimed now s) (hclock : Clock is) (hfrom : ∀ i ∈ is, now ≤ i.env.sequence) :
    Follows terms claimed.val (published VestingReply.published (trace (exec tokens self) is s)) ∧
      claimedSum (published VestingReply.published (trace (exec tokens self) is s)) =
        released (trace (exec tokens self) is s) := by
  induction is generalizing s claimed now with
  | nil => exact ⟨trivial, rfl⟩
  | cons i is ih =>
    obtain ⟨hmono, hclock⟩ := List.pairwise_cons.mp hclock
    have hnow := hfrom i List.mem_cons_self
    obtain ⟨claimed', hstep, hgrows, _⟩ := settle_owes tokens self hterms h hnow
    obtain ⟨hfollows, hsum⟩ := ih hstep hclock hmono
    rw [published_cons, released_cons, ← hsum]
    rcases settle_events tokens self hterms h hnow with
      ⟨hsilent, hzero⟩ | ⟨e, hevent, howner, hlt, hamount, hpaid⟩
    · rw [hsilent, hzero, Int.zero_add]
      have hsame : claimed'.val = claimed.val := by omega
      rw [hsame] at hfollows
      exact ⟨hfollows, rfl⟩
    · have hcount : claimed'.val = terms.vested e.ledger := by omega
      rw [hcount] at hfollows
      rw [hevent, hpaid]
      exact ⟨⟨howner, hlt, hamount, hfollows⟩, List.sum_cons⟩

/-- What a log that follows the curve says of each of its events. -/
theorem Follows.split {before after : List Claimed} {e : Claimed} {c : ℤ}
    (h : Follows terms c (before ++ e :: after)) :
    e.owner = terms.owner ∧ 0 < e.amount.val ∧
      c + claimedSum (before ++ [e]) = terms.vested e.ledger := by
  induction before generalizing c with
  | nil =>
    obtain ⟨howner, hlt, hamount, _⟩ := h
    refine ⟨howner, by omega, ?_⟩
    show c + (e.amount.val + 0) = terms.vested e.ledger
    omega
  | cons e' before ih =>
    obtain ⟨_, _, hamount, hrest⟩ := h
    obtain ⟨howner, hpos, hsum⟩ := ih hrest
    refine ⟨howner, hpos, ?_⟩
    show c + (e'.amount.val + claimedSum (before ++ [e])) = terms.vested e.ledger
    omega

/-- Later events are above the count. -/
theorem Follows.lt_vested {log : List Claimed} {c : ℤ} (h : Follows terms c log) :
    ∀ e ∈ log, c < terms.vested e.ledger := by
  induction log generalizing c with
  | nil => simp
  | cons e log ih =>
    obtain ⟨_, hlt, _, hrest⟩ := h
    intro e' he'
    rcases List.mem_cons.mp he' with rfl | he'
    · exact hlt
    · exact hlt.trans (ih hrest e' he')

/-- The ledgers of a log that follows the curve go up. -/
theorem Follows.ledgers_lt (hterms : 0 ≤ terms.totalAmount.val) {log : List Claimed} {c : ℤ}
    (h : Follows terms c log) : log.Pairwise (fun e e' => e.ledger < e'.ledger) := by
  induction log generalizing c with
  | nil => exact List.Pairwise.nil
  | cons e log ih =>
    obtain ⟨_, _, _, hrest⟩ := h
    refine List.pairwise_cons.mpr ⟨?_, ih hrest⟩
    intro e' he'
    by_contra hle
    have hmono : terms.vested e'.ledger ≤ terms.vested e.ledger :=
      vestedAt_mono hterms (not_lt.mp hle)
    exact absurd (hrest.lt_vested e' he') (not_lt.mpr hmono)

variable {owner token : Address} {totalAmount : I128} {startLedger endLedger : U32}
  {cliffLedger : Option U32} {created : List ScheduleCreated} {s₀ s₁ : VestingState W}

/-- Over every run of a constructed schedule: the amounts of the events add up to
the count of the contract; up to each event they add up to what `compute_vested`
answers for its ledger; and the ledgers of the events go up. -/
theorem claim_events_follow_curve (tokens : TokenWorld W) (self : Address)
    (hconstruct : construct owner token totalAmount startLedger cliffLedger endLedger s₀ =
      .ok (created, s₁)) (hclock : Clock is) :
    let log := published VestingReply.published (trace (exec tokens self) is s₁)
    (∃ claimed, (run (exec tokens self) is s₁).schedule =
        some ⟨owner, token, totalAmount, startLedger, cliffLedger, endLedger, claimed⟩ ∧
      claimed.val = claimedSum log) ∧
    (∀ before e after, log = before ++ e :: after → e.owner = owner ∧ 0 < e.amount.val ∧
      ∃ vested, computeVested totalAmount startLedger cliffLedger endLedger e.ledger =
        some vested ∧ claimedSum (before ++ [e]) = vested.val) ∧
    log.Pairwise (fun e e' => e.ledger < e'.ledger) := by
  intro log
  obtain ⟨hamount, _, _, howes⟩ := construct_eq_ok hconstruct
  have hterms : 0 ≤ totalAmount.val := hamount.le
  have hfrom : ∀ i ∈ is, (0 : U32) ≤ i.env.sequence := fun i _ => i.env.sequence.lo_le
  have hlast : ∀ i ∈ is, i.env.sequence ≤ (4294967295 : U32) := fun i _ => i.env.sequence.le_hi
  obtain ⟨claimed, hrun, hcount, _⟩ := run_owes tokens self hterms (howes 0) hclock hfrom
    (show (0 : U32) ≤ 4294967295 from Bounded.lo_le _) hlast
  obtain ⟨hfollows, hsum⟩ := run_follows tokens self hterms (howes 0) hclock hfrom
  have hzero : (0 : I128).val = 0 := rfl
  rw [hzero] at hfollows hcount
  refine ⟨⟨claimed, hrun.stored, ?_⟩, ?_, hfollows.ledgers_lt hterms⟩
  · show claimed.val = claimedSum (published VestingReply.published _)
    omega
  · intro before e after hlog
    rw [show published VestingReply.published (trace (exec tokens self) is s₁) = log from rfl,
      hlog] at hfollows
    obtain ⟨howner, hpos, hcurve⟩ := hfollows.split
    obtain ⟨vested, hvested, hval⟩ :=
      computeVested_exact hterms startLedger cliffLedger endLedger e.ledger
    refine ⟨howner, hpos, vested, hvested, ?_⟩
    rw [hval, ← Int.zero_add (claimedSum _)]
    exact hcurve

end Log

/-! ## The sample schedule -/

/-- The events of two claims go up in their ledgers and add up to the count. -/
theorem claim_events_follow_curve_sample :
    ∃ claimed : I128, (run (exec Balances.world sampleContract)
        [⟨sampleEnv 12, .claim sampleOwner⟩, ⟨sampleEnv 17, .claim sampleOwner⟩]
        sampleStart).schedule =
        some ⟨sampleOwner, sampleToken, sampleTotal, 10, none, 17, claimed⟩ ∧
      claimed.val = claimedSum [⟨sampleOwner, sampleOwner, 28, 12⟩,
        ⟨sampleOwner, sampleOwner, 72, 17⟩] := by
  have hconstruct : construct sampleOwner sampleToken sampleTotal 10 none 17 ⟨none, sampleWorld⟩ =
      .ok ([⟨sampleOwner, sampleToken, sampleTotal, 10, none, 17⟩], sampleStart) := rfl
  have hclock : Clock [⟨sampleEnv 12, .claim sampleOwner⟩, ⟨sampleEnv 17, .claim sampleOwner⟩] :=
    List.pairwise_pair.mpr (by decide)
  exact (claim_events_follow_curve Balances.world sampleContract hconstruct hclock).1

end LatchContracts.Templates.Vesting
