import LatchContracts.Templates.Vesting.Arithmetic

/-!
# Claims release exactly what has vested

A run starts at a successful construction.  It may hold claims to any target,
accepted or not, the views, and any transfers next to the contract.  The ledger
never goes back.

`Owes` is the invariant: the schedule is stored with the terms of the
constructor, and what it counts as claimed is within what has vested.  The curve
never goes down, so the invariant survives a ledger that goes on.

* `claim_eq_ok` says everything an accepted claim does, under the invariant;
* `settle_owes` carries the invariant through one settled call of any kind and
  says that the count grows by what the call paid, and `run_owes` carries it
  through a run;
* `run_balance` bounds what leaves the contract by what was paid;
* `vesting_claims_exact` puts them together.
-/

namespace LatchContracts.Templates.Vesting

open LatchContracts.Lib LatchContracts.Host

/-- One settled call. -/
abbrev Done (W : Type) :=
  Settled VestingInput (VestingState W) (Fault VestingScheduleError) VestingReply

/-- The ledger never goes back. -/
def Clock (is : List VestingInput) : Prop :=
  is.Pairwise (fun i j => i.env.sequence ≤ j.env.sequence)

/-- The amount that a claim answers, and nothing for any other call. -/
def VestingReply.paid : VestingReply → ℤ
  | .claimed a _ => a.val
  | _ => 0

/-- What an accepted claim paid. -/
def paid {W : Type} (c : Done W) : ℤ :=
  match c.outcome with
  | .ok r => r.paid
  | .error _ => 0

/-- What a run paid. -/
def released {W : Type} (t : List (Done W)) : ℤ := (t.map paid).sum

/-- The curve of a schedule. -/
def ScheduleData.vested (d : ScheduleData) (now : U32) : ℤ :=
  vestedAt d.totalAmount.val d.startLedger d.cliffLedger d.endLedger now

/-- The schedule is stored with its terms, and what is claimed has vested. -/
structure Owes {W : Type} (terms : ScheduleData) (claimed : I128) (now : U32)
    (s : VestingState W) : Prop where
  stored : s.schedule = some { terms with claimedAmount := claimed }
  nonneg : 0 ≤ claimed.val
  vested : claimed.val ≤ terms.vested now

/-- The vested amount at a ledger, and what is left of it to claim. -/
structure Due (terms : ScheduleData) (claimed : I128) (now : U32) (vested claimable : I128) :
    Prop where
  computed : computeVested terms.totalAmount terms.startLedger terms.cliffLedger terms.endLedger
    now = some vested
  curve : vested.val = terms.vested now
  subtracted : vested.saturatingSub claimed = claimable
  left : claimable.val = vested.val - claimed.val

/-! ## One call -/

section Step

variable {W : Type} {tokens : TokenWorld W} {self : Address} {terms : ScheduleData}
  {claimed vested claimable : I128} {now later : U32} {env : Env} {target : Address}
  {i : VestingInput} {r : VestingReply} {s s' : VestingState W}

theorem Owes.mono (h : Owes terms claimed now s) (hterms : 0 ≤ terms.totalAmount.val)
    (hle : now ≤ later) : Owes terms claimed later s :=
  ⟨h.stored, h.nonneg, h.vested.trans (vestedAt_mono hterms hle)⟩

theorem Owes.exists_due (h : Owes terms claimed now s) (hterms : 0 ≤ terms.totalAmount.val) :
    ∃ vested claimable, Due terms claimed now vested claimable := by
  obtain ⟨vested, hvested, hval⟩ :=
    computeVested_exact hterms terms.startLedger terms.cliffLedger terms.endLedger now
  have hle : claimed.val ≤ vested.val := hval ▸ h.vested
  have hnonneg := h.nonneg
  have htop : vested.val ≤ 2 ^ 127 - 1 := vested.le_hi
  have hleft : (vested.saturatingSub claimed).val = vested.val - claimed.val :=
    Bounded.val_clamp_of_mem _ (by omega) (by omega)
  exact ⟨vested, vested.saturatingSub claimed, hvested, hval, rfl, hleft⟩

theorem Due.nonneg (hdue : Due terms claimed now vested claimable)
    (h : Owes terms claimed now s) : 0 ≤ claimable.val := by
  have hle : claimed.val ≤ vested.val := hdue.curve ▸ h.vested
  have hleft := hdue.left
  omega

/-- Everything an accepted claim does. -/
theorem claim_eq_ok (h : Owes terms claimed env.sequence s)
    (hdue : Due terms claimed env.sequence vested claimable) {amount : I128} {es : List Claimed} :
    claim tokens self env target s = .ok ((amount, es), s') ↔
      env.auth terms.owner = true ∧ amount = claimable ∧
        ((0 < claimable.val ∧ es = [⟨terms.owner, target, claimable, env.sequence⟩] ∧
            s'.schedule = some { terms with claimedAmount := vested } ∧
            tokens.transfer ⟨env, some self, terms.token, self, target, claimable⟩ s.world =
              some s'.world) ∨
          (claimable.val ≤ 0 ∧ es = [] ∧ s' = s)) := by
  have hleft := hdue.left
  have hadd : claimed.checkedAdd claimable = some vested :=
    Bounded.checkedAdd_eq_some.mpr (by omega)
  simp only [claim, getScheduleData, vestedNow, h.stored, unwrapOr_some_bind, bind_eq_ok,
    Env.requireAuth, ensure_eq_ok, exists_const, hdue.computed, hdue.subtracted, hadd,
    Option.getD_some]
  refine and_congr_right fun _ => ?_
  split
  · rename_i hpos
    simp only [bind_eq_ok, unwrapOr_eq_ok, pure_eq_ok, Prod.mk.injEq]
    constructor
    · intro h'
      rcases h' with ⟨world, htransfer, ⟨rfl, rfl⟩, rfl⟩
      exact ⟨rfl, .inl ⟨hpos, rfl, rfl, htransfer⟩⟩
    · intro h'
      rcases h' with ⟨rfl, ⟨_, rfl, hschedule, htransfer⟩ | ⟨hle, _⟩⟩
      · obtain ⟨schedule, world⟩ := s'
        obtain rfl := hschedule
        exact ⟨world, htransfer, ⟨rfl, rfl⟩, rfl⟩
      · omega
  · rename_i hpos
    simp only [pure_eq_ok, Prod.mk.injEq]
    constructor
    · intro h'
      rcases h' with ⟨⟨rfl, rfl⟩, rfl⟩
      exact ⟨rfl, .inr ⟨by omega, rfl, rfl⟩⟩
    · intro h'
      rcases h' with ⟨rfl, ⟨hlt, _⟩ | ⟨_, rfl, rfl⟩⟩
      · exact absurd hlt hpos
      · exact ⟨⟨rfl, rfl⟩, rfl⟩

/-- An accepted claim brings the count up to the curve. -/
theorem claim_owes (h : Owes terms claimed env.sequence s)
    (hdue : Due terms claimed env.sequence vested claimable) {amount : I128} {es : List Claimed}
    (hok : claim tokens self env target s = .ok ((amount, es), s')) :
    Owes terms vested env.sequence s' := by
  have hle : claimed.val ≤ vested.val := hdue.curve ▸ h.vested
  have hnonneg := h.nonneg
  have hleft := hdue.left
  obtain ⟨_, _, ⟨_, _, hstored, _⟩ | ⟨hzero, _, rfl⟩⟩ := (claim_eq_ok h hdue).mp hok
  · exact ⟨hstored, by omega, hdue.curve.le⟩
  · have heq : vested = claimed := Bounded.ext (by omega)
    rw [heq]
    exact h

/-- An accepted claim moves exactly what it answers. -/
theorem claim_moves (hlaw : tokens.Lawful) (htoken : tokens.IsSep41 terms.token)
    (h : Owes terms claimed env.sequence s) {amount : I128} {es : List Claimed}
    (hdue : Due terms claimed env.sequence vested claimable)
    (hok : claim tokens self env target s = .ok ((amount, es), s')) (holder : Address) :
    tokens.balance s'.world terms.token holder =
      tokens.balance s.world terms.token holder - (if holder = self then amount.val else 0) +
        (if holder = target then amount.val else 0) := by
  have hpos := hdue.nonneg h
  obtain ⟨_, rfl, ⟨_, _, _, htransfer⟩ | ⟨hzero, _, rfl⟩⟩ := (claim_eq_ok h hdue).mp hok
  · exact hlaw.moves htoken htransfer holder
  · have hamount : amount.val = 0 := by omega
    rw [hamount, ite_self, ite_self]
    omega

/-- An accepted claim pays what is claimable. -/
theorem paid_claim (h : Owes terms claimed env.sequence s)
    (hdue : Due terms claimed env.sequence vested claimable)
    (haccepted : (settle (exec tokens self) ⟨env, .claim target⟩ s).accepted) :
    paid (settle (exec tokens self) ⟨env, .claim target⟩ s) = claimable.val := by
  obtain ⟨r, s', hok, hset⟩ := settle_of_accepted haccepted
  rw [hset]
  simp only [exec, bind_eq_ok, pure_eq_ok, Prod.mk.injEq] at hok
  obtain ⟨⟨⟨amount, es⟩, t⟩, hclaim, rfl, rfl⟩ := hok
  obtain ⟨_, rfl, _⟩ := (claim_eq_ok h hdue).mp hclaim
  rfl

/-- Everything an accepted call can do: it is an accepted claim, or it keeps the
schedule and makes at most one transfer, in the name of somebody else. -/
theorem exec_cases (h : exec tokens self i s = .ok (r, s')) :
    (∃ target amount es, i.call = .claim target ∧ r = .claimed amount es ∧
      claim tokens self i.env target s = .ok ((amount, es), s')) ∨
    (r.paid = 0 ∧ s'.schedule = s.schedule ∧
      (s'.world = s.world ∨ ∃ token source target amount,
        tokens.transfer ⟨i.env, none, token, source, target, amount⟩ s.world = some s'.world)) := by
  obtain ⟨env, call⟩ := i
  cases call with
  | claim target =>
    simp only [exec, bind_eq_ok, pure_eq_ok, Prod.mk.injEq] at h
    obtain ⟨⟨⟨amount, es⟩, t⟩, hx, rfl, rfl⟩ := h
    exact .inl ⟨target, amount, es, rfl, rfl, hx⟩
  | getSchedule =>
    simp only [exec, bind_eq_ok, pure_eq_ok, Prod.mk.injEq] at h
    obtain ⟨_, _, rfl, rfl⟩ := h
    exact .inr ⟨rfl, rfl, .inl rfl⟩
  | vestedAmount =>
    simp only [exec, bind_eq_ok, pure_eq_ok, Prod.mk.injEq] at h
    obtain ⟨_, _, rfl, rfl⟩ := h
    exact .inr ⟨rfl, rfl, .inl rfl⟩
  | claimableAmount =>
    simp only [exec, bind_eq_ok, pure_eq_ok, Prod.mk.injEq] at h
    obtain ⟨_, _, rfl, rfl⟩ := h
    exact .inr ⟨rfl, rfl, .inl rfl⟩
  | claimedAmount =>
    simp only [exec, bind_eq_ok, pure_eq_ok, Prod.mk.injEq] at h
    obtain ⟨_, _, rfl, rfl⟩ := h
    exact .inr ⟨rfl, rfl, .inl rfl⟩
  | transfer token source target amount =>
    simp only [exec, bind_eq_ok, unwrapOr_eq_ok, pure_eq_ok, Prod.mk.injEq] at h
    obtain ⟨world, htransfer, rfl, rfl⟩ := h
    exact .inr ⟨rfl, rfl, .inr ⟨token, source, target, amount, htransfer⟩⟩

/-- One settled call keeps the invariant, and the count grows by what the call
paid. -/
theorem settle_owes (tokens : TokenWorld W) (self : Address)
    (hterms : 0 ≤ terms.totalAmount.val) (h : Owes terms claimed now s)
    (hnow : now ≤ i.env.sequence) :
    ∃ claimed', Owes terms claimed' i.env.sequence (settle (exec tokens self) i s).post ∧
      claimed'.val = claimed.val + paid (settle (exec tokens self) i s) ∧
      0 ≤ paid (settle (exec tokens self) i s) := by
  have hthen : Owes terms claimed i.env.sequence s := h.mono hterms hnow
  rcases settle_cases (exec tokens self) i s with ⟨e, _, hset⟩ | ⟨r, s', hok, hset⟩
  · rw [hset]
    exact ⟨claimed, hthen, (Int.add_zero _).symm, le_rfl⟩
  · rw [hset]
    rcases exec_cases hok with ⟨target, amount, es, _, rfl, hclaim⟩ | ⟨hreply, hsame, _⟩
    · obtain ⟨vested, claimable, hdue⟩ := hthen.exists_due hterms
      obtain ⟨_, rfl, _⟩ := (claim_eq_ok hthen hdue).mp hclaim
      refine ⟨vested, claim_owes hthen hdue hclaim, ?_, hdue.nonneg hthen⟩
      show vested.val = claimed.val + amount.val
      have hleft := hdue.left
      omega
    · have hzero : paid (⟨i, s, .ok r, s'⟩ : Done W) = 0 := hreply
      rw [hzero]
      exact ⟨claimed, ⟨hsame.trans hthen.stored, hthen.nonneg, hthen.vested⟩,
        (Int.add_zero _).symm, le_rfl⟩

/-- What leaves the contract in one call is at most what the call paid. -/
theorem settle_balance (hlaw : tokens.Lawful) (htoken : tokens.IsSep41 terms.token)
    (hterms : 0 ≤ terms.totalAmount.val) (h : Owes terms claimed now s)
    (hnow : now ≤ i.env.sequence) (hself : i.env.auth self = false) :
    tokens.balance s.world terms.token self - paid (settle (exec tokens self) i s) ≤
      tokens.balance (settle (exec tokens self) i s).post.world terms.token self := by
  have hthen : Owes terms claimed i.env.sequence s := h.mono hterms hnow
  rcases settle_cases (exec tokens self) i s with ⟨e, _, hset⟩ | ⟨r, s', hok, hset⟩
  · rw [hset]
    show tokens.balance s.world terms.token self - 0 ≤ tokens.balance s.world terms.token self
    omega
  · rw [hset]
    rcases exec_cases hok with ⟨target, amount, es, _, rfl, hclaim⟩ | ⟨hreply, _, hworld⟩
    · obtain ⟨vested, claimable, hdue⟩ := hthen.exists_due hterms
      have hmoves := claim_moves hlaw htoken hthen hdue hclaim self
      obtain ⟨_, rfl, _⟩ := (claim_eq_ok hthen hdue).mp hclaim
      have hpos := hdue.nonneg hthen
      show tokens.balance s.world terms.token self - amount.val ≤
        tokens.balance s'.world terms.token self
      rw [if_pos rfl] at hmoves
      split at hmoves
      · omega
      · omega
    · have hzero : paid (⟨i, s, .ok r, s'⟩ : Done W) = 0 := hreply
      have hle : tokens.balance s.world terms.token self ≤
          tokens.balance s'.world terms.token self := by
        rcases hworld with hsame | ⟨token, source, target, amount, htransfer⟩
        · rw [hsame]
        · exact hlaw.balance_le_of_unauthorized htransfer hself nofun htoken
      rw [hzero]
      show tokens.balance s.world terms.token self - 0 ≤ tokens.balance s'.world terms.token self
      omega

end Step

/-! ## Whole runs -/

section Run

variable {W : Type} {tokens : TokenWorld W} {self : Address} {terms : ScheduleData}
  {claimed vested claimable : I128} {now later : U32} {env : Env} {target : Address}
  {is : List VestingInput} {s s' : VestingState W}

theorem released_cons (i : VestingInput) (is : List VestingInput) (s : VestingState W) :
    released (trace (exec tokens self) (i :: is) s) =
      paid (settle (exec tokens self) i s) +
        released (trace (exec tokens self) is (settle (exec tokens self) i s).post) :=
  List.sum_cons

theorem released_snoc (is : List VestingInput) (i : VestingInput) (s : VestingState W) :
    released (trace (exec tokens self) (is ++ [i]) s) =
      released (trace (exec tokens self) is s) +
        paid (settle (exec tokens self) i (run (exec tokens self) is s)) := by
  rw [trace_snoc, released, List.map_append, List.sum_append, List.map_singleton,
    List.sum_singleton]
  rfl

theorem run_owes (tokens : TokenWorld W) (self : Address) (hterms : 0 ≤ terms.totalAmount.val)
    (h : Owes terms claimed now s) (hclock : Clock is)
    (hfrom : ∀ i ∈ is, now ≤ i.env.sequence) (hnow : now ≤ later)
    (huntil : ∀ i ∈ is, i.env.sequence ≤ later) :
    ∃ claimed', Owes terms claimed' later (run (exec tokens self) is s) ∧
      claimed'.val = claimed.val + released (trace (exec tokens self) is s) ∧
      0 ≤ released (trace (exec tokens self) is s) := by
  induction is generalizing s claimed now with
  | nil => exact ⟨claimed, h.mono hterms hnow, (Int.add_zero _).symm, le_rfl⟩
  | cons i is ih =>
    obtain ⟨hmono, hclock⟩ := List.pairwise_cons.mp hclock
    obtain ⟨hfirst, hrest⟩ := List.forall_mem_cons.mp huntil
    obtain ⟨claimed', hstep, hgrows, hpaid⟩ :=
      settle_owes tokens self hterms h (hfrom i (List.mem_cons_self ..))
    obtain ⟨claimed'', hrun, hgrows', hreleased⟩ := ih hstep hclock hmono hfirst hrest
    rw [released_cons]
    exact ⟨claimed'', hrun, by omega, by omega⟩

/-- What leaves the contract in a run is at most what the run paid. -/
theorem run_balance (hlaw : tokens.Lawful) (htoken : tokens.IsSep41 terms.token)
    (hterms : 0 ≤ terms.totalAmount.val) (h : Owes terms claimed now s) (hclock : Clock is)
    (hfrom : ∀ i ∈ is, now ≤ i.env.sequence) (hself : ∀ i ∈ is, i.env.auth self = false) :
    tokens.balance s.world terms.token self - released (trace (exec tokens self) is s) ≤
      tokens.balance (run (exec tokens self) is s).world terms.token self := by
  induction is generalizing s claimed now with
  | nil =>
    show tokens.balance s.world terms.token self - 0 ≤ tokens.balance s.world terms.token self
    omega
  | cons i is ih =>
    obtain ⟨hmono, hclock⟩ := List.pairwise_cons.mp hclock
    obtain ⟨hfirst, hrest⟩ := List.forall_mem_cons.mp hself
    have hnow := hfrom i (List.mem_cons_self ..)
    obtain ⟨claimed', hstep, _, _⟩ := settle_owes tokens self hterms h hnow
    have hleft := settle_balance hlaw htoken hterms h hnow hfirst
    have hafter := ih hstep hclock hmono hrest
    show _ ≤ tokens.balance (run (exec tokens self) is _).world terms.token self
    rw [released_cons]
    omega

/-- What a claim does in a state in which `claimable` is left of `vested`. -/
structure ClaimsExactly (tokens : TokenWorld W) (self : Address) (terms : ScheduleData)
    (vested claimable : I128) (env : Env) (target : Address) (s : VestingState W) : Prop where
  /-- It is accepted when the owner signs and the token makes the transfer. -/
  accepted_iff : (∃ r, claim tokens self env target s = .ok r) ↔
    env.auth terms.owner = true ∧ (0 < claimable.val → ∃ w,
      tokens.transfer ⟨env, some self, terms.token, self, target, claimable⟩ s.world = some w)
  /-- It answers what is claimable, moves exactly that, and counts what has
  vested. -/
  releases : ∀ {amount es s'}, claim tokens self env target s = .ok ((amount, es), s') →
    amount = claimable ∧ s'.schedule = some { terms with claimedAmount := vested } ∧
      ∀ holder, tokens.balance s'.world terms.token holder =
        tokens.balance s.world terms.token holder - (if holder = self then amount.val else 0) +
          (if holder = target then amount.val else 0)
  /-- A later claim of the same ledger releases nothing, whatever is called
  between. -/
  again : ∀ {amount es s'}, claim tokens self env target s = .ok ((amount, es), s') →
    ∀ js : List VestingInput, (∀ j ∈ js, j.env.sequence = env.sequence) →
      ∀ {env' : Env} {target' amount' es' s''}, env'.sequence = env.sequence →
        claim tokens self env' target' (run (exec tokens self) js s') =
            .ok ((amount', es'), s'') →
          amount'.val = 0
  /-- A refused claim changes nothing. -/
  refused : ∀ {e}, claim tokens self env target s = .error e →
    (settle (exec tokens self) ⟨env, .claim target⟩ s).post = s

theorem claim_accepted_iff (h : Owes terms claimed env.sequence s)
    (hdue : Due terms claimed env.sequence vested claimable) :
    (∃ r, claim tokens self env target s = .ok r) ↔
      env.auth terms.owner = true ∧ (0 < claimable.val → ∃ w,
        tokens.transfer ⟨env, some self, terms.token, self, target, claimable⟩ s.world =
          some w) := by
  constructor
  · intro h'
    rcases h' with ⟨⟨⟨amount, es⟩, s'⟩, hok⟩
    obtain ⟨hauth, _, ⟨_, _, _, htransfer⟩ | ⟨hzero, _, _⟩⟩ := (claim_eq_ok h hdue).mp hok
    · exact ⟨hauth, fun _ => ⟨_, htransfer⟩⟩
    · exact ⟨hauth, fun hpos => absurd hpos (by omega)⟩
  · intro h'
    rcases h' with ⟨hauth, htransfer⟩
    by_cases hpos : 0 < claimable.val
    · obtain ⟨w, hw⟩ := htransfer hpos
      exact ⟨((_, _), ⟨_, w⟩), (claim_eq_ok h hdue).mpr ⟨hauth, rfl, .inl ⟨hpos, rfl, rfl, hw⟩⟩⟩
    · exact ⟨((_, _), _), (claim_eq_ok h hdue).mpr
        ⟨hauth, rfl, .inr ⟨not_lt.mp hpos, rfl, rfl⟩⟩⟩

/-- Once the count is at the curve, no claim of the same ledger releases
anything. -/
theorem claim_again (hterms : 0 ≤ terms.totalAmount.val) (h : Owes terms vested now s)
    (hcurve : vested.val = terms.vested now) {js : List VestingInput}
    (hjs : ∀ j ∈ js, j.env.sequence = now) (henv : env.sequence = now) {amount : I128}
    {es : List Claimed}
    (hok : claim tokens self env target (run (exec tokens self) js s) = .ok ((amount, es), s')) :
    amount.val = 0 := by
  have hclock : Clock js := by
    apply List.pairwise_of_forall_mem_list
    intro i hi j hj
    rw [hjs i hi, hjs j hj]
  obtain ⟨claimed', hrun, hgrows, hreleased⟩ := run_owes tokens self hterms h hclock
    (fun j hj => (hjs j hj).ge) le_rfl (fun j hj => (hjs j hj).le)
  subst henv
  obtain ⟨vested', claimable', hdue⟩ := hrun.exists_due hterms
  obtain ⟨_, rfl, _⟩ := (claim_eq_ok hrun hdue).mp hok
  have hnonneg := hdue.nonneg hrun
  have hleft := hdue.left
  have hcurve' := hdue.curve
  omega

theorem claimsExactly (hlaw : tokens.Lawful) (htoken : tokens.IsSep41 terms.token)
    (hterms : 0 ≤ terms.totalAmount.val) (h : Owes terms claimed env.sequence s)
    (hdue : Due terms claimed env.sequence vested claimable) :
    ClaimsExactly tokens self terms vested claimable env target s where
  accepted_iff := claim_accepted_iff h hdue
  releases := by
    intro amount es s' hok
    exact ⟨((claim_eq_ok h hdue).mp hok).2.1, (claim_owes h hdue hok).stored,
      claim_moves hlaw htoken h hdue hok⟩
  again := by
    intro amount es s' hok js hjs env' target' amount' es' s'' henv hok'
    exact claim_again hterms (claim_owes h hdue hok) hdue.curve hjs henv hok'
  refused := by
    intro e herror
    have hexec : exec tokens self ⟨env, .claim target⟩ s = .error e := by
      simp only [exec, herror]
      rfl
    rw [settle_of_error hexec]

variable {owner token : Address} {totalAmount : I128} {startLedger endLedger : U32}
  {cliffLedger : Option U32} {created : List ScheduleCreated} {s₀ s₁ : VestingState W}

theorem construct_eq_ok
    (h : construct owner token totalAmount startLedger cliffLedger endLedger s₀ =
      .ok (created, s₁)) :
    0 < totalAmount.val ∧ startLedger < endLedger ∧ (∀ cliff ∈ cliffLedger, cliff ≤ endLedger) ∧
      ∀ now, Owes ⟨owner, token, totalAmount, startLedger, cliffLedger, endLedger, 0⟩ 0 now
        s₁ := by
  simp only [construct, ensure_bind_eq_ok, pure_eq_ok, not_le, Prod.mk.injEq] at h
  obtain ⟨_, hamount, hrange, hcliff, _, rfl⟩ := h
  refine ⟨hamount, hrange, ?_, ?_⟩
  · intro cliff hmem
    by_contra hlt
    exact hcliff ⟨cliff, hmem, .inr (not_le.mp hlt)⟩
  · intro now
    exact ⟨rfl, le_rfl, vestedAt_nonneg hamount.le⟩

/-- At every moment of every run of a constructed schedule, with a ledger that
never goes back: what the contract counts as claimed is the sum of what its
claims released, and within what has vested, which is within the total.  The
view `claimable_amount` answers the rest of the vested amount.  A claim, to any
target, is accepted exactly when the owner signs and the token makes the
transfer.  It releases that rest, and the sum of all releases is then what
`compute_vested` answers for its ledger, whatever was claimed before: the total,
from the end on. -/
theorem vesting_claims_exact (self : Address) (hlaw : tokens.Lawful)
    (htoken : tokens.IsSep41 token)
    (hconstruct : construct owner token totalAmount startLedger cliffLedger endLedger s₀ =
      .ok (created, s₁))
    (hclock : Clock is) (huntil : ∀ i ∈ is, i.env.sequence ≤ env.sequence) :
    let terms : ScheduleData :=
      ⟨owner, token, totalAmount, startLedger, cliffLedger, endLedger, 0⟩
    let s := run (exec tokens self) is s₁
    ∃ claimed vested claimable : I128,
      s.schedule = some { terms with claimedAmount := claimed } ∧
      computeVested totalAmount startLedger cliffLedger endLedger env.sequence = some vested ∧
      claimableAmount env s = .ok claimable ∧
      claimed.val = released (trace (exec tokens self) is s₁) ∧
      0 ≤ claimed.val ∧ claimed.val ≤ vested.val ∧ vested.val ≤ totalAmount.val ∧
      claimable.val = vested.val - claimed.val ∧
      (endLedger ≤ env.sequence → vested = totalAmount) ∧
      (∀ target, ClaimsExactly tokens self terms vested claimable env target s) ∧
      (∀ target, (settle (exec tokens self) ⟨env, .claim target⟩ s).accepted →
        released (trace (exec tokens self) (is ++ [⟨env, .claim target⟩]) s₁) = vested.val) ∧
      ((∀ i ∈ is, i.env.auth self = false) →
        tokens.balance s₁.world token self - claimed.val ≤
          tokens.balance s.world token self) := by
  intro terms s
  obtain ⟨hamount, hrange, hcliff, howes⟩ := construct_eq_ok hconstruct
  have hterms : 0 ≤ terms.totalAmount.val := hamount.le
  -- every ledger comes at or after the first one
  have hfrom : ∀ i ∈ is, (0 : U32) ≤ i.env.sequence :=
    fun i _ => i.env.sequence.lo_le
  obtain ⟨claimed, hrun, hsum, _⟩ := run_owes tokens self hterms (howes _) hclock hfrom
    (show (0 : U32) ≤ env.sequence from env.sequence.lo_le) huntil
  have hclaimed : claimed.val = released (trace (exec tokens self) is s₁) :=
    hsum.trans (Int.zero_add _)
  obtain ⟨vested, claimable, hdue⟩ := hrun.exists_due hterms
  have hle : claimed.val ≤ vested.val := hdue.curve ▸ hrun.vested
  have htop : vested.val ≤ totalAmount.val := hdue.curve ▸ vestedAt_le hterms
  refine ⟨claimed, vested, claimable, hrun.stored, hdue.computed, ?_, hclaimed, hrun.nonneg, hle,
    htop, hdue.left, ?_, ?_, ?_, ?_⟩
  · simp only [claimableAmount, getScheduleData, vestedNow, bind_eq_ok, unwrapOr_eq_ok, pure_eq_ok]
    exact ⟨_, hrun.stored, vested, hdue.computed, hdue.subtracted⟩
  · intro hend
    exact Bounded.ext (hdue.curve.trans (vestedAt_of_le hrange hcliff hend))
  · intro target
    exact claimsExactly hlaw htoken hterms hrun hdue
  · intro target haccepted
    have hpaid : paid (settle (exec tokens self) ⟨env, .claim target⟩ s) = claimable.val :=
      paid_claim hrun hdue haccepted
    have hleft := hdue.left
    rw [released_snoc]
    show released (trace (exec tokens self) is s₁) +
      paid (settle (exec tokens self) ⟨env, .claim target⟩ s) = vested.val
    omega
  · intro hself
    rw [hclaimed]
    exact run_balance hlaw htoken hterms (howes _) hclock hfrom hself

end Run

/-! ## Two claims of one schedule -/

def sampleContract : Address := .contract (BytesN.replicate 32 1)

def sampleOwner : Address := .contract (BytesN.replicate 32 2)

def sampleToken : Address := .contract (BytesN.replicate 32 3)

def sampleTotal : I128 := 100

/-- The network holds a hundred tokens of the contract. -/
def sampleWorld : Balances :=
  fun t holder => if t = sampleToken ∧ holder = sampleContract then 100 else 0

/-- A hundred tokens from ledger ten to ledger seventeen. -/
def sampleStart : VestingState Balances where
  schedule := some
    { owner := sampleOwner
      token := sampleToken
      totalAmount := sampleTotal
      startLedger := 10
      cliffLedger := none
      endLedger := 17
      claimedAmount := 0 }
  world := sampleWorld

/-- The owner signs, at a ledger. -/
def sampleEnv (ledger : U32) : Env :=
  ⟨fun a => a = sampleOwner, ledger, 0⟩

/-- A claim on the way releases a part that is rounded down, and the claim at the
end releases the rest. -/
theorem vesting_claims_exact_sample :
    released (trace (exec Balances.world sampleContract)
      ([⟨sampleEnv 12, .claim sampleOwner⟩] ++
        [⟨sampleEnv 17, .claim sampleOwner⟩]) sampleStart) = 100 := by
  have hconstruct : construct sampleOwner sampleToken sampleTotal 10 none 17 ⟨none, sampleWorld⟩ =
      .ok ([⟨sampleOwner, sampleToken, sampleTotal, 10, none, 17⟩], sampleStart) := rfl
  have hclock : Clock [⟨sampleEnv 12, .claim sampleOwner⟩] := List.pairwise_singleton _ _
  have huntil : ∀ i ∈ [(⟨sampleEnv 12, .claim sampleOwner⟩ : VestingInput)],
      i.env.sequence ≤ (sampleEnv 17).sequence := by
    decide
  obtain ⟨claimed, vested, claimable, _, _, _, _, _, _, _, _, hend, _, hreleased, _⟩ :=
    vesting_claims_exact sampleContract Balances.world_lawful trivial hconstruct hclock huntil
  rw [hreleased sampleOwner ⟨_, rfl⟩, hend le_rfl]
  rfl

end LatchContracts.Templates.Vesting
