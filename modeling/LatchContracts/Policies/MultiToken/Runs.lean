import LatchContracts.Policies.MultiToken.Simulation
import Mathlib.Data.List.Induction

/-!
# The spending limit over whole runs

A run starts at a successful installation of key `k` and goes up to the next
uninstallation of `k`.  It may hold any other calls: `enforce` calls of `k` that
are accepted or rejected, repeated installations, reads, and every call of other
keys.  The ledger numbers start at one and never go back.

* `settle_tracks` carries `Tracks` through one settled call of any kind and says
  what the call adds to the reference log;
* `run_tracks` carries it through the run, and says that the amounts recorded by
  the accepted `enforce` calls of the run are the reference log;
* `enforce_refines_reference` and `rolling_window_safety` are the two results
  about the policy.
-/

namespace LatchContracts.Policies.MultiToken

open LatchContracts.Lib LatchContracts.Host Charge

/-- One call of the policy with what the host supplies to it. -/
abbrev Input := Invocation OracleEnv (Call AccountParams)

/-- One settled call of the policy. -/
abbrev Done := Settled Input (Entries PolicyData) (Fault Error) (Reply Empty PolicyData)

/-- The ledger numbers of a run start at one and never go back. -/
structure Clock (is : List Input) : Prop where
  pos : ∀ i ∈ is, 1 ≤ i.env.sequence.val
  mono : is.Pairwise (fun i j => i.env.sequence.val ≤ j.env.sequence.val)

/-- The settled call is an accepted uninstallation of key `k`. -/
def Removes (k : AccountContext) (c : Done) : Prop :=
  c.accepted ∧ ∃ rule account, c.input.call = .uninstall rule account ∧ ⟨account, rule.id⟩ = k

/-- The settled call is an accepted `enforce` of key `k`. -/
def isSpend (k : AccountContext) (c : Done) : Bool :=
  match c.input.call, c.outcome with
  | .enforce _ _ rule account, .ok _ => decide (⟨account, rule.id⟩ = k)
  | _, _ => false

/-- The amount that an accepted `enforce` recorded: the `amount_usd` of the last
entry of the history it left. -/
def recordedUsd (k : AccountContext) (c : Done) : ℤ :=
  match (c.post k).bind (fun data => data.spendingHistory.getLast?) with
  | some entry => entry.amountUsd.val
  | none => 0

/-- The charge that an accepted `enforce` made. -/
def recordedCharge (k : AccountContext) (c : Done) : Charge :=
  ⟨c.input.env.sequence.val, recordedUsd k c⟩

/-- The exact dollar value of the transfer that an `enforce` was asked for. -/
def exactUsdOf (terms : Terms) (c : Done) : ℚ :=
  match c.input.call with
  | .enforce context _ _ _ => terms.exactValue c.input.env context
  | _ => 0

/-! ## One call -/

section Step

variable {terms : Terms} {k : AccountContext} {s s' : Entries PolicyData} {data : PolicyData}
  {log : List Charge} {i : Input} {r : Reply Empty PolicyData}

/-- Everything an accepted call can do. -/
theorem exec_cases (h : contract.exec i s = .ok (r, s')) :
    (∃ params rule account data, i.call = .install params rule account ∧
      s ⟨account, rule.id⟩ = none ∧ checkParams params = .ok () ∧
      initialData i.env params = .ok data ∧ s' = s.set ⟨account, rule.id⟩ data) ∨
    (∃ rule account, i.call = .uninstall rule account ∧ s' = s.remove ⟨account, rule.id⟩) ∨
    (∃ context signers rule account es, i.call = .enforce context signers rule account ∧
      enforce i.env context signers rule account s = .ok (es, s')) ∨
    ((∃ ruleId account, i.call = .get ruleId account) ∧ s' = s) := by
  obtain ⟨env, call⟩ := i
  cases call with
  | install params rule account =>
    obtain ⟨es, _, hx⟩ := reply_eq_ok.mp h
    obtain ⟨_, _, hparams, hnone, data, hdata, _, hs'⟩ := installEntry_eq_ok.mp hx
    exact .inl ⟨params, rule, account, data, rfl, hnone, hparams, hdata, hs'⟩
  | uninstall rule account =>
    obtain ⟨es, _, hx⟩ := reply_eq_ok.mp h
    obtain ⟨_, _, _, hs'⟩ := uninstallEntry_eq_ok.mp hx
    exact .inr (.inl ⟨rule, account, rfl, hs'⟩)
  | enforce context signers rule account =>
    obtain ⟨es, _, hx⟩ := reply_eq_ok.mp h
    exact .inr (.inr (.inl ⟨context, signers, rule, account, es, rfl, hx⟩))
  | get ruleId account =>
    obtain ⟨hs', _⟩ := view_eq_ok.mp h
    exact .inr (.inr (.inr ⟨⟨ruleId, account, rfl⟩, hs'⟩))

/-- The call is an `enforce` of key `k`. -/
def Enforces (k : AccountContext) (i : Input) : Prop :=
  ∃ context signers rule account, i.call = .enforce context signers rule account ∧
    ⟨account, rule.id⟩ = k

theorem not_removes_of_enforces {k' : AccountContext} (h : Enforces k' i) :
    ¬ Removes k (settle contract.exec i s) := by
  intro hremoves
  obtain ⟨_, _, _, _, henforce, _⟩ := h
  obtain ⟨_, _, _, hcall, _⟩ := hremoves
  rw [settle_input, henforce] at hcall
  cases hcall

theorem step_of_not_enforces (h : ¬ Enforces k i) : Reference.step terms k log i = log := by
  unfold Reference.step
  split
  · rename_i context signers rule account hcall
    have hne : ¬ ((⟨account, rule.id⟩ : AccountContext) = k ∧ i.env.auth account = true) :=
      fun hk => h ⟨context, signers, rule, account, hcall, hk.1⟩
    rw [if_neg hne]
  · rfl

theorem isSpend_of_not_enforces {c : Done} (h : ¬ Enforces k c.input) : isSpend k c = false := by
  unfold isSpend
  split
  · rename_i context signers rule account _ hcall _
    exact decide_eq_false fun hk => h ⟨context, signers, rule, account, hcall, hk⟩
  · rfl

/-- A call that is no `enforce` of `k` and does not uninstall `k` leaves an
installed entry as it is. -/
theorem settle_of_not_enforces (hdata : s k = some data) (henforce : ¬ Enforces k i)
    (hkeep : ¬ Removes k (settle contract.exec i s)) :
    (settle contract.exec i s).post k = some data := by
  rcases settle_cases contract.exec i s with ⟨e, _, hset⟩ | ⟨r, s', hok, hset⟩
  · rw [hset]
    exact hdata
  · rw [hset] at hkeep ⊢
    show s' k = some data
    rcases exec_cases hok with ⟨params, rule, account, d, hcall, hnone, _, _, hs'⟩ |
      ⟨rule, account, hcall, hs'⟩ | ⟨context, signers, rule, account, es, hcall, hx⟩ | ⟨_, hs'⟩
    · have hne : k ≠ ⟨account, rule.id⟩ := by
        intro hk
        rw [← hk, hdata] at hnone
        cases hnone
      rw [hs', Store.set_of_ne s d hne]
      exact hdata
    · have hne : k ≠ ⟨account, rule.id⟩ := by
        intro hk
        exact hkeep ⟨⟨r, rfl⟩, rule, account, hcall, hk.symm⟩
      rw [hs', Store.remove_of_ne s hne]
      exact hdata
    · have hne : k ≠ ⟨account, rule.id⟩ := by
        intro hk
        exact henforce ⟨context, signers, rule, account, hcall, hk.symm⟩
      obtain ⟨_, _, _, _, _, data', _, _, _, _, _, hs'⟩ := enforce_eq_ok.mp hx
      rw [hs', Store.set_of_ne s data' hne]
      exact hdata
    · rw [hs']
      exact hdata

/-- What a settled call adds to the reference log: nothing, or the charge that
it recorded. -/
def Adds (terms : Terms) (k : AccountContext) (log log' : List Charge) (c : Done) : Prop :=
  (isSpend k c = false ∧ log' = log) ∨
    (isSpend k c = true ∧ log' = log ++ [recordedCharge k c] ∧
      exactUsdOf terms c < recordedUsd k c + 1)

/-- An `enforce` call of `k` moves the stored data as the reference policy moves
its log. -/
theorem settle_enforce_tracks {env : OracleEnv} {context : Context} {signers : List Signer}
    {rule : ContextRule} {account : Address} (h : Tracks terms data log)
    (hdata : s ⟨account, rule.id⟩ = some data) (ht : ∀ c ∈ log, c.time ≤ env.sequence.val)
    (hone : 1 ≤ env.sequence.val) :
    let i : Input := ⟨env, .enforce context signers rule account⟩
    let log' := Reference.step terms ⟨account, rule.id⟩ log i
    ∃ data', (settle contract.exec i s).post ⟨account, rule.id⟩ = some data' ∧
      Tracks terms data' log' ∧
      Adds terms ⟨account, rule.id⟩ log log' (settle contract.exec i s) := by
  intro i log'
  rcases settle_cases contract.exec i s with ⟨e, herr, hset⟩ | ⟨r, s', hok, hset⟩
  · -- the reference policy rejects too: a charge that fits would have been accepted
    have herr' : enforce env context signers rule account s = .error e := reply_eq_error.mp herr
    have hlog : log' = log := by
      show Reference.step terms ⟨account, rule.id⟩ log i = log
      simp only [Reference.step, i, true_and]
      split_ifs with hauth
      · split
        · rename_i ch hrequested
          split_ifs with hfits
          · have haccepts : ∃ es s', enforce env context signers rule account s = .ok (es, s') :=
              enforce_of_fits h hdata ht hauth hrequested hfits
            obtain ⟨es, s', hok⟩ := haccepts
            rw [herr'] at hok
            cases hok
          · rfl
        · rfl
      · rfl
    rw [hset, hlog]
    exact ⟨data, hdata, h, .inl ⟨rfl, rfl⟩⟩
  · obtain ⟨es, _, hx⟩ := reply_eq_ok.mp hok
    have hx' : enforce env context signers rule account s = .ok (es, s') := hx
    obtain ⟨hauth, usd, data', hrequested, hfits, rfl, hlast, htracks⟩ :=
      enforce_ok h hdata ht hone hx'
    have hlog : log' = log ++ [⟨env.sequence.val, usd.val⟩] := by
      show Reference.step terms ⟨account, rule.id⟩ log i = _
      simp only [Reference.step, i, true_and, hauth, if_true, hrequested, hfits]
    have hrecorded : recordedUsd ⟨account, rule.id⟩ (settle contract.exec i s) = usd.val := by
      simp only [recordedUsd, hset, Store.set_self, Option.bind_some, hlast]
    have hspend : isSpend ⟨account, rule.id⟩ (settle contract.exec i s) = true := by
      rw [hset]
      exact decide_eq_true rfl
    have hexact : exactUsdOf terms (settle contract.exec i s) < usd.val + 1 := by
      rw [hset]
      exact terms.exactValue_lt hrequested
    refine ⟨data', ?_, hlog ▸ htracks, .inr ⟨hspend, ?_, ?_⟩⟩
    · rw [hset]
      exact Store.set_self s _ data'
    · rw [hlog, recordedCharge, hrecorded, settle_input]
    · rw [hrecorded]
      exact hexact

/-- Every call moves the stored data as the reference policy moves its log. -/
theorem settle_tracks (h : Tracks terms data log) (hdata : s k = some data)
    (ht : ∀ c ∈ log, c.time ≤ i.env.sequence.val) (hone : 1 ≤ i.env.sequence.val)
    (hkeep : ¬ Removes k (settle contract.exec i s)) :
    ∃ data', (settle contract.exec i s).post k = some data' ∧
      Tracks terms data' (Reference.step terms k log i) ∧
      Adds terms k log (Reference.step terms k log i) (settle contract.exec i s) := by
  by_cases henforce : Enforces k i
  · obtain ⟨env, call⟩ := i
    obtain ⟨context, signers, rule, account, hcall, hk⟩ := henforce
    subst hk
    have hcall' : call = .enforce context signers rule account := hcall
    subst hcall'
    exact settle_enforce_tracks h hdata ht hone
  · have hspend : isSpend k (settle contract.exec i s) = false :=
      isSpend_of_not_enforces (by rw [settle_input]; exact henforce)
    rw [step_of_not_enforces henforce]
    exact ⟨data, settle_of_not_enforces hdata henforce hkeep, h, .inl ⟨hspend, rfl⟩⟩

end Step

/-! ## Whole runs -/

/-- The accepted `enforce` calls of key `k` in a run. -/
def spends (k : AccountContext) (is : List Input) (s : Entries PolicyData) : List Done :=
  (trace contract.exec is s).filter (isSpend k)

theorem Clock.of_snoc {is : List Input} {i : Input} (h : Clock (is ++ [i])) :
    Clock is ∧ 1 ≤ i.env.sequence.val ∧
      ∀ j ∈ is, j.env.sequence.val ≤ i.env.sequence.val := by
  obtain ⟨hmono, _, hlast⟩ := List.pairwise_append.mp h.mono
  have hpos : ∀ j ∈ is, 1 ≤ j.env.sequence.val :=
    fun j hj => h.pos j (List.mem_append_left [i] hj)
  refine ⟨⟨hpos, hmono⟩, h.pos i (by simp), ?_⟩
  intro j hj
  exact hlast j hj i (List.mem_singleton_self i)

/-- Every charge of the reference log is made at the ledger of some call. -/
theorem time_of_mem_log {terms : Terms} {k : AccountContext} {is : List Input} {c : Charge}
    (h : c ∈ Reference.log terms k is) : ∃ i ∈ is, c.time = i.env.sequence.val := by
  induction is using List.reverseRecOn with
  | nil => cases h
  | append_singleton is i ih =>
    have hold : c ∈ Reference.log terms k is → ∃ j ∈ is ++ [i], c.time = j.env.sequence.val := by
      intro hc
      obtain ⟨j, hj, htime⟩ := ih hc
      exact ⟨j, List.mem_append_left [i] hj, htime⟩
    rw [Reference.log_snoc] at h
    rcases Reference.step_cases terms k (Reference.log terms k is) i with hstep | ⟨d, hstep, htime⟩
    · rw [hstep] at h
      exact hold h
    · rw [hstep] at h
      rcases List.mem_append.mp h with hc | hc
      · exact hold hc
      · rw [List.mem_singleton.mp hc]
        exact ⟨i, by simp, htime⟩

section Run

variable {terms : Terms} {k : AccountContext} {s : Entries PolicyData} {data₀ : PolicyData}

/-- Along a run the stored data tracks the reference log, the amounts that the
accepted calls recorded are that log, and each is less than one dollar below the
exact value of its transfer. -/
theorem run_tracks (h₀ : Tracks terms data₀ []) (hs : s k = some data₀) {is : List Input}
    (hclock : Clock is) (hkeep : ∀ c ∈ trace contract.exec is s, ¬ Removes k c) :
    (∃ data, run contract.exec is s k = some data ∧ Tracks terms data (Reference.log terms k is)) ∧
      (spends k is s).map (recordedCharge k) = Reference.log terms k is ∧
      ∀ c ∈ spends k is s, exactUsdOf terms c < recordedUsd k c + 1 := by
  induction is using List.reverseRecOn with
  | nil => exact ⟨⟨data₀, hs, h₀⟩, rfl, by simp [spends, trace]⟩
  | append_singleton is i ih =>
    obtain ⟨hclock', hone, hlast⟩ := hclock.of_snoc
    rw [trace_snoc] at hkeep
    have hkeep' : ∀ c ∈ trace contract.exec is s, ¬ Removes k c :=
      fun c hc => hkeep c (List.mem_append_left _ hc)
    obtain ⟨⟨data, hdata, htracks⟩, hlog, hexact⟩ := ih hclock' hkeep'
    have ht : ∀ c ∈ Reference.log terms k is, c.time ≤ i.env.sequence.val := by
      intro c hc
      obtain ⟨j, hj, htime⟩ := time_of_mem_log hc
      rw [htime]
      exact hlast j hj
    obtain ⟨data', hpost, htracks', hadds⟩ :=
      settle_tracks htracks hdata ht hone (hkeep _ (by simp))
    rw [Reference.log_snoc, run_snoc]
    refine ⟨⟨data', hpost, htracks'⟩, ?_⟩
    have hspends : spends k (is ++ [i]) s = spends k is s ++
        [settle contract.exec i (run contract.exec is s)].filter (isSpend k) := by
      rw [spends, trace_snoc, List.filter_append]
      rfl
    rcases hadds with ⟨hspend, hstep⟩ | ⟨hspend, hstep, hvalue⟩
    · rw [hspends, List.filter_cons_of_neg (by simp [hspend]), List.filter_nil, List.append_nil,
        hstep]
      exact ⟨hlog, hexact⟩
    · rw [hspends, List.filter_cons_of_pos hspend, List.filter_nil, List.map_append, hlog, hstep]
      refine ⟨rfl, ?_⟩
      intro c hc
      rcases List.mem_append.mp hc with hc | hc
      · exact hexact c hc
      · rw [List.mem_singleton.mp hc]
        exact hvalue

/-- What a successful installation leaves under its key. -/
theorem install_tracks {env : OracleEnv} {params : AccountParams} {rule : ContextRule}
    {account : Address} {s s' : Entries PolicyData} {r : Reply Empty PolicyData}
    (h : contract.exec ⟨env, .install params rule account⟩ s = .ok (r, s'))
    (hlimit : params.spendingLimitUsd.val < 2 ^ 127 - 1) :
    ∃ data, s' ⟨account, rule.id⟩ = some data ∧ Tracks (params.terms env) data [] := by
  obtain ⟨es, _, hx⟩ := reply_eq_ok.mp h
  obtain ⟨_, _, hparams, _, data, hdata, _, rfl⟩ := installEntry_eq_ok.mp hx
  exact ⟨data, Store.set_self s _ data, initialData_tracks hparams hdata hlimit⟩

end Run

/-! ## The two results -/

section Results

variable {env₀ : OracleEnv} {params : AccountParams} {rule₀ : ContextRule} {account : Address}
  {s₀ s₁ : Entries PolicyData} {r₀ : Reply Empty PolicyData} {is : List Input}

/-- The policy refines the reference policy.  After every run the stored history
and the cached total are the live part of the reference log and its sum, that
log is what the accepted calls recorded, and the next call succeeds exactly when
it is an authorized, well-formed and priced transfer of an allowed token that
fits the window, recomputed from the complete log.  A call that fails leaves
the storage as it was. -/
theorem enforce_refines_reference
    (hinstall : contract.exec ⟨env₀, .install params rule₀ account⟩ s₀ = .ok (r₀, s₁))
    (hlimit : params.spendingLimitUsd.val < 2 ^ 127 - 1) (hclock : Clock is)
    (hkeep : ∀ c ∈ trace contract.exec is s₁, ¬ Removes ⟨account, rule₀.id⟩ c) :
    let terms := params.terms env₀
    let k : AccountContext := ⟨account, rule₀.id⟩
    let log := Reference.log terms k is
    let s := run contract.exec is s₁
    (∃ data, s k = some data ∧
      data.spendingHistory.map SpendingEntry.charge = live terms.period log ∧
      data.cachedTotalSpentUsd.val = total (live terms.period log)) ∧
    (spends k is s₁).map (recordedCharge k) = log ∧
    ∀ (env : OracleEnv) context signers (rule : ContextRule), rule.id = rule₀.id →
      1 ≤ env.sequence.val → (∀ i ∈ is, i.env.sequence.val ≤ env.sequence.val) →
      ((∃ es s', enforce env context signers rule account s = .ok (es, s')) ↔
        env.auth account = true ∧ ∃ c amount pd, terms.Asks env context c amount pd ∧
          total (trailing terms.period env.sequence.val log) +
            terms.usd c.contract amount.val pd.price.val ≤ params.spendingLimitUsd.val ∧
          (trailing terms.period env.sequence.val log).length < 1000) ∧
      ∀ e, enforce env context signers rule account s = .error e →
        (settle contract.exec ⟨env, .enforce context signers rule account⟩ s).post = s := by
  intro terms k log s
  obtain ⟨data₀, hdata₀, htracks₀⟩ := install_tracks hinstall hlimit
  obtain ⟨⟨data, hdata, htracks⟩, hlog, _⟩ := run_tracks htracks₀ hdata₀ hclock hkeep
  refine ⟨⟨data, hdata, htracks.history, htracks.cached⟩, hlog, ?_⟩
  intro env context signers rule hrule hone hlast
  have hdata' : s ⟨account, rule.id⟩ = some data := by
    rw [hrule]
    exact hdata
  have ht : ∀ c ∈ log, c.time ≤ env.sequence.val := by
    intro c hc
    obtain ⟨j, hj, htime⟩ := time_of_mem_log hc
    rw [htime]
    exact hlast j hj
  refine ⟨⟨?_, ?_⟩, ?_⟩
  · intro h
    rcases h with ⟨es, s', hok⟩
    obtain ⟨hauth, usd, _, hrequested, hfits, _⟩ := enforce_ok htracks hdata' ht hone hok
    obtain ⟨c, amount, pd, hasks, hcharge⟩ := terms.requested_eq_some.mp hrequested
    rw [hcharge] at hfits
    exact ⟨hauth, c, amount, pd, hasks, hfits⟩
  · intro h
    rcases h with ⟨hauth, c, amount, pd, hasks, hfits⟩
    have hrequested := terms.requested_eq_some.mpr ⟨c, amount, pd, hasks, rfl⟩
    exact enforce_of_fits htracks hdata' ht hauth hrequested hfits
  · intro e he
    have hexec : contract.exec ⟨env, .enforce context signers rule account⟩ s = .error e :=
      reply_eq_error.mpr he
    rw [settle_of_error hexec]

/-- In every window of `period_ledgers` consecutive ledgers, the recorded amounts
of the accepted transfers add up to at most the limit, there are at most 1000 of
them, and their exact dollar value is less than 1000 dollars above the limit. -/
theorem rolling_window_safety
    (hinstall : contract.exec ⟨env₀, .install params rule₀ account⟩ s₀ = .ok (r₀, s₁))
    (hlimit : params.spendingLimitUsd.val < 2 ^ 127 - 1) (hclock : Clock is)
    (hkeep : ∀ c ∈ trace contract.exec is s₁, ¬ Removes ⟨account, rule₀.id⟩ c) (w : ℤ) :
    let k : AccountContext := ⟨account, rule₀.id⟩
    let window := (spends k is s₁).filter (fun c => w ≤ c.input.env.sequence.val ∧
      c.input.env.sequence.val ≤ w + params.periodLedgers.val - 1)
    (window.map (recordedUsd k)).sum ≤ params.spendingLimitUsd.val ∧
      window.length ≤ 1000 ∧
      (window.map (exactUsdOf (params.terms env₀))).sum < params.spendingLimitUsd.val + 1000 := by
  intro k window
  obtain ⟨data₀, hdata₀, htracks₀⟩ := install_tracks hinstall hlimit
  obtain ⟨⟨data, _, htracks⟩, hlog, hexact⟩ := run_tracks htracks₀ hdata₀ hclock hkeep
  have hwindow : window.map (recordedCharge k) =
      within w (w + params.periodLedgers.val - 1) (Reference.log (params.terms env₀) k is) := by
    rw [← hlog, within, List.filter_map]
    rfl
  have hsum : (window.map (recordedUsd k)).sum ≤ params.spendingLimitUsd.val := by
    have htotal : total (within w (w + params.periodLedgers.val - 1)
        (Reference.log (params.terms env₀) k is)) ≤ params.spendingLimitUsd.val :=
      htracks.admitted.within_total_le htracks.limit_pos.le w
    rw [← hwindow, total, List.map_map] at htotal
    exact htotal
  have hlength : window.length ≤ 1000 := by
    have hcount : (within w (w + params.periodLedgers.val - 1)
        (Reference.log (params.terms env₀) k is)).length ≤ maxHistoryEntries :=
      htracks.admitted.within_length_le w
    rw [← hwindow, List.length_map] at hcount
    exact hcount
  refine ⟨hsum, hlength, ?_⟩
  by_cases hempty : window = []
  · have hpos : 0 < params.spendingLimitUsd.val := htracks.limit_pos
    have hpos' : (0 : ℚ) < params.spendingLimitUsd.val := by exact_mod_cast hpos
    rw [hempty, List.map_nil, List.sum_nil]
    linarith
  · have hlt := sum_lt_sum_add_length hempty (fun c hc => hexact c (List.mem_of_mem_filter hc))
    have hsum' : ((window.map (recordedUsd k)).sum : ℚ) ≤ params.spendingLimitUsd.val := by
      exact_mod_cast hsum
    have hlength' : (window.length : ℚ) ≤ 1000 := by exact_mod_cast hlength
    linarith

end Results

/-! ## Transfers around a window

A limit of 100 dollars over 10 ledgers, and transfers of a token with one decimal
at a price of 2.5 dollars. -/

def sampleAccount : Address := .contract (BytesN.replicate 32 1)

def sampleToken : Address := .contract (BytesN.replicate 32 2)

def sampleOracle : Address := .contract (BytesN.replicate 32 3)

def sampleRule : ContextRule := ⟨0, .callContract sampleToken⟩

def samplePrice : PriceData := ⟨25, 900⟩

def sampleAmount : I128 := 30

def sampleEnv : OracleEnv where
  auth := fun _ => true
  sequence := 7
  timestamp := 1000
  decimals := fun _ => some 1
  lastprice := fun _ _ => some (some samplePrice)

def sampleParams : AccountParams where
  spendingLimitUsd := 100
  periodLedgers := 10
  oracleAddress := sampleOracle
  allowedTokens := [sampleToken]

def sampleTransferOf (amount : I128) : ContractContext :=
  ⟨sampleToken, "transfer", [.address sampleAccount, .address sampleOracle, .i128 amount]⟩

/-- A transfer of 3.0 units, which are worth 7.5 dollars. -/
def sampleTransfer : ContractContext := sampleTransferOf sampleAmount

def sampleInstalled : Entries PolicyData :=
  run contract.exec [⟨sampleEnv, .install sampleParams sampleRule sampleAccount⟩] Store.empty

def sampleSpend : Input :=
  ⟨sampleEnv, .enforce (.contract sampleTransfer) [] sampleRule sampleAccount⟩

def sampleSpendAt (ledger : U32) (amount : I128) : Input :=
  ⟨{ sampleEnv with sequence := ledger }, .enforce (.contract (sampleTransferOf amount)) []
    sampleRule sampleAccount⟩

/-- Transfers of 60 dollars in ledgers 7, 16 and 17, and one of 37.5 dollars in
ledger 16.  In ledger 16 the first transfer still counts, in ledger 17 it does not. -/
def sampleRun : List Input :=
  [sampleSpendAt 7 240, sampleSpendAt 16 240, sampleSpendAt 16 150, sampleSpendAt 17 240]

theorem sample_install :
    contract.exec ⟨sampleEnv, .install sampleParams sampleRule sampleAccount⟩ Store.empty =
      .ok (.events [], sampleInstalled) := rfl

theorem sample_clock : Clock sampleRun where
  pos := by simp only [sampleRun, List.forall_mem_cons]; decide
  mono := by simp only [sampleRun, List.pairwise_cons, List.forall_mem_cons]; decide

theorem sample_keep :
    ∀ c ∈ trace contract.exec sampleRun sampleInstalled,
      ¬ Removes ⟨sampleAccount, sampleRule.id⟩ c := by
  have henforces : ∀ ledger amount,
      Enforces ⟨sampleAccount, sampleRule.id⟩ (sampleSpendAt ledger amount) :=
    fun ledger amount => ⟨_, _, sampleRule, sampleAccount, rfl, rfl⟩
  intro c hc
  obtain ⟨before, i, after, heq, rfl⟩ := exists_of_mem_trace hc
  have hi : i ∈ sampleRun := by
    rw [heq]
    simp
  apply not_removes_of_enforces
  simp only [sampleRun, List.mem_cons, List.not_mem_nil, or_false] at hi
  rcases hi with rfl | rfl | rfl | rfl <;> exact henforces _ _

/-- The second transfer is refused, the third one is recorded as 37 and the last one
finds the first one evicted.  No window of ten ledgers has more than 100 dollars. -/
theorem rolling_window_safety_sample :
    (spends ⟨sampleAccount, sampleRule.id⟩ sampleRun sampleInstalled).map
        (recordedUsd ⟨sampleAccount, sampleRule.id⟩) = [60, 37, 60] ∧
      (((spends ⟨sampleAccount, sampleRule.id⟩ sampleRun sampleInstalled).filter
        (fun c => (7 : ℤ) ≤ c.input.env.sequence.val ∧
          c.input.env.sequence.val ≤ 7 + (10 : ℤ) - 1)).map
            (recordedUsd ⟨sampleAccount, sampleRule.id⟩)).sum ≤ 100 ∧
      (((spends ⟨sampleAccount, sampleRule.id⟩ sampleRun sampleInstalled).filter
        (fun c => (8 : ℤ) ≤ c.input.env.sequence.val ∧
          c.input.env.sequence.val ≤ 8 + (10 : ℤ) - 1)).map
            (recordedUsd ⟨sampleAccount, sampleRule.id⟩)).sum ≤ 100 := by
  have hsafe := rolling_window_safety sample_install (by decide) sample_clock sample_keep
  exact ⟨rfl, (hsafe 7).1, (hsafe 8).1⟩

/-- After these transfers one of three dollars just fits the window. -/
theorem enforce_refines_reference_sample :
    ∃ es s', enforce { sampleEnv with sequence := 17 } (.contract (sampleTransferOf 12)) []
      sampleRule sampleAccount (run contract.exec sampleRun sampleInstalled) = .ok (es, s') := by
  have hrefines := enforce_refines_reference sample_install (by decide) sample_clock sample_keep
  have hlast : ∀ i ∈ sampleRun, i.env.sequence.val ≤ (17 : U32).val := by
    simp only [sampleRun, List.forall_mem_cons]
    decide
  obtain ⟨hiff, _⟩ := hrefines.2.2 { sampleEnv with sequence := 17 }
    (.contract (sampleTransferOf 12)) [] sampleRule rfl (by decide) hlast
  refine hiff.mpr ⟨rfl, sampleTransferOf 12, 12, samplePrice, ?_, ?_⟩
  · exact ⟨rfl, rfl, rfl, by decide, List.mem_singleton_self _, rfl, by decide, by decide,
      by decide, by decide⟩
  · decide +kernel

end LatchContracts.Policies.MultiToken
