import Mathlib.Data.List.TakeWhile
import LatchContracts.Policies.MultiToken.Consistency

/-!
# Several transfers in one transaction

A transaction can hold several transfers.  The account calls `enforce` for each of
them in the order of the transaction, all of it happens in one ledger, and one
refusal undoes everything.  `batch_accepted_iff` says when such a batch stands: it
is a condition on its sum and its length.  The oracle may answer each call in its
own way.

The sum has to fit into what the window leaves of the limit.  `limit_refills` says
that this is the whole limit again after a period without an accepted transfer,
whatever happened before.
-/

namespace LatchContracts.Policies.MultiToken

open LatchContracts.Lib LatchContracts.Host Charge

/-! ## The batch -/

/-- The dollar value that `enforce` finds for a context. -/
def usdOf (env : OracleEnv) (data : PolicyData) (context : Context) :
    Except (Fault Error) I128 := do
  let transfer ← parseTransfer context
  priceTransfer env data transfer.1 transfer.2

/-- One transfer of a batch, with what the host supplies to its call. -/
structure Transfer where
  env : OracleEnv
  context : Context
  signers : List Signer

/-- The account has signed, and the transfer has a dollar value. -/
def Transfer.Valued (account : Address) (data : PolicyData) (c : Transfer) : Prop :=
  c.env.auth account = true ∧ ∃ usd, usdOf c.env data c.context = .ok usd

/-- The dollar value of a transfer, and zero when it has none. -/
def Transfer.dollars (data : PolicyData) (c : Transfer) : I128 :=
  match usdOf c.env data c.context with
  | .ok usd => usd
  | .error _ => 0

/-- The call for a transfer. -/
def Transfer.input (rule : ContextRule) (account : Address) (c : Transfer) : Input :=
  ⟨c.env, .enforce c.context c.signers rule account⟩

/-- The calls for the transfers of a transaction. -/
def batch (rule : ContextRule) (account : Address) (calls : List Transfer) : List Input :=
  calls.map (Transfer.input rule account)

/-- Every call is accepted. -/
def Stands (is : List Input) (s : Entries PolicyData) : Prop :=
  ∀ c ∈ trace contract.exec is s, c.accepted

/-- The data after the eviction at a ledger. -/
def freshen (t : U32) (data : PolicyData) : PolicyData :=
  { data with
    spendingHistory := (cleanupOldEntries data.spendingHistory t data.periodLedgers).1
    cachedTotalSpentUsd := data.cachedTotalSpentUsd.saturatingSub
      (cleanupOldEntries data.spendingHistory t data.periodLedgers).2 }

/-- The data after an entry. -/
def spend (t : U32) (data : PolicyData) (usd : I128) : PolicyData :=
  { data with
    spendingHistory := data.spendingHistory ++ [⟨usd, t⟩]
    cachedTotalSpentUsd := data.cachedTotalSpentUsd.saturatingAdd usd }

/-! ## One ledger -/

section Ledger

variable {data data' : PolicyData} {t : U32} {usd : I128} {env : OracleEnv} {context : Context}

theorem usdOf_eq_ok :
    usdOf env data context = .ok usd ↔ ∃ target amount,
      parseTransfer context = .ok (target, amount) ∧
        priceTransfer env data target amount = .ok usd := by
  rw [usdOf, bind_eq_ok]
  constructor
  · intro h
    rcases h with ⟨⟨target, amount⟩, hparse, hprice⟩
    exact ⟨target, amount, hparse, hprice⟩
  · intro h
    rcases h with ⟨target, amount, hparse, hprice⟩
    exact ⟨(target, amount), hparse, hprice⟩

theorem usdOf_nonneg (h : Consistent data) (husd : usdOf env data context = .ok usd) :
    0 ≤ usd.val := by
  obtain ⟨target, amount, hparse, hprice⟩ := usdOf_eq_ok.mp husd
  exact usd_nonneg h hparse hprice

theorem dollars_of_ok {c : Transfer} (h : usdOf c.env data c.context = .ok usd) :
    c.dollars data = usd := by
  rw [Transfer.dollars, h]

theorem dollars_nonneg (h : Consistent data) (c : Transfer) : 0 ≤ (c.dollars data).val := by
  unfold Transfer.dollars
  split
  · rename_i usd husd
    exact usdOf_nonneg h husd
  · exact le_refl 0

/-- Eviction stops at an entry after the cutoff. -/
theorem evict_of_lt {cutoff : U32} {entry : SpendingEntry} {rest : List SpendingEntry}
    (h : cutoff < entry.ledger) (removed : I128) :
    evict cutoff (entry :: rest) removed = (entry :: rest, removed) := by
  rw [evict, if_neg (not_le.mpr h)]

theorem head_evict (cutoff : U32) (history : List SpendingEntry) (removed : I128) :
    ∀ e ∈ (evict cutoff history removed).1.head?, cutoff < e.ledger := by
  induction history generalizing removed with
  | nil => simp [evict]
  | cons entry rest ih =>
    by_cases hle : entry.ledger ≤ cutoff
    · rw [evict, if_pos hle]
      exact ih _
    · rw [evict, if_neg hle]
      intro e he
      obtain rfl := Option.some.inj he
      exact not_le.mp hle

/-- A ledger is after its own cutoff. -/
theorem cutoff_lt {period : U32} (hone : 1 ≤ t.val) (hperiod : 0 < period.val) :
    t.saturatingSub period < t := by
  have htop := t.le_hi
  rw [Bounded.lt_def, Bounded.val_saturatingSub]
  omega

theorem saturatingSub_zero (a : I128) : a.saturatingSub 0 = a := by
  have hlo := a.lo_le
  have hhi := a.le_hi
  apply Bounded.ext
  rw [Bounded.val_saturatingSub]
  show max (-(2 ^ 127)) (min (2 ^ 127 - 1) (a.val - 0)) = a.val
  omega

/-- A second eviction at the ledger of the last entry finds nothing. -/
theorem freshen_spend (hone : 1 ≤ t.val) (hperiod : 0 < data.periodLedgers.val) :
    freshen t (spend t (freshen t data) usd) = spend t (freshen t data) usd := by
  have hcutoff : t.saturatingSub data.periodLedgers < t := cutoff_lt hone hperiod
  have hclean : cleanupOldEntries (spend t (freshen t data) usd).spendingHistory t
      data.periodLedgers = ((spend t (freshen t data) usd).spendingHistory, 0) := by
    have hhead := head_evict (t.saturatingSub data.periodLedgers) data.spendingHistory 0
    show evict _ ((evict _ data.spendingHistory 0).1 ++ [⟨usd, t⟩]) 0 =
      ((evict _ data.spendingHistory 0).1 ++ [⟨usd, t⟩], 0)
    generalize (evict (t.saturatingSub data.periodLedgers) data.spendingHistory 0).1 = kept
      at hhead ⊢
    cases kept with
    | nil => exact evict_of_lt hcutoff 0
    | cons e kept => exact evict_of_lt (hhead e rfl) 0
  have hsub : freshen t (spend t (freshen t data) usd) =
      { spend t (freshen t data) usd with
        spendingHistory := (cleanupOldEntries (spend t (freshen t data) usd).spendingHistory t
          data.periodLedgers).1
        cachedTotalSpentUsd := (spend t (freshen t data) usd).cachedTotalSpentUsd.saturatingSub
          (cleanupOldEntries (spend t (freshen t data) usd).spendingHistory t
            data.periodLedgers).2 } := rfl
  rw [hsub, hclean, saturatingSub_zero]

theorem remaining_freshen (data : PolicyData) (t : U32) :
    (freshen t data).spendingHistory.map SpendingEntry.charge = remaining data t.val :=
  cleanup_remaining data t

/-- What is left at a ledger after an entry of it. -/
theorem remaining_spend (hone : 1 ≤ t.val) (hperiod : 0 < data.periodLedgers.val) :
    remaining (spend t (freshen t data) usd) t.val =
      remaining data t.val ++ [⟨t.val, usd.val⟩] := by
  rw [← remaining_freshen, freshen_spend hone hperiod, ← remaining_freshen]
  show ((freshen t data).spendingHistory ++ [(⟨usd, t⟩ : SpendingEntry)]).map
    SpendingEntry.charge = _
  rw [List.map_append]
  rfl

end Ledger

/-! ## When a batch stands -/

theorem checkParams_period {params : AccountParams} (h : checkParams params = .ok ()) :
    0 < params.periodLedgers.val := by
  have hne := (not_or.mp (not_or.mp (ensure_eq_ok.mp h)).2).1
  have hlo := params.periodLedgers.lo_le
  omega

theorem period_pos_reachable {s : Entries PolicyData}
    (hs : Reachable contract.exec Store.empty s) :
    s.All (fun data => 0 < data.periodLedgers.val) := by
  refine hs.invariant ?_ (Store.all_empty _)
  intro i s r s' h hok
  rcases exec_cases hok with ⟨params, rule, account, d, _, _, hparams, hdata, rfl⟩ |
    ⟨rule, account, _, rfl⟩ | ⟨context, signers, rule, account, es, _, hx⟩ | ⟨_, rfl⟩
  · simp only [initialData, bind_eq_ok, pure_eq_ok] at hdata
    obtain ⟨_, _, _, _, rfl⟩ := hdata
    exact h.set _ (checkParams_period hparams)
  · exact h.remove _
  · obtain ⟨_, target, amount, data, usd, data', _, hdata, _, hrecord, _, rfl⟩ :=
      enforce_eq_ok.mp hx
    obtain ⟨_, _, rfl⟩ := recordSpend_eq_ok.mp hrecord
    exact h.set _ (h _ data hdata)
  · exact h

section Batch

variable {s : Entries PolicyData} {data : PolicyData} {rule : ContextRule} {account : Address}
  {c : Transfer} {calls : List Transfer} {t : U32}

/-- What is known of an accepted transfer. -/
theorem enforce_of_accepted
    (haccepted : (settle contract.exec (c.input rule account) s).accepted) :
    c.env.auth account = true ∧ ∃ data usd data', s ⟨account, rule.id⟩ = some data ∧
      usdOf c.env data c.context = .ok usd ∧ recordSpend data c.env.sequence usd = .ok data' ∧
      (settle contract.exec (c.input rule account) s).post = s.set ⟨account, rule.id⟩ data' := by
  obtain ⟨r, s', hok, hset⟩ := settle_of_accepted haccepted
  obtain ⟨es, _, hx⟩ := reply_eq_ok.mp hok
  change enforce c.env c.context c.signers rule account s = .ok (es, s') at hx
  obtain ⟨hauth, target, amount, data, usd, data', hparse, hdata, hprice, hrecord, _, rfl⟩ :=
    enforce_eq_ok.mp hx
  refine ⟨hauth, data, usd, data', hdata, usdOf_eq_ok.mpr ⟨_, _, hparse, hprice⟩, hrecord, ?_⟩
  rw [hset]

theorem accepted_enforce_iff (h : Consistent data) (hdata : s ⟨account, rule.id⟩ = some data) :
    (settle contract.exec (c.input rule account) s).accepted ↔
      c.Valued account data ∧
      (data.spendingLimitUsd.val = 2 ^ 127 - 1 ∨
        total (remaining data c.env.sequence.val) + (c.dollars data).val ≤
          data.spendingLimitUsd.val) ∧
      (remaining data c.env.sequence.val).length < 1000 := by
  constructor
  · intro haccepted
    obtain ⟨hauth, d, usd, d', hd, husd, hrecord, _⟩ := enforce_of_accepted haccepted
    obtain rfl := Option.some.inj (hdata.symm.trans hd)
    have hcheck := (recordSpend_iff h (usdOf_nonneg h husd)).mp ⟨d', hrecord⟩
    rw [dollars_of_ok husd]
    exact ⟨⟨hauth, usd, husd⟩, hcheck⟩
  · intro hcond
    rcases hcond with ⟨⟨hauth, usd, husd⟩, hcheck⟩
    rw [dollars_of_ok husd] at hcheck
    obtain ⟨d', hrecord⟩ := (recordSpend_iff h (usdOf_nonneg h husd)).mpr hcheck
    obtain ⟨target, amount, hparse, hprice⟩ := usdOf_eq_ok.mp husd
    have hx : enforce c.env c.context c.signers rule account s =
        .ok ([], s.set ⟨account, rule.id⟩ d') := enforce_eq_ok.mpr
      ⟨hauth, target, amount, data, usd, d', hparse, hdata, hprice, hrecord, rfl, rfl⟩
    have hexec : contract.exec (c.input rule account) s =
        .ok (.events [], s.set ⟨account, rule.id⟩ d') := reply_eq_ok.mpr ⟨[], rfl, hx⟩
    rw [settle_of_ok hexec]
    exact ⟨_, rfl⟩

/-- The data after an accepted transfer. -/
theorem enforce_post (h : Consistent data) (hdata : s ⟨account, rule.id⟩ = some data)
    (hledger : c.env.sequence = t)
    (haccepted : (settle contract.exec (c.input rule account) s).accepted) :
    Consistent (spend t (freshen t data) (c.dollars data)) ∧
    (settle contract.exec (c.input rule account) s).post =
      s.set ⟨account, rule.id⟩ (spend t (freshen t data) (c.dollars data)) := by
  obtain ⟨_, d, usd, d', hd, husd, hrecord, hpost⟩ := enforce_of_accepted haccepted
  obtain rfl := Option.some.inj (hdata.symm.trans hd)
  have hd' : d' = spend t (freshen t data) (c.dollars data) := by
    obtain ⟨_, _, rfl⟩ := recordSpend_eq_ok.mp hrecord
    rw [dollars_of_ok husd, ← hledger]
    rfl
  rw [← hd']
  exact ⟨recordSpend_consistent h (usdOf_nonneg h husd) hrecord, hpost⟩

theorem stands_cons {i : Input} {is : List Input} :
    Stands (i :: is) s ↔ (settle contract.exec i s).accepted ∧
      Stands is (settle contract.exec i s).post :=
  List.forall_mem_cons

theorem installed_of_stands (hne : calls ≠ []) (hstands : Stands (batch rule account calls) s) :
    ∃ data, s ⟨account, rule.id⟩ = some data := by
  cases calls with
  | nil => exact absurd rfl hne
  | cons c calls =>
    obtain ⟨_, data, _, _, hdata, _⟩ := enforce_of_accepted (stands_cons.mp hstands).1
    exact ⟨data, hdata⟩

theorem sum_dollars_nonneg (h : Consistent data) (calls : List Transfer) :
    0 ≤ (calls.map (fun c => (c.dollars data).val)).sum := by
  apply List.sum_nonneg
  intro x hx
  obtain ⟨c, _, rfl⟩ := List.mem_map.mp hx
  exact dollars_nonneg h c

/-- A batch stands when its transfers are signed and have a value, and the sum and
the number of them fit. -/
theorem stands_iff (h : Consistent data) (hperiod : 0 < data.periodLedgers.val)
    (hone : 1 ≤ t.val) (hledger : ∀ c ∈ calls, c.env.sequence = t)
    (hdata : s ⟨account, rule.id⟩ = some data) :
    Stands (batch rule account calls) s ↔
      (∀ c ∈ calls, c.Valued account data) ∧
      (calls ≠ [] → (data.spendingLimitUsd.val = 2 ^ 127 - 1 ∨
        total (remaining data t.val) + (calls.map (fun c => (c.dollars data).val)).sum ≤
          data.spendingLimitUsd.val) ∧
        (remaining data t.val).length + calls.length ≤ 1000) := by
  induction calls generalizing s data with
  | nil => simp [batch, Stands, trace]
  | cons c calls ih =>
    obtain ⟨hfirst, hlater⟩ := List.forall_mem_cons.mp hledger
    have hsum := sum_dollars_nonneg h calls
    have hiff := accepted_enforce_iff (c := c) h hdata
    rw [hfirst] at hiff
    rw [batch, List.map_cons, stands_cons, List.forall_mem_cons, List.map_cons, List.sum_cons,
      List.length_cons]
    change _ ∧ Stands (batch rule account calls) _ ↔ _
    by_cases haccepted : (settle contract.exec (c.input rule account) s).accepted
    · obtain ⟨hconsistent, hpost⟩ := enforce_post h hdata hfirst haccepted
      obtain ⟨hvalue, hfits, hlength⟩ := hiff.mp haccepted
      rw [hpost, ih hconsistent hperiod hlater (Store.set_self _ _ _),
        remaining_spend hone hperiod, total_append, total_singleton, List.length_append,
        List.length_singleton]
      -- the configuration is the same, so the rest of the batch is worth the same
      change _ ∧ (∀ c ∈ calls, c.Valued account data) ∧
        (calls ≠ [] → (data.spendingLimitUsd.val = 2 ^ 127 - 1 ∨
          total (remaining data t.val) + (c.dollars data).val +
            (calls.map (fun c => (c.dollars data).val)).sum ≤ data.spendingLimitUsd.val) ∧
          (remaining data t.val).length + 1 + calls.length ≤ 1000) ↔ _
      constructor
      · intro hrest
        rcases hrest with ⟨_, hvalued, hroom⟩
        refine ⟨⟨hvalue, hvalued⟩, fun _ => ?_⟩
        by_cases hnil : calls = []
        · subst hnil
          rw [List.map_nil, List.sum_nil, add_zero]
          exact ⟨hfits, hlength⟩
        · obtain ⟨hfits, hlength⟩ := hroom hnil
          rw [← add_assoc]
          exact ⟨hfits, by omega⟩
      · intro hall
        rcases hall with ⟨⟨_, hvalued⟩, hroom⟩
        refine ⟨haccepted, hvalued, fun _ => ?_⟩
        obtain ⟨hfits, hlength⟩ := hroom (List.cons_ne_nil _ _)
        rw [← add_assoc] at hfits
        exact ⟨hfits, by omega⟩
    · refine iff_of_false (fun hstands => haccepted hstands.1) ?_
      intro hcond
      rcases hcond with ⟨⟨hvalue, _⟩, hroom⟩
      obtain ⟨hfits, hlength⟩ := hroom (List.cons_ne_nil _ _)
      refine haccepted (hiff.mpr ⟨hvalue, ?_, by omega⟩)
      rcases hfits with htop | hfits
      · exact .inl htop
      · exact .inr (by omega)

end Batch

/-- In every reachable state: a batch of transfers at one ledger stands when the
account has signed, every transfer has a dollar value, their sum fits into what is
left of the limit and their number into what is left of the history.  The highest
limit of the type is never reached. -/
theorem batch_accepted_iff {s : Entries PolicyData}
    (hs : Reachable contract.exec Store.empty s) {rule : ContextRule} {account : Address}
    {calls : List Transfer} {data : PolicyData} {t : U32}
    (hdata : s ⟨account, rule.id⟩ = some data) (hone : 1 ≤ t.val)
    (hledger : ∀ c ∈ calls, c.env.sequence = t) (hne : calls ≠ []) :
    Stands (batch rule account calls) s ↔
      (∀ c ∈ calls, c.Valued account data) ∧
      (data.spendingLimitUsd.val = 2 ^ 127 - 1 ∨
        total (remaining data t.val) + (calls.map (fun c => (c.dollars data).val)).sum ≤
          data.spendingLimitUsd.val) ∧
      (remaining data t.val).length + calls.length ≤ 1000 := by
  have hconsistent : Consistent data := consistent_reachable hs _ _ hdata
  have hperiod : 0 < data.periodLedgers.val := period_pos_reachable hs _ _ hdata
  rw [stands_iff hconsistent hperiod hone hledger hdata]
  exact and_congr_right fun _ => ⟨fun hroom => hroom hne, fun hroom _ => hroom⟩

/-- A transfer of twice the sample amount. -/
def sampleDouble : ContractContext :=
  { sampleTransfer with args := [.address sampleAccount, .address sampleOracle, .i128 60] }

/-- The sample ledger after the price has moved. -/
def sampleMoved : OracleEnv := { sampleEnv with lastprice := fun _ _ => some (some ⟨20, 950⟩) }

def sampleBatch : List Transfer :=
  [⟨sampleEnv, .contract sampleTransfer, []⟩, ⟨sampleMoved, .contract sampleDouble, []⟩]

theorem sampleBatch_ledger : ∀ c ∈ sampleBatch, c.env.sequence = 7 := by
  intro c hc
  rcases List.mem_cons.mp hc with rfl | hc
  · rfl
  · rw [List.mem_singleton.mp hc]
    rfl

/-- Two transfers in one ledger. -/
theorem batch_accepted_iff_sample :
    Stands (batch sampleRule sampleAccount sampleBatch) sampleInstalled := by
  refine (batch_accepted_iff ⟨_, rfl⟩ rfl (by decide) sampleBatch_ledger
    (List.cons_ne_nil _ _)).mpr ⟨?_, ?_, ?_⟩
  · intro c hc
    rcases List.mem_cons.mp hc with rfl | hc
    · exact ⟨rfl, _, rfl⟩
    · rw [List.mem_singleton.mp hc]
      exact ⟨rfl, _, rfl⟩
  · exact .inr (by decide)
  · decide

/-! ## The limit after a period -/

section Refill

variable {k : AccountContext} {data₀ data : PolicyData} {now : ℤ}

/-- The configuration of `data₀`, with all entries out of the window at `now`. -/
structure Idle (data₀ : PolicyData) (now : ℤ) (data : PolicyData) : Prop where
  consistent : Consistent data
  old : ∀ e ∈ data.spendingHistory, e.ledger.val + data₀.periodLedgers.val ≤ now
  configured : data = { data₀ with
    spendingHistory := data.spendingHistory
    cachedTotalSpentUsd := data.cachedTotalSpentUsd }

theorem Idle.charge {c : Done} {usd : I128} {data' : PolicyData} (h : Idle data₀ now data)
    (hc : Charges k c data usd data')
    (hold : c.input.env.sequence.val + data₀.periodLedgers.val ≤ now) : Idle data₀ now data' := by
  refine ⟨(hc.consistent h.consistent).2, ?_, ?_⟩
  · obtain ⟨_, _, rfl⟩ := recordSpend_eq_ok.mp hc.recorded
    intro e he
    rcases List.mem_append.mp he with he | he
    · exact h.old e ((evict_sublist _ _ _).subset he)
    · rw [List.mem_singleton.mp he]
      exact hold
  · obtain ⟨_, _, rfl⟩ := recordSpend_eq_ok.mp hc.recorded
    rw [h.configured]

theorem Idle.remaining_eq (h : Idle data₀ now data) : remaining data now = [] := by
  have hperiod : data.periodLedgers = data₀.periodLedgers := by rw [h.configured]
  rw [remaining, List.dropWhile_eq_nil_iff, hperiod]
  intro c hc
  obtain ⟨e, he, rfl⟩ := List.mem_map.mp hc
  have hold := h.old e he
  refine decide_eq_true ?_
  show e.ledger.val ≤ max 0 (now - data₀.periodLedgers.val)
  omega

/-- A new entry has no history. -/
theorem install_idle {s₀ s₁ : Entries PolicyData} {env₀ : OracleEnv} {params : AccountParams}
    {rule₀ : ContextRule} {account : Address} {r₀ : Reply Empty PolicyData}
    (hinstall : contract.exec ⟨env₀, .install params rule₀ account⟩ s₀ = .ok (r₀, s₁)) (now : ℤ) :
    ∃ data₀, s₁ ⟨account, rule₀.id⟩ = some data₀ ∧ Idle data₀ now data₀ ∧
      0 < params.periodLedgers.val ∧ data₀.periodLedgers = params.periodLedgers ∧
      data₀.spendingLimitUsd = params.spendingLimitUsd := by
  obtain ⟨es, _, hx⟩ := reply_eq_ok.mp hinstall
  obtain ⟨_, _, hparams, _, data₀, hdata₀, _, rfl⟩ := installEntry_eq_ok.mp hx
  have hconsistent : Consistent data₀ := initialData_consistent hdata₀
  simp only [initialData, bind_eq_ok, pure_eq_ok] at hdata₀
  obtain ⟨_, _, _, _, rfl⟩ := hdata₀
  refine ⟨_, Store.set_self _ _ _, ⟨hconsistent, ?_, rfl⟩, checkParams_period hparams, rfl, rfl⟩
  intro e he
  cases he

/-- With an empty window only the batch counts. -/
theorem Idle.stands_iff {s : Entries PolicyData} {rule : ContextRule} {account : Address}
    {calls : List Transfer} {t : U32} (h : Idle data₀ t.val data)
    (hperiod : 0 < data₀.periodLedgers.val) (hone : 1 ≤ t.val)
    (hledger : ∀ c ∈ calls, c.env.sequence = t) (hdata : s ⟨account, rule.id⟩ = some data)
    (hne : calls ≠ []) :
    Stands (batch rule account calls) s ↔
      (∀ c ∈ calls, c.Valued account data₀) ∧
      (data₀.spendingLimitUsd.val = 2 ^ 127 - 1 ∨
        (calls.map (fun c => (c.dollars data₀).val)).sum ≤ data₀.spendingLimitUsd.val) ∧
      calls.length ≤ 1000 := by
  have hpos : 0 < data.periodLedgers.val := by
    rw [h.configured]
    exact hperiod
  have hvalued : ∀ c : Transfer, c.Valued account data ↔ c.Valued account data₀ := by
    intro c
    rw [h.configured]
    rfl
  have hdollars : ∀ c : Transfer, c.dollars data = c.dollars data₀ := by
    intro c
    rw [h.configured]
    rfl
  have hlimit : data.spendingLimitUsd = data₀.spendingLimitUsd := by rw [h.configured]
  rw [MultiToken.stands_iff h.consistent hpos hone hledger hdata, h.remaining_eq, hlimit,
    List.length_nil, Nat.zero_add]
  simp only [hvalued, hdollars]
  show _ ∧ (_ → (_ ∨ 0 + _ ≤ _) ∧ _) ↔ _
  rw [Int.zero_add]
  exact and_congr_right fun _ => ⟨fun hroom => hroom hne, fun hroom _ => hroom⟩

end Refill

/-- After every run from an installation on, in which the key is not removed and
the last accepted transfer is a period ago: the whole limit is there again.  A batch
stands when its sum is within the limit and its length within the history. -/
theorem limit_refills {s₀ s₁ : Entries PolicyData} {env₀ : OracleEnv}
    {params : AccountParams} {rule₀ rule : ContextRule} {account : Address}
    {r₀ : Reply Empty PolicyData} {is : List Input} {calls : List Transfer} {t : U32}
    (hinstall : contract.exec ⟨env₀, .install params rule₀ account⟩ s₀ = .ok (r₀, s₁))
    (hkeep : ∀ c ∈ trace contract.exec is s₁, ¬ Removes ⟨account, rule₀.id⟩ c)
    (hidle : ∀ c ∈ trace contract.exec is s₁, Enforces ⟨account, rule₀.id⟩ c.input →
      c.accepted → c.input.env.sequence.val + params.periodLedgers.val ≤ t.val)
    (hrule : rule.id = rule₀.id) (hone : 1 ≤ t.val)
    (hledger : ∀ c ∈ calls, c.env.sequence = t) (hne : calls ≠ []) :
    ∃ data, s₁ ⟨account, rule₀.id⟩ = some data ∧
      (Stands (batch rule account calls) (run contract.exec is s₁) ↔
        (∀ c ∈ calls, c.Valued account data) ∧
        (params.spendingLimitUsd.val = 2 ^ 127 - 1 ∨
          (calls.map (fun c => (c.dollars data).val)).sum ≤ params.spendingLimitUsd.val) ∧
        calls.length ≤ 1000) := by
  obtain ⟨data₀, hdata₀, hidle₀, hpos, hperiod, hlimit⟩ := install_idle hinstall t.val
  obtain ⟨data, hdata, hdone⟩ := run_keeps hdata₀ hidle₀ hkeep (by
    intro c hc d usd d' hcharges hd
    obtain ⟨context, signers, rule', account', _, _, hcall, hk, _⟩ := hcharges.priced
    refine hd.charge hcharges ?_
    rw [hperiod]
    exact hidle c hc ⟨context, signers, rule', account', hcall, hk⟩ hcharges.accepted)
  rw [← hrule] at hdata
  rw [← hperiod] at hpos
  refine ⟨data₀, hdata₀, ?_⟩
  rw [hdone.stands_iff hpos hone hledger hdata hne, hlimit]

/-- A transfer of the whole sample limit. -/
def sampleWhole (env : OracleEnv) : Transfer where
  env := env
  context := .contract
    { sampleTransfer with args := [.address sampleAccount, .address sampleOracle, .i128 400] }
  signers := []

/-- A sample period after the sample ledger. -/
def sampleLater : OracleEnv := { sampleEnv with sequence := 17 }

/-- The whole limit is spent, and can be spent again a period later. -/
theorem limit_refills_sample :
    Stands (batch sampleRule sampleAccount [sampleWhole sampleLater])
      (run contract.exec (batch sampleRule sampleAccount [sampleWhole sampleEnv])
        sampleInstalled) := by
  have hkeep : ∀ c ∈ trace contract.exec (batch sampleRule sampleAccount
      [sampleWhole sampleEnv]) sampleInstalled, ¬ Removes ⟨sampleAccount, sampleRule.id⟩ c := by
    intro c hc
    rw [List.mem_singleton.mp hc]
    exact not_removes_of_enforces ⟨_, _, sampleRule, sampleAccount, rfl, rfl⟩
  have hidle : ∀ c ∈ trace contract.exec (batch sampleRule sampleAccount
      [sampleWhole sampleEnv]) sampleInstalled,
      Enforces ⟨sampleAccount, sampleRule.id⟩ c.input → c.accepted →
        c.input.env.sequence.val + sampleParams.periodLedgers.val ≤ sampleLater.sequence.val := by
    intro c hc _ _
    rw [List.mem_singleton.mp hc]
    decide
  have hrule : sampleRule.id = sampleRule.id := rfl
  have hone : 1 ≤ sampleLater.sequence.val := by decide
  have hledger : ∀ c ∈ [sampleWhole sampleLater], c.env.sequence = sampleLater.sequence := by
    intro c hc
    rw [List.mem_singleton.mp hc]
    rfl
  obtain ⟨data, hdata, hstands⟩ := limit_refills sample_install hkeep hidle hrule hone hledger
    (List.cons_ne_nil _ _)
  obtain rfl := Option.some.inj hdata
  refine hstands.mpr ⟨?_, .inr (by decide), by decide⟩
  intro c hc
  rw [List.mem_singleton.mp hc]
  exact ⟨rfl, _, rfl⟩

end LatchContracts.Policies.MultiToken
