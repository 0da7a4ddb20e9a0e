import LatchContracts.Policies.MultiToken.Consistency

/-!
# The spending counter and its saturating operations

`enforce` keeps `cached_total_spent_usd` beside the history instead of summing
the history up, and does so with saturating operations.  `CountsExactly` says
that a run keeps the two in step: in every state the counter is the exact sum of
the recorded amounts and within the limit, every accepted `enforce` moves it by
exactly the new amount less the evicted ones with no operation that clips, and
an amount that would take the exact total above the limit is refused.

The limit check compares a saturated sum with the limit.  At a limit of
`i128::MAX` it can never fail, so a sum above `i128::MAX` is clipped and
accepted, and the counter falls behind the history for good.  `SumClips` is that
case, as a condition on the call and the data it meets.

The cutoff of `cleanup_old_entries` stops at zero while the ledger number is below
the period.  It then evicts what the exact cutoff would, namely nothing, except
for entries of ledger 0.  `CutoffClips` is the case where the history begins with
such an entry.  The ledgers of the network start at one, so it is a case of the
code and not of the network.

`spending_counter_exact` says that a run counts exactly when and only when none of
its calls is of these two kinds.
-/

namespace LatchContracts.Policies.MultiToken

open LatchContracts.Lib LatchContracts.Host Charge

/-! ## The history at a charge -/

/-- The sum of the recorded amounts. -/
def spentUsd (history : List SpendingEntry) : ℤ := (history.map (fun e => e.amountUsd.val)).sum

/-- The entry is out of the window at ledger `t`. -/
def expired (data : PolicyData) (t : U32) (e : SpendingEntry) : Bool :=
  e.ledger ≤ t.saturatingSub data.periodLedgers

/-- The entries that a charge at ledger `t` evicts. -/
def evicted (data : PolicyData) (t : U32) : List SpendingEntry :=
  data.spendingHistory.takeWhile (expired data t)

/-- The entries that a charge at ledger `t` keeps. -/
def kept (data : PolicyData) (t : U32) : List SpendingEntry :=
  data.spendingHistory.dropWhile (expired data t)

/-- The entries that are out of the window at ledger `t` by the exact cutoff, up to
the first one that is not. -/
def exactEvicted (data : PolicyData) (t : U32) : List SpendingEntry :=
  data.spendingHistory.takeWhile (fun e => e.ledger.val ≤ t.val - data.periodLedgers.val)

/-- The entries from the first one on that the exact cutoff leaves. -/
def exactKept (data : PolicyData) (t : U32) : List SpendingEntry :=
  data.spendingHistory.dropWhile (fun e => e.ledger.val ≤ t.val - data.periodLedgers.val)

/-- The sum of the first entries as the loop of `cleanup_old_entries` adds it
up. -/
def removedTotal (entries : List SpendingEntry) (start : I128) : I128 :=
  entries.foldl (fun removed e => removed.saturatingAdd e.amountUsd) start

theorem evict_eq (cutoff : U32) (history : List SpendingEntry) (start : I128) :
    evict cutoff history start =
      (history.dropWhile (fun e => e.ledger ≤ cutoff),
        removedTotal (history.takeWhile (fun e => e.ledger ≤ cutoff)) start) := by
  induction history generalizing start with
  | nil => rfl
  | cons entry rest ih =>
    by_cases hold : entry.ledger ≤ cutoff
    · simp only [evict, hold, if_true, ih, List.dropWhile_cons, List.takeWhile_cons, decide_true]
      rfl
    · simp only [evict, hold, if_false, List.dropWhile_cons, List.takeWhile_cons, decide_false,
        Bool.false_eq_true]
      rfl

theorem cleanup_eq (data : PolicyData) (t : U32) :
    cleanupOldEntries data.spendingHistory t data.periodLedgers =
      (kept data t, removedTotal (evicted data t) 0) := evict_eq _ _ _

theorem spentUsd_append (xs ys : List SpendingEntry) :
    spentUsd (xs ++ ys) = spentUsd xs + spentUsd ys := by
  simp only [spentUsd, List.map_append, List.sum_append]

theorem spentUsd_nonneg {history : List SpendingEntry}
    (h : ∀ e ∈ history, 0 ≤ e.amountUsd.val) : 0 ≤ spentUsd history := by
  apply List.sum_nonneg
  intro a ha
  obtain ⟨e, he, rfl⟩ := List.mem_map.mp ha
  exact h e he

theorem evicted_append_kept (data : PolicyData) (t : U32) :
    evicted data t ++ kept data t = data.spendingHistory := List.takeWhile_append_dropWhile

theorem spentUsd_evicted_add_kept (data : PolicyData) (t : U32) :
    spentUsd (evicted data t) + spentUsd (kept data t) = spentUsd data.spendingHistory := by
  rw [← spentUsd_append, evicted_append_kept]

/-- Adding up entries whose sum fits the type never saturates. -/
theorem val_removedTotal {entries : List SpendingEntry} {start : I128} (hstart : 0 ≤ start.val)
    (hnonneg : ∀ e ∈ entries, 0 ≤ e.amountUsd.val)
    (hfits : start.val + spentUsd entries ≤ 2 ^ 127 - 1) :
    (removedTotal entries start).val = start.val + spentUsd entries := by
  induction entries generalizing start with
  | nil => exact (add_zero _).symm
  | cons e rest ih =>
    obtain ⟨he, hrest⟩ := List.forall_mem_cons.mp hnonneg
    have hcons : spentUsd (e :: rest) = e.amountUsd.val + spentUsd rest := List.sum_cons
    have htail : 0 ≤ spentUsd rest := spentUsd_nonneg hrest
    have hadd : (start.saturatingAdd e.amountUsd).val = start.val + e.amountUsd.val := by
      rw [Bounded.val_saturatingAdd]
      omega
    have hstep := @ih (start.saturatingAdd e.amountUsd) (by omega) hrest (by omega)
    show (removedTotal rest (start.saturatingAdd e.amountUsd)).val = _
    rw [hstep, hadd, hcons]
    omega

/-- Each of these additions is exact. -/
theorem val_removedTotal_add {entries before after : List SpendingEntry} {e : SpendingEntry}
    (hnonneg : ∀ x ∈ entries, 0 ≤ x.amountUsd.val) (hfits : spentUsd entries ≤ 2 ^ 127 - 1)
    (heq : entries = before ++ e :: after) :
    ((removedTotal before 0).saturatingAdd e.amountUsd).val =
      (removedTotal before 0).val + e.amountUsd.val := by
  subst heq
  have hbefore : ∀ x ∈ before, 0 ≤ x.amountUsd.val := fun x hx =>
    hnonneg x (List.mem_append_left _ hx)
  obtain ⟨he, hafter⟩ := List.forall_mem_cons.mp
    fun x hx => hnonneg x (List.mem_append_right before hx)
  have hsum : spentUsd (before ++ e :: after) =
      spentUsd before + (e.amountUsd.val + spentUsd after) := spentUsd_append before (e :: after)
  have hfirst := spentUsd_nonneg hbefore
  have hlast := spentUsd_nonneg hafter
  have hzero : (0 : I128).val = 0 := rfl
  rw [Bounded.val_saturatingAdd, val_removedTotal hzero.ge hbefore (by omega)]
  omega

/-! ## Counting exactly -/

/-- The counter is the exact sum of the history and within the limit. -/
structure Balanced (data : PolicyData) : Prop where
  cached : data.cachedTotalSpentUsd.val = spentUsd data.spendingHistory
  nonneg : 0 ≤ data.cachedTotalSpentUsd.val
  le_limit : data.cachedTotalSpentUsd ≤ data.spendingLimitUsd

/-- An accepted charge of `usd` at ledger `t` moves the counter exactly, and no
saturating operation on the way clips with an effect. -/
structure ExactSpend (data : PolicyData) (t : U32) (usd : I128) (data' : PolicyData) : Prop where
  history : data'.spendingHistory = exactKept data t ++ [⟨usd, t⟩]
  change : data'.cachedTotalSpentUsd.val =
    data.cachedTotalSpentUsd.val + usd.val - spentUsd (exactEvicted data t)
  /-- The subtraction of the cutoff evicts what the exact one would. -/
  cutoff : evicted data t = exactEvicted data t
  /-- Each addition of the loop in `cleanup_old_entries`. -/
  removed_add : ∀ before e after, evicted data t = before ++ e :: after →
    ((removedTotal before 0).saturatingAdd e.amountUsd).val =
      (removedTotal before 0).val + e.amountUsd.val
  /-- The subtraction of the removed amount. -/
  cached_sub : (data.cachedTotalSpentUsd.saturatingSub
      (cleanupOldEntries data.spendingHistory t data.periodLedgers).2).val =
    data.cachedTotalSpentUsd.val -
      (cleanupOldEntries data.spendingHistory t data.periodLedgers).2.val
  /-- The addition of the limit check and of the new total. -/
  cached_add : ((data.cachedTotalSpentUsd.saturatingSub
      (cleanupOldEntries data.spendingHistory t data.periodLedgers).2).saturatingAdd usd).val =
    (data.cachedTotalSpentUsd.saturatingSub
      (cleanupOldEntries data.spendingHistory t data.periodLedgers).2).val + usd.val

/-- The settled call is an `enforce` of key `k` whose amount would take the exact
total above the limit. -/
def OverLimit (k : AccountContext) (c : Done) : Prop :=
  ∃ context signers rule account target amount data usd,
    c.input.call = .enforce context signers rule account ∧ ⟨account, rule.id⟩ = k ∧
      c.pre k = some data ∧ parseTransfer context = .ok (target, amount) ∧
      priceTransfer c.input.env data target amount = .ok usd ∧
      data.spendingLimitUsd.val < spentUsd (exactKept data c.input.env.sequence) + usd.val

/-- Along the run the counter of key `k` is exact. -/
structure CountsExactly (k : AccountContext) (s : Entries PolicyData) (is : List Input) : Prop where
  balanced : ∀ before after, is = before ++ after →
    ∃ data, run contract.exec before s k = some data ∧ Balanced data
  charges : ∀ c ∈ trace contract.exec is s, ∀ data usd data', Charges k c data usd data' →
    ExactSpend data c.input.env.sequence usd data'
  /-- The subtraction of the staleness check, for a price that `fetch_price` lets
  through. -/
  staleness : ∀ c ∈ trace contract.exec is s, ∀ oracle token pd,
    fetchPrice c.input.env oracle token = .ok pd →
      (c.input.env.timestamp.saturatingSub pd.timestamp).val =
        c.input.env.timestamp.val - pd.timestamp.val
  refuses : ∀ c ∈ trace contract.exec is s, OverLimit k c → ¬ c.accepted

/-- The settled call is an authorized `enforce` of key `k` for an allowed and
freshly priced transfer that is worth `usd` dollars, and the history of the stored
data has room for its entry. -/
def Requests (k : AccountContext) (c : Done) (data : PolicyData) (usd : ℤ) : Prop :=
  ∃ signers rule account call amount idx divisor pd,
    c.input.call = .enforce (.contract call) signers rule account ∧ ⟨account, rule.id⟩ = k ∧
      c.input.env.auth account = true ∧ c.pre k = some data ∧
      (kept data c.input.env.sequence).length < 1000 ∧
      call.fnName = "transfer" ∧ call.args[2]? = some (.i128 amount) ∧ 0 ≤ amount.val ∧
      data.allowedTokens.idxOf? call.contract = some idx ∧
      data.tokenDivisors[idx]? = some divisor ∧
      c.input.env.lastprice data.oracleAddress (.stellar call.contract) = some (some pd) ∧
      0 < pd.price.val ∧ c.input.env.timestamp.val - 500 ≤ pd.timestamp.val ∧
      pd.timestamp.val ≤ c.input.env.timestamp.val ∧ amount.val * pd.price.val ≤ 2 ^ 127 - 1 ∧
      usd = amount.val * pd.price.val / (data.usdDivisor.val * divisor.val)

/-- The call meets a limit of `i128::MAX` and takes the sum of the live history
above it. -/
def SumClips (k : AccountContext) (c : Done) : Prop :=
  ∃ data usd, Requests k c data usd ∧ data.spendingLimitUsd.val = 2 ^ 127 - 1 ∧
    2 ^ 127 - 1 < spentUsd (kept data c.input.env.sequence) + usd

/-- The call passes the limit check at a ledger below the period, and the history
begins with an entry of ledger 0. -/
def CutoffClips (k : AccountContext) (c : Done) : Prop :=
  ∃ data usd, Requests k c data usd ∧ (data.spendingLimitUsd.val = 2 ^ 127 - 1 ∨
      spentUsd (kept data c.input.env.sequence) + usd ≤ data.spendingLimitUsd.val) ∧
    c.input.env.sequence.val < data.periodLedgers.val ∧
    ∃ e rest, data.spendingHistory = e :: rest ∧ e.ledger.val = 0

/-! ## One charge -/

theorem total_remaining (data : PolicyData) (t : U32) :
    total (remaining data t.val) = spentUsd (kept data t) := by
  rw [← cleanup_remaining, cleanup_eq, total, spentUsd, List.map_map]
  rfl

theorem length_remaining (data : PolicyData) (t : U32) :
    (remaining data t.val).length = (kept data t).length := by
  rw [← cleanup_remaining, cleanup_eq, List.length_map]

theorem expired_iff {data : PolicyData} {t : U32} {e : SpendingEntry} :
    expired data t e = true ↔ e.ledger.val ≤ max 0 (t.val - data.periodLedgers.val) := by
  have htop := t.le_hi
  have hperiod := data.periodLedgers.lo_le
  unfold expired
  rw [decide_eq_true_eq, Bounded.le_def, Bounded.val_saturatingSub]
  omega

/-- While the ledger number is below the period, the exact cutoff is negative and
evicts nothing. -/
theorem exact_of_early {data : PolicyData} {t : U32} (h : t.val < data.periodLedgers.val) :
    exactEvicted data t = [] ∧ exactKept data t = data.spendingHistory := by
  have hnone : (fun e : SpendingEntry =>
      decide (e.ledger.val ≤ t.val - data.periodLedgers.val)) = fun _ => false := by
    funext e
    have hledger := e.ledger.lo_le
    rw [decide_eq_false_iff_not]
    omega
  unfold exactEvicted exactKept
  rw [hnone]
  cases data.spendingHistory with
  | nil => exact ⟨rfl, rfl⟩
  | cons e rest => exact ⟨rfl, rfl⟩

/-- The cutoff evicts what the exact one would, unless it is clipped and the
history begins with an entry of ledger 0. -/
theorem cutoff_cases (data : PolicyData) (t : U32) :
    (evicted data t = exactEvicted data t ∧ kept data t = exactKept data t) ∨
      (t.val < data.periodLedgers.val ∧
        ∃ e rest, data.spendingHistory = e :: rest ∧ e.ledger.val = 0) := by
  by_cases hearly : t.val < data.periodLedgers.val
  · obtain ⟨hexactEvicted, hexactKept⟩ := exact_of_early hearly
    rw [hexactEvicted, hexactKept]
    unfold evicted kept
    rcases data.spendingHistory with _ | ⟨e, rest⟩
    · exact .inl ⟨rfl, rfl⟩
    · by_cases hzero : e.ledger.val = 0
      · exact .inr ⟨hearly, e, rest, rfl, hzero⟩
      · have hlive : ¬ expired data t e = true := by
          have hledger := e.ledger.lo_le
          rw [expired_iff]
          omega
        exact .inl ⟨List.takeWhile_cons_of_neg hlive, List.dropWhile_cons_of_neg hlive⟩
  · have hsame : expired data t = fun e =>
        decide (e.ledger.val ≤ t.val - data.periodLedgers.val) := by
      funext e
      rw [Bool.eq_iff_iff, expired_iff, decide_eq_true_eq]
      omega
    unfold evicted kept exactEvicted exactKept
    rw [hsame]
    exact .inl ⟨rfl, rfl⟩

theorem fetchPrice_age {env : OracleEnv} {oracle token : Address} {pd : PriceData}
    (h : fetchPrice env oracle token = .ok pd) :
    (env.timestamp.saturatingSub pd.timestamp).val = env.timestamp.val - pd.timestamp.val := by
  obtain ⟨_, _, htime⟩ := fetchPrice_eq_ok.mp h
  have hnow := env.timestamp.le_hi
  have hfrom := pd.timestamp.lo_le
  rw [Bounded.val_saturatingSub]
  omega

section Charge

variable {k : AccountContext} {c : Done} {data data' : PolicyData} {t : U32} {usd : I128}

/-- A recorded charge that the limit has room for, with an exact cutoff, is counted
exactly. -/
theorem recordSpend_exact (hc : Consistent data) (hb : Balanced data) (husd : 0 ≤ usd.val)
    (hcutoff : evicted data t = exactEvicted data t ∧ kept data t = exactKept data t)
    (hroom : spentUsd (kept data t) + usd.val ≤ data.spendingLimitUsd.val)
    (hrecord : recordSpend data t usd = .ok data') :
    ExactSpend data t usd data' ∧ Balanced data' := by
  obtain ⟨_, _, rfl⟩ := recordSpend_eq_ok.mp hrecord
  have hsplit := spentUsd_evicted_add_kept data t
  have hevicted : ∀ e ∈ evicted data t, 0 ≤ e.amountUsd.val := fun e he =>
    hc.nonneg e ((List.takeWhile_sublist _).subset he)
  have hkept : 0 ≤ spentUsd (kept data t) :=
    spentUsd_nonneg fun e he => hc.nonneg e ((List.dropWhile_sublist _).subset he)
  have hremoved : 0 ≤ spentUsd (evicted data t) := spentUsd_nonneg hevicted
  have hcached := hb.cached
  have htop := data.cachedTotalSpentUsd.le_hi
  have hlimit := data.spendingLimitUsd.le_hi
  have hzero : (0 : I128).val = 0 := rfl
  have htotal : (removedTotal (evicted data t) 0).val = spentUsd (evicted data t) := by
    rw [val_removedTotal hzero.ge hevicted (by omega), hzero, zero_add]
  have hsub : (data.cachedTotalSpentUsd.saturatingSub (removedTotal (evicted data t) 0)).val =
      spentUsd (kept data t) := by
    rw [Bounded.val_saturatingSub]
    omega
  have hadd : ((data.cachedTotalSpentUsd.saturatingSub
      (removedTotal (evicted data t) 0)).saturatingAdd usd).val =
        spentUsd (kept data t) + usd.val := by
    rw [Bounded.val_saturatingAdd, hsub]
    omega
  have hsingle : spentUsd [⟨usd, t⟩] = usd.val := List.sum_singleton
  simp only [cleanup_eq]
  refine ⟨⟨?_, ?_, hcutoff.1, ?_, ?_, ?_⟩, ⟨?_, ?_, ?_⟩⟩
  · rw [← hcutoff.2]
  · rw [← hcutoff.1]
    show (Bounded.saturatingAdd _ usd).val = _
    omega
  · intro before e after heq
    exact val_removedTotal_add hevicted (by omega) heq
  · simp only [cleanup_eq]
    omega
  · simp only [cleanup_eq]
    omega
  · show (Bounded.saturatingAdd _ usd).val = spentUsd (kept data t ++ [⟨usd, t⟩])
    rw [spentUsd_append, hsingle, hadd]
  · show 0 ≤ (Bounded.saturatingAdd _ usd).val
    omega
  · show (Bounded.saturatingAdd _ usd).val ≤ data.spendingLimitUsd.val
    omega

/-- A charge is a request that passes the limit check. -/
theorem Charges.requests (hcharge : Charges k c data usd data') (hc : Consistent data) :
    Requests k c data usd.val ∧ (data.spendingLimitUsd.val = 2 ^ 127 - 1 ∨
      spentUsd (kept data c.input.env.sequence) + usd.val ≤ data.spendingLimitUsd.val) := by
  obtain ⟨context, signers, rule, account, target, amount, hcall, hk, hauth, hparse, hprice⟩ :=
    hcharge.priced
  have husd : 0 ≤ usd.val := usd_nonneg hc hparse hprice
  obtain ⟨hcap, hlength⟩ := (recordSpend_iff hc husd).mp ⟨data', hcharge.recorded⟩
  rw [total_remaining] at hcap
  rw [length_remaining] at hlength
  refine ⟨?_, hcap⟩
  obtain ⟨call, amount, idx, divisor, pd, rfl, hname, harg, hamount, hidx, hdivisor, hanswer, hpos,
    hold, hfuture, hfits, hval⟩ :=
    (dollarValue_iff hc).mp ⟨target, amount, usd, hparse, hprice, rfl⟩
  exact ⟨signers, rule, account, call, amount, idx, divisor, pd, hcall, hk, hauth, hcharge.pre,
    hlength, hname, harg, hamount, hidx, hdivisor, hanswer, hpos, hold, hfuture, hfits, hval⟩

/-- And a request that passes the limit check is a charge. -/
theorem Requests.charges {i : Input} {s : Entries PolicyData} {amountUsd : ℤ}
    (hs : ∀ d, s k = some d → Consistent d)
    (hrequest : Requests k (settle contract.exec i s) data amountUsd)
    (hcap : data.spendingLimitUsd.val = 2 ^ 127 - 1 ∨
      spentUsd (kept data i.env.sequence) + amountUsd ≤ data.spendingLimitUsd.val) :
    ∃ usd data', usd.val = amountUsd ∧ Charges k (settle contract.exec i s) data usd data' := by
  obtain ⟨signers, rule, account, call, amount, idx, divisor, pd, hcall, hk, hauth, hpre, hlength,
    hname, harg, hamount, hidx, hdivisor, hanswer, hpos, hold, hfuture, hfits, rfl⟩ := hrequest
  rw [settle_input] at hcall hauth hlength hanswer hold hfuture
  obtain ⟨env, _⟩ := i
  subst hcall
  rw [settle_pre] at hpre
  have hc := hs data hpre
  obtain ⟨target, amount, usd, hparse, hprice, hval⟩ := (dollarValue_iff hc).mpr
    ⟨call, amount, idx, divisor, pd, rfl, hname, harg, hamount, hidx, hdivisor, hanswer, hpos, hold,
      hfuture, hfits, rfl⟩
  have hrecord : ∃ data', recordSpend data env.sequence usd = .ok data' := by
    rw [recordSpend_iff hc (usd_nonneg hc hparse hprice), length_remaining, total_remaining, hval]
    exact ⟨hcap, hlength⟩
  obtain ⟨data', hrecord⟩ := hrecord
  subst hk
  have hx : enforce env (.contract call) signers rule account s =
      .ok ([], s.set ⟨account, rule.id⟩ data') := enforce_eq_ok.mpr
    ⟨hauth, target, amount, data, usd, data', hparse, hpre, hprice, hrecord, rfl, rfl⟩
  have hexec : contract.exec ⟨env, .enforce (.contract call) signers rule account⟩ s =
      .ok (.events [], s.set ⟨account, rule.id⟩ data') := reply_eq_ok.mpr ⟨[], rfl, hx⟩
  refine ⟨usd, data', hval, ?_⟩
  rw [settle_of_ok hexec]
  exact ⟨⟨.events [], rfl⟩, hpre, Store.set_self _ _ _, ⟨.contract call, signers, rule, account,
    target, amount, rfl, rfl, hauth, hparse, hprice⟩, hrecord⟩

/-- A charge whose sum does not clip is one that the limit has room for. -/
theorem Charges.room (hcharge : Charges k c data usd data') (hc : Consistent data)
    (hclip : ¬ SumClips k c) :
    spentUsd (kept data c.input.env.sequence) + usd.val ≤ data.spendingLimitUsd.val := by
  obtain ⟨hrequest, hcap⟩ := hcharge.requests hc
  rcases hcap with hmax | hcap
  · by_contra hover
    exact hclip ⟨data, usd.val, hrequest, hmax, by omega⟩
  · exact hcap

/-- A charge whose cutoff does not clip evicts what the exact cutoff would. -/
theorem Charges.cutoff (hcharge : Charges k c data usd data') (hc : Consistent data)
    (hclip : ¬ CutoffClips k c) :
    evicted data c.input.env.sequence = exactEvicted data c.input.env.sequence ∧
      kept data c.input.env.sequence = exactKept data c.input.env.sequence := by
  rcases cutoff_cases data c.input.env.sequence with hexact | ⟨hearly, hfirst⟩
  · exact hexact
  · obtain ⟨hrequest, hcap⟩ := hcharge.requests hc
    exact absurd ⟨data, usd.val, hrequest, hcap, hearly, hfirst⟩ hclip

/-- The exact cutoff leaves at least what the code's cutoff leaves. -/
theorem spentUsd_kept_le (hc : Consistent data) (t : U32) :
    spentUsd (kept data t) ≤ spentUsd (exactKept data t) := by
  rcases cutoff_cases data t with ⟨_, hkept⟩ | ⟨hearly, _⟩
  · rw [hkept]
  · have hevicted : 0 ≤ spentUsd (evicted data t) :=
      spentUsd_nonneg fun e he => hc.nonneg e ((List.takeWhile_sublist _).subset he)
    have hsplit := spentUsd_evicted_add_kept data t
    rw [(exact_of_early hearly).2]
    omega

/-- A call whose sum clips is accepted, and takes the exact total above the
limit. -/
theorem SumClips.accepted {i : Input} {s : Entries PolicyData}
    (hs : ∀ d, s k = some d → Consistent d) (hclip : SumClips k (settle contract.exec i s)) :
    (settle contract.exec i s).accepted ∧ OverLimit k (settle contract.exec i s) := by
  obtain ⟨data, amountUsd, hrequest, hmax, hover⟩ := hclip
  rw [settle_input] at hover
  obtain ⟨usd, data', rfl, hcharge⟩ := hrequest.charges hs (.inl hmax)
  refine ⟨hcharge.accepted, ?_⟩
  have hpre := hcharge.pre
  rw [settle_pre] at hpre
  have hkept := spentUsd_kept_le (hs data hpre) i.env.sequence
  obtain ⟨context, signers, rule, account, target, amount, hcall, hk, _, hparse, hprice⟩ :=
    hcharge.priced
  refine ⟨context, signers, rule, account, target, amount, data, usd, hcall, hk, hcharge.pre,
    hparse, hprice, ?_⟩
  rw [settle_input]
  omega

/-- A call whose cutoff clips is a charge that does not evict what the exact cutoff
would. -/
theorem CutoffClips.charges {i : Input} {s : Entries PolicyData}
    (hs : ∀ d, s k = some d → Consistent d) (hclip : CutoffClips k (settle contract.exec i s)) :
    ∃ data usd data', Charges k (settle contract.exec i s) data usd data' ∧
      evicted data i.env.sequence ≠ exactEvicted data i.env.sequence := by
  obtain ⟨data, amountUsd, hrequest, hcap, hearly, e, rest, hhistory, hzero⟩ := hclip
  rw [settle_input] at hcap hearly
  obtain ⟨usd, data', _, hcharge⟩ := hrequest.charges hs hcap
  refine ⟨data, usd, data', hcharge, ?_⟩
  have hout : expired data i.env.sequence e = true := by
    rw [expired_iff, hzero]
    omega
  have hevicted : evicted data i.env.sequence =
      e :: rest.takeWhile (expired data i.env.sequence) := by
    unfold evicted
    rw [hhistory]
    exact List.takeWhile_cons_of_pos hout
  rw [hevicted, (exact_of_early hearly).1]
  exact List.cons_ne_nil _ _

/-- A charge records the amount that the call asks for, so one within the limit
is no call over the limit. -/
theorem Charges.not_overLimit (hcharge : Charges k c data usd data')
    (hroom : spentUsd (exactKept data c.input.env.sequence) + usd.val ≤
      data.spendingLimitUsd.val) :
    ¬ OverLimit k c := by
  intro h
  rcases h with ⟨context, signers, rule, account, target, amount, d, u, hcall, _, hpre, hparse,
    hprice, hover⟩
  obtain ⟨context', signers', rule', account', target', amount', hcall', _, _, hparse', hprice'⟩ :=
    hcharge.priced
  obtain rfl : d = data := Option.some.inj (hpre.symm.trans hcharge.pre)
  obtain rfl : context = context' := (Call.enforce.inj (hcall.symm.trans hcall')).1
  obtain ⟨rfl, rfl⟩ := Prod.mk.inj (Except.ok.inj (hparse.symm.trans hparse'))
  obtain rfl : u = usd := Except.ok.inj (hprice.symm.trans hprice')
  omega

end Charge

/-! ## Runs -/

/-- What holds of the data as long as nothing clips. -/
structure Sound (data : PolicyData) : Prop where
  consistent : Consistent data
  balanced : Balanced data

theorem initialData_sound {env : OracleEnv} {params : AccountParams} {data : PolicyData}
    (hparams : checkParams params = .ok ()) (hdata : initialData env params = .ok data) :
    Sound data := by
  refine ⟨initialData_consistent hdata, ?_⟩
  have hlimit : ¬ params.spendingLimitUsd.val ≤ 0 := (not_or.mp (ensure_eq_ok.mp hparams)).1
  simp only [initialData, bind_eq_ok, pure_eq_ok] at hdata
  obtain ⟨_, _, _, _, rfl⟩ := hdata
  exact ⟨rfl, le_rfl, (not_le.mp hlimit).le⟩

theorem Charges.sound {k : AccountContext} {c : Done} {data data' : PolicyData} {usd : I128}
    (hcharge : Charges k c data usd data') (h : Sound data)
    (hclip : ¬ SumClips k c ∧ ¬ CutoffClips k c) :
    ExactSpend data c.input.env.sequence usd data' ∧ Sound data' := by
  obtain ⟨husd, hconsistent⟩ := hcharge.consistent h.consistent
  obtain ⟨hexact, hbalanced⟩ := recordSpend_exact h.consistent h.balanced husd
    (hcharge.cutoff h.consistent hclip.2) (hcharge.room h.consistent hclip.1) hcharge.recorded
  exact ⟨hexact, hconsistent, hbalanced⟩

section Run

variable {k : AccountContext} {s : Entries PolicyData} {data : PolicyData} {is : List Input}

/-- A run with no call that clips counts exactly. -/
theorem countsExactly_of_not_clips (hdata : s k = some data) (hsound : Sound data)
    (hkeep : ∀ c ∈ trace contract.exec is s, ¬ Removes k c)
    (hclip : ∀ c ∈ trace contract.exec is s, ¬ SumClips k c ∧ ¬ CutoffClips k c) :
    CountsExactly k s is := by
  have hcharge : ∀ c ∈ trace contract.exec is s, ∀ d usd d', Charges k c d usd d' → Sound d →
      Sound d' := fun c hc d usd d' hcd hd => (hcd.sound hd (hclip c hc)).2
  have hpre := pre_keeps hdata hsound hkeep hcharge
  refine ⟨?_, ?_, fun c _ oracle token pd => fetchPrice_age, ?_⟩
  · intro before after heq
    subst heq
    obtain ⟨d, hd, hsound'⟩ := run_keeps_before hdata hsound hkeep hcharge
    exact ⟨d, hd, hsound'.balanced⟩
  · intro c hc d usd d' hcd
    obtain ⟨d₁, hd₁, hsound₁⟩ := hpre c hc
    obtain rfl : d₁ = d := Option.some.inj (hd₁.symm.trans hcd.pre)
    exact (hcd.sound hsound₁ (hclip c hc)).1
  · intro c hc hover haccepted
    obtain ⟨d, hd, hsound'⟩ := hpre c hc
    have hkeep' := hkeep c hc
    have hclip' := hclip c hc
    obtain ⟨before, i, after, rfl, rfl⟩ := exists_of_mem_trace hc
    rw [settle_pre] at hd
    rcases settle_entry_cases hd hkeep' with ⟨_, hno⟩ | ⟨usd, d', hcd⟩
    · -- the call is an `enforce` of the key, so it is no call that leaves the data
      obtain ⟨context, signers, rule, account, _, _, _, _, hcall, hk, _⟩ := hover
      rw [settle_input] at hcall
      exact hno ⟨⟨context, signers, rule, account, hcall, hk⟩, haccepted⟩
    · refine hcd.not_overLimit ?_ hover
      rw [← (hcd.cutoff hsound'.consistent hclip'.2).2]
      exact hcd.room hsound'.consistent hclip'.1

/-- A run that counts exactly has no call that clips. -/
theorem not_clips_of_countsExactly (hdata : s k = some data) (hconsistent : Consistent data)
    (hkeep : ∀ c ∈ trace contract.exec is s, ¬ Removes k c) (h : CountsExactly k s is) :
    ∀ c ∈ trace contract.exec is s, ¬ SumClips k c ∧ ¬ CutoffClips k c := by
  have hpre := pre_keeps hdata hconsistent hkeep
    (fun c _ d usd d' hcd hd => (hcd.consistent hd).2)
  intro c hc
  obtain ⟨d, hd, hd'⟩ := hpre c hc
  have hrefuses := h.refuses c hc
  have hcharges := h.charges c hc
  obtain ⟨before, i, after, rfl, rfl⟩ := exists_of_mem_trace hc
  rw [settle_pre] at hd
  have hstored : ∀ e, run contract.exec before s k = some e → Consistent e := by
    intro e he
    rw [← Option.some.inj (hd.symm.trans he)]
    exact hd'
  constructor
  · intro hclip
    obtain ⟨haccepted, hover⟩ := hclip.accepted hstored
    exact hrefuses hover haccepted
  · intro hclip
    obtain ⟨data, usd, data', hcharge, hdiffers⟩ := hclip.charges hstored
    have hexact := (hcharges data usd data' hcharge).cutoff
    rw [settle_input] at hexact
    exact hdiffers hexact

/-- Below the top of the type, and at the ledgers of the network, no call clips. -/
theorem not_clips_of_lt (hdata : s k = some data) (hempty : data.spendingHistory = [])
    (hlimit : data.spendingLimitUsd.val < 2 ^ 127 - 1)
    (hledgers : ∀ i ∈ is, 1 ≤ i.env.sequence.val)
    (hkeep : ∀ c ∈ trace contract.exec is s, ¬ Removes k c) :
    ∀ c ∈ trace contract.exec is s, ¬ SumClips k c ∧ ¬ CutoffClips k c := by
  have hpre := pre_keeps (P := fun d => d.spendingLimitUsd = data.spendingLimitUsd ∧
    ∀ e ∈ d.spendingHistory, 1 ≤ e.ledger.val) hdata ⟨rfl, by rw [hempty]; simp⟩ hkeep ?_
  · intro c hc
    obtain ⟨d, hd, hsame, hpositive⟩ := hpre c hc
    constructor
    · intro hclip
      obtain ⟨d', usd, ⟨_, _, _, _, _, _, _, _, _, _, _, hpre', _⟩, hmax, _⟩ := hclip
      obtain rfl : d = d' := Option.some.inj (hd.symm.trans hpre')
      rw [hsame] at hmax
      omega
    · intro hclip
      obtain ⟨d', usd, ⟨_, _, _, _, _, _, _, _, _, _, _, hpre', _⟩, _, _, e, rest, hhistory,
        hzero⟩ := hclip
      obtain rfl : d = d' := Option.some.inj (hd.symm.trans hpre')
      have hfirst := hpositive e (by rw [hhistory]; exact List.mem_cons_self)
      omega
  · -- a charge keeps the limit, and adds an entry of its own ledger
    intro c hc d usd d' hcharge hd
    obtain ⟨hsame, hpositive⟩ := hd
    obtain ⟨_, _, rfl⟩ := recordSpend_eq_ok.mp hcharge.recorded
    refine ⟨hsame, ?_⟩
    intro e he
    rcases List.mem_append.mp he with he | he
    · rw [cleanup_eq] at he
      exact hpositive e ((List.dropWhile_sublist _).subset he)
    · obtain ⟨before, i, after, rfl, rfl⟩ := exists_of_mem_trace hc
      rw [List.mem_singleton.mp he, settle_input]
      exact hledgers i (by simp)

end Run

/-- From an installation to the next uninstallation of its key, the spending
counter is exact, within the limit and moved without clipping, and amounts over
the limit are refused, if and only if no call clips, neither the sum nor the
cutoff. -/
theorem spending_counter_exact {env₀ : OracleEnv} {params : AccountParams} {rule₀ : ContextRule}
    {account : Address} {s₀ s₁ : Entries PolicyData} {r₀ : Reply Empty PolicyData}
    {is : List Input}
    (hinstall : contract.exec ⟨env₀, .install params rule₀ account⟩ s₀ = .ok (r₀, s₁))
    (hkeep : ∀ c ∈ trace contract.exec is s₁, ¬ Removes ⟨account, rule₀.id⟩ c) :
    CountsExactly ⟨account, rule₀.id⟩ s₁ is ↔
      ∀ c ∈ trace contract.exec is s₁,
        ¬ SumClips ⟨account, rule₀.id⟩ c ∧ ¬ CutoffClips ⟨account, rule₀.id⟩ c := by
  obtain ⟨es, _, hx⟩ := reply_eq_ok.mp hinstall
  obtain ⟨_, _, hparams, _, data, hdata, _, rfl⟩ := installEntry_eq_ok.mp hx
  have hsound : Sound data := initialData_sound hparams hdata
  have hstored : (s₀.set ⟨account, rule₀.id⟩ data) ⟨account, rule₀.id⟩ = some data :=
    Store.set_self s₀ _ data
  constructor
  · intro h
    exact not_clips_of_countsExactly hstored hsound.consistent hkeep h
  · intro hclip
    exact countsExactly_of_not_clips hstored hsound hkeep hclip

/-- The sample run under a limit of 100 dollars counts exactly. -/
theorem spending_counter_exact_sample :
    CountsExactly ⟨sampleAccount, sampleRule.id⟩ sampleInstalled sampleRun := by
  refine (spending_counter_exact sample_install sample_keep).mpr ?_
  have hstored : ∃ data, sampleInstalled ⟨sampleAccount, sampleRule.id⟩ = some data ∧
      data.spendingHistory = [] ∧ data.spendingLimitUsd.val < 2 ^ 127 - 1 :=
    ⟨_, rfl, rfl, by decide⟩
  obtain ⟨data, hdata, hempty, hlimit⟩ := hstored
  exact not_clips_of_lt hdata hempty hlimit sample_clock.pos sample_keep

/-! ## The limit at the top of the type

A limit of `i128::MAX` dollars, and two transfers of a token that is worth one
dollar: one of `i128::MAX` and one of 1. -/

def topEnv : OracleEnv where
  auth := fun _ => true
  sequence := 7
  timestamp := 1000
  decimals := fun _ => some 0
  lastprice := fun _ _ => some (some ⟨1, 900⟩)

def topParams : AccountParams :=
  { sampleParams with spendingLimitUsd := 170141183460469231731687303715884105727 }

def topInstalled : Entries PolicyData :=
  run contract.exec [⟨topEnv, .install topParams sampleRule sampleAccount⟩] Store.empty

def topTransfer (amount : I128) : Input :=
  ⟨topEnv, .enforce (.contract ⟨sampleToken, "transfer",
    [.address sampleAccount, .address sampleOracle, .i128 amount]⟩) [] sampleRule sampleAccount⟩

def topRun : List Input := [topTransfer 170141183460469231731687303715884105727, topTransfer 1]

/-- The second transfer is accepted although it takes the exact total above the
limit, and the counter stays one dollar below the sum of the history. -/
theorem spending_counter_clips :
    contract.exec ⟨topEnv, .install topParams sampleRule sampleAccount⟩ Store.empty =
        .ok (.events [], topInstalled) ∧
      (∀ c ∈ trace contract.exec topRun topInstalled,
        c.accepted ∧ ¬ Removes ⟨sampleAccount, sampleRule.id⟩ c) ∧
      ((run contract.exec topRun topInstalled ⟨sampleAccount, sampleRule.id⟩).map fun data =>
        (data.cachedTotalSpentUsd.val, spentUsd data.spendingHistory)) =
          some (2 ^ 127 - 1, 2 ^ 127) ∧
      ¬ CountsExactly ⟨sampleAccount, sampleRule.id⟩ topInstalled topRun := by
  have hvalues : ((run contract.exec topRun topInstalled ⟨sampleAccount, sampleRule.id⟩).map
      fun data => (data.cachedTotalSpentUsd.val, spentUsd data.spendingHistory)) =
        some (2 ^ 127 - 1, 2 ^ 127) := rfl
  refine ⟨rfl, ?_, hvalues, ?_⟩
  · intro c hc
    rcases List.mem_cons.mp hc with rfl | hc
    · exact ⟨⟨.events [], rfl⟩,
        not_removes_of_enforces ⟨_, _, sampleRule, sampleAccount, rfl, rfl⟩⟩
    · rw [List.mem_singleton.mp hc]
      exact ⟨⟨.events [], rfl⟩,
        not_removes_of_enforces ⟨_, _, sampleRule, sampleAccount, rfl, rfl⟩⟩
  · intro h
    obtain ⟨data, hdata, hbalanced⟩ := h.balanced topRun [] rfl
    rw [hdata, Option.map_some, Option.some.injEq, Prod.mk.injEq] at hvalues
    have hcached := hbalanced.cached
    omega

end LatchContracts.Policies.MultiToken
