import LatchContracts.Policies.MultiToken.Reference
import LatchContracts.Policies.Isolation

/-!
# The spending limit simulates the reference policy

`Tracks terms data log` relates the stored data of an installation to the log
of the reference policy: the stored history is the live part of the log, in its
order, the cached total is the sum of that part, and the log is one that the
window check admits.

* `initialData_tracks` starts the relation at an installation;
* `recordSpend_ok` and `recordSpend_of_fits` carry it through one accepted
  charge;
* `enforce_ok` and `enforce_of_fits` carry it through a whole `enforce` call, in
  both directions.

`MultiToken.Runs` carries the relation through runs.

The saturating operations never saturate along a run.  The removed amount and
the running total are parts of a log whose window fits the limit, and the limit
is below the top of the type.  The cutoff saturates at zero, which evicts
nothing more than the exact cutoff would, because no ledger is numbered zero.
-/

namespace LatchContracts.Policies.MultiToken

open LatchContracts.Lib LatchContracts.Host Charge

/-! ## The terms of an installation -/

/-- The stored data carries the terms: the divisors are the powers of ten of
the reported decimals. -/
structure Agrees (terms : Terms) (data : PolicyData) : Prop where
  limit : data.spendingLimitUsd.val = terms.limit
  period : data.periodLedgers.val = terms.period
  oracle : data.oracleAddress = terms.oracle
  usdDivisor : data.usdDivisor.val = 10 ^ terms.oracleDecimals
  tokens : data.allowedTokens = terms.tokens
  tokenDivisor : ∀ {token : Address} {idx : ℕ}, terms.tokens.idxOf? token = some idx →
    ∃ divisor, data.tokenDivisors[idx]? = some divisor ∧
      divisor.val = 10 ^ terms.tokenDecimals token

theorem fetchDivisor_eq_ok {maxDecimals : ℤ} {invalid : Error} {env : OracleEnv}
    {contract : Address} {divisor : I128}
    (h : fetchDivisor maxDecimals invalid env contract = .ok divisor) :
    divisor.val = 10 ^ reportedDecimals env contract := by
  simp only [fetchDivisor, bind_eq_ok, ensure_eq_ok, unwrapOr_eq_ok, exists_const,
    Bounded.checkedPow_eq_some] at h
  obtain ⟨decimals, hdecimals, _, hpow⟩ := h
  rw [hpow, reportedDecimals, hdecimals]
  rfl

/-- The loop of `install` keeps the order and the length of the token list. -/
theorem fetchTokenDivisors_eq_ok {env : OracleEnv} {tokens : List Address} {divisors : List I128}
    (h : fetchTokenDivisors env tokens = .ok divisors) :
    List.Forall₂ (fun token divisor => divisor.val = 10 ^ reportedDecimals env token)
      tokens divisors := by
  induction tokens generalizing divisors with
  | nil =>
    rw [fetchTokenDivisors, pure_eq_ok] at h
    subst h
    exact .nil
  | cons token rest ih =>
    simp only [fetchTokenDivisors, bind_eq_ok, pure_eq_ok] at h
    obtain ⟨divisor, hdivisor, others, hothers, rfl⟩ := h
    exact .cons (fetchDivisor_eq_ok hdivisor) (ih hothers)

theorem initialData_agrees {env : OracleEnv} {params : AccountParams} {data : PolicyData}
    (h : initialData env params = .ok data) : Agrees (params.terms env) data := by
  simp only [initialData, bind_eq_ok, pure_eq_ok] at h
  obtain ⟨usdDivisor, husd, divisors, hdivisors, rfl⟩ := h
  refine ⟨rfl, rfl, rfl, fetchDivisor_eq_ok husd, rfl, ?_⟩
  intro token idx hidx
  change params.allowedTokens.idxOf? token = some idx at hidx
  have hpairs := fetchTokenDivisors_eq_ok hdivisors
  obtain ⟨hlt, htoken, _⟩ := List.findIdx?_eq_some_iff_getElem.mp hidx
  have hlt' : idx < divisors.length := hpairs.length_eq ▸ hlt
  have htok : params.allowedTokens[idx] = token := by simpa using htoken
  have hpair := hpairs.get hlt hlt'
  refine ⟨divisors[idx], List.getElem?_eq_getElem hlt', ?_⟩
  change divisors[idx].val = 10 ^ reportedDecimals env token
  rw [← htok]
  exact hpair

/-! ## Pricing -/

/-- The two truncating divisions of a nonnegative product are one division by
the product of the divisors. -/
theorem tdiv_tdiv_eq {n a b : ℤ} (hn : 0 ≤ n) (ha : 0 ≤ a) : (n.tdiv a).tdiv b = n / (a * b) := by
  have hquot : 0 ≤ n / a := Int.ediv_nonneg hn ha
  rw [Int.tdiv_eq_ediv_of_nonneg hn, Int.tdiv_eq_ediv_of_nonneg hquot, Int.ediv_ediv_of_nonneg ha]

/-- The conversion succeeds exactly when the product fits, and the result is
the whole-dollar value. -/
theorem convertToUsd_iff {amount price usdDivisor tokenDivisor usd : I128}
    (hamount : 0 ≤ amount.val) (hprice : 0 < price.val) (husdDivisor : 0 < usdDivisor.val)
    (htokenDivisor : 0 < tokenDivisor.val) :
    convertToUsd amount price usdDivisor tokenDivisor = some usd ↔
      amount.val * price.val ≤ 2 ^ 127 - 1 ∧
        usd.val = amount.val * price.val / (usdDivisor.val * tokenDivisor.val) := by
  have hproduct : 0 ≤ amount.val * price.val := mul_nonneg hamount hprice.le
  rw [convertToUsd_eq_some]
  constructor
  · intro h
    rcases h with ⟨v, hv, _, w, hw, _, husd⟩
    refine ⟨hv ▸ v.le_hi, ?_⟩
    rw [husd, hw, hv, tdiv_tdiv_eq hproduct husdDivisor.le]
  · intro h
    rcases h with ⟨hfits, husd⟩
    -- the quotient after the first division is not above the product
    have hquot : 0 ≤ amount.val * price.val / usdDivisor.val :=
      Int.ediv_nonneg hproduct husdDivisor.le
    have hle : amount.val * price.val / usdDivisor.val ≤ amount.val * price.val :=
      Int.ediv_le_self _ hproduct
    refine ⟨⟨amount.val * price.val, by omega, hfits⟩, rfl, husdDivisor.ne',
      ⟨amount.val * price.val / usdDivisor.val, by omega, by omega⟩, ?_, htokenDivisor.ne', ?_⟩
    · exact (Int.tdiv_eq_ediv_of_nonneg hproduct).symm
    · rw [husd, ← tdiv_tdiv_eq hproduct husdDivisor.le, Int.tdiv_eq_ediv_of_nonneg hproduct]

/-- Pricing a parsed transfer succeeds exactly on the charge that the terms
request. -/
theorem priced_iff {terms : Terms} {data : PolicyData} (h : Agrees terms data) {env : OracleEnv}
    {context : Context} {usd : I128} :
    (∃ target amount, parseTransfer context = .ok (target, amount) ∧
        priceTransfer env data target amount = .ok usd) ↔
      terms.requested env context = some ⟨env.sequence.val, usd.val⟩ := by
  have husdDivisor : 0 < data.usdDivisor.val := by rw [h.usdDivisor]; positivity
  simp only [parseTransfer_eq_ok, priceTransfer_eq_ok, terms.requested_eq_some]
  constructor
  · intro h'
    rcases h' with ⟨target, amount, ⟨c, rfl, rfl, hname, harg, hamount⟩, idx, divisor, pd, hidx,
      hdivisor, hanswer, hprice, hold, hfuture, hconv⟩
    rw [h.tokens] at hidx
    obtain ⟨divisor', hdivisor', hval⟩ := h.tokenDivisor hidx
    obtain rfl : divisor' = divisor := Option.some.inj (hdivisor'.symm.trans hdivisor)
    have hpos : 0 < divisor'.val := by rw [hval]; positivity
    obtain ⟨hfits, husd⟩ := (convertToUsd_iff hamount hprice husdDivisor hpos).mp hconv
    refine ⟨c, amount, pd, ?_, ?_⟩
    · exact
        { call := rfl, name := hname, amount_arg := harg, amount_nonneg := hamount
          allowed := List.isSome_idxOf?.mp (by rw [hidx]; rfl)
          answer := h.oracle ▸ hanswer, price_pos := hprice, not_old := hold
          not_future := hfuture, product_fits := hfits }
    · rw [husd, hval, h.usdDivisor]
      rfl
  · intro h'
    rcases h' with ⟨c, amount, pd, hasks, hcharge⟩
    have husd : usd.val = terms.usd c.contract amount.val pd.price.val :=
      congrArg Charge.amount hcharge
    obtain ⟨idx, hidx⟩ := Option.isSome_iff_exists.mp (List.isSome_idxOf?.mpr hasks.allowed)
    obtain ⟨divisor, hdivisor, hval⟩ := h.tokenDivisor hidx
    have hpos : 0 < divisor.val := by rw [hval]; positivity
    refine ⟨c.contract, amount, ⟨c, hasks.call, rfl, hasks.name, hasks.amount_arg,
      hasks.amount_nonneg⟩, idx, divisor, pd, h.tokens ▸ hidx, hdivisor, h.oracle ▸ hasks.answer,
      hasks.price_pos, hasks.not_old, hasks.not_future, ?_⟩
    rw [convertToUsd_iff hasks.amount_nonneg hasks.price_pos husdDivisor hpos]
    refine ⟨hasks.product_fits, ?_⟩
    rw [husd, hval, h.usdDivisor]
    rfl

/-! ## Eviction -/

/-- The charge that an entry of the history records. -/
def SpendingEntry.charge (e : SpendingEntry) : Charge := ⟨e.ledger.val, e.amountUsd.val⟩

theorem evict_fst (cutoff : U32) (history : List SpendingEntry) (removed : I128) :
    (evict cutoff history removed).1.map SpendingEntry.charge =
      (history.map SpendingEntry.charge).dropWhile (fun c => c.time ≤ cutoff.val) := by
  induction history generalizing removed with
  | nil => rfl
  | cons entry rest ih =>
    by_cases hold : entry.ledger ≤ cutoff
    · rw [evict, if_pos hold, ih, List.map_cons, List.dropWhile_cons_of_pos]
      exact decide_eq_true hold
    · rw [evict, if_neg hold, List.map_cons, List.dropWhile_cons_of_neg]
      rw [decide_eq_true_eq]
      exact hold

theorem evict_sublist (cutoff : U32) (history : List SpendingEntry) (removed : I128) :
    (evict cutoff history removed).1.Sublist history := by
  induction history generalizing removed with
  | nil => exact List.nil_sublist []
  | cons entry rest ih =>
    by_cases hold : entry.ledger ≤ cutoff
    · rw [evict, if_pos hold]
      exact (ih _).cons entry
    · rw [evict, if_neg hold]

/-- What is removed and what is left add up to what there was, as long as the
sum fits the type. -/
theorem evict_snd (cutoff : U32) (history : List SpendingEntry) (removed : I128)
    (hremoved : 0 ≤ removed.val) (hnonneg : ∀ e ∈ history, 0 ≤ e.amountUsd.val)
    (hfits : removed.val + total (history.map SpendingEntry.charge) ≤ 2 ^ 127 - 1) :
    (evict cutoff history removed).2.val +
        total ((evict cutoff history removed).1.map SpendingEntry.charge) =
      removed.val + total (history.map SpendingEntry.charge) := by
  induction history generalizing removed with
  | nil => rfl
  | cons entry rest ih =>
    by_cases hold : entry.ledger ≤ cutoff
    · have hentry : 0 ≤ entry.amountUsd.val := hnonneg entry List.mem_cons_self
      have hrest : ∀ e ∈ rest, 0 ≤ e.amountUsd.val :=
        fun e he => hnonneg e (List.mem_cons_of_mem entry he)
      have htail : 0 ≤ total (rest.map SpendingEntry.charge) := by
        apply total_nonneg
        intro c hc
        obtain ⟨e, he, rfl⟩ := List.mem_map.mp hc
        exact hrest e he
      rw [List.map_cons, total_cons] at hfits ⊢
      change removed.val + (entry.amountUsd.val + total _) ≤ _ at hfits
      have hsum : (removed.saturatingAdd entry.amountUsd).val =
          removed.val + entry.amountUsd.val :=
        Bounded.val_clamp_of_mem _ (by omega) (by omega)
      have hstep := ih (removed.saturatingAdd entry.amountUsd) (by omega) hrest (by omega)
      rw [evict, if_pos hold, hstep, hsum]
      change _ = removed.val + (entry.amountUsd.val + total _)
      omega
    · rw [evict, if_neg hold]

/-- As long as the cached total is the sum of the history, the running total of
`enforce` is the sum of the entries that the eviction leaves. -/
theorem cleanup_total {data : PolicyData} (currentLedger : U32)
    (hnonneg : ∀ e ∈ data.spendingHistory, 0 ≤ e.amountUsd.val)
    (hcached : data.cachedTotalSpentUsd.val =
      total (data.spendingHistory.map SpendingEntry.charge)) :
    (data.cachedTotalSpentUsd.saturatingSub
        (cleanupOldEntries data.spendingHistory currentLedger data.periodLedgers).2).val =
      total ((cleanupOldEntries data.spendingHistory currentLedger
        data.periodLedgers).1.map SpendingEntry.charge) := by
  unfold cleanupOldEntries
  generalize currentLedger.saturatingSub data.periodLedgers = cutoff
  have hzero : (0 : I128).val = 0 := rfl
  have htop := data.cachedTotalSpentUsd.le_hi
  have hsum := evict_snd cutoff data.spendingHistory 0 hzero.ge hnonneg
    (by rw [hzero, ← hcached]; omega)
  have hnonneg' : ∀ c ∈ data.spendingHistory.map SpendingEntry.charge, 0 ≤ c.amount := by
    intro c hc
    obtain ⟨e, he, rfl⟩ := List.mem_map.mp hc
    exact hnonneg e he
  have hsub := (evict_sublist cutoff data.spendingHistory 0).map SpendingEntry.charge
  have hle := total_le_of_sublist hsub hnonneg'
  have hleft := total_nonneg (fun c hc => hnonneg' c (hsub.subset hc))
  rw [Bounded.val_saturatingSub]
  omega

/-! ## The simulation relation -/

/-- The stored data of an installation agrees with the log of the reference
policy. -/
structure Tracks (terms : Terms) (data : PolicyData) (log : List Charge) : Prop where
  agrees : Agrees terms data
  limit_pos : 0 < terms.limit
  limit_lt : terms.limit < 2 ^ 127 - 1
  period_pos : 0 < terms.period
  history : data.spendingHistory.map SpendingEntry.charge = live terms.period log
  cached : data.cachedTotalSpentUsd.val = total (live terms.period log)
  admitted : Admitted terms.period terms.limit maxHistoryEntries log
  time_pos : ∀ c ∈ log, 1 ≤ c.time

/-- An installation starts with the empty log. -/
theorem initialData_tracks {env : OracleEnv} {params : AccountParams} {data : PolicyData}
    (hparams : checkParams params = .ok ()) (hdata : initialData env params = .ok data)
    (hlimit : params.spendingLimitUsd.val < 2 ^ 127 - 1) :
    Tracks (params.terms env) data [] := by
  obtain ⟨hpos, hperiod, _⟩ :
      ¬ params.spendingLimitUsd.val ≤ 0 ∧ params.periodLedgers.val ≠ 0 ∧ _ := by
    simpa only [not_or] using ensure_eq_ok.mp hparams
  have hagrees := initialData_agrees hdata
  simp only [initialData, bind_eq_ok, pure_eq_ok] at hdata
  obtain ⟨_, _, _, _, rfl⟩ := hdata
  have hnonneg := params.periodLedgers.lo_le
  exact
    { agrees := hagrees
      limit_pos := not_le.mp hpos
      limit_lt := hlimit
      period_pos := lt_of_le_of_ne hnonneg (Ne.symm hperiod)
      history := rfl
      cached := rfl
      admitted := .nil
      time_pos := by simp }

namespace Tracks

variable {terms : Terms} {data data' : PolicyData} {log : List Charge} {t : U32} {usd : I128}

/-- The live part of the log is in time order and has no negative amount. -/
theorem live_spec (h : Tracks terms data log) :
    (live terms.period log).Pairwise (fun a b => a.time ≤ b.time) ∧
      ∀ c ∈ live terms.period log, 0 ≤ c.amount ∧ 1 ≤ c.time := by
  have hsub := live_sublist terms.period log
  refine ⟨h.admitted.sorted.sublist hsub, ?_⟩
  intro c hc
  exact ⟨h.admitted.amount_nonneg c (hsub.subset hc), h.time_pos c (hsub.subset hc)⟩

theorem trailing_nonneg (h : Tracks terms data log) (now : ℤ) :
    0 ≤ total (trailing terms.period now log) := by
  apply total_nonneg
  intro c hc
  exact h.admitted.amount_nonneg c (List.mem_of_mem_filter hc)

/-- After the eviction the history holds the trailing window. -/
theorem cleanup_history (h : Tracks terms data log) (ht : ∀ c ∈ log, c.time ≤ t.val) :
    (cleanupOldEntries data.spendingHistory t data.periodLedgers).1.map SpendingEntry.charge =
      trailing terms.period t.val log := by
  obtain ⟨hsorted, hspec⟩ := h.live_spec
  have hcutoff : (t.saturatingSub data.periodLedgers).val = max 0 (t.val - terms.period) := by
    have htop := t.le_hi
    have hperiod := h.period_pos
    rw [Bounded.val_saturatingSub, h.agrees.period]
    omega
  rw [cleanupOldEntries, evict_fst, h.history, dropWhile_eq_filter hsorted, hcutoff,
    ← trailing_live ht, trailing]
  apply List.filter_congr
  intro c hc
  have hone := (hspec c hc).2
  rw [decide_eq_decide]
  omega

theorem history_nonneg (h : Tracks terms data log) :
    ∀ e ∈ data.spendingHistory, 0 ≤ e.amountUsd.val := by
  intro e he
  have hmem : e.charge ∈ live terms.period log := by
    rw [← h.history]
    exact List.mem_map_of_mem he
  exact (h.live_spec.2 _ hmem).1

/-- The running total of the source is the sum of the trailing window. -/
theorem running_total (h : Tracks terms data log) (ht : ∀ c ∈ log, c.time ≤ t.val) :
    (data.cachedTotalSpentUsd.saturatingSub
        (cleanupOldEntries data.spendingHistory t data.periodLedgers).2).val =
      total (trailing terms.period t.val log) := by
  have hcached : data.cachedTotalSpentUsd.val =
      total (data.spendingHistory.map SpendingEntry.charge) := by
    rw [h.history]
    exact h.cached
  rw [cleanup_total t h.history_nonneg hcached, h.cleanup_history ht]

theorem cleanup_length (h : Tracks terms data log) (ht : ∀ c ∈ log, c.time ≤ t.val) :
    (cleanupOldEntries data.spendingHistory t data.periodLedgers).1.length =
      (trailing terms.period t.val log).length := by
  rw [← h.cleanup_history ht, List.length_map]

/-- The check of the source against the cap and the capacity is the check of the
reference policy. -/
theorem record_check (h : Tracks terms data log) (ht : ∀ c ∈ log, c.time ≤ t.val)
    (husd : 0 ≤ usd.val) :
    ((data.cachedTotalSpentUsd.saturatingSub
          (cleanupOldEntries data.spendingHistory t data.periodLedgers).2).saturatingAdd usd ≤
        data.spendingLimitUsd ∧
      (cleanupOldEntries data.spendingHistory t data.periodLedgers).1.length < 1000) ↔
    terms.fits log ⟨t.val, usd.val⟩ := by
  have htotal := h.running_total ht
  have hnonneg := h.trailing_nonneg t.val
  have hlimit : data.spendingLimitUsd.val < 2 ^ 127 - 1 := by
    rw [h.agrees.limit]
    exact h.limit_lt
  rw [Bounded.saturatingAdd_le_iff (by omega) hlimit, htotal, h.cleanup_length ht, h.agrees.limit]
  rfl

/-- An accepted charge fits the window, and the new data tracks the longer
log. -/
theorem recordSpend_ok (h : Tracks terms data log) (ht : ∀ c ∈ log, c.time ≤ t.val)
    (hone : 1 ≤ t.val) (husd : 0 ≤ usd.val) (hrecord : recordSpend data t usd = .ok data') :
    terms.fits log ⟨t.val, usd.val⟩ ∧ Tracks terms data' (log ++ [⟨t.val, usd.val⟩]) := by
  obtain ⟨hcap, hroom, rfl⟩ := recordSpend_eq_ok.mp hrecord
  have hfits := (h.record_check ht husd).mp ⟨hcap, hroom⟩
  have hlive := live_snoc h.period_pos log ⟨t.val, usd.val⟩
  have htotal := h.running_total ht
  have hnonneg := h.trailing_nonneg t.val
  refine ⟨hfits, ?_⟩
  exact
    { agrees := ⟨h.agrees.limit, h.agrees.period, h.agrees.oracle, h.agrees.usdDivisor,
        h.agrees.tokens, h.agrees.tokenDivisor⟩
      limit_pos := h.limit_pos
      limit_lt := h.limit_lt
      period_pos := h.period_pos
      history := by
        rw [hlive, List.map_append, h.cleanup_history ht]
        rfl
      cached := by
        have hcap' : _ ≤ terms.limit := hfits.1
        have hlimit := h.limit_lt
        change total (trailing terms.period t.val log) + usd.val ≤ terms.limit at hcap'
        rw [hlive, total_append, total_singleton]
        change (Bounded.saturatingAdd _ usd).val = total (trailing terms.period t.val log) + usd.val
        rw [Bounded.val_saturatingAdd, htotal]
        omega
      admitted := .snoc h.admitted ht husd hfits.1 hfits.2
      time_pos := by
        intro c hc
        rcases List.mem_append.mp hc with hc | hc
        · exact h.time_pos c hc
        · rw [List.mem_singleton.mp hc]
          exact hone }

/-- A charge that fits is accepted. -/
theorem recordSpend_of_fits (h : Tracks terms data log) (ht : ∀ c ∈ log, c.time ≤ t.val)
    (husd : 0 ≤ usd.val) (hfits : terms.fits log ⟨t.val, usd.val⟩) :
    ∃ data', recordSpend data t usd = .ok data' := by
  obtain ⟨hcap, hroom⟩ := (h.record_check ht husd).mpr hfits
  exact ⟨_, recordSpend_eq_ok.mpr ⟨hcap, hroom, rfl⟩⟩

end Tracks

/-! ## One `enforce` call -/

section Enforce

variable {terms : Terms} {data : PolicyData} {log : List Charge} {env : OracleEnv}
  {context : Context} {signers : List Signer} {rule : ContextRule} {account : Address}
  {s s' : Entries PolicyData} {es : List Empty}

/-- An accepted call was authorized, asks for a charge that fits, and records
it. -/
theorem enforce_ok (h : Tracks terms data log) (hdata : s ⟨account, rule.id⟩ = some data)
    (ht : ∀ c ∈ log, c.time ≤ env.sequence.val) (hone : 1 ≤ env.sequence.val)
    (hok : enforce env context signers rule account s = .ok (es, s')) :
    env.auth account = true ∧ ∃ (usd : I128) (data' : PolicyData),
      terms.requested env context = some ⟨env.sequence.val, usd.val⟩ ∧
      terms.fits log ⟨env.sequence.val, usd.val⟩ ∧
      s' = s.set ⟨account, rule.id⟩ data' ∧
      data'.spendingHistory.getLast? = some ⟨usd, env.sequence⟩ ∧
      Tracks terms data' (log ++ [⟨env.sequence.val, usd.val⟩]) := by
  obtain ⟨hauth, target, amount, data₁, usd, data', hparse, hdata₁, hprice, hrecord, _, rfl⟩ :=
    enforce_eq_ok.mp hok
  obtain rfl : data₁ = data := Option.some.inj (hdata₁.symm.trans hdata)
  have hrequested := (priced_iff h.agrees).mp ⟨target, amount, hparse, hprice⟩
  have husd : 0 ≤ usd.val := (terms.requested_spec hrequested).2.1
  obtain ⟨hfits, htracks⟩ := h.recordSpend_ok ht hone husd hrecord
  obtain ⟨_, _, rfl⟩ := recordSpend_eq_ok.mp hrecord
  exact ⟨hauth, usd, _, hrequested, hfits, rfl, List.getLast?_concat, htracks⟩

/-- An authorized call for a charge that fits is accepted. -/
theorem enforce_of_fits (h : Tracks terms data log) (hdata : s ⟨account, rule.id⟩ = some data)
    (ht : ∀ c ∈ log, c.time ≤ env.sequence.val) (hauth : env.auth account = true) {ch : Charge}
    (hrequested : terms.requested env context = some ch) (hfits : terms.fits log ch) :
    ∃ es s', enforce env context signers rule account s = .ok (es, s') := by
  obtain ⟨htime, hnonneg, htop⟩ := terms.requested_spec hrequested
  -- the dollar value is below the top of the type, so it is an `i128`
  have husd : ∃ usd : I128, ch = ⟨env.sequence.val, usd.val⟩ :=
    ⟨⟨ch.amount, by omega, htop⟩, Charge.ext htime rfl⟩
  obtain ⟨usd, rfl⟩ := husd
  obtain ⟨target, amount, hparse, hprice⟩ := (priced_iff h.agrees).mpr hrequested
  obtain ⟨data', hrecord⟩ := h.recordSpend_of_fits ht hnonneg hfits
  exact ⟨[], _, enforce_eq_ok.mpr
    ⟨hauth, target, amount, data, usd, data', hparse, hdata, hprice, hrecord, rfl, rfl⟩⟩

end Enforce

end LatchContracts.Policies.MultiToken
