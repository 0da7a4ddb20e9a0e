import LatchContracts.Policies.MultiToken.Runs

/-!
# What every stored entry of the spending limit satisfies

`Consistent` holds what is true of the data under any key in any reachable
state, however the ledger numbers of the run are ordered: the divisors are
positive, no recorded amount is negative, and below the top of the type the
cached total is the sum of the history.

`Charges` is an accepted `enforce` of one key with the data before and after it.
Between an installation and the next uninstallation nothing else changes the
data of the key (`settle_entry_cases`), so `run_keeps` carries any property of
the data that charges keep through a run.
-/

namespace LatchContracts.Policies.MultiToken

open LatchContracts.Lib LatchContracts.Host Charge

/-- What holds of every stored entry of a reachable state. -/
structure Consistent (data : PolicyData) : Prop where
  usdDivisor_pos : 0 < data.usdDivisor.val
  tokenDivisors_pos : ∀ d ∈ data.tokenDivisors, 0 < d.val
  nonneg : ∀ e ∈ data.spendingHistory, 0 ≤ e.amountUsd.val
  cached : data.spendingLimitUsd.val < 2 ^ 127 - 1 →
    data.cachedTotalSpentUsd.val = total (data.spendingHistory.map SpendingEntry.charge)

/-- The charges of the history that are after the cutoff, from the first such
charge on. -/
def remaining (data : PolicyData) (ledger : ℤ) : List Charge :=
  (data.spendingHistory.map SpendingEntry.charge).dropWhile
    (fun c => c.time ≤ max 0 (ledger - data.periodLedgers.val))

section Consistency

variable {data data' : PolicyData} {t : U32} {usd : I128}

theorem cleanup_remaining (data : PolicyData) (t : U32) :
    (cleanupOldEntries data.spendingHistory t data.periodLedgers).1.map SpendingEntry.charge =
      remaining data t.val := by
  have hcutoff : (t.saturatingSub data.periodLedgers).val =
      max 0 (t.val - data.periodLedgers.val) := by
    have htop := t.le_hi
    have hperiod := data.periodLedgers.lo_le
    rw [Bounded.val_saturatingSub]
    omega
  rw [cleanupOldEntries, evict_fst, hcutoff]
  rfl

theorem remaining_nonneg (h : Consistent data) (ledger : ℤ) :
    0 ≤ total (remaining data ledger) := by
  apply total_nonneg
  intro c hc
  obtain ⟨e, he, rfl⟩ := List.mem_map.mp ((List.dropWhile_sublist _).subset hc)
  exact h.nonneg e he

/-- The cap and the capacity in terms of the stored history. -/
theorem recordSpend_iff (h : Consistent data) (husd : 0 ≤ usd.val) :
    (∃ data', recordSpend data t usd = .ok data') ↔
      (data.spendingLimitUsd.val = 2 ^ 127 - 1 ∨
        total (remaining data t.val) + usd.val ≤ data.spendingLimitUsd.val) ∧
      (remaining data t.val).length < 1000 := by
  have hlength : (cleanupOldEntries data.spendingHistory t data.periodLedgers).1.length =
      (remaining data t.val).length := by
    rw [← cleanup_remaining, List.length_map]
  have hcap : (data.cachedTotalSpentUsd.saturatingSub
        (cleanupOldEntries data.spendingHistory t data.periodLedgers).2).saturatingAdd usd ≤
          data.spendingLimitUsd ↔
      data.spendingLimitUsd.val = 2 ^ 127 - 1 ∨
        total (remaining data t.val) + usd.val ≤ data.spendingLimitUsd.val := by
    have htop := data.spendingLimitUsd.le_hi
    by_cases hmax : data.spendingLimitUsd.val = 2 ^ 127 - 1
    · refine iff_of_true ?_ (.inl hmax)
      rw [Bounded.le_def, hmax]
      exact Bounded.le_hi _
    · have hlt : data.spendingLimitUsd.val < 2 ^ 127 - 1 := by omega
      have htotal := cleanup_total t h.nonneg (h.cached hlt)
      rw [cleanup_remaining] at htotal
      have hleft := remaining_nonneg h t.val
      rw [Bounded.saturatingAdd_le_iff (by omega) hlt, htotal]
      exact (or_iff_right hmax).symm
  simp only [recordSpend_eq_ok, hcap, hlength, exists_and_left, exists_eq, and_true]

theorem recordSpend_consistent (h : Consistent data) (husd : 0 ≤ usd.val)
    (hrecord : recordSpend data t usd = .ok data') : Consistent data' := by
  obtain ⟨hcap, _, rfl⟩ := recordSpend_eq_ok.mp hrecord
  refine ⟨h.usdDivisor_pos, h.tokenDivisors_pos, ?_, ?_⟩
  · intro e he
    rcases List.mem_append.mp he with he | he
    · exact h.nonneg e ((evict_sublist _ _ _).subset he)
    · rw [List.mem_singleton.mp he]
      exact husd
  · intro hlt
    have htotal := cleanup_total t h.nonneg (h.cached hlt)
    have hleft := remaining_nonneg h t.val
    rw [cleanup_remaining] at htotal
    rw [List.map_append, total_append, cleanup_remaining]
    show (Bounded.saturatingAdd _ usd).val = total (remaining data t.val) + total [⟨t.val, usd.val⟩]
    change data.spendingLimitUsd.val < 2 ^ 127 - 1 at hlt
    rw [Bounded.le_def] at hcap
    rw [Bounded.val_saturatingAdd, htotal] at hcap ⊢
    rw [total_singleton]
    show _ = total (remaining data t.val) + usd.val
    omega

/-- An accepted transfer has a nonnegative dollar value. -/
theorem usd_nonneg {env : OracleEnv} {context : Context} {target : Address} {amount : I128}
    (h : Consistent data) (hparse : parseTransfer context = .ok (target, amount))
    (hprice : priceTransfer env data target amount = .ok usd) : 0 ≤ usd.val := by
  obtain ⟨c, _, _, _, _, hamount⟩ := parseTransfer_eq_ok.mp hparse
  obtain ⟨idx, divisor, pd, _, hdivisor, _, hpos, _, _, hconv⟩ := priceTransfer_eq_ok.mp hprice
  have hdiv : 0 < divisor.val := h.tokenDivisors_pos divisor (List.mem_of_getElem? hdivisor)
  rw [((convertToUsd_iff hamount hpos h.usdDivisor_pos hdiv).mp hconv).2]
  exact Int.ediv_nonneg (mul_nonneg hamount hpos.le) (mul_pos h.usdDivisor_pos hdiv).le

/-- A product that fits the type has a dollar value. -/
theorem exists_convertToUsd {amount price divisor : I128} {idx : ℕ} (h : Consistent data)
    (hdivisor : data.tokenDivisors[idx]? = some divisor) (hamount : 0 ≤ amount.val)
    (hprice : 0 < price.val) (hfits : amount.val * price.val ≤ 2 ^ 127 - 1) :
    ∃ usd : I128, usd.val = amount.val * price.val / (data.usdDivisor.val * divisor.val) ∧
      convertToUsd amount price data.usdDivisor divisor = some usd := by
  have hdiv := h.tokenDivisors_pos divisor (List.mem_of_getElem? hdivisor)
  have hproduct : 0 ≤ amount.val * price.val := mul_nonneg hamount hprice.le
  have hnonneg := Int.ediv_nonneg hproduct (mul_pos h.usdDivisor_pos hdiv).le
  have hle := Int.ediv_le_self (data.usdDivisor.val * divisor.val) hproduct
  refine ⟨⟨_, by omega, hle.trans hfits⟩, rfl, ?_⟩
  exact (convertToUsd_iff hamount hprice h.usdDivisor_pos hdiv).mpr ⟨hfits, rfl⟩

/-- What a context and the oracle have to say for a transfer of `amountUsd` dollars. -/
theorem dollarValue_iff {env : OracleEnv} {context : Context} {amountUsd : ℤ}
    (h : Consistent data) :
    (∃ target amount usd, parseTransfer context = .ok (target, amount) ∧
      priceTransfer env data target amount = .ok usd ∧ usd.val = amountUsd) ↔
      ∃ call amount idx divisor pd, context = .contract call ∧ call.fnName = "transfer" ∧
        call.args[2]? = some (.i128 amount) ∧ 0 ≤ amount.val ∧
        data.allowedTokens.idxOf? call.contract = some idx ∧
        data.tokenDivisors[idx]? = some divisor ∧
        env.lastprice data.oracleAddress (.stellar call.contract) = some (some pd) ∧
        0 < pd.price.val ∧ env.timestamp.val - 500 ≤ pd.timestamp.val ∧
        pd.timestamp.val ≤ env.timestamp.val ∧ amount.val * pd.price.val ≤ 2 ^ 127 - 1 ∧
        amountUsd = amount.val * pd.price.val / (data.usdDivisor.val * divisor.val) := by
  constructor
  · intro hpriced
    rcases hpriced with ⟨target, amount, usd, hparse, hprice, rfl⟩
    obtain ⟨call, rfl, rfl, hname, harg, hamount⟩ := parseTransfer_eq_ok.mp hparse
    obtain ⟨idx, divisor, pd, hidx, hdivisor, hanswer, hpos, hold, hfuture, hconv⟩ :=
      priceTransfer_eq_ok.mp hprice
    have hdiv := h.tokenDivisors_pos divisor (List.mem_of_getElem? hdivisor)
    obtain ⟨hfits, hval⟩ := (convertToUsd_iff hamount hpos h.usdDivisor_pos hdiv).mp hconv
    exact ⟨call, amount, idx, divisor, pd, rfl, hname, harg, hamount, hidx, hdivisor, hanswer,
      hpos, hold, hfuture, hfits, hval⟩
  · intro hrequest
    rcases hrequest with ⟨call, amount, idx, divisor, pd, rfl, hname, harg, hamount, hidx,
      hdivisor, hanswer, hpos, hold, hfuture, hfits, rfl⟩
    obtain ⟨usd, hval, hconv⟩ := exists_convertToUsd h hdivisor hamount hpos hfits
    refine ⟨call.contract, amount, usd, ?_, ?_, hval⟩
    · exact parseTransfer_eq_ok.mpr ⟨call, rfl, rfl, hname, harg, hamount⟩
    · exact priceTransfer_eq_ok.mpr
        ⟨idx, divisor, pd, hidx, hdivisor, hanswer, hpos, hold, hfuture, hconv⟩

theorem fetchTokenDivisors_pos {env : OracleEnv} {tokens : List Address} {divisors : List I128}
    (h : fetchTokenDivisors env tokens = .ok divisors) : ∀ d ∈ divisors, 0 < d.val := by
  have hpairs := fetchTokenDivisors_eq_ok h
  clear h
  induction hpairs with
  | nil => simp
  | cons hval _ ih =>
    refine List.forall_mem_cons.mpr ⟨?_, ih⟩
    rw [hval]
    positivity

theorem initialData_consistent {env : OracleEnv} {params : AccountParams}
    (h : initialData env params = .ok data) : Consistent data := by
  simp only [initialData, bind_eq_ok, pure_eq_ok] at h
  obtain ⟨usdDivisor, husd, divisors, hdivisors, rfl⟩ := h
  refine ⟨?_, ?_, by simp, fun _ => rfl⟩
  · show 0 < usdDivisor.val
    rw [fetchDivisor_eq_ok husd]
    positivity
  · intro d hd
    exact fetchTokenDivisors_pos hdivisors d hd

/-- Every stored entry of a reachable state is consistent. -/
theorem consistent_reachable {s : Entries PolicyData}
    (hs : Reachable contract.exec Store.empty s) : s.All Consistent := by
  refine hs.invariant ?_ (Store.all_empty Consistent)
  intro i s r s' h hok
  rcases exec_cases hok with ⟨params, rule, account, d, _, _, _, hdata, rfl⟩ |
    ⟨rule, account, _, rfl⟩ | ⟨context, signers, rule, account, es, _, hx⟩ | ⟨_, rfl⟩
  · exact h.set _ (initialData_consistent hdata)
  · exact h.remove _
  · obtain ⟨_, target, amount, data, usd, data', hparse, hdata, hprice, hrecord, _, rfl⟩ :=
      enforce_eq_ok.mp hx
    have hconsistent := h _ data hdata
    exact h.set _ (recordSpend_consistent hconsistent
      (usd_nonneg hconsistent hparse hprice) hrecord)
  · exact h

end Consistency

/-! ## The data of one key between installation and uninstallation -/

/-- The settled call is an accepted `enforce` of key `k` that records `usd` and
takes the stored data from `data` to `data'`. -/
structure Charges (k : AccountContext) (c : Done) (data : PolicyData) (usd : I128)
    (data' : PolicyData) : Prop where
  accepted : c.accepted
  pre : c.pre k = some data
  post : c.post k = some data'
  priced : ∃ context signers rule account target amount,
    c.input.call = .enforce context signers rule account ∧ ⟨account, rule.id⟩ = k ∧
      c.input.env.auth account = true ∧ parseTransfer context = .ok (target, amount) ∧
      priceTransfer c.input.env data target amount = .ok usd
  recorded : recordSpend data c.input.env.sequence usd = .ok data'

section Entry

variable {k : AccountContext} {s : Entries PolicyData} {data : PolicyData} {i : Input}

/-- A call leaves the data of an installed key, or charges it. -/
theorem settle_entry_cases (hdata : s k = some data)
    (hkeep : ¬ Removes k (settle contract.exec i s)) :
    ((settle contract.exec i s).post k = some data ∧
        ¬ (Enforces k i ∧ (settle contract.exec i s).accepted)) ∨
      ∃ usd data', Charges k (settle contract.exec i s) data usd data' := by
  by_cases henforce : Enforces k i
  · rcases settle_cases contract.exec i s with ⟨e, _, hset⟩ | ⟨r, s', hok, hset⟩
    · refine .inl ⟨by rw [hset]; exact hdata, ?_⟩
      intro h
      rcases h with ⟨_, r, hr⟩
      rw [hset] at hr
      cases hr
    · obtain ⟨env, call⟩ := i
      obtain ⟨context, signers, rule, account, hcall, rfl⟩ := henforce
      have hcall' : call = .enforce context signers rule account := hcall
      subst hcall'
      obtain ⟨es, _, hx⟩ := reply_eq_ok.mp hok
      change enforce env context signers rule account s = .ok (es, s') at hx
      obtain ⟨hauth, target, amount, data₁, usd, data', hparse, hdata₁, hprice, hrecord, _, rfl⟩ :=
        enforce_eq_ok.mp hx
      obtain rfl : data₁ = data := Option.some.inj (hdata₁.symm.trans hdata)
      rw [hset]
      exact .inr ⟨usd, data',
        { accepted := ⟨r, rfl⟩
          pre := hdata
          post := Store.set_self s _ data'
          priced := ⟨context, signers, rule, account, target, amount, rfl, rfl, hauth, hparse,
            hprice⟩
          recorded := hrecord }⟩
  · exact .inl ⟨settle_of_not_enforces hdata henforce hkeep, fun h => henforce h.1⟩

/-- A property of the data that every charge of a run keeps holds at the end of
the run. -/
theorem run_keeps {P : PolicyData → Prop} {is : List Input} (hdata : s k = some data)
    (hP : P data) (hkeep : ∀ c ∈ trace contract.exec is s, ¬ Removes k c)
    (hcharge : ∀ c ∈ trace contract.exec is s, ∀ d usd d', Charges k c d usd d' → P d → P d') :
    ∃ data', run contract.exec is s k = some data' ∧ P data' := by
  induction is generalizing s data with
  | nil => exact ⟨data, hdata, hP⟩
  | cons i is ih =>
    have hkeep' : ¬ Removes k (settle contract.exec i s) := hkeep _ List.mem_cons_self
    have hrest : ∀ d, (settle contract.exec i s).post k = some d → P d →
        ∃ data', run contract.exec (i :: is) s k = some data' ∧ P data' := by
      intro d hd hPd
      exact ih hd hPd (fun c hc => hkeep c (List.mem_cons_of_mem _ hc))
        (fun c hc => hcharge c (List.mem_cons_of_mem _ hc))
    rcases settle_entry_cases hdata hkeep' with ⟨hpost, _⟩ | ⟨usd, d, hc⟩
    · exact hrest data hpost hP
    · exact hrest d hc.post (hcharge _ List.mem_cons_self data usd d hc hP)

/-- Such a property holds at every moment of the run, -/
theorem run_keeps_before {P : PolicyData → Prop} {before after : List Input}
    (hdata : s k = some data) (hP : P data)
    (hkeep : ∀ c ∈ trace contract.exec (before ++ after) s, ¬ Removes k c)
    (hcharge : ∀ c ∈ trace contract.exec (before ++ after) s, ∀ d usd d',
      Charges k c d usd d' → P d → P d') :
    ∃ data', run contract.exec before s k = some data' ∧ P data' := by
  rw [trace_append] at hkeep hcharge
  exact run_keeps hdata hP (fun c hc => hkeep c (List.mem_append_left _ hc))
    (fun c hc => hcharge c (List.mem_append_left _ hc))

/-- and so of the data that each of its calls meets. -/
theorem pre_keeps {P : PolicyData → Prop} {is : List Input} (hdata : s k = some data)
    (hP : P data) (hkeep : ∀ c ∈ trace contract.exec is s, ¬ Removes k c)
    (hcharge : ∀ c ∈ trace contract.exec is s, ∀ d usd d', Charges k c d usd d' → P d → P d') :
    ∀ c ∈ trace contract.exec is s, ∃ data', c.pre k = some data' ∧ P data' := by
  intro c hc
  obtain ⟨before, i, after, rfl, rfl⟩ := exists_of_mem_trace hc
  rw [settle_pre]
  exact run_keeps_before hdata hP hkeep hcharge

/-- A charge keeps the data consistent. -/
theorem Charges.consistent {c : Done} {d d' : PolicyData} {usd : I128}
    (hc : Charges k c d usd d') (h : Consistent d) : 0 ≤ usd.val ∧ Consistent d' := by
  obtain ⟨_, _, _, _, _, _, _, _, _, hparse, hprice⟩ := hc.priced
  have husd : 0 ≤ usd.val := usd_nonneg h hparse hprice
  exact ⟨husd, recordSpend_consistent h husd hc.recorded⟩

end Entry

end LatchContracts.Policies.MultiToken
