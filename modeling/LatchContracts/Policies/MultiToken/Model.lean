import LatchContracts.Policies.Entrypoints

/-!
# The multi-token spending limit policy

`policies/multi-token-spending-limit-policy/src/lib.rs` and `oracle.rs`: a
`transfer` is priced in whole dollars through an oracle and counted against a
cap over a rolling window of ledgers.

`enforce` is cut at three points of the source: `parseTransfer` reads the
target and the amount out of the context, `priceTransfer` looks up the token
and converts the amount, and `recordSpend` evicts, checks the cap and appends.
The checks stand in the order of the source.

The answers of the oracle and of the token contracts are part of what the host
supplies to a call.  `none` is a call that reverts or does not decode, which
aborts the whole invocation.
-/

namespace LatchContracts.Policies.MultiToken

open LatchContracts.Lib LatchContracts.Host

/-! ## Data -/

/-- `Error`. -/
inductive Error
  | invalidContextRule
  | invalidInstallParams
  | alreadyInstalled
  | notInstalled
  | tokenNotAllowed
  | invalidTransferArgs
  | staleOraclePrice
  | spendingLimitExceeded
  | historyCapacityExceeded
  | invalidOracleResponse
  | invalidTokenResponse
  | amountConversionOverflow
  deriving DecidableEq

/-- `MultiTokenSpendingLimitAccountParams`. -/
structure AccountParams where
  spendingLimitUsd : I128
  periodLedgers : U32
  oracleAddress : Address
  allowedTokens : List Address

/-- `SpendingEntry`. -/
structure SpendingEntry where
  amountUsd : I128
  ledger : U32
  deriving DecidableEq

/-- `PolicyData`. -/
structure PolicyData where
  spendingLimitUsd : I128
  periodLedgers : U32
  oracleAddress : Address
  usdDivisor : I128
  allowedTokens : List Address
  tokenDivisors : List I128
  spendingHistory : List SpendingEntry
  cachedTotalSpentUsd : I128
  deriving DecidableEq

/-- `Asset`. -/
inductive Asset
  | stellar (token : Address)
  | other (ticker : Symbol)
  deriving DecidableEq

/-- `PriceData`. -/
structure PriceData where
  price : I128
  timestamp : U64
  deriving DecidableEq

/-- What the host supplies to a call, with the answers of the contracts that
the policy invokes. -/
structure OracleEnv extends Env where
  /-- `decimals()` of an oracle or a token. -/
  decimals : Address → Option U32
  /-- `lastprice(asset)` of an oracle. -/
  lastprice : Address → Asset → Option (Option PriceData)

/-- `MAX_HISTORY_ENTRIES`. -/
def maxHistoryEntries : ℕ := 1000

/-- `MAX_STALENESS_LEDGERS`. -/
def maxStalenessLedgers : ℤ := 100

/-- `LEDGER_CLOSE_TIME_SECS`. -/
def ledgerCloseTimeSecs : ℤ := 5

/-- `MAX_TOKEN_DECIMALS`. -/
def maxTokenDecimals : ℤ := 20

/-- `MAX_ORACLE_DECIMALS`. -/
def maxOracleDecimals : ℤ := 30

/-! ## The oracle and the tokens -/

/-- The shape of `fetch_usd_divisor` and `fetch_token_divisor`: the reported
decimals, a bound on them, and the power of ten. -/
def fetchDivisor (maxDecimals : ℤ) (invalid : Error) (env : OracleEnv) (contract : Address) :
    Except (Fault Error) I128 := do
  let decimals ← unwrapOr (env.decimals contract) .trap
  ensure (¬ maxDecimals < decimals.val) (.contract invalid)
  unwrapOr ((10 : I128).checkedPow decimals.val.toNat) (.contract invalid)

/-- `fetch_usd_divisor`. -/
def fetchUsdDivisor (env : OracleEnv) (oracleAddress : Address) : Except (Fault Error) I128 :=
  fetchDivisor maxOracleDecimals .invalidOracleResponse env oracleAddress

/-- `fetch_token_divisor`. -/
def fetchTokenDivisor (env : OracleEnv) (token : Address) : Except (Fault Error) I128 :=
  fetchDivisor maxTokenDecimals .invalidTokenResponse env token

/-- The loop of `install` over the allowed tokens. -/
def fetchTokenDivisors (env : OracleEnv) : List Address → Except (Fault Error) (List I128)
  | [] => pure []
  | token :: rest => do
      let divisor ← fetchTokenDivisor env token
      let divisors ← fetchTokenDivisors env rest
      pure (divisor :: divisors)

/-- `fetch_price`. -/
def fetchPrice (env : OracleEnv) (oracleAddress token : Address) :
    Except (Fault Error) PriceData := do
  let answer ← unwrapOr (env.lastprice oracleAddress (.stellar token)) .trap
  let priceData ← unwrapOr answer (.contract .invalidOracleResponse)
  ensure (¬ (priceData.price.val ≤ 0 ∨ env.timestamp < priceData.timestamp))
    (.contract .invalidOracleResponse)
  pure priceData

/-! ## Entrypoints -/

/-- `get_policy_data`. -/
def getPolicyData (contextRuleId : U32) (smartAccount : Address) (s : Entries PolicyData) :
    Except (Fault Error) PolicyData :=
  getEntry Error.notInstalled contextRuleId smartAccount s

/-- The parameter check of `install`. -/
def checkParams (params : AccountParams) : Except (Fault Error) Unit :=
  ensure (¬ (params.spendingLimitUsd.val ≤ 0 ∨ params.periodLedgers.val = 0 ∨
    params.allowedTokens = [])) (.contract .invalidInstallParams)

/-- The entry that `install` writes. -/
def initialData (env : OracleEnv) (params : AccountParams) : Except (Fault Error) PolicyData := do
  let usdDivisor ← fetchUsdDivisor env params.oracleAddress
  let tokenDivisors ← fetchTokenDivisors env params.allowedTokens
  pure
    { spendingLimitUsd := params.spendingLimitUsd
      periodLedgers := params.periodLedgers
      oracleAddress := params.oracleAddress
      usdDivisor := usdDivisor
      allowedTokens := params.allowedTokens
      tokenDivisors := tokenDivisors
      spendingHistory := []
      cachedTotalSpentUsd := 0 }

/-- `install`.  The policy publishes no events. -/
def install (env : OracleEnv) (params : AccountParams) (rule : ContextRule)
    (smartAccount : Address) (s : Entries PolicyData) :
    Except (Fault Error) (List Empty × Entries PolicyData) :=
  installEntry .invalidContextRule .alreadyInstalled (checkParams params)
    (initialData env params) [] env.toEnv rule smartAccount s

/-- `uninstall`. -/
def uninstall (env : OracleEnv) (rule : ContextRule) (smartAccount : Address)
    (s : Entries PolicyData) : Except (Fault Error) (List Empty × Entries PolicyData) :=
  uninstallEntry .notInstalled [] env.toEnv rule smartAccount s

/-- The `while let` loop of `cleanup_old_entries`. -/
def evict (cutoffLedger : U32) : List SpendingEntry → I128 → List SpendingEntry × I128
  | [], removedTotal => ([], removedTotal)
  | entry :: rest, removedTotal =>
      if entry.ledger ≤ cutoffLedger then
        evict cutoffLedger rest (removedTotal.saturatingAdd entry.amountUsd)
      else
        (entry :: rest, removedTotal)

/-- `cleanup_old_entries`: the history that is left and the amount removed. -/
def cleanupOldEntries (spendingHistory : List SpendingEntry) (currentLedger periodLedgers : U32) :
    List SpendingEntry × I128 :=
  evict (currentLedger.saturatingSub periodLedgers) spendingHistory 0

/-- The first part of `enforce`: the target and the amount of a `transfer`.
The amount of `transfer(from, to, amount)` is argument 2. -/
def parseTransfer : Context → Except (Fault Error) (Address × I128)
  | .contract c => do
      ensure (c.fnName = "transfer") (.contract .invalidTransferArgs)
      let amountVal ← unwrapOr c.args[2]? (.contract .invalidTransferArgs)
      let amount ← unwrapOr amountVal.toI128? (.contract .invalidTransferArgs)
      ensure (¬ amount.val < 0) (.contract .invalidTransferArgs)
      pure (c.contract, amount)
  | _ => throw (.contract .invalidTransferArgs)

/-- `amount * price / usd_divisor / token_divisor` with checked operations. -/
def convertToUsd (amount price usdDivisor tokenDivisor : I128) : Option I128 :=
  ((amount.checkedMul price).bind (fun v => v.checkedDiv usdDivisor)).bind
    (fun v => v.checkedDiv tokenDivisor)

/-- The second part of `enforce`: the price and the dollar value. -/
def priceTransfer (env : OracleEnv) (data : PolicyData) (target : Address) (amount : I128) :
    Except (Fault Error) I128 := do
  let tokenIdx ← unwrapOr (data.allowedTokens.idxOf? target) (.contract .tokenNotAllowed)
  let tokenDivisor ← unwrapOr data.tokenDivisors[tokenIdx]? (.contract .tokenNotAllowed)
  let priceData ← fetchPrice env data.oracleAddress target
  ensure (¬ maxStalenessLedgers * ledgerCloseTimeSecs <
    (env.timestamp.saturatingSub priceData.timestamp).val) (.contract .staleOraclePrice)
  unwrapOr (convertToUsd amount priceData.price data.usdDivisor tokenDivisor)
    (.contract .amountConversionOverflow)

/-- The third part of `enforce`: eviction, the cap, the capacity and the new
entry. -/
def recordSpend (data : PolicyData) (currentLedger : U32) (amountUsd : I128) :
    Except (Fault Error) PolicyData := do
  let cleaned := cleanupOldEntries data.spendingHistory currentLedger data.periodLedgers
  let total := data.cachedTotalSpentUsd.saturatingSub cleaned.2
  ensure (¬ data.spendingLimitUsd < total.saturatingAdd amountUsd)
    (.contract .spendingLimitExceeded)
  ensure (¬ maxHistoryEntries ≤ cleaned.1.length) (.contract .historyCapacityExceeded)
  pure
    { data with
      spendingHistory := cleaned.1 ++ [⟨amountUsd, currentLedger⟩]
      cachedTotalSpentUsd := total.saturatingAdd amountUsd }

/-- `enforce`.  The list of authenticated signers is not read. -/
def enforce (env : OracleEnv) (context : Context) (_authenticatedSigners : List Signer)
    (rule : ContextRule) (smartAccount : Address) (s : Entries PolicyData) :
    Except (Fault Error) (List Empty × Entries PolicyData) := do
  env.requireAuth smartAccount
  let transfer ← parseTransfer context
  let data ← getPolicyData rule.id smartAccount s
  let amountUsd ← priceTransfer env data transfer.1 transfer.2
  let data' ← recordSpend data env.sequence amountUsd
  pure ([], s.set ⟨smartAccount, rule.id⟩ data')

/-- The multi-token spending limit as a policy contract. -/
def contract : PolicyContract OracleEnv AccountParams PolicyData Error Empty PolicyData where
  install := install
  uninstall := uninstall
  enforce := enforce
  get := getPolicyData

theorem shape : contract.SharedShape OracleEnv.toEnv where
  install := fun _ _ _ _ => ⟨_, _, _, _, _, rfl⟩
  uninstall := fun _ _ _ => ⟨_, _, rfl⟩
  get := fun _ _ s t h => by simp only [contract, getPolicyData, getEntry, h]

/-! ## Inversion of the parts of `enforce` -/

theorem parseTransfer_eq_ok {context : Context} {target : Address} {amount : I128} :
    parseTransfer context = .ok (target, amount) ↔
      ∃ c, context = .contract c ∧ c.contract = target ∧ c.fnName = "transfer" ∧
        c.args[2]? = some (.i128 amount) ∧ 0 ≤ amount.val := by
  cases context with
  | contract c =>
    simp only [parseTransfer, bind_eq_ok, ensure_eq_ok, unwrapOr_eq_ok, pure_eq_ok, exists_const,
      Val.toI128?_eq_some, Prod.mk.injEq, not_lt, Context.contract.injEq, exists_eq_left']
    constructor
    · intro h
      rcases h with ⟨hname, v, hv, a, rfl, hpos, htarget, rfl⟩
      exact ⟨htarget, hname, hv, hpos⟩
    · intro h
      rcases h with ⟨htarget, hname, hv, hpos⟩
      exact ⟨hname, _, hv, amount, rfl, hpos, htarget, rfl⟩
  | createContractHostFn => simp [parseTransfer, throw_ne_ok]
  | createContractWithCtorHostFn => simp [parseTransfer, throw_ne_ok]

theorem fetchPrice_eq_ok {env : OracleEnv} {oracle token : Address} {pd : PriceData} :
    fetchPrice env oracle token = .ok pd ↔
      env.lastprice oracle (.stellar token) = some (some pd) ∧ 0 < pd.price.val ∧
        pd.timestamp.val ≤ env.timestamp.val := by
  simp only [fetchPrice, bind_eq_ok, ensure_eq_ok, unwrapOr_eq_ok, pure_eq_ok, exists_const,
    not_or, not_le, not_lt, Bounded.le_def]
  constructor
  · intro h
    rcases h with ⟨_, hanswer, pd', rfl, ⟨hprice, htime⟩, rfl⟩
    exact ⟨hanswer, hprice, htime⟩
  · intro h
    rcases h with ⟨hanswer, hprice, htime⟩
    exact ⟨some pd, hanswer, pd, rfl, ⟨hprice, htime⟩, rfl⟩

theorem convertToUsd_eq_some {amount price usdDivisor tokenDivisor usd : I128} :
    convertToUsd amount price usdDivisor tokenDivisor = some usd ↔
      ∃ v : I128, v.val = amount.val * price.val ∧ usdDivisor.val ≠ 0 ∧
        ∃ w : I128, w.val = v.val.tdiv usdDivisor.val ∧ tokenDivisor.val ≠ 0 ∧
          usd.val = w.val.tdiv tokenDivisor.val := by
  simp only [convertToUsd, Option.bind_eq_some_iff, Bounded.checkedMul_eq_some,
    Bounded.checkedDiv_eq_some]
  constructor
  · intro h
    rcases h with ⟨w, ⟨v, hv, hu, hw⟩, ht, husd⟩
    exact ⟨v, hv, hu, w, hw, ht, husd⟩
  · intro h
    rcases h with ⟨v, hv, hu, w, hw, ht, husd⟩
    exact ⟨w, ⟨v, hv, hu, hw⟩, ht, husd⟩

/-- A price is fresh when it is at most 500 seconds old. -/
theorem not_stale_iff {now timestamp : U64} (h : timestamp.val ≤ now.val) :
    ¬ maxStalenessLedgers * ledgerCloseTimeSecs < (now.saturatingSub timestamp).val ↔
      now.val - 500 ≤ timestamp.val := by
  have hnow := now.le_hi
  have htime := timestamp.lo_le
  rw [Bounded.val_saturatingSub, maxStalenessLedgers, ledgerCloseTimeSecs]
  omega

theorem priceTransfer_eq_ok {env : OracleEnv} {data : PolicyData} {target : Address}
    {amount usd : I128} :
    priceTransfer env data target amount = .ok usd ↔
      ∃ idx divisor pd, data.allowedTokens.idxOf? target = some idx ∧
        data.tokenDivisors[idx]? = some divisor ∧
        env.lastprice data.oracleAddress (.stellar target) = some (some pd) ∧
        0 < pd.price.val ∧ env.timestamp.val - 500 ≤ pd.timestamp.val ∧
        pd.timestamp.val ≤ env.timestamp.val ∧
        convertToUsd amount pd.price data.usdDivisor divisor = some usd := by
  simp only [priceTransfer, bind_eq_ok, ensure_eq_ok, unwrapOr_eq_ok, exists_const,
    fetchPrice_eq_ok]
  constructor
  · intro h
    rcases h with ⟨idx, hidx, divisor, hdiv, pd, ⟨hprice, hpos, htime⟩, hfresh, hconv⟩
    exact ⟨idx, divisor, pd, hidx, hdiv, hprice, hpos, (not_stale_iff htime).mp hfresh, htime,
      hconv⟩
  · intro h
    rcases h with ⟨idx, divisor, pd, hidx, hdiv, hprice, hpos, hfresh, htime, hconv⟩
    exact ⟨idx, hidx, divisor, hdiv, pd, ⟨hprice, hpos, htime⟩, (not_stale_iff htime).mpr hfresh,
      hconv⟩

/-- The state that an accepted spend leaves. -/
theorem recordSpend_eq_ok {data data' : PolicyData} {currentLedger : U32} {usd : I128} :
    recordSpend data currentLedger usd = .ok data' ↔
      (data.cachedTotalSpentUsd.saturatingSub
          (cleanupOldEntries data.spendingHistory currentLedger data.periodLedgers).2).saturatingAdd
        usd ≤ data.spendingLimitUsd ∧
      (cleanupOldEntries data.spendingHistory currentLedger data.periodLedgers).1.length < 1000 ∧
      data' = { data with
        spendingHistory :=
          (cleanupOldEntries data.spendingHistory currentLedger data.periodLedgers).1 ++
            [⟨usd, currentLedger⟩]
        cachedTotalSpentUsd := (data.cachedTotalSpentUsd.saturatingSub
          (cleanupOldEntries data.spendingHistory currentLedger data.periodLedgers).2).saturatingAdd
            usd } := by
  simp only [recordSpend, bind_eq_ok, ensure_eq_ok, pure_eq_ok, exists_const, not_lt, not_le,
    maxHistoryEntries]
  exact and_congr_right fun _ => and_congr_right fun _ => eq_comm

/-- `enforce` accepts when each of its parts does. -/
theorem enforce_eq_ok {env : OracleEnv} {context : Context} {signers : List Signer}
    {rule : ContextRule} {account : Address} {s s' : Entries PolicyData} {es : List Empty} :
    enforce env context signers rule account s = .ok (es, s') ↔
      env.auth account = true ∧ ∃ target amount data usd data',
        parseTransfer context = .ok (target, amount) ∧
        s ⟨account, rule.id⟩ = some data ∧ priceTransfer env data target amount = .ok usd ∧
        recordSpend data env.sequence usd = .ok data' ∧ es = [] ∧
        s' = s.set ⟨account, rule.id⟩ data' := by
  unfold enforce getPolicyData getEntry
  rw [requireAuth_bind_eq_ok]
  refine and_congr_right fun _ => ?_
  simp only [bind_eq_ok, unwrapOr_eq_ok, pure_eq_ok, Prod.mk.injEq]
  constructor
  · intro h
    rcases h with ⟨⟨target, amount⟩, hparse, data, hdata, usd, husd, data', hrecord, rfl, rfl⟩
    exact ⟨target, amount, data, usd, data', hparse, hdata, husd, hrecord, rfl, rfl⟩
  · intro h
    rcases h with ⟨target, amount, data, usd, data', hparse, hdata, husd, hrecord, rfl, rfl⟩
    exact ⟨(target, amount), hparse, data, hdata, usd, husd, data', hrecord, rfl, rfl⟩

end LatchContracts.Policies.MultiToken
