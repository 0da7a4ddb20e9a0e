import LatchContracts.Policies.MultiToken.Consistency

/-!
# The dollar value of a transfer

`enforce` turns an amount of a token's smallest unit into whole dollars with one
product and two truncating divisions, by the divisors that `install` cached.
`usd_conversion_exact` says that the result is the floor of the exact value:
the divisor that the lookup finds is the token's own power of ten, the second
truncation adds no error, and a product that leaves the type is an error and
never a wrong value.

The value then depends on the amount, the price and the two precisions only
through `amount * price / 10 ^ (oracle decimals + token decimals)`, which is
what the rest of the module draws from it.  A change of the precision that
rescales the price or the amount with it changes nothing, the value is monotone,
and cutting a transfer into two loses at most one dollar.
-/

namespace LatchContracts.Policies.MultiToken

open LatchContracts.Lib LatchContracts.Host

/-! ## What an installation leaves in storage -/

/-- `data` is stored under a key in some state after an installation of that key
with `params`, which met `env₀`, and before the key is uninstalled. -/
def StoredBy (env₀ : OracleEnv) (params : AccountParams) (data : PolicyData) : Prop :=
  ∃ (rule : ContextRule) (account : Address) (s₀ s₁ : Entries PolicyData)
    (r : Reply Empty PolicyData) (is : List Input),
    contract.exec ⟨env₀, .install params rule account⟩ s₀ = .ok (r, s₁) ∧
      (∀ c ∈ trace contract.exec is s₁, ¬ Removes ⟨account, rule.id⟩ c) ∧
      run contract.exec is s₁ ⟨account, rule.id⟩ = some data

/-- The decimals that a contract reported are an answer within the bound. -/
def ReportsWithin (env : OracleEnv) (contract : Address) (bound : ℤ) : Prop :=
  ∃ decimals, env.decimals contract = some decimals ∧ decimals.val ≤ bound ∧
    decimals.val.toNat = reportedDecimals env contract

theorem fetchDivisor_reports {maxDecimals : ℤ} {invalid : Error} {env : OracleEnv}
    {contract : Address} {divisor : I128}
    (h : fetchDivisor maxDecimals invalid env contract = .ok divisor) :
    ReportsWithin env contract maxDecimals := by
  simp only [fetchDivisor, bind_eq_ok, ensure_eq_ok, unwrapOr_eq_ok, exists_const, not_lt] at h
  obtain ⟨decimals, hdecimals, hbound, _⟩ := h
  refine ⟨decimals, hdecimals, hbound, ?_⟩
  rw [reportedDecimals, hdecimals]
  rfl

theorem fetchTokenDivisors_reports {env : OracleEnv} {tokens : List Address}
    {divisors : List I128} (h : fetchTokenDivisors env tokens = .ok divisors) :
    ∀ token ∈ tokens, ReportsWithin env token maxTokenDecimals := by
  induction tokens generalizing divisors with
  | nil => simp
  | cons token rest ih =>
    simp only [fetchTokenDivisors, bind_eq_ok, pure_eq_ok] at h
    obtain ⟨divisor, hdivisor, others, hothers, _⟩ := h
    exact List.forall_mem_cons.mpr ⟨fetchDivisor_reports hdivisor, ih hothers⟩

/-- A charge changes neither the terms nor the divisors. -/
theorem recordSpend_agrees {terms : Terms} {data data' : PolicyData} {t : U32} {usd : I128}
    (h : Agrees terms data) (hrecord : recordSpend data t usd = .ok data') :
    Agrees terms data' := by
  obtain ⟨_, _, rfl⟩ := recordSpend_eq_ok.mp hrecord
  exact ⟨h.limit, h.period, h.oracle, h.usdDivisor, h.tokens, h.tokenDivisor⟩

namespace StoredBy

variable {env₀ : OracleEnv} {params : AccountParams} {data : PolicyData}

/-- Stored data carries the terms of its installation. -/
theorem agrees (h : StoredBy env₀ params data) : Agrees (params.terms env₀) data := by
  obtain ⟨rule, account, s₀, s₁, r, is, hinstall, hkeep, hdata⟩ := h
  obtain ⟨es, _, hx⟩ := reply_eq_ok.mp hinstall
  obtain ⟨_, _, _, _, data₀, hinitial, _, rfl⟩ := installEntry_eq_ok.mp hx
  have hrun := run_keeps (Store.set_self s₀ _ data₀) (initialData_agrees hinitial) hkeep
    (fun c _ d usd d' hc hd => recordSpend_agrees hd hc.recorded)
  obtain ⟨data', hdata', hagrees⟩ := hrun
  obtain rfl : data' = data := Option.some.inj (hdata'.symm.trans hdata)
  exact hagrees

/-- The oracle and every allowed token reported decimals within the bounds. -/
theorem reports (h : StoredBy env₀ params data) :
    ReportsWithin env₀ params.oracleAddress 30 ∧
      ∀ token ∈ params.allowedTokens, ReportsWithin env₀ token 20 := by
  obtain ⟨rule, account, s₀, s₁, r, is, hinstall, _, _⟩ := h
  obtain ⟨es, _, hx⟩ := reply_eq_ok.mp hinstall
  obtain ⟨_, _, _, _, data₀, hinitial, _, _⟩ := installEntry_eq_ok.mp hx
  simp only [initialData, bind_eq_ok, pure_eq_ok] at hinitial
  obtain ⟨usdDivisor, husd, divisors, hdivisors, _⟩ := hinitial
  exact ⟨fetchDivisor_reports husd, fetchTokenDivisors_reports hdivisors⟩

end StoredBy

/-! ## The conversion -/

/-- The oracle answers `price` for the token, and the answer passes the checks of
`enforce`. -/
def Quotes (env : OracleEnv) (data : PolicyData) (token : Address) (price : I128) : Prop :=
  ∃ timestamp, env.lastprice data.oracleAddress (.stellar token) = some (some ⟨price, timestamp⟩) ∧
    0 < price.val ∧ env.timestamp.val - 500 ≤ timestamp.val ∧ timestamp.val ≤ env.timestamp.val

/-- The product of the amount and the price fits an `i128`. -/
def Fits (amount price : I128) : Prop := amount.val * price.val ≤ 2 ^ 127 - 1

theorem Quotes.price_pos {env : OracleEnv} {data : PolicyData} {token : Address} {price : I128}
    (h : Quotes env data token price) : 0 < price.val := by
  obtain ⟨_, _, hpos, _, _⟩ := h
  exact hpos

theorem exists_checkedDiv_of_nonneg {v divisor : I128} (hv : 0 ≤ v.val) (hd : 0 < divisor.val) :
    ∃ w, v.checkedDiv divisor = some w ∧ 0 ≤ w.val := by
  have hle : v.val / divisor.val ≤ v.val := Int.ediv_le_self _ hv
  have hnonneg : 0 ≤ v.val / divisor.val := Int.ediv_nonneg hv hd.le
  have htop : v.val ≤ 2 ^ 127 - 1 := v.le_hi
  have hrange : -2 ^ 127 ≤ v.val / divisor.val := by omega
  refine ⟨⟨v.val / divisor.val, hrange, by omega⟩, ?_, hnonneg⟩
  exact Bounded.checkedDiv_eq_some.mpr ⟨hd.ne', (Int.tdiv_eq_ediv_of_nonneg hv).symm⟩

section Convert

variable {terms : Terms} {env : OracleEnv} {data : PolicyData} {token : Address}
  {price amount : I128}

/-- The lookup finds the token's own divisor, and pricing comes down to the
conversion. -/
theorem priceTransfer_eq (h : Agrees terms data) (htoken : token ∈ terms.tokens)
    (hquote : Quotes env data token price) (amount : I128) :
    ∃ divisor : I128, divisor.val = 10 ^ terms.tokenDecimals token ∧
      priceTransfer env data token amount =
        unwrapOr (convertToUsd amount price data.usdDivisor divisor)
          (.contract .amountConversionOverflow) := by
  obtain ⟨idx, hidx⟩ := Option.isSome_iff_exists.mp (List.isSome_idxOf?.mpr htoken)
  obtain ⟨divisor, hdivisor, hval⟩ := h.tokenDivisor hidx
  obtain ⟨timestamp, hanswer, hpos, hold, hfuture⟩ := hquote
  have hprice : fetchPrice env data.oracleAddress token = .ok ⟨price, timestamp⟩ :=
    fetchPrice_eq_ok.mpr ⟨hanswer, hpos, hfuture⟩
  have hfresh := (not_stale_iff hfuture).mpr hold
  refine ⟨divisor, hval, ?_⟩
  rw [priceTransfer, h.tokens, hidx, unwrapOr_some_bind, hdivisor, unwrapOr_some_bind, hprice]
  exact ensure_true_bind hfresh

/-- A product that fits is converted to the floor of the exact value. -/
theorem priceTransfer_of_fits (h : Agrees terms data) (htoken : token ∈ terms.tokens)
    (hquote : Quotes env data token price) (hamount : 0 ≤ amount.val)
    (hfits : Fits amount price) :
    ∃ usd : I128, priceTransfer env data token amount = .ok usd ∧
      usd.val =
        amount.val * price.val / 10 ^ (terms.oracleDecimals + terms.tokenDecimals token) := by
  obtain ⟨divisor, hval, heq⟩ := priceTransfer_eq h htoken hquote amount
  have hpos : 0 < price.val := hquote.price_pos
  have husdDivisor : 0 < data.usdDivisor.val := by rw [h.usdDivisor]; positivity
  have hdivisor : 0 < divisor.val := by rw [hval]; positivity
  have hproduct : 0 ≤ amount.val * price.val := mul_nonneg hamount hpos.le
  have hscale : (0 : ℤ) ≤ 10 ^ (terms.oracleDecimals + terms.tokenDecimals token) := by positivity
  have hnonneg := Int.ediv_nonneg hproduct hscale
  have hle := Int.ediv_le_self (10 ^ (terms.oracleDecimals + terms.tokenDecimals token)) hproduct
  have htop : amount.val * price.val ≤ 2 ^ 127 - 1 := hfits
  refine ⟨⟨_, by omega, hle.trans htop⟩, ?_, rfl⟩
  rw [heq, unwrapOr_eq_ok, convertToUsd_iff hamount hpos husdDivisor hdivisor]
  refine ⟨hfits, ?_⟩
  rw [hval, h.usdDivisor, ← pow_add]

/-- A product that does not fit is refused. -/
theorem priceTransfer_of_not_fits (h : Agrees terms data) (htoken : token ∈ terms.tokens)
    (hquote : Quotes env data token price) (hamount : 0 ≤ amount.val)
    (hfits : ¬ Fits amount price) :
    priceTransfer env data token amount = .error (.contract .amountConversionOverflow) := by
  obtain ⟨divisor, hval, heq⟩ := priceTransfer_eq h htoken hquote amount
  have hpos : 0 < price.val := hquote.price_pos
  have husdDivisor : 0 < data.usdDivisor.val := by rw [h.usdDivisor]; positivity
  have hdivisor : 0 < divisor.val := by rw [hval]; positivity
  have hnone : convertToUsd amount price data.usdDivisor divisor = none := by
    apply Option.eq_none_iff_forall_ne_some.mpr
    intro usd husd
    exact hfits ((convertToUsd_iff hamount hpos husdDivisor hdivisor).mp husd).1
  rw [heq, hnone]
  rfl

end Convert

/-- After authorization and parsing, `enforce` prices the transfer and records
the charge. -/
theorem enforce_eq_price {env : OracleEnv} {context : Context} {rule : ContextRule}
    {account token : Address} {s : Entries PolicyData} {data : PolicyData} {amount : I128}
    (hauth : env.auth account = true) (hparse : parseTransfer context = .ok (token, amount))
    (hdata : s ⟨account, rule.id⟩ = some data) (signers : List Signer) :
    enforce env context signers rule account s =
      (priceTransfer env data token amount >>= fun usd =>
        (recordSpend data env.sequence usd).map fun data' =>
          ([], s.set ⟨account, rule.id⟩ data')) := by
  have hrequire : env.requireAuth account = (.ok () : Except (Fault Error) Unit) := by
    rw [Env.requireAuth, ensure_eq_ok]
    exact hauth
  have hget : getPolicyData rule.id account s = .ok data := unwrapOr_eq_ok.mpr hdata
  unfold enforce
  rw [hrequire, hparse, hget]
  show (priceTransfer env data token amount >>= fun usd => recordSpend data env.sequence usd >>=
    fun data' => pure ([], s.set ⟨account, rule.id⟩ data')) = _
  rfl

/-! ## The result -/

section Result

variable (env₀ : OracleEnv) (params : AccountParams) (data : PolicyData) (token : Address)

/-- The whole-dollar value of `amount` at `price`, at the precisions that the
oracle and the token reported. -/
def floorUsd (amount price : I128) : ℤ :=
  amount.val * price.val /
    10 ^ (reportedDecimals env₀ params.oracleAddress + reportedDecimals env₀ token)

/-- Wherever the token stands in the list, the lookup finds a divisor that is its
own power of ten, and neither division fails. -/
def FindsDivisor : Prop :=
  ∀ i, params.allowedTokens[i]? = some token →
    ∃ idx divisor, idx ≤ i ∧ data.allowedTokens.idxOf? token = some idx ∧
      data.tokenDivisors[idx]? = some divisor ∧
      divisor.val = 10 ^ reportedDecimals env₀ token ∧
      ∀ product : I128, 0 ≤ product.val → ∃ quotient usd,
        product.checkedDiv data.usdDivisor = some quotient ∧
          quotient.checkedDiv divisor = some usd

/-- An `enforce` call computes the floor of the exact value, or fails with
`AmountConversionOverflow` when the product does not fit. -/
def ConvertsExactly : Prop :=
  ∀ (env : OracleEnv) (context : Context) (signers : List Signer) (rule : ContextRule)
    (account : Address) (s : Entries PolicyData) (amount price : I128),
    env.auth account = true → parseTransfer context = .ok (token, amount) →
    s ⟨account, rule.id⟩ = some data → Quotes env data token price →
      (Fits amount price → ∃ usd : I128, usd.val = floorUsd env₀ params token amount price ∧
        priceTransfer env data token amount = .ok usd ∧
        enforce env context signers rule account s =
          (recordSpend data env.sequence usd).map fun data' =>
            ([], s.set ⟨account, rule.id⟩ data')) ∧
      (¬ Fits amount price →
        enforce env context signers rule account s =
          .error (.contract .amountConversionOverflow))

/-- Another installation with `j` more oracle decimals, at a price with `j` more
zeros, and a token with `k` more decimals, for an amount with `k` more zeros,
gives the same value. -/
def RescalesInvariantly : Prop :=
  ∀ (env₀' : OracleEnv) (params' : AccountParams) (data' : PolicyData) (token' : Address)
    (j k : ℕ), StoredBy env₀' params' data' → token' ∈ params'.allowedTokens →
    reportedDecimals env₀' params'.oracleAddress =
      reportedDecimals env₀ params.oracleAddress + j →
    reportedDecimals env₀' token' = reportedDecimals env₀ token + k →
    ∀ (env env' : OracleEnv) (amount amount' price price' : I128),
      Quotes env data token price → Quotes env' data' token' price' → 0 ≤ amount.val →
      amount'.val = amount.val * 10 ^ k → price'.val = price.val * 10 ^ j →
      Fits amount' price' →
        ∃ usd, priceTransfer env data token amount = .ok usd ∧
          priceTransfer env' data' token' amount' = .ok usd

/-- A larger amount or a higher price has no lower value. -/
def MonotoneValue : Prop :=
  ∀ (env env' : OracleEnv) (amount amount' price price' : I128),
    Quotes env data token price → Quotes env' data token price' → 0 ≤ amount.val →
    amount ≤ amount' → price ≤ price' → Fits amount' price' →
      ∃ usd usd', priceTransfer env data token amount = .ok usd ∧
        priceTransfer env' data token amount' = .ok usd' ∧ usd ≤ usd'

/-- The values of two transfers add up to the value of one transfer of both
amounts, or to one dollar less. -/
def SplitsWithinOne : Prop :=
  ∀ (env : OracleEnv) (a b sum price : I128),
    Quotes env data token price → 0 ≤ a.val → 0 ≤ b.val → sum.val = a.val + b.val →
    Fits sum price →
      ∃ usdA usdB usd, priceTransfer env data token a = .ok usdA ∧
        priceTransfer env data token b = .ok usdB ∧
        priceTransfer env data token sum = .ok usd ∧
        usdA.val + usdB.val ≤ usd.val ∧ usd.val ≤ usdA.val + usdB.val + 1

variable {env₀ params data token}

theorem StoredBy.findsDivisor (h : StoredBy env₀ params data) :
    FindsDivisor env₀ params data token := by
  have hagrees := h.agrees
  intro i hi
  have htokens : data.allowedTokens = params.allowedTokens := hagrees.tokens
  have hmem : token ∈ params.allowedTokens := List.mem_of_getElem? hi
  obtain ⟨idx, hidx⟩ := Option.isSome_iff_exists.mp (List.isSome_idxOf?.mpr hmem)
  obtain ⟨divisor, hdivisor, hval⟩ := hagrees.tokenDivisor hidx
  -- the first position of the token is at most any other one
  have hfirst : idx ≤ i := by
    obtain ⟨_, _, hbefore⟩ := List.findIdx?_eq_some_iff_getElem.mp hidx
    by_contra hlt
    obtain ⟨hlen, htoken⟩ := List.getElem?_eq_some_iff.mp hi
    exact hbefore i (by omega) (beq_iff_eq.mpr htoken)
  have husdDivisor : 0 < data.usdDivisor.val := by rw [hagrees.usdDivisor]; positivity
  have hpos : 0 < divisor.val := by rw [hval]; positivity
  refine ⟨idx, divisor, hfirst, by rw [htokens]; exact hidx, hdivisor, hval, ?_⟩
  intro product hproduct
  obtain ⟨quotient, hquotient, hnonneg⟩ := exists_checkedDiv_of_nonneg hproduct husdDivisor
  obtain ⟨usd, husd, _⟩ := exists_checkedDiv_of_nonneg hnonneg hpos
  exact ⟨quotient, usd, hquotient, husd⟩

theorem StoredBy.convertsExactly (h : StoredBy env₀ params data)
    (htoken : token ∈ params.allowedTokens) : ConvertsExactly env₀ params data token := by
  intro env context signers rule account s amount price hauth hparse hdata hquote
  obtain ⟨_, _, _, _, _, hamount⟩ := parseTransfer_eq_ok.mp hparse
  have henforce := enforce_eq_price hauth hparse hdata signers
  constructor
  · intro hfits
    obtain ⟨usd, hprice, hval⟩ := priceTransfer_of_fits h.agrees htoken hquote hamount hfits
    refine ⟨usd, hval, hprice, ?_⟩
    rw [henforce, hprice]
    rfl
  · intro hfits
    rw [henforce, priceTransfer_of_not_fits h.agrees htoken hquote hamount hfits]
    rfl

/-- The value of a transfer whose product fits. -/
theorem StoredBy.value (h : StoredBy env₀ params data) (htoken : token ∈ params.allowedTokens)
    {env : OracleEnv} {amount price : I128} (hquote : Quotes env data token price)
    (hamount : 0 ≤ amount.val) (hfits : Fits amount price) :
    ∃ usd : I128, priceTransfer env data token amount = .ok usd ∧
      usd.val = floorUsd env₀ params token amount price :=
  priceTransfer_of_fits h.agrees htoken hquote hamount hfits

theorem StoredBy.rescalesInvariantly (h : StoredBy env₀ params data)
    (htoken : token ∈ params.allowedTokens) : RescalesInvariantly env₀ params data token := by
  intro env₀' params' data' token' j k h' htoken' hj hk env env' amount amount' price price'
    hquote hquote' hamount hamount' hprice' hfits'
  have hpos : 0 < price.val := hquote.price_pos
  have hproduct : amount'.val * price'.val = amount.val * price.val * 10 ^ (j + k) := by
    rw [hamount', hprice', pow_add]
    ring
  have hnonneg : 0 ≤ amount.val * price.val := mul_nonneg hamount hpos.le
  have hscale : (1 : ℤ) ≤ 10 ^ (j + k) := one_le_pow₀ (by norm_num)
  -- the smaller product fits as well
  have hfits : Fits amount price := by
    have hle : amount.val * price.val ≤ amount'.val * price'.val := by
      rw [hproduct]
      exact le_mul_of_one_le_right hnonneg hscale
    exact hle.trans hfits'
  have hamount'' : 0 ≤ amount'.val := by
    rw [hamount']
    positivity
  obtain ⟨usd, husd, hval⟩ := h.value htoken hquote hamount hfits
  obtain ⟨usd', husd', hval'⟩ := h'.value htoken' hquote' hamount'' hfits'
  have hexponent : reportedDecimals env₀' params'.oracleAddress + reportedDecimals env₀' token' =
      reportedDecimals env₀ params.oracleAddress + reportedDecimals env₀ token + (j + k) := by
    omega
  have hsame : usd' = usd := by
    apply Bounded.ext
    rw [hval, hval', floorUsd, floorUsd, hproduct, hexponent, pow_add _ _ (j + k)]
    exact Int.mul_ediv_mul_of_pos_left _ _ (by omega)
  exact ⟨usd, husd, hsame ▸ husd'⟩

theorem StoredBy.monotoneValue (h : StoredBy env₀ params data)
    (htoken : token ∈ params.allowedTokens) : MonotoneValue data token := by
  intro env env' amount amount' price price' hquote hquote' hamount hle hlePrice hfits'
  have hpos : 0 < price.val := hquote.price_pos
  have hproduct : amount.val * price.val ≤ amount'.val * price'.val :=
    mul_le_mul hle hlePrice hpos.le (hamount.trans hle)
  obtain ⟨usd, husd, hval⟩ := h.value htoken hquote hamount (hproduct.trans hfits')
  obtain ⟨usd', husd', hval'⟩ := h.value htoken hquote' (hamount.trans hle) hfits'
  refine ⟨usd, usd', husd, husd', ?_⟩
  rw [Bounded.le_def, hval, hval']
  exact Int.ediv_le_ediv (by positivity) hproduct

theorem StoredBy.splitsWithinOne (h : StoredBy env₀ params data)
    (htoken : token ∈ params.allowedTokens) : SplitsWithinOne data token := by
  intro env a b sum price hquote ha hb hsum hfits
  have hpos : 0 < price.val := hquote.price_pos
  have hproduct : sum.val * price.val = a.val * price.val + b.val * price.val := by
    rw [hsum]
    ring
  have hpa : 0 ≤ a.val * price.val := mul_nonneg ha hpos.le
  have hpb : 0 ≤ b.val * price.val := mul_nonneg hb hpos.le
  have htop : sum.val * price.val ≤ 2 ^ 127 - 1 := hfits
  have hfitsA : Fits a price := by
    unfold Fits
    omega
  have hfitsB : Fits b price := by
    unfold Fits
    omega
  obtain ⟨usdA, husdA, hvalA⟩ := h.value htoken hquote ha hfitsA
  obtain ⟨usdB, husdB, hvalB⟩ := h.value htoken hquote hb hfitsB
  obtain ⟨usd, husd, hval⟩ := h.value htoken hquote (by omega) hfits
  refine ⟨usdA, usdB, usd, husdA, husdB, husd, ?_⟩
  rw [hval, hvalA, hvalB, floorUsd, floorUsd, floorUsd, hproduct,
    Int.add_ediv_of_pos (by positivity)]
  split <;> omega

/-- For every stored configuration and every allowed token, `enforce` computes
the floor of the exact dollar value or fails with `AmountConversionOverflow`,
and the value does not depend on how the precision is represented. -/
theorem usd_conversion_exact (hstored : StoredBy env₀ params data)
    (htoken : token ∈ params.allowedTokens) :
    ReportsWithin env₀ params.oracleAddress 30 ∧ ReportsWithin env₀ token 20 ∧
      FindsDivisor env₀ params data token ∧ ConvertsExactly env₀ params data token ∧
      RescalesInvariantly env₀ params data token ∧ MonotoneValue data token ∧
      SplitsWithinOne data token := by
  obtain ⟨horacle, htokens⟩ := hstored.reports
  exact ⟨horacle, htokens token htoken, hstored.findsDivisor, hstored.convertsExactly htoken,
    hstored.rescalesInvariantly htoken, hstored.monotoneValue htoken,
    hstored.splitsWithinOne htoken⟩

end Result

/-- The data that the sample installation stores. -/
def sampleData : PolicyData where
  spendingLimitUsd := 100
  periodLedgers := 10
  oracleAddress := sampleOracle
  usdDivisor := 10
  allowedTokens := [sampleToken]
  tokenDivisors := [10]
  spendingHistory := []
  cachedTotalSpentUsd := 0

theorem sample_stored : StoredBy sampleEnv sampleParams sampleData :=
  ⟨sampleRule, sampleAccount, Store.empty, sampleInstalled, .events [], [], sample_install,
    by simp [trace], rfl⟩

/-- 3.0 units at 2.5 dollars are 7 whole dollars. -/
theorem usd_conversion_exact_sample :
    ∃ usd : I128, usd.val = 7 ∧
      priceTransfer sampleEnv sampleData sampleToken sampleAmount = .ok usd := by
  have hexact := usd_conversion_exact sample_stored (List.mem_singleton_self sampleToken)
  have hquote : Quotes sampleEnv sampleData sampleToken 25 :=
    ⟨900, rfl, by decide, by decide, by decide⟩
  have hconverts := hexact.2.2.2.1 sampleEnv (.contract sampleTransfer) [] sampleRule sampleAccount
    sampleInstalled sampleAmount 25 rfl rfl rfl hquote
  have hfits : Fits sampleAmount 25 := by
    unfold Fits
    decide
  obtain ⟨usd, hval, hprice, _⟩ := hconverts.1 hfits
  exact ⟨usd, hval, hprice⟩

end LatchContracts.Policies.MultiToken
