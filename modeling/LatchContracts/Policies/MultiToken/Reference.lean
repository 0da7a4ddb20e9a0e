import LatchContracts.Policies.MultiToken.Model
import LatchContracts.Lib.Window

/-!
# The reference policy for the spending limit

The policy keeps a running total and evicts old entries when a call succeeds.
The reference policy keeps the complete log of the accepted transfers since the
installation, never evicts, and adds up the window from scratch at every call,
over unbounded integers.

`Terms` is what an installation fixes, `requested` is the charge that a context
asks for when it is a well-formed and priced transfer, and `fits` is the check
against the log.  `Reference.log` runs the policy over the inputs that address
one key.
-/

namespace LatchContracts.Policies.MultiToken

open LatchContracts.Lib LatchContracts.Host

/-- The terms of an installation: the cap, the window, and the precisions that
the oracle and the tokens report. -/
structure Terms where
  limit : ℤ
  period : ℤ
  oracle : Address
  oracleDecimals : ℕ
  tokens : List Address
  tokenDecimals : Address → ℕ

/-- The decimals that a contract reports. -/
def reportedDecimals (env : OracleEnv) (contract : Address) : ℕ :=
  ((env.decimals contract).map (fun d => d.val.toNat)).getD 0

/-- The terms of an installation with `params`, under the answers in `env`. -/
def AccountParams.terms (params : AccountParams) (env : OracleEnv) : Terms where
  limit := params.spendingLimitUsd.val
  period := params.periodLedgers.val
  oracle := params.oracleAddress
  oracleDecimals := reportedDecimals env params.oracleAddress
  tokens := params.allowedTokens
  tokenDecimals := reportedDecimals env

namespace Terms

variable (terms : Terms)

/-- The number that a priced transfer of `token` is divided by. -/
def divisor (token : Address) : ℤ := 10 ^ terms.oracleDecimals * 10 ^ terms.tokenDecimals token

/-- The whole-dollar value of a transfer. -/
def usd (token : Address) (amount price : ℤ) : ℤ := amount * price / terms.divisor token

/-- The exact dollar value of a transfer. -/
def exactUsd (token : Address) (amount price : ℤ) : ℚ :=
  (amount * price : ℚ) / (10 ^ terms.oracleDecimals * 10 ^ terms.tokenDecimals token)

/-- The context is a `transfer` of `amount` of the allowed token `c.contract`,
and the oracle answers the price `pd`, which is positive, at most 500 seconds
old and not in the future. -/
structure Asks (env : OracleEnv) (context : Context) (c : ContractContext) (amount : I128)
    (pd : PriceData) : Prop where
  call : context = .contract c
  name : c.fnName = "transfer"
  amount_arg : c.args[2]? = some (.i128 amount)
  amount_nonneg : 0 ≤ amount.val
  allowed : c.contract ∈ terms.tokens
  answer : env.lastprice terms.oracle (.stellar c.contract) = some (some pd)
  price_pos : 0 < pd.price.val
  not_old : env.timestamp.val - 500 ≤ pd.timestamp.val
  not_future : pd.timestamp.val ≤ env.timestamp.val
  product_fits : amount.val * pd.price.val ≤ 2 ^ 127 - 1

/-- The charge that a context asks for. -/
def requested (env : OracleEnv) (context : Context) : Option Charge :=
  match context with
  | .contract c =>
    match c.args[2]?, env.lastprice terms.oracle (.stellar c.contract) with
    | some (Val.i128 amount), some (some pd) =>
      if c.fnName = "transfer" ∧ 0 ≤ amount.val ∧ c.contract ∈ terms.tokens ∧
          0 < pd.price.val ∧ env.timestamp.val - 500 ≤ pd.timestamp.val ∧
          pd.timestamp.val ≤ env.timestamp.val ∧ amount.val * pd.price.val ≤ 2 ^ 127 - 1 then
        some ⟨env.sequence.val, terms.usd c.contract amount.val pd.price.val⟩
      else none
    | _, _ => none
  | _ => none

/-- The charge fits the window: the log of the last `period` ledgers leaves room
for its amount and for one more entry. -/
def fits (log : List Charge) (c : Charge) : Prop :=
  Charge.total (Charge.trailing terms.period c.time log) + c.amount ≤ terms.limit ∧
    (Charge.trailing terms.period c.time log).length < maxHistoryEntries

instance (log : List Charge) (c : Charge) : Decidable (terms.fits log c) :=
  inferInstanceAs (Decidable (_ ∧ _))

theorem divisor_pos (token : Address) : 0 < terms.divisor token := by
  unfold divisor
  positivity

theorem requested_eq_some {env : OracleEnv} {context : Context} {ch : Charge} :
    terms.requested env context = some ch ↔
      ∃ c amount pd, terms.Asks env context c amount pd ∧
        ch = ⟨env.sequence.val, terms.usd c.contract amount.val pd.price.val⟩ := by
  constructor
  · intro h
    unfold requested at h
    split at h
    · rename_i c
      split at h
      · rename_i amount pd hargs hanswer
        split at h
        · rename_i hall
          obtain ⟨hname, hamount, hallowed, hprice, hold, hfuture, hproduct⟩ := hall
          exact ⟨c, amount, pd,
            { call := rfl, name := hname, amount_arg := hargs, amount_nonneg := hamount
              allowed := hallowed, answer := hanswer, price_pos := hprice, not_old := hold
              not_future := hfuture, product_fits := hproduct }, (Option.some.inj h).symm⟩
        · cases h
      · cases h
    · cases h
  · intro h'
    rcases h' with ⟨c, amount, pd, h, rfl⟩
    obtain ⟨rfl, hname, hargs, hamount, hallowed, hanswer, hprice, hold, hfuture, hproduct⟩ := h
    simp only [requested, hargs, hanswer]
    exact if_pos ⟨hname, hamount, hallowed, hprice, hold, hfuture, hproduct⟩

/-- A requested charge is made now, is not negative, and fits an `i128`. -/
theorem requested_spec {env : OracleEnv} {context : Context} {ch : Charge}
    (h : terms.requested env context = some ch) :
    ch.time = env.sequence.val ∧ 0 ≤ ch.amount ∧ ch.amount ≤ 2 ^ 127 - 1 := by
  obtain ⟨c, amount, pd, hasks, rfl⟩ := terms.requested_eq_some.mp h
  have hproduct : 0 ≤ amount.val * pd.price.val := mul_nonneg hasks.amount_nonneg hasks.price_pos.le
  refine ⟨rfl, Int.ediv_nonneg hproduct (terms.divisor_pos c.contract).le, ?_⟩
  exact (Int.ediv_le_self _ hproduct).trans hasks.product_fits

/-- The exact value is less than one dollar above the whole-dollar value. -/
theorem exactUsd_lt (token : Address) (amount price : ℤ) :
    terms.exactUsd token amount price < terms.usd token amount price + 1 := by
  have hpos : (0 : ℚ) < terms.divisor token := by exact_mod_cast terms.divisor_pos token
  have hlt : amount * price < (terms.usd token amount price + 1) * terms.divisor token :=
    Int.lt_ediv_add_one_mul_self _ (terms.divisor_pos token)
  have hcast : ((terms.divisor token : ℤ) : ℚ) =
      10 ^ terms.oracleDecimals * 10 ^ terms.tokenDecimals token := by
    simp [divisor]
  rw [exactUsd, ← hcast, div_lt_iff₀ hpos]
  exact_mod_cast hlt

/-- The exact dollar value of the transfer that a context asks for. -/
def exactValue (env : OracleEnv) (context : Context) : ℚ :=
  match context with
  | .contract c =>
    match c.args[2]?, env.lastprice terms.oracle (.stellar c.contract) with
    | some (Val.i128 amount), some (some pd) =>
      terms.exactUsd c.contract amount.val pd.price.val
    | _, _ => 0
  | _ => 0

theorem exactValue_lt {env : OracleEnv} {context : Context} {ch : Charge}
    (h : terms.requested env context = some ch) :
    terms.exactValue env context < ch.amount + 1 := by
  obtain ⟨c, amount, pd, hasks, rfl⟩ := terms.requested_eq_some.mp h
  obtain rfl := hasks.call
  simp only [exactValue, hasks.amount_arg, hasks.answer]
  exact terms.exactUsd_lt c.contract amount.val pd.price.val

end Terms

namespace Reference

variable (terms : Terms) (k : AccountContext)

/-- One input: an accepted transfer of key `k` is appended to the log. -/
def step (log : List Charge) (i : Invocation OracleEnv (Call AccountParams)) : List Charge :=
  match i.call with
  | .enforce context _ rule account =>
    if ⟨account, rule.id⟩ = k ∧ i.env.auth account = true then
      match terms.requested i.env context with
      | some c => if terms.fits log c then log ++ [c] else log
      | none => log
    else log
  | _ => log

/-- The log of the accepted transfers of a run. -/
def log (is : List (Invocation OracleEnv (Call AccountParams))) : List Charge :=
  is.foldl (step terms k) []

theorem log_snoc (is : List (Invocation OracleEnv (Call AccountParams)))
    (i : Invocation OracleEnv (Call AccountParams)) :
    log terms k (is ++ [i]) = step terms k (log terms k is) i := by
  simp [log]

/-- The log grows by a charge that is made at the ledger of the input. -/
theorem step_cases (log : List Charge) (i : Invocation OracleEnv (Call AccountParams)) :
    step terms k log i = log ∨
      ∃ c, step terms k log i = log ++ [c] ∧ c.time = i.env.sequence.val := by
  unfold step
  split
  · split_ifs
    · split
      · rename_i c hc
        split_ifs
        · exact .inr ⟨c, rfl, (terms.requested_spec hc).1⟩
        · exact .inl rfl
      · exact .inl rfl
    · exact .inl rfl
  · exact .inl rfl

end Reference

end LatchContracts.Policies.MultiToken
