import LatchContracts.Policies.MultiToken.Consistency

/-!
# Calls that no signer authenticated

An account hands its policies the list of the signers that authenticated.  When
a context rule has lost its signers this list is empty.  The session, the
parameter-scoped and the recipient-allowlist policy refuse such a call before
they read anything.  The multi-token spending limit does not look at the list:
it accepts the call exactly when the transfer itself is `Spendable`.

`Spendable` is a condition on the context, the oracle's answer and the stored
data before the call.  That it is exact needs two facts about every stored entry
of a reachable state, which `Consistent` holds: the divisors are positive, and
below the top of the type the cached total is the sum of the history.  Neither
depends on how the ledger numbers of the run are ordered.
-/

namespace LatchContracts.Policies

open LatchContracts.Lib LatchContracts.Host Charge

/-- The call fails and leaves the state as it was. -/
def Refuses {ι σ ε ρ : Type} (exec : ι → σ → Except ε (ρ × σ)) (i : ι) (s : σ) : Prop :=
  (∃ e, exec i s = .error e) ∧ (settle exec i s).post = s

theorem refuses_of_error {ι σ ε ρ : Type} {exec : ι → σ → Except ε (ρ × σ)} {i : ι} {s : σ} {e : ε}
    (h : exec i s = .error e) : Refuses exec i s := by
  refine ⟨⟨e, h⟩, ?_⟩
  rw [settle_of_error h]

theorem refuses_iff {ι σ ε ρ : Type} {exec : ι → σ → Except ε (ρ × σ)} {i : ι} {s : σ} :
    Refuses exec i s ↔ ¬ ∃ r s', exec i s = .ok (r, s') := by
  constructor
  · intro hrefuses haccepts
    obtain ⟨e, he⟩ := hrefuses.1
    obtain ⟨r, s', hok⟩ := haccepts
    rw [he] at hok
    cases hok
  · intro h
    rcases settle_cases exec i s with ⟨e, he, _⟩ | ⟨r, s', hok, _⟩
    · exact refuses_of_error he
    · exact absurd ⟨r, s', hok⟩ h

/-- In every reachable state the call `unsigned`, an `enforce` with no
authenticated signer, is refused although the account authorized it. -/
def RefusesUnsigned {E ι D ε ρ : Type} (auth : E → Address → Bool)
    (exec : ι → Entries D → Except (Fault ε) (ρ × Entries D)) (account : Address)
    (unsigned : E → ι) : Prop :=
  ∀ s, Reachable exec Store.empty s → ∀ env, auth env account = true → Refuses exec (unsigned env) s

/-! ## The three policies with the guard -/

/-- A policy with the shared `enforce` refuses the call before it reads anything. -/
theorem PolicyContract.GuardedShape.unsigned_eq_error {Params D ε ev out : Type}
    {P : PolicyContract Env Params D ε ev out} (h : P.GuardedShape) {env : Env} {account : Address}
    (hauth : env.auth account = true) (context : Context) (rule : ContextRule) (s : Entries D) :
    ∃ e, P.exec ⟨env, .enforce context [] rule account⟩ s = .error e := by
  obtain ⟨noSigner, _, _, heq⟩ := h.enforce env context [] rule account
  refine ⟨.contract noSigner, reply_eq_error.mpr ?_⟩
  rw [heq]
  exact guardedEnforce_nil hauth

/-! ## The spending limit -/

namespace MultiToken

/-- The context is a priced transfer that the stored data has room for. -/
def Spendable (env : OracleEnv) (data : PolicyData) (context : Context) : Prop :=
  ∃ (c : ContractContext) (amount : I128) (idx : ℕ) (divisor : I128) (pd : PriceData),
    context = .contract c ∧ c.fnName = "transfer" ∧ c.args[2]? = some (.i128 amount) ∧
    0 ≤ amount.val ∧
    data.allowedTokens.idxOf? c.contract = some idx ∧ data.tokenDivisors[idx]? = some divisor ∧
    env.lastprice data.oracleAddress (.stellar c.contract) = some (some pd) ∧
    0 < pd.price.val ∧ env.timestamp.val - 500 ≤ pd.timestamp.val ∧
    pd.timestamp.val ≤ env.timestamp.val ∧ amount.val * pd.price.val ≤ 2 ^ 127 - 1 ∧
    (data.spendingLimitUsd.val = 2 ^ 127 - 1 ∨
      total (remaining data env.sequence.val) +
        amount.val * pd.price.val / (data.usdDivisor.val * divisor.val) ≤
          data.spendingLimitUsd.val) ∧
    (remaining data env.sequence.val).length < 1000

/-- With consistent entries, `enforce` with no authenticated signer is refused
exactly when the transfer is not spendable. -/
theorem refuses_unsigned_iff {s : Entries PolicyData} (hs : s.All Consistent) {env : OracleEnv}
    {context : Context} {rule : ContextRule} {account : Address}
    (hauth : env.auth account = true) :
    Refuses contract.exec ⟨env, .enforce context [] rule account⟩ s ↔
      ¬ ∃ data, s ⟨account, rule.id⟩ = some data ∧ Spendable env data context := by
  rw [refuses_iff]
  refine not_congr ⟨?_, ?_⟩
  · intro h'
    rcases h' with ⟨r, s', hok⟩
    obtain ⟨es, _, hx⟩ := reply_eq_ok.mp hok
    change enforce env context [] rule account s = .ok (es, s') at hx
    obtain ⟨_, target, amount, data, usd, data', hparse, hdata, hprice, hrecord, _, _⟩ :=
      enforce_eq_ok.mp hx
    have h := hs _ data hdata
    obtain ⟨hcap, hroom⟩ := (recordSpend_iff h (usd_nonneg h hparse hprice)).mp ⟨data', hrecord⟩
    obtain ⟨c, amount, idx, divisor, pd, hc, hname, harg, hamount, hidx, hdivisor, hanswer, hpos,
      hold, hfuture, hfits, hval⟩ :=
      (dollarValue_iff h).mp ⟨target, amount, usd, hparse, hprice, rfl⟩
    rw [hval] at hcap
    exact ⟨data, hdata, c, amount, idx, divisor, pd, hc, hname, harg, hamount, hidx, hdivisor,
      hanswer, hpos, hold, hfuture, hfits, hcap, hroom⟩
  · intro h'
    rcases h' with ⟨data, hdata, c, amount, idx, divisor, pd, hc, hname, harg, hamount, hidx,
      hdivisor, hanswer, hpos, hold, hfuture, hfits, hcap, hroom⟩
    have h := hs _ data hdata
    obtain ⟨target, amount, usd, hparse, hprice, hval⟩ := (dollarValue_iff h).mpr
      ⟨c, amount, idx, divisor, pd, hc, hname, harg, hamount, hidx, hdivisor, hanswer, hpos, hold,
        hfuture, hfits, rfl⟩
    rw [← hval] at hcap
    obtain ⟨data', hrecord⟩ :=
      (recordSpend_iff h (usd_nonneg h hparse hprice)).mpr ⟨hcap, hroom⟩
    have hx : enforce env context [] rule account s = .ok ([], _) := enforce_eq_ok.mpr
      ⟨hauth, target, amount, data, usd, data', hparse, hdata, hprice, hrecord, rfl, rfl⟩
    exact ⟨.events [], _, reply_eq_ok.mpr ⟨[], rfl, hx⟩⟩

end MultiToken

/-! ## The four policies together -/

/-- In every reachable state and with the account's authorization, `enforce` with
no authenticated signer is refused by the session, the parameter-scoped and the
recipient-allowlist policy.  The spending limit refuses it exactly when the
stored data has no room for the transfer that the context describes. -/
theorem unsigned_enforce_refused (context : Context) (rule : ContextRule) (account : Address) :
    RefusesUnsigned Env.auth Session.contract.exec account
      (fun env => ⟨env, .enforce context [] rule account⟩) ∧
    RefusesUnsigned Env.auth ParameterScoped.contract.exec account
      (fun env => ⟨env, .enforce context [] rule account⟩) ∧
    RefusesUnsigned Env.auth RecipientAllowlist.exec account
      (fun env => ⟨env, .policy (.enforce context [] rule account)⟩) ∧
    ∀ s, Reachable MultiToken.contract.exec Store.empty s →
      ∀ env : MultiToken.OracleEnv, env.auth account = true →
        (Refuses MultiToken.contract.exec ⟨env, .enforce context [] rule account⟩ s ↔
          ¬ ∃ data, s ⟨account, rule.id⟩ = some data ∧
            MultiToken.Spendable env data context) := by
  refine ⟨?_, ?_, ?_, ?_⟩
  · intro s _ env hauth
    obtain ⟨e, he⟩ := Session.shape.unsigned_eq_error hauth context rule s
    exact refuses_of_error he
  · intro s _ env hauth
    obtain ⟨e, he⟩ := ParameterScoped.shape.unsigned_eq_error hauth context rule s
    exact refuses_of_error he
  · intro s _ env hauth
    obtain ⟨e, he⟩ := RecipientAllowlist.shape.unsigned_eq_error hauth context rule s
    have hexec : RecipientAllowlist.exec ⟨env, .policy (.enforce context [] rule account)⟩ s =
        .error e := he
    exact refuses_of_error hexec
  · intro s hs env hauth
    exact MultiToken.refuses_unsigned_iff (MultiToken.consistent_reachable hs) hauth

open MultiToken in
/-- The sample installation refuses a transfer of 102.5 dollars under its limit of
100. -/
theorem unsigned_enforce_refused_sample :
    Refuses MultiToken.contract.exec
      ⟨sampleEnv, .enforce (.contract (sampleTransferOf 410)) [] sampleRule sampleAccount⟩
      sampleInstalled := by
  apply ((unsigned_enforce_refused (.contract (sampleTransferOf 410)) sampleRule
    sampleAccount).2.2.2 sampleInstalled ⟨_, rfl⟩ sampleEnv rfl).mpr
  intro h
  rcases h with ⟨data, hdata, c, amount, idx, divisor, pd, hc, _, harg, _, hidx, hdivisor, hanswer,
    _, _, _, _, hcap, _⟩
  -- the data is that of the installation, and the transfer that of the context
  cases hdata
  cases hc
  cases harg
  cases hanswer
  obtain rfl : 0 = idx := Option.some.inj hidx
  obtain rfl : (10 : I128) = divisor := Option.some.inj hdivisor
  exact absurd hcap (by decide)

open MultiToken in
/-- The sample installation accepts a transfer that no signer authenticated, so
not all four policies refuse such calls. -/
theorem unsigned_spend_accepted :
    ¬ ∀ (context : Context) (rule : ContextRule) (account : Address),
      RefusesUnsigned Env.auth Session.contract.exec account
        (fun env => ⟨env, .enforce context [] rule account⟩) ∧
      RefusesUnsigned Env.auth ParameterScoped.contract.exec account
        (fun env => ⟨env, .enforce context [] rule account⟩) ∧
      RefusesUnsigned Env.auth RecipientAllowlist.exec account
        (fun env => ⟨env, .policy (.enforce context [] rule account)⟩) ∧
      RefusesUnsigned (fun env : OracleEnv => env.auth) MultiToken.contract.exec account
        (fun env => ⟨env, .enforce context [] rule account⟩) := by
  intro hall
  obtain ⟨_, _, _, hspend⟩ := hall (.contract sampleTransfer) sampleRule sampleAccount
  obtain ⟨⟨e, he⟩, _⟩ := hspend sampleInstalled ⟨_, rfl⟩ sampleEnv rfl
  have hok : ∃ r s', MultiToken.contract.exec
      ⟨sampleEnv, .enforce (.contract sampleTransfer) [] sampleRule sampleAccount⟩
        sampleInstalled = .ok (r, s') := ⟨_, _, rfl⟩
  obtain ⟨r, s', hok⟩ := hok
  rw [he] at hok
  cases hok

end LatchContracts.Policies
