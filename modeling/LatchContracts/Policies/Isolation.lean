import LatchContracts.Policies.Session
import LatchContracts.Policies.RecipientAllowlist
import LatchContracts.Policies.ParameterScoped.Model
import LatchContracts.Policies.MultiToken.Model

/-!
# Policy state never crosses accounts or rules

The four policies are singletons: one contract serves every smart account.
This module shows that each call stays at the key it names, so that a run of
one key's calls does not depend on the calls of the others.

`installEntry_localAt`, `uninstallEntry_localAt` and `guardedEnforce_localAt`
cover the shared shapes, and `GuardedShape.exec_local` and `GuardedShape.exec_guarded`
the policies that are made of them.  The two entrypoints with a body of their own,
`set_allowed_recipients` and the `enforce` of the spending limit, follow the
same pattern: the frame half is read off the inversion lemma, and the
congruence half rewrites the one read of the storage.
-/

namespace LatchContracts.Policies

open LatchContracts.Lib LatchContracts.Host

/-! ## The shared shapes stay at their key -/

section Shapes

variable {D ε ev out : Type} {rule : ContextRule} {account : Address}

theorem installEntry_localAt (wrongRule alreadyInstalled : ε) (params : Except (Fault ε) Unit)
    (data : Except (Fault ε) D) (events : List ev) (env : Env) (rule : ContextRule)
    (account : Address) :
    LocalAt ⟨account, rule.id⟩
      (installEntry wrongRule alreadyInstalled params data events env rule account) where
  frame := by
    intro s r s' h k hk
    obtain ⟨-, -, -, -, d, -, -, rfl⟩ := installEntry_eq_ok.mp h
    exact Store.set_of_ne s d hk
  congr := by
    intro s t hst
    have hhas := ensure_congr (not_congr (Store.has_congr hst)) (Fault.contract alreadyInstalled)
    simp only [installEntry, hhas, cellView_bind, cellView_pure, Store.set_self]

theorem uninstallEntry_localAt (notInstalled : ε) (events : List ev) (env : Env)
    (rule : ContextRule) (account : Address) :
    LocalAt ⟨account, rule.id⟩
      (uninstallEntry (D := D) notInstalled events env rule account) where
  frame := by
    intro s r s' h k hk
    obtain ⟨-, -, -, rfl⟩ := uninstallEntry_eq_ok.mp h
    exact Store.remove_of_ne s hk
  congr := by
    intro s t hst
    have hhas := ensure_congr (Store.has_congr hst) (Fault.contract notInstalled)
    simp only [uninstallEntry, hhas, cellView_bind, cellView_pure, Store.remove_self]

theorem guardedEnforce_localAt (noSigner notInstalled : ε)
    (decision : D → Except (Fault ε) (List ev)) (env : Env) (signers : List Signer)
    (rule : ContextRule) (account : Address) :
    LocalAt ⟨account, rule.id⟩
      (guardedEnforce noSigner notInstalled decision env signers rule account) where
  frame := by
    intro s r s' h k hk
    obtain ⟨-, -, rfl, -⟩ := guardedEnforce_eq_ok.mp h
    rfl
  congr := by
    intro s t hst
    simp only [guardedEnforce, getEntry, hst, cellView_bind, cellView_pure]

/-- Packing the events into a reply changes nothing that a key sees. -/
theorem reply_localAt {k : AccountContext} {f : Entries D → Except (Fault ε) (List ev × Entries D)}
    (h : LocalAt k f) : LocalAt k (fun s => reply out (f s)) where
  frame := by
    intro s r s' hok k' hk'
    obtain ⟨es, -, hok⟩ := reply_eq_ok.mp hok
    exact h.frame hok k' hk'
  congr := by
    intro s t hst
    have hview : ∀ x : Except (Fault ε) (List ev × Entries D),
        cellView k (reply out x) = (cellView k x).map (fun p => (Reply.events p.1, p.2)) := by
      intro x
      cases x <;> rfl
    rw [hview, hview, h.congr hst]

/-- A view that reads one entry stays at its key. -/
theorem view_localAt {k : AccountContext} {f : Entries D → Except (Fault ε) out}
    (h : ∀ {s t : Entries D}, s k = t k → f s = f t) :
    LocalAt k (fun s => (f s).map (fun o => ((Reply.value o : Reply ev out), s))) where
  frame := by
    intro s r s' hok k' hk'
    obtain ⟨rfl, -⟩ := view_eq_ok.mp hok
    rfl
  congr := by
    intro s t hst
    rw [h hst]
    cases f t with
    | error e => rfl
    | ok o => simp only [cellView, Except.map, hst]

end Shapes

section Contracts

variable {E Params D ε ev out : Type} {P : PolicyContract E Params D ε ev out} {toEnv : E → Env}

/-- A policy with the shared shapes has local calls when its `enforce` stays at its
key. -/
theorem PolicyContract.SharedShape.exec_local (h : P.SharedShape toEnv)
    (henforce : ∀ env context signers rule account,
      LocalAt ⟨account, rule.id⟩ (P.enforce env context signers rule account)) :
    Local (fun i : Invocation E (Call Params) => i.call.key) P.exec := by
  intro i
  obtain ⟨env, call⟩ := i
  cases call with
  | install params rule account =>
    refine reply_localAt ?_
    obtain ⟨_, _, _, _, _, heq⟩ := h.install env params rule account
    rw [heq]
    exact installEntry_localAt _ _ _ _ _ _ _ _
  | uninstall rule account =>
    refine reply_localAt ?_
    obtain ⟨_, _, heq⟩ := h.uninstall env rule account
    rw [heq]
    exact uninstallEntry_localAt _ _ _ _ _
  | enforce context signers rule account =>
    exact reply_localAt (henforce env context signers rule account)
  | get ruleId account => exact view_localAt (h.get ruleId account _ _)

/-- The entrypoints that change the storage ask for the account's authorization,
when `enforce` does. -/
theorem PolicyContract.SharedShape.exec_auth (h : P.SharedShape toEnv)
    (henforce : ∀ env context signers rule account s r,
      P.enforce env context signers rule account s = .ok r → (toEnv env).auth account = true)
    (i : Invocation E (Call Params)) (s : Entries D) (r : Reply ev out) (s' : Entries D)
    (hok : P.exec i s = .ok (r, s')) :
    s' = s ∨ (toEnv i.env).auth i.call.key.smartAccount = true := by
  obtain ⟨env, call⟩ := i
  cases call with
  | install params rule account =>
    obtain ⟨es, -, hok⟩ := reply_eq_ok.mp hok
    obtain ⟨_, _, _, _, _, heq⟩ := h.install env params rule account
    rw [heq] at hok
    exact .inr (installEntry_eq_ok.mp hok).1
  | uninstall rule account =>
    obtain ⟨es, -, hok⟩ := reply_eq_ok.mp hok
    obtain ⟨_, _, heq⟩ := h.uninstall env rule account
    rw [heq] at hok
    exact .inr (uninstallEntry_eq_ok.mp hok).1
  | enforce context signers rule account =>
    obtain ⟨es, -, hok⟩ := reply_eq_ok.mp hok
    exact .inr (henforce env context signers rule account s _ hok)
  | get ruleId account => exact .inl (view_eq_ok.mp hok).1

variable {P : PolicyContract Env Params D ε ev out}

theorem PolicyContract.GuardedShape.exec_local (h : P.GuardedShape) :
    Local (fun i : Invocation Env (Call Params) => i.call.key) P.exec := by
  refine h.toSharedShape.exec_local ?_
  intro env context signers rule account
  obtain ⟨_, _, _, heq⟩ := h.enforce env context signers rule account
  rw [heq]
  exact guardedEnforce_localAt _ _ _ _ _ _ _

theorem PolicyContract.GuardedShape.exec_auth (h : P.GuardedShape)
    (i : Invocation Env (Call Params)) (s : Entries D) (r : Reply ev out) (s' : Entries D)
    (hok : P.exec i s = .ok (r, s')) : s' = s ∨ i.env.auth i.call.key.smartAccount = true := by
  refine h.toSharedShape.exec_auth ?_ i s r s' hok
  intro env context signers rule account s r hr
  obtain ⟨_, _, _, heq⟩ := h.enforce env context signers rule account
  rw [heq] at hr
  exact (guardedEnforce_eq_ok.mp hr).1

end Contracts

/-! ## The two entrypoints of their own -/

theorem RecipientAllowlist.setAllowedRecipients_localAt (env : Env)
    (allowedRecipients : List Address) (contextRuleId : U32) (smartAccount : Address) :
    LocalAt ⟨smartAccount, contextRuleId⟩
      (setAllowedRecipients env allowedRecipients contextRuleId smartAccount) where
  frame := by
    intro s r s' h k hk
    obtain ⟨-, -, -, -, rfl⟩ := setAllowedRecipients_eq_ok.mp h
    exact Store.set_of_ne s _ hk
  congr := by
    intro s t hst
    have hhas := ensure_congr (Store.has_congr hst)
      (Fault.contract RecipientError.smartAccountNotInstalled)
    simp only [setAllowedRecipients, hhas, cellView_bind, cellView_pure, Store.set_self]

theorem RecipientAllowlist.exec_local :
    Local (fun i : Invocation Env RecipientAllowlist.RecipientCall => i.call.key)
      RecipientAllowlist.exec := by
  intro i
  obtain ⟨env, call⟩ := i
  cases call with
  | policy c => exact shape.exec_local ⟨env, c⟩
  | setAllowedRecipients allowedRecipients contextRuleId smartAccount =>
    exact reply_localAt
      (setAllowedRecipients_localAt env allowedRecipients contextRuleId smartAccount)

theorem MultiToken.enforce_localAt (env : MultiToken.OracleEnv) (context : Context)
    (signers : List Signer) (rule : ContextRule) (account : Address) :
    LocalAt ⟨account, rule.id⟩ (MultiToken.enforce env context signers rule account) where
  frame := by
    intro s r s' h k hk
    obtain ⟨-, _, _, _, _, data', -, -, -, -, -, rfl⟩ := MultiToken.enforce_eq_ok.mp h
    exact Store.set_of_ne s data' hk
  congr := by
    intro s t hst
    simp only [MultiToken.enforce, MultiToken.getPolicyData, getEntry, hst, cellView_bind,
      cellView_pure, Store.set_self]

theorem MultiToken.exec_local :
    Local (fun i : Invocation MultiToken.OracleEnv (Call MultiToken.AccountParams) =>
      i.call.key) MultiToken.contract.exec :=
  MultiToken.shape.exec_local MultiToken.enforce_localAt

/-! ## Calls without the account's authorization -/

/-- A call that an account did not authorize leaves every entry of that
account. -/
def Guarded {ι D ε ρ : Type} (auth : ι → Address → Bool)
    (exec : ι → Entries D → Except ε (ρ × Entries D)) : Prop :=
  ∀ i s account ruleId, auth i account = false →
    (settle exec i s).post ⟨account, ruleId⟩ = s ⟨account, ruleId⟩

/-- Local calls are guarded when a call that changes the storage has the
authorization of the account it names. -/
theorem guarded_of_local {ι D ε ρ : Type} {addr : ι → AccountContext}
    {auth : ι → Address → Bool} {exec : ι → Entries D → Except ε (ρ × Entries D)}
    (hlocal : Local addr exec)
    (hauth : ∀ i s r s', exec i s = .ok (r, s') →
      s' = s ∨ auth i (addr i).smartAccount = true) : Guarded auth exec := by
  intro i s account ruleId hdenied
  by_cases hkey : addr i = ⟨account, ruleId⟩
  · refine settle_post (P := fun t : Entries D => t ⟨account, ruleId⟩ = s ⟨account, ruleId⟩) rfl ?_
    intro r s' hok
    rcases hauth i s r s' hok with rfl | hgiven
    · rfl
    · rw [hkey, hdenied] at hgiven
      cases hgiven
  · exact hlocal.settle_of_ne hkey s

theorem PolicyContract.GuardedShape.exec_guarded {Params D ε ev out : Type}
    {P : PolicyContract Env Params D ε ev out} (h : P.GuardedShape) :
    Guarded (fun i : Invocation Env (Call Params) => i.env.auth) P.exec :=
  guarded_of_local h.exec_local h.exec_auth

theorem RecipientAllowlist.exec_guarded :
    Guarded (fun i : Invocation Env RecipientCall => i.env.auth) RecipientAllowlist.exec := by
  apply guarded_of_local RecipientAllowlist.exec_local
  intro i s r s' hok
  obtain ⟨env, call⟩ := i
  cases call with
  | policy c => exact shape.exec_auth ⟨env, c⟩ s r s' hok
  | setAllowedRecipients allowedRecipients contextRuleId smartAccount =>
    obtain ⟨es, -, hok⟩ := reply_eq_ok.mp hok
    exact .inr (setAllowedRecipients_eq_ok.mp hok).1

theorem MultiToken.exec_guarded :
    Guarded (fun i : Invocation OracleEnv (Call AccountParams) => i.env.auth)
      MultiToken.contract.exec := by
  apply guarded_of_local MultiToken.exec_local
  refine MultiToken.shape.exec_auth ?_
  intro env context signers rule account s r h
  obtain ⟨hauth, _⟩ := MultiToken.enforce_eq_ok.mp (show MultiToken.enforce env context signers rule
    account s = .ok (r.1, r.2) from h)
  exact hauth

/-- In each of the four policies the calls of one key behave as if the others
did not exist, and a call changes the entries of an account only with that
account's authorization. -/
theorem policies_isolated :
    (NonInterfering (fun i => i.call.key) Session.contract.exec ∧
      Guarded (fun i => i.env.auth) Session.contract.exec) ∧
    (NonInterfering (fun i => i.call.key) ParameterScoped.contract.exec ∧
      Guarded (fun i => i.env.auth) ParameterScoped.contract.exec) ∧
    (NonInterfering (fun i => i.call.key) RecipientAllowlist.exec ∧
      Guarded (fun i => i.env.auth) RecipientAllowlist.exec) ∧
    (NonInterfering (fun i => i.call.key) MultiToken.contract.exec ∧
      Guarded (fun i => i.env.auth) MultiToken.contract.exec) :=
  ⟨⟨Session.shape.exec_local.nonInterfering, Session.shape.exec_guarded⟩,
    ⟨ParameterScoped.shape.exec_local.nonInterfering, ParameterScoped.shape.exec_guarded⟩,
    ⟨RecipientAllowlist.exec_local.nonInterfering, RecipientAllowlist.exec_guarded⟩,
    ⟨MultiToken.exec_local.nonInterfering, MultiToken.exec_guarded⟩⟩

end LatchContracts.Policies
