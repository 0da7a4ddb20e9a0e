import LatchContracts.Policies.Entrypoints

/-!
# The recipient allowlist policy

`policies/recipient-allowlist-policy/src/lib.rs`: a `transfer` is accepted when
its recipient is in the installed list.  Next to the `Policy` trait the
contract has `set_allowed_recipients`, which replaces the list of an existing
installation and takes a raw context rule id.
-/

namespace LatchContracts.Policies.RecipientAllowlist

open LatchContracts.Lib LatchContracts.Host

/-- `RecipientError`. -/
inductive RecipientError
  | smartAccountNotInstalled
  | onlyCallContractAllowed
  | invalidAllowedRecipients
  | recipientNotAllowed
  | alreadyInstalled
  | invalidTransferArgs
  deriving DecidableEq

/-- `RecipientAccountParams`. -/
structure RecipientAccountParams where
  allowedRecipients : List Address

/-- `RecipientData`. -/
structure RecipientData where
  allowedRecipients : List Address
  deriving DecidableEq

/-- The events of the policy. -/
inductive RecipientEvent
  | enforced (smartAccount : Address) (contextRuleId : U32) (recipient : Address)
  | installed (smartAccount : Address) (contextRuleId : U32) (allowedRecipients : List Address)
  | uninstalled (smartAccount : Address) (contextRuleId : U32)
  deriving DecidableEq

/-- `MAX_ALLOWED_RECIPIENTS`. -/
def maxAllowedRecipients : ℕ := 10

/-- `get_allowed_recipients`. -/
def getAllowedRecipients (contextRuleId : U32) (smartAccount : Address)
    (s : Entries RecipientData) : Except (Fault RecipientError) (List Address) := do
  let data ← getEntry RecipientError.smartAccountNotInstalled contextRuleId smartAccount s
  pure data.allowedRecipients

/-- The verdict of `enforce` on a context, after the entry was read.  The
recipient of `transfer(from, to, amount)` is argument 1. -/
def checkContext (context : Context) (rule : ContextRule) (smartAccount : Address)
    (data : RecipientData) : Except (Fault RecipientError) (List RecipientEvent) :=
  match context with
  | .contract c => do
      ensure (c.fnName = "transfer") (.contract .recipientNotAllowed)
      let toVal ← unwrapOr c.args[1]? (.contract .invalidTransferArgs)
      let recipient ← unwrapOr toVal.toAddress? (.contract .invalidTransferArgs)
      ensure (recipient ∈ data.allowedRecipients) (.contract .recipientNotAllowed)
      pure [.enforced smartAccount rule.id recipient]
  | _ => throw (.contract .recipientNotAllowed)

/-- `enforce`. -/
def enforce (env : Env) (context : Context) (authenticatedSigners : List Signer)
    (rule : ContextRule) (smartAccount : Address) (s : Entries RecipientData) :
    Except (Fault RecipientError) (List RecipientEvent × Entries RecipientData) :=
  guardedEnforce .recipientNotAllowed .smartAccountNotInstalled
    (checkContext context rule smartAccount) env authenticatedSigners rule smartAccount s

/-- The check of a list of recipients, in `install` and in
`set_allowed_recipients`. -/
def checkRecipients (allowedRecipients : List Address) : Except (Fault RecipientError) Unit :=
  ensure (¬ (allowedRecipients = [] ∨ maxAllowedRecipients < allowedRecipients.length))
    (.contract .invalidAllowedRecipients)

/-- `install`. -/
def install (env : Env) (params : RecipientAccountParams) (rule : ContextRule)
    (smartAccount : Address) (s : Entries RecipientData) :
    Except (Fault RecipientError) (List RecipientEvent × Entries RecipientData) :=
  installEntry .onlyCallContractAllowed .alreadyInstalled
    (checkRecipients params.allowedRecipients) (pure ⟨params.allowedRecipients⟩)
    [.installed smartAccount rule.id params.allowedRecipients] env rule smartAccount s

/-- `uninstall`. -/
def uninstall (env : Env) (rule : ContextRule) (smartAccount : Address)
    (s : Entries RecipientData) :
    Except (Fault RecipientError) (List RecipientEvent × Entries RecipientData) :=
  uninstallEntry .smartAccountNotInstalled [.uninstalled smartAccount rule.id] env rule
    smartAccount s

/-- `set_allowed_recipients`.  It publishes no event. -/
def setAllowedRecipients (env : Env) (allowedRecipients : List Address) (contextRuleId : U32)
    (smartAccount : Address) (s : Entries RecipientData) :
    Except (Fault RecipientError) (List RecipientEvent × Entries RecipientData) := do
  env.requireAuth smartAccount
  checkRecipients allowedRecipients
  ensure (s.has ⟨smartAccount, contextRuleId⟩) (.contract .smartAccountNotInstalled)
  pure ([], s.set ⟨smartAccount, contextRuleId⟩ ⟨allowedRecipients⟩)

/-- The recipient allowlist policy as a policy contract. -/
def contract : PolicyContract Env RecipientAccountParams RecipientData RecipientError
    RecipientEvent (List Address) where
  install := install
  uninstall := uninstall
  enforce := enforce
  get := getAllowedRecipients

theorem shape : contract.GuardedShape where
  install := fun _ _ _ _ => ⟨_, _, _, _, _, rfl⟩
  uninstall := fun _ _ _ => ⟨_, _, rfl⟩
  get := fun _ _ s t h => by simp only [contract, getAllowedRecipients, getEntry, h]
  enforce := fun _ _ _ _ _ => ⟨_, _, _, rfl⟩

/-- One call: an entrypoint of the `Policy` trait or the update. -/
inductive RecipientCall
  | policy (c : Call RecipientAccountParams)
  | setAllowedRecipients (allowedRecipients : List Address) (contextRuleId : U32)
      (smartAccount : Address)

/-- The key a call names. -/
def RecipientCall.key : RecipientCall → AccountContext
  | policy c => c.key
  | setAllowedRecipients _ contextRuleId smartAccount => ⟨smartAccount, contextRuleId⟩

/-- Dispatch a call to its entrypoint. -/
def exec (i : Invocation Env RecipientCall) (s : Entries RecipientData) :
    Except (Fault RecipientError) (Reply RecipientEvent (List Address) × Entries RecipientData) :=
  match i.call with
  | .policy c => contract.exec ⟨i.env, c⟩ s
  | .setAllowedRecipients allowedRecipients contextRuleId smartAccount =>
      reply (List Address)
        (setAllowedRecipients i.env allowedRecipients contextRuleId smartAccount s)

theorem setAllowedRecipients_eq_ok {env : Env} {allowedRecipients : List Address}
    {contextRuleId : U32} {smartAccount : Address} {s s' : Entries RecipientData}
    {es : List RecipientEvent} :
    setAllowedRecipients env allowedRecipients contextRuleId smartAccount s = .ok (es, s') ↔
      env.auth smartAccount = true ∧ checkRecipients allowedRecipients = .ok () ∧
        (∃ d, s ⟨smartAccount, contextRuleId⟩ = some d) ∧ es = [] ∧
          s' = s.set ⟨smartAccount, contextRuleId⟩ ⟨allowedRecipients⟩ := by
  unfold setAllowedRecipients
  rw [requireAuth_bind_eq_ok, bind_eq_ok]
  refine and_congr_right fun _ => ?_
  constructor
  · intro h'
    rcases h' with ⟨⟨⟩, hcheck, h⟩
    rw [ensure_bind_eq_ok, pure_eq_ok, Prod.mk.injEq, Store.has_iff] at h
    exact ⟨hcheck, h.1, h.2.1.symm, h.2.2.symm⟩
  · intro h'
    rcases h' with ⟨hcheck, hhas, rfl, rfl⟩
    refine ⟨(), hcheck, ?_⟩
    rw [ensure_bind_eq_ok, Store.has_iff]
    exact ⟨hhas, rfl⟩

end LatchContracts.Policies.RecipientAllowlist
