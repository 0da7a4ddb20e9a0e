import LatchContracts.Policies.Entrypoints

/-!
# The session policy

`policies/session-policy/src/allowlist.rs`: a context rule is narrowed to a
fixed list of function names.
-/

namespace LatchContracts.Policies.Session

open LatchContracts.Lib LatchContracts.Host

/-- `SessionError`. -/
inductive SessionError
  | smartAccountNotInstalled
  | onlyCallContractAllowed
  | invalidAllowedFns
  | methodNotAllowed
  | alreadyInstalled
  deriving DecidableEq

/-- `SessionAccountParams`. -/
structure SessionAccountParams where
  allowedFns : List Symbol

/-- `SessionData`. -/
structure SessionData where
  allowedFns : List Symbol
  deriving DecidableEq

/-- The events of the policy. -/
inductive SessionEvent
  | enforced (smartAccount : Address) (contextRuleId : U32) (fnName : Symbol)
  | installed (smartAccount : Address) (contextRuleId : U32) (allowedFns : List Symbol)
  | uninstalled (smartAccount : Address) (contextRuleId : U32)
  deriving DecidableEq

/-- `MAX_ALLOWED_FNS`. -/
def maxAllowedFns : ℕ := 10

/-- `get_allowed_fns`. -/
def getAllowedFns (contextRuleId : U32) (smartAccount : Address) (s : Entries SessionData) :
    Except (Fault SessionError) (List Symbol) := do
  let data ← getEntry SessionError.smartAccountNotInstalled contextRuleId smartAccount s
  pure data.allowedFns

/-- The verdict of `enforce` on a context, after the entry was read. -/
def checkContext (context : Context) (rule : ContextRule) (smartAccount : Address)
    (data : SessionData) : Except (Fault SessionError) (List SessionEvent) :=
  match context with
  | .contract c => do
      ensure (c.fnName ∈ data.allowedFns) (.contract .methodNotAllowed)
      pure [.enforced smartAccount rule.id c.fnName]
  | _ => throw (.contract .methodNotAllowed)

/-- `enforce`. -/
def enforce (env : Env) (context : Context) (authenticatedSigners : List Signer)
    (rule : ContextRule) (smartAccount : Address) (s : Entries SessionData) :
    Except (Fault SessionError) (List SessionEvent × Entries SessionData) :=
  guardedEnforce .methodNotAllowed .smartAccountNotInstalled
    (checkContext context rule smartAccount) env authenticatedSigners rule smartAccount s

/-- The parameter check of `install`. -/
def checkParams (params : SessionAccountParams) : Except (Fault SessionError) Unit :=
  ensure (¬ (params.allowedFns = [] ∨ maxAllowedFns < params.allowedFns.length))
    (.contract .invalidAllowedFns)

/-- `install`. -/
def install (env : Env) (params : SessionAccountParams) (rule : ContextRule)
    (smartAccount : Address) (s : Entries SessionData) :
    Except (Fault SessionError) (List SessionEvent × Entries SessionData) :=
  installEntry .onlyCallContractAllowed .alreadyInstalled (checkParams params)
    (pure ⟨params.allowedFns⟩) [.installed smartAccount rule.id params.allowedFns]
    env rule smartAccount s

/-- `uninstall`. -/
def uninstall (env : Env) (rule : ContextRule) (smartAccount : Address)
    (s : Entries SessionData) :
    Except (Fault SessionError) (List SessionEvent × Entries SessionData) :=
  uninstallEntry .smartAccountNotInstalled [.uninstalled smartAccount rule.id] env rule
    smartAccount s

/-- The session policy as a policy contract. -/
def contract : PolicyContract Env SessionAccountParams SessionData SessionError SessionEvent
    (List Symbol) where
  install := install
  uninstall := uninstall
  enforce := enforce
  get := getAllowedFns

theorem shape : contract.GuardedShape where
  install := fun _ _ _ _ => ⟨_, _, _, _, _, rfl⟩
  uninstall := fun _ _ _ => ⟨_, _, rfl⟩
  get := fun _ _ s t h => by simp only [contract, getAllowedFns, getEntry, h]
  enforce := fun _ _ _ _ _ => ⟨_, _, _, rfl⟩

end LatchContracts.Policies.Session
