import LatchContracts.Host.Types
import LatchContracts.Lib.KeyedStore

/-!
# The smart account's deployments

`latch-smart-account/src/lib.rs`: `deploy_contract` deploys a contract from the
account and records it, and two reads make the records discoverable.  The
counter is in the instance storage of the account and the records are persistent
entries, one per index.

The host deploys.  The address that it derives from this account and a salt is a
parameter, in `AccountHost`.  The host refuses an address that is taken.  Whether
it creates the contract at a free one, with all that it asks for, is part of what
it supplies to a call.  The source expects it to ask for the account's
authorization.  Nothing here depends on that.

The signer and upgrade entrypoints of the account pass their arguments on to the
`stellar-accounts` crate and are not modelled.  The TTL constants of the records are
of that crate too, so their lifetimes are left out.
-/

namespace LatchContracts.SmartAccount

open LatchContracts.Lib LatchContracts.Host

/-! ## Data -/

/-- `LatchSmartAccountError`. -/
inductive LatchSmartAccountError
  | deployedContractNotFound
  | mathOverflow
  deriving DecidableEq

/-- `DeployedContract`. -/
structure DeployedContract where
  address : Address
  wasmHash : BytesN 32
  deriving DecidableEq

/-- The event `ContractDeployed`. -/
structure ContractDeployed where
  address : Address
  wasmHash : BytesN 32
  deriving DecidableEq

/-- The storage of the account under `LatchSmartAccountStorageKey`, and the
contracts that exist, each with its code. -/
structure AccountState where
  /-- `DeployedContractCount`. -/
  deployedContractCount : Option U32
  /-- `DeployedContract(index)`. -/
  deployedContracts : Store U32 DeployedContract
  contracts : Store Address (BytesN 32)

/-- The function of the host that the account's deployments use. -/
structure AccountHost where
  /-- `deployer().with_current_contract(salt).deployed_address()`. -/
  deployedAddress : BytesN 32 → Address

/-- What the host supplies to a deployment. -/
structure DeployEnv where
  /-- The host creates a contract with this code, salt and arguments: the code is
  there, its constructor accepts the arguments, and no authorization is missing
  that the host asks for. -/
  creates : BytesN 32 → BytesN 32 → List Val → Bool

/-! ## Entrypoints -/

section Host

variable (host : AccountHost)

/-- `deploy_v2`: the host refuses an address that is taken, and creates the
contract. -/
def deployV2 (env : DeployEnv) (salt wasmHash : BytesN 32) (constructorArgs : List Val)
    (s : AccountState) : Except (Fault LatchSmartAccountError) (Address × AccountState) := do
  let address := host.deployedAddress salt
  ensure (¬ s.contracts.has address) .trap
  ensure (env.creates wasmHash salt constructorArgs) .trap
  pure (address, { s with contracts := s.contracts.set address wasmHash })

/-- `get_deployed_contract_count`. -/
def getDeployedContractCount (s : AccountState) : U32 := s.deployedContractCount.getD 0

/-- `get_deployed_contract`. -/
def getDeployedContract (index : U32) (s : AccountState) :
    Except (Fault LatchSmartAccountError) DeployedContract :=
  unwrapOr (s.deployedContracts index) (.contract .deployedContractNotFound)

/-- `deploy_contract`. -/
def deployContract (env : DeployEnv) (wasmHash salt : BytesN 32) (constructorArgs : List Val)
    (s : AccountState) :
    Except (Fault LatchSmartAccountError) ((Address × ContractDeployed) × AccountState) := do
  let (address, s) ← deployV2 host env salt wasmHash constructorArgs s
  let index := getDeployedContractCount s
  let nextCount ← unwrapOr (index.checkedAdd 1) (.contract .mathOverflow)
  pure ((address, ⟨address, wasmHash⟩),
    { s with
      deployedContractCount := some nextCount
      deployedContracts := s.deployedContracts.set index ⟨address, wasmHash⟩ })

/-- One call of the account. -/
inductive AccountCall
  | deployContract (wasmHash salt : BytesN 32) (constructorArgs : List Val)
  | getDeployedContractCount
  | getDeployedContract (index : U32)

/-- A call together with what the host supplies to it. -/
structure AccountInput where
  env : DeployEnv
  call : AccountCall

/-- What a call answers. -/
inductive AccountReply
  | deployed (address : Address) (event : ContractDeployed)
  | count (n : U32)
  | record (r : DeployedContract)
  deriving DecidableEq

/-- Dispatch a call to its entrypoint. -/
def exec (i : AccountInput) (s : AccountState) :
    Except (Fault LatchSmartAccountError) (AccountReply × AccountState) :=
  match i.call with
  | .deployContract wasmHash salt constructorArgs => do
      let ((address, event), s') ← deployContract host i.env wasmHash salt constructorArgs s
      pure (.deployed address event, s')
  | .getDeployedContractCount => pure (.count (getDeployedContractCount s), s)
  | .getDeployedContract index => do
      let r ← getDeployedContract index s
      pure (.record r, s)

/-! ## Inversion -/

variable {host} {env : DeployEnv} {wasmHash salt : BytesN 32} {args : List Val}
  {s s' : AccountState} {i : AccountInput} {r : AccountReply}

/-- The state that an accepted deployment leaves. -/
theorem deployContract_eq_ok {address : Address} {event : ContractDeployed} :
    deployContract host env wasmHash salt args s = .ok ((address, event), s') ↔
      s.contracts (host.deployedAddress salt) = none ∧ env.creates wasmHash salt args = true ∧
      address = host.deployedAddress salt ∧ event = ⟨address, wasmHash⟩ ∧
      ∃ next : U32, next.val = (getDeployedContractCount s).val + 1 ∧
        s' =
          { deployedContractCount := some next
            deployedContracts :=
              s.deployedContracts.set (getDeployedContractCount s) ⟨address, wasmHash⟩
            contracts := s.contracts.set address wasmHash } := by
  have hone : (1 : U32).val = 1 := rfl
  simp only [deployContract, deployV2, bind_eq_ok, ensure_eq_ok, unwrapOr_eq_ok, pure_eq_ok,
    exists_const, Store.not_has_iff, Prod.exists, Prod.mk.injEq, Bounded.checkedAdd_eq_some, hone]
  constructor
  · intro h
    rcases h with ⟨a, t, ⟨hfree, hcreates, rfl, rfl⟩, next, hnext, ⟨rfl, rfl⟩, rfl⟩
    exact ⟨hfree, hcreates, rfl, rfl, next, hnext, rfl⟩
  · intro h
    rcases h with ⟨hfree, hcreates, rfl, rfl, next, hnext, rfl⟩
    exact ⟨_, _, ⟨hfree, hcreates, rfl, rfl⟩, next, hnext, ⟨rfl, rfl⟩, rfl⟩

/-- Everything an accepted call can do: a deployment, or a read. -/
theorem exec_cases (h : exec host i s = .ok (r, s')) :
    (∃ wasmHash salt args address event, i.call = .deployContract wasmHash salt args ∧
      deployContract host i.env wasmHash salt args s = .ok ((address, event), s') ∧
      r = .deployed address event) ∨
    ((∀ wasmHash salt args, i.call ≠ .deployContract wasmHash salt args) ∧ s' = s) := by
  obtain ⟨env, call⟩ := i
  cases call with
  | deployContract wasmHash salt args =>
    simp only [exec, bind_eq_ok, pure_eq_ok, Prod.mk.injEq] at h
    obtain ⟨⟨⟨address, event⟩, t⟩, hdeploy, rfl, rfl⟩ := h
    exact .inl ⟨wasmHash, salt, args, address, event, rfl, hdeploy, rfl⟩
  | getDeployedContractCount =>
    simp only [exec, pure_eq_ok, Prod.mk.injEq] at h
    exact .inr ⟨nofun, h.2.symm⟩
  | getDeployedContract index =>
    simp only [exec, bind_eq_ok, pure_eq_ok, Prod.mk.injEq] at h
    obtain ⟨_, _, _, rfl⟩ := h
    exact .inr ⟨nofun, rfl⟩

end Host

end LatchContracts.SmartAccount
