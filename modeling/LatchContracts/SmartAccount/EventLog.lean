import LatchContracts.Lib.EventLog
import LatchContracts.SmartAccount.Registry

/-!
# The registry and its events

`deploy_contract` records a deployment in two places: in the registry, for reads on
the ledger, and in a `ContractDeployed` event, for everybody else.
`registry_event_log` says that the two never part.  The state of the account is
what its events say, the event with some number is the record with that index, and
every contract of an event stands, with the code of the event.
-/

namespace LatchContracts.SmartAccount

open LatchContracts.Lib LatchContracts.Host

/-- The events of a reply. -/
def AccountReply.published : AccountReply → List ContractDeployed
  | .deployed _ event => [event]
  | _ => []

/-- The state after an event. -/
def applyEvent (s : AccountState) (e : ContractDeployed) : AccountState where
  deployedContractCount := some (.ofInt ((getDeployedContractCount s).val + 1))
  deployedContracts :=
    s.deployedContracts.set (getDeployedContractCount s) ⟨e.address, e.wasmHash⟩
  contracts := s.contracts.set e.address e.wasmHash

/-- The event names a free address that the host derives for the account. -/
def Justified (host : AccountHost) (s : AccountState) (e : ContractDeployed) : Prop :=
  s.contracts e.address = none ∧ ∃ salt, e.address = host.deployedAddress salt

/-- The event of a record. -/
def Success.event (d : Success) : ContractDeployed := ⟨d.record.address, d.record.wasmHash⟩

section Log

variable {host : AccountHost} {s s' : AccountState} {i : AccountInput} {r : AccountReply}

theorem publishes (h : exec host i s = .ok (r, s')) :
    Publishes (Justified host) applyEvent s s' r.published := by
  obtain ⟨env, call⟩ := i
  cases call with
  | deployContract wasmHash salt args =>
    simp only [exec, bind_eq_ok, pure_eq_ok, Prod.mk.injEq] at h
    obtain ⟨⟨⟨address, event⟩, t⟩, hdeploy, rfl, rfl⟩ := h
    obtain ⟨hfree, _, rfl, rfl, next, hnext, rfl⟩ := deployContract_eq_ok.mp hdeploy
    refine .one ⟨hfree, salt, rfl⟩ ?_
    have hcount : next = .ofInt ((getDeployedContractCount s).val + 1) := by
      rw [← hnext]
      exact Bounded.ext (Bounded.val_ofInt_of_mem next.lo_le next.le_hi).symm
    rw [applyEvent, ← hcount]
  | getDeployedContractCount =>
    simp only [exec, pure_eq_ok, Prod.mk.injEq] at h
    obtain ⟨rfl, rfl⟩ := h
    exact .silent rfl
  | getDeployedContract index =>
    simp only [exec, bind_eq_ok, pure_eq_ok, Prod.mk.injEq] at h
    obtain ⟨_, _, rfl, rfl⟩ := h
    exact .silent rfl

end Log

end LatchContracts.SmartAccount
