import LatchContracts.SmartAccount.Model
import LatchContracts.Lib.IndexedLog
import Mathlib.Data.List.Nodup

/-!
# The registry is an append-only log

A run of the account holds deployments that may be accepted or refused, and
reads between them.  `successes` lists what the accepted deployments of a run
deployed, in their order, with the salt of each.

`Registered s log` says that the counter and the records of a state hold that
list, and that every salt on it derives an address that is taken.  A new
deployment finds its address free, so it appends under the counter and its salt
is new.  `run_registered` carries this through runs, and `registry_append_only`
reads off what a client sees.
-/

namespace LatchContracts.SmartAccount

open LatchContracts.Lib LatchContracts.Host

/-- One settled call of the account. -/
abbrev Done := Settled AccountInput AccountState (Fault LatchSmartAccountError) AccountReply

/-- What an accepted deployment did. -/
structure Success where
  salt : BytesN 32
  record : DeployedContract

/-- The settled call is an accepted `deploy_contract`. -/
def isDeployment (c : Done) : Bool :=
  match c.input.call, c.outcome with
  | .deployContract _ _ _, .ok _ => true
  | _, _ => false

/-- The salt and the code of an accepted `deploy_contract` call, and the address
that it answered. -/
def success? (c : Done) : Option Success :=
  match c.input.call, c.outcome with
  | .deployContract wasmHash salt _, .ok (.deployed address _) => some ⟨salt, ⟨address, wasmHash⟩⟩
  | _, _ => none

/-- The accepted deployments of a run. -/
def successes (host : AccountHost) (is : List AccountInput) (s : AccountState) : List Success :=
  (trace (exec host) is s).filterMap success?

/-- The state is the registry of the deployments `log`. -/
structure Registered (host : AccountHost) (s : AccountState) (log : List Success) : Prop where
  holds : Holds (getDeployedContractCount s) s.deployedContracts (log.map Success.record)
  derived : ∀ d ∈ log, d.record.address = host.deployedAddress d.salt
  taken : ∀ d ∈ log, s.contracts.has d.record.address
  addresses : (log.map (fun d => d.record.address)).Nodup

/-! ## One call -/

section Step

variable {host : AccountHost} {s s' : AccountState} {log : List Success} {i : AccountInput}
  {r : AccountReply}

/-- An accepted deployment appends one entry. -/
theorem Registered.deploy (h : Registered host s log) {env : DeployEnv}
    {wasmHash salt : BytesN 32} {args : List Val} {address : Address} {event : ContractDeployed}
    (hok : deployContract host env wasmHash salt args s = .ok ((address, event), s')) :
    Registered host s' (log ++ [⟨salt, ⟨address, wasmHash⟩⟩]) := by
  obtain ⟨hfree, _, haddress, _, next, hnext, rfl⟩ := deployContract_eq_ok.mp hok
  rw [← haddress] at hfree
  refine ⟨?_, ?_, ?_, ?_⟩
  · rw [List.map_append]
    exact h.holds.push hnext _
  · intro d hd
    rcases List.mem_append.mp hd with hd | hd
    · exact h.derived d hd
    · rw [List.mem_singleton.mp hd]
      exact haddress
  · intro d hd
    rcases List.mem_append.mp hd with hd | hd
    · obtain ⟨code, hcode⟩ := Store.has_iff.mp (h.taken d hd)
      -- the new address was free, so it is not this one
      have hne : d.record.address ≠ address := by
        intro heq
        rw [heq, hfree] at hcode
        cases hcode
      exact Store.has_iff.mpr ⟨code, (Store.set_of_ne _ _ hne).trans hcode⟩
    · rw [List.mem_singleton.mp hd]
      exact Store.has_iff.mpr ⟨wasmHash, Store.set_self _ _ _⟩
  · have hnew : address ∉ log.map (fun d => d.record.address) := by
      intro hmem
      obtain ⟨d, hd, heq⟩ := List.mem_map.mp hmem
      obtain ⟨code, hcode⟩ := Store.has_iff.mp (h.taken d hd)
      rw [heq, hfree] at hcode
      cases hcode
    rw [List.map_append]
    exact (List.perm_append_singleton _ _).nodup_iff.mpr (List.nodup_cons.mpr ⟨hnew, h.addresses⟩)

/-- A call that is no accepted deployment is not counted. -/
theorem success?_of_not_deployment {c : Done} (h : isDeployment c = false) : success? c = none := by
  unfold isDeployment at h
  unfold success?
  split
  · rename_i hcall hok
    rw [hcall, hok] at h
    cases h
  · rfl

/-- A settled call appends what it deployed, if anything, and counts exactly when
it deployed. -/
theorem settle_registered (h : Registered host s log) (i : AccountInput) :
    Registered host (settle (exec host) i s).post
        (log ++ (success? (settle (exec host) i s)).toList) ∧
      isDeployment (settle (exec host) i s) = (success? (settle (exec host) i s)).isSome := by
  rcases settle_cases (exec host) i s with ⟨e, _, hset⟩ | ⟨r, s', hok, hset⟩
  · have hno : isDeployment (settle (exec host) i s) = false := by
      rw [hset, isDeployment]
      cases i.call <;> rfl
    rw [success?_of_not_deployment hno, hno, hset, Option.toList_none, List.append_nil]
    exact ⟨h, rfl⟩
  · rcases exec_cases hok with ⟨wasmHash, salt, args, address, event, hcall, hdeploy, rfl⟩ |
      ⟨hcall, rfl⟩
    · rw [hset]
      have hsome : success? ⟨i, s, .ok (.deployed address event), s'⟩ =
          some ⟨salt, ⟨address, wasmHash⟩⟩ := by
        simp only [success?, hcall]
      have hyes : isDeployment ⟨i, s, .ok (.deployed address event), s'⟩ = true := by
        simp only [isDeployment, hcall]
      rw [hsome, hyes]
      exact ⟨h.deploy hdeploy, rfl⟩
    · have hno : isDeployment (settle (exec host) i s') = false := by
        rw [hset, isDeployment]
        cases hc : i.call with
        | deployContract wasmHash salt args => exact absurd hc (hcall wasmHash salt args)
        | getDeployedContractCount => rfl
        | getDeployedContract index => rfl
      rw [success?_of_not_deployment hno, hno, hset, Option.toList_none, List.append_nil]
      exact ⟨h, rfl⟩

end Step

/-! ## Runs -/

section Run

variable {host : AccountHost} {s : AccountState} {log : List Success}

/-- Along a run the registry grows by what the run deployed, and as many calls of
the run are accepted deployments. -/
theorem run_registered (h : Registered host s log) (is : List AccountInput) :
    Registered host (run (exec host) is s) (log ++ successes host is s) ∧
      ((trace (exec host) is s).filter isDeployment).length = (successes host is s).length := by
  induction is generalizing s log with
  | nil => exact ⟨by rw [successes]; simpa [trace, run] using h, rfl⟩
  | cons i is ih =>
    obtain ⟨hstep, hcount⟩ := settle_registered h i
    obtain ⟨hrest, hlength⟩ := ih hstep
    have hlog : successes host (i :: is) s =
        (success? (settle (exec host) i s)).toList ++
          successes host is (settle (exec host) i s).post := by
      show (settle (exec host) i s :: trace (exec host) is _).filterMap success? = _
      rw [List.filterMap_cons]
      cases success? (settle (exec host) i s) <;> rfl
    refine ⟨?_, ?_⟩
    · rw [hlog, ← List.append_assoc]
      exact hrest
    · show ((settle (exec host) i s :: trace (exec host) is _).filter isDeployment).length = _
      rw [List.filter_cons, hcount, hlog, List.length_append, ← hlength]
      cases success? (settle (exec host) i s) with
      | none => simp
      | some d => simp [Nat.add_comm]

namespace Registered

variable {i j : U32} {d e : DeployedContract}

/-- A read answers the deployment at its index. -/
theorem get_eq_ok (h : Registered host s log) :
    getDeployedContract i s = .ok d ↔ (log.map Success.record)[i.val.toNat]? = some d := by
  rw [getDeployedContract, unwrapOr_eq_ok, h.holds.records_eq]

/-- A read succeeds exactly below the count. -/
theorem exists_get_iff (h : Registered host s log) :
    (∃ d, getDeployedContract i s = .ok d) ↔ i < getDeployedContractCount s := by
  rw [← h.holds.has_iff, Store.has_iff]
  simp only [getDeployedContract, unwrapOr_eq_ok]

/-- Recorded addresses are pairwise distinct. -/
theorem index_of_address (h : Registered host s log) (hi : getDeployedContract i s = .ok d)
    (hj : getDeployedContract j s = .ok e) (haddress : d.address = e.address) : i = j := by
  have hdi : (log.map fun x => x.record.address)[i.val.toNat]? = some d.address := by
    have hmap := congrArg (Option.map DeployedContract.address) (h.get_eq_ok.mp hi)
    rw [← List.getElem?_map, List.map_map] at hmap
    exact hmap
  have hej : (log.map fun x => x.record.address)[j.val.toNat]? = some d.address := by
    have hmap := congrArg (Option.map DeployedContract.address) (h.get_eq_ok.mp hj)
    rw [← List.getElem?_map, List.map_map] at hmap
    rw [haddress]
    exact hmap
  obtain ⟨hlt, hget⟩ := List.getElem?_eq_some_iff.mp hdi
  obtain ⟨hlt', hget'⟩ := List.getElem?_eq_some_iff.mp hej
  have hindex : i.val.toNat = j.val.toNat :=
    (List.Nodup.getElem_inj_iff h.addresses).mp (hget.trans hget'.symm)
  have hi0 := i.lo_le
  have hj0 := j.lo_le
  exact Bounded.ext (by omega)

/-- No salt is on the list twice. -/
theorem salts_nodup (h : Registered host s log) : (log.map Success.salt).Nodup := by
  have hmap : log.map (fun d => d.record.address) =
      (log.map Success.salt).map host.deployedAddress := by
    rw [List.map_map]
    exact List.map_congr_left h.derived
  have haddresses := h.addresses
  rw [hmap] at haddresses
  exact haddresses.of_map

/-- A salt of the registry cannot be deployed with again. -/
theorem refuses_salt (h : Registered host s log) {env : DeployEnv} {wasmHash salt : BytesN 32}
    {args : List Val} (hsalt : salt ∈ log.map Success.salt) :
    ∃ e, exec host ⟨env, .deployContract wasmHash salt args⟩ s = .error e := by
  rcases settle_cases (exec host) ⟨env, .deployContract wasmHash salt args⟩ s with
    ⟨e, herr, _⟩ | ⟨r, s', hok, _⟩
  · exact ⟨e, herr⟩
  · rcases exec_cases hok with ⟨wasmHash', salt', args', address, event, hcall, hdeploy, _⟩ |
      ⟨hcall, _⟩
    · cases hcall
      obtain ⟨hfree, _⟩ := deployContract_eq_ok.mp hdeploy
      obtain ⟨d, hd, rfl⟩ := List.mem_map.mp hsalt
      obtain ⟨code, hcode⟩ := Store.has_iff.mp (h.taken d hd)
      rw [h.derived d hd, hfree] at hcode
      cases hcode
    · exact absurd rfl (hcall wasmHash salt args)

end Registered

/-- With a full counter every deployment fails, and one that the host would make
fails with `MathOverflow`. -/
theorem deploy_of_full (hfull : (getDeployedContractCount s).val = 2 ^ 32 - 1) (env : DeployEnv)
    (wasmHash salt : BytesN 32) (args : List Val) :
    ∃ e, exec host ⟨env, .deployContract wasmHash salt args⟩ s = .error e ∧
      (s.contracts (host.deployedAddress salt) = none → env.creates wasmHash salt args = true →
        e = .contract .mathOverflow) := by
  have hone : (1 : U32).val = 1 := rfl
  have hnone : (getDeployedContractCount s).checkedAdd 1 = none := by
    apply Option.eq_none_iff_forall_ne_some.mpr
    intro next hnext
    have hval := Bounded.checkedAdd_eq_some.mp hnext
    have htop := next.le_hi
    omega
  rcases settle_cases (exec host) ⟨env, .deployContract wasmHash salt args⟩ s with
    ⟨e, herr, _⟩ | ⟨r, s', hok, _⟩
  · refine ⟨e, herr, ?_⟩
    intro hfree hcreates
    have hcount : getDeployedContractCount
        { s with contracts := s.contracts.set (host.deployedAddress salt) wasmHash } =
          getDeployedContractCount s := rfl
    have hfree' : ¬ s.contracts.has (host.deployedAddress salt) := Store.not_has_iff.mpr hfree
    simp only [exec, deployContract, deployV2, ensure_true_bind, hfree', hcreates,
      not_false_eq_true, pure_bind, hcount, hnone] at herr
    exact (Except.error.inj herr).symm
  · rcases exec_cases hok with ⟨wasmHash', salt', args', address, event, hcall, hdeploy, _⟩ |
      ⟨hcall, _⟩
    · obtain ⟨_, _, _, _, next, hnext, _⟩ := deployContract_eq_ok.mp hdeploy
      have htop := next.le_hi
      omega
    · exact absurd rfl (hcall wasmHash salt args)

end Run

/-- What a client sees of the registry of an account, after any run from its
creation on.  The count is the number of accepted deployments, the record at an
index below it is what the deployment with that number deployed and stays so,
recorded addresses are pairwise distinct and belong to pairwise distinct salts,
none of which can be used again, and a failed call changes nothing. -/
theorem registry_append_only (host : AccountHost) {s₀ : AccountState}
    (hcount : s₀.deployedContractCount = none) (hrecords : s₀.deployedContracts = Store.empty)
    (is : List AccountInput) :
    let s := run (exec host) is s₀
    let log := successes host is s₀
    (getDeployedContractCount s).val = ((trace (exec host) is s₀).filter isDeployment).length ∧
    log.length = ((trace (exec host) is s₀).filter isDeployment).length ∧
    (∀ i, (∃ d, getDeployedContract i s = .ok d) ↔ i < getDeployedContractCount s) ∧
    (∀ i d, getDeployedContract i s = .ok d ↔
      (log.map Success.record)[i.val.toNat]? = some d) ∧
    (∀ js i d, getDeployedContract i s = .ok d →
      getDeployedContract i (run (exec host) js s) = .ok d) ∧
    (∀ i j d e, getDeployedContract i s = .ok d → getDeployedContract j s = .ok e →
      d.address = e.address → i = j) ∧
    (log.map Success.salt).Nodup ∧
    (∀ d ∈ log, d.record.address = host.deployedAddress d.salt) ∧
    (∀ env wasmHash salt args, salt ∈ log.map Success.salt →
      ∃ e, exec host ⟨env, .deployContract wasmHash salt args⟩ s = .error e) ∧
    ((getDeployedContractCount s).val = 2 ^ 32 - 1 → ∀ env wasmHash salt args,
      ∃ e, exec host ⟨env, .deployContract wasmHash salt args⟩ s = .error e ∧
        (s.contracts (host.deployedAddress salt) = none → env.creates wasmHash salt args = true →
          e = .contract .mathOverflow)) ∧
    (∀ i e, exec host i s = .error e → (settle (exec host) i s).post = s) := by
  intro s log
  have hfresh : Registered host s₀ [] := by
    refine ⟨⟨?_, ?_⟩, by simp, by simp, List.nodup_nil⟩
    · rw [getDeployedContractCount, hcount]
      rfl
    · intro i
      rw [hrecords]
      rfl
  obtain ⟨hreg, hlength⟩ := run_registered hfresh is
  change Registered host s log at hreg
  have hcounter : (getDeployedContractCount s).val = log.length := by
    rw [hreg.holds.count_eq, List.length_map]
  refine ⟨by rw [hcounter, hlength], hlength.symm, fun i => hreg.exists_get_iff,
    fun i d => hreg.get_eq_ok, ?_, fun i j d e => hreg.index_of_address, hreg.salts_nodup,
    hreg.derived, fun env wasmHash salt args => hreg.refuses_salt, deploy_of_full, ?_⟩
  · intro js i d hd
    obtain ⟨hlater, _⟩ := run_registered hreg js
    have hget := hreg.get_eq_ok.mp hd
    obtain ⟨hlt, _⟩ := List.getElem?_eq_some_iff.mp hget
    rw [hlater.get_eq_ok, List.map_append, List.getElem?_append_left hlt]
    exact hget
  · intro i e he
    rw [settle_of_error he]

/-! ## A run with a refused deployment -/

def sampleHost : AccountHost := ⟨fun salt => .contract salt⟩

def sampleCreated : AccountState := ⟨none, Store.empty, Store.empty⟩

def sampleDeploy (code salt : Byte) : AccountInput :=
  ⟨⟨fun _ _ _ => true⟩,
    .deployContract (BytesN.replicate 32 code) (BytesN.replicate 32 salt) []⟩

/-- Of three deployments the second one repeats the salt of the first one with
other code. -/
theorem registry_append_only_sample :
    let s := run (exec sampleHost) [sampleDeploy 1 7, sampleDeploy 2 7, sampleDeploy 2 8]
      sampleCreated
    (getDeployedContractCount s).val = 2 ∧
      getDeployedContract 1 s =
        .ok ⟨.contract (BytesN.replicate 32 8), BytesN.replicate 32 2⟩ := by
  have hall := registry_append_only sampleHost (show sampleCreated.deployedContractCount = none from
    rfl) rfl [sampleDeploy 1 7, sampleDeploy 2 7, sampleDeploy 2 8]
  exact ⟨hall.1, (hall.2.2.2.1 1 _).mpr rfl⟩

end LatchContracts.SmartAccount
