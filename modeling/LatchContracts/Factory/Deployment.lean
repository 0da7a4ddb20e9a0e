import LatchContracts.Factory.Preimage
import Mathlib.Data.List.Induction

/-!
# Deployment through the factory

`exec_cases` sums up what an accepted call does to the state: nothing, or one
deployment at an address that was free.  `Progress` is the invariant of a run
that follows from it, and `run_progress` the induction:

* the configuration stays;
* the `AccountCreated` events of the run name each address at most once, and
  they name the addresses that the run filled;
* every contract was there before the run, or is the deployment of some
  parameters of the run at their address.

The early return of `create_account` is safe because of the third point.  What
stands at the address of `p` was deployed for parameters with that address,
which are the same logical account by `Preimage`, and so have the same canonical
form and the same deployment.
-/

namespace LatchContracts.Factory

open LatchContracts.Lib LatchContracts.Host

/-- One settled call of the factory. -/
abbrev Done := Settled FactoryInput FactoryState (Fault FactoryError) FactoryReply

/-- The accounts of the `AccountCreated` events that a settled call published. -/
def createdBy (c : Done) : List Address :=
  match c.outcome with
  | .ok r => r.created
  | .error _ => []

/-- The accounts of the `AccountCreated` events of a run. -/
def created (calls : List Done) : List Address := calls.flatMap createdBy

/-- The parameters that a call names. -/
def FactoryInput.params? (i : FactoryInput) : Option AccountInitParams :=
  match i.call with
  | .getAccountAddress p => some p
  | .createAccount p => some p
  | _ => none

/-- The parameters that the calls of a run name. -/
def paramsOf (is : List FactoryInput) : List AccountInitParams := is.filterMap FactoryInput.params?

/-! ## One call -/

section Step

variable {host : FactoryHost} {env : FactoryEnv} {p : AccountInitParams} {s s' : FactoryState}
  {r : FactoryReply} {i : FactoryInput} {address : Address} {d : Deployment}

theorem deployV2_eq_ok : deployV2 env address d s = .ok s' ↔
    s.contracts address = none ∧ env.creates d = true ∧
      s' = s.deploy address d := by
  simp only [deployV2, bind_eq_ok, ensure_eq_ok, pure_eq_ok, exists_const, Store.not_has_iff]
  exact and_congr_right fun _ => and_congr_right fun _ => eq_comm

/-- `create_account` returns the address of the normalized parameters: with
nothing done where a contract stands, and after a deployment elsewhere. -/
theorem createAccount_eq_ok : createAccount host env p s = .ok (r, s') ↔
    ∃ config n, s.config = some config ∧ Canonical p n ∧ r.address = accountAddress host n ∧
      (((∃ x, s.contracts (accountAddress host n) = some x) ∧ r.created = [] ∧ s' = s) ∨
        (s.contracts (accountAddress host n) = none ∧
          env.creates (accountDeployment config n) = true ∧
          r.created = [accountAddress host n] ∧
          s' = s.deploy (accountAddress host n) (accountDeployment config n))) := by
  obtain ⟨address, created⟩ := r
  simp only [createAccount, getConfig, bind_eq_ok, unwrapOr_eq_ok, normalizeParams_eq_ok]
  constructor
  · intro h'
    rcases h' with ⟨config, hconfig, n, hn, h⟩
    refine ⟨config, n, hconfig, hn, ?_⟩
    split at h
    · rename_i hhas
      simp only [pure_eq_ok, Prod.mk.injEq, FactoryReply.mk.injEq] at h
      obtain ⟨⟨rfl, rfl⟩, rfl⟩ := h
      exact ⟨rfl, .inl ⟨Store.has_iff.mp hhas, rfl, rfl⟩⟩
    · simp only [bind_eq_ok, deployV2_eq_ok, pure_eq_ok, Prod.mk.injEq,
        FactoryReply.mk.injEq] at h
      obtain ⟨_, ⟨hnone, hcreates, rfl⟩, ⟨rfl, rfl⟩, rfl⟩ := h
      exact ⟨rfl, .inr ⟨hnone, hcreates, rfl, rfl⟩⟩
  · intro h'
    rcases h' with ⟨config, n, hconfig, hn, rfl, hcase⟩
    refine ⟨config, hconfig, n, hn, ?_⟩
    rcases hcase with ⟨hhas, rfl, rfl⟩ | ⟨hnone, hcreates, rfl, rfl⟩
    · rw [if_pos (Store.has_iff.mpr hhas)]
      rfl
    · rw [if_neg (Store.not_has_iff.mpr hnone)]
      simp only [bind_eq_ok, deployV2_eq_ok, pure_eq_ok]
      exact ⟨_, ⟨hnone, hcreates, rfl⟩, rfl⟩

theorem readOnly_eq_ok {x : Except (Fault FactoryError) Address} :
    readOnly s x = .ok (r, s') ↔ x = .ok r.address ∧ r.created = [] ∧ s' = s := by
  obtain ⟨address, created⟩ := r
  rcases x with e | a
  · simp [readOnly, Except.map]
  · simp only [readOnly, Except.map, Except.ok.injEq, Prod.mk.injEq, FactoryReply.mk.injEq]
    constructor
    · intro h
      rcases h with ⟨⟨rfl, rfl⟩, rfl⟩
      exact ⟨rfl, rfl, rfl⟩
    · intro h
      rcases h with ⟨rfl, rfl, rfl⟩
      exact ⟨⟨rfl, rfl⟩, rfl⟩

theorem getAccountAddress_eq_ok : getAccountAddress host p = .ok address ↔
    ∃ n, normalizeParams p = .ok n ∧ accountAddress host n = address := by
  simp only [getAccountAddress, bind_eq_ok, pure_eq_ok]

theorem exec_getAccountAddress_iff :
    (∃ r s', exec host ⟨env, .getAccountAddress p⟩ s = .ok (r, s') ∧ r.address = address) ↔
      ∃ n, normalizeParams p = .ok n ∧ accountAddress host n = address := by
  rw [← getAccountAddress_eq_ok]
  constructor
  · intro h'
    rcases h' with ⟨r, s', hok, rfl⟩
    exact (readOnly_eq_ok.mp hok).1
  · intro h
    exact ⟨⟨address, []⟩, s, readOnly_eq_ok.mpr ⟨h, rfl, rfl⟩, rfl⟩

/-- Everything an accepted call can do. -/
theorem exec_cases (h : exec host i s = .ok (r, s')) :
    (r.created = [] ∧ s' = s) ∨
      ∃ p config n, i.params? = some p ∧ s.config = some config ∧ Canonical p n ∧
        s.contracts (accountAddress host n) = none ∧ r.created = [accountAddress host n] ∧
        s' = s.deploy (accountAddress host n) (accountDeployment config n) := by
  obtain ⟨env, call⟩ := i
  cases call with
  | getAccountAddress p => exact .inl (readOnly_eq_ok.mp h).2
  | getVerifier kind => exact .inl (readOnly_eq_ok.mp h).2
  | getThresholdPolicy => exact .inl (readOnly_eq_ok.mp h).2
  | createAccount p =>
    have hcreate : createAccount host env p s = .ok (r, s') := h
    obtain ⟨config, n, hconfig, hn, _, hcase⟩ := createAccount_eq_ok.mp hcreate
    rcases hcase with ⟨_, hcreated, hs'⟩ | ⟨hnone, _, hcreated, hs'⟩
    · exact .inl ⟨hcreated, hs'⟩
    · exact .inr ⟨p, config, n, rfl, hconfig, hn, hnone, hcreated, hs'⟩

end Step

/-! ## Whole runs -/

/-- What a run of the factory keeps. -/
structure Progress (host : FactoryHost) (config : FactoryConfig) (s₁ : FactoryState)
    (is : List FactoryInput) : Prop where
  /-- No account is created twice. -/
  nodup : (created (trace (exec host) is s₁)).Nodup
  /-- An account was created at the addresses that the run filled. -/
  mem_created : ∀ a, a ∈ created (trace (exec host) is s₁) ↔
    s₁.contracts a = none ∧ ∃ x, (run (exec host) is s₁).contracts a = some x
  /-- Every contract was there before, or was deployed for parameters of the
  run. -/
  origin : ∀ a x, (run (exec host) is s₁).contracts a = some x →
    s₁.contracts a = some x ∨ ∃ q ∈ paramsOf is, ∃ m, Canonical q m ∧
      a = accountAddress host m ∧ x = .account (accountDeployment config m)

section Run

variable {host : FactoryHost} {config : FactoryConfig} {s₁ : FactoryState}
  {is : List FactoryInput} {i : FactoryInput}

/-- No call changes a contract that is there. -/
theorem run_keeps_contract {s : FactoryState} {a : Address} {x : Executable}
    (js : List FactoryInput) (hx : s.contracts a = some x) :
    (run (exec host) js s).contracts a = some x := by
  refine run_invariant (P := fun s : FactoryState => s.contracts a = some x) ?_ js hx
  intro i s r s' hx hok
  rcases exec_cases hok with ⟨_, rfl⟩ | ⟨p, config, n, _, _, _, hfree, _, rfl⟩
  · exact hx
  · have hne : a ≠ accountAddress host n := by
      intro ha
      rw [ha, hfree] at hx
      cases hx
    show s.contracts.set _ _ a = some x
    rw [Store.set_of_ne _ _ hne]
    exact hx

/-- No call changes the configuration. -/
theorem run_keeps_config {s : FactoryState} (js : List FactoryInput) :
    (run (exec host) js s).config = s.config := by
  refine run_invariant (P := fun t : FactoryState => t.config = s.config) ?_ js rfl
  intro i t r t' ht hok
  rcases exec_cases hok with ⟨_, rfl⟩ | ⟨_, _, _, _, _, _, _, _, rfl⟩
  · exact ht
  · exact ht

theorem created_snoc (calls : List Done) (c : Done) :
    created (calls ++ [c]) = created calls ++ createdBy c := by
  simp [created]

theorem mem_paramsOf_snoc {q : AccountInitParams} (h : q ∈ paramsOf is) :
    q ∈ paramsOf (is ++ [i]) := by
  rw [paramsOf, List.filterMap_append]
  exact List.mem_append_left _ h

/-- A call that creates nothing keeps the invariant. -/
theorem Progress.snoc_idle (h : Progress host config s₁ is)
    (hcreated : createdBy (settle (exec host) i (run (exec host) is s₁)) = [])
    (hpost : (settle (exec host) i (run (exec host) is s₁)).post = run (exec host) is s₁) :
    Progress host config s₁ (is ++ [i]) := by
  have hrun : run (exec host) (is ++ [i]) s₁ = run (exec host) is s₁ := by
    rw [run_snoc, hpost]
  have htrace : created (trace (exec host) (is ++ [i]) s₁) = created (trace (exec host) is s₁) := by
    rw [trace_snoc, created_snoc, hcreated, List.append_nil]
  refine ⟨?_, ?_, ?_⟩
  · rw [htrace]
    exact h.nodup
  · intro a
    rw [htrace, hrun]
    exact h.mem_created a
  · intro a x hx
    rw [hrun] at hx
    rcases h.origin a x hx with hold | ⟨q, hq, hrest⟩
    · exact .inl hold
    · exact .inr ⟨q, mem_paramsOf_snoc hq, hrest⟩

/-- A deployment at a free address keeps the invariant. -/
theorem Progress.snoc_deploy (h : Progress host config s₁ is) {p : AccountInitParams}
    {n : NormalizedParams} (hparams : i.params? = some p) (hn : Canonical p n)
    (hfree : (run (exec host) is s₁).contracts (accountAddress host n) = none)
    (hcreated : createdBy (settle (exec host) i (run (exec host) is s₁)) =
      [accountAddress host n])
    (hpost : (settle (exec host) i (run (exec host) is s₁)).post =
      (run (exec host) is s₁).deploy (accountAddress host n) (accountDeployment config n)) :
    Progress host config s₁ (is ++ [i]) := by
  have hrun : (run (exec host) (is ++ [i]) s₁).contracts = (run (exec host) is s₁).contracts.set
      (accountAddress host n) (.account (accountDeployment config n)) := by
    rw [run_snoc, hpost, FactoryState.deploy]
  have htrace : created (trace (exec host) (is ++ [i]) s₁) =
      created (trace (exec host) is s₁) ++ [accountAddress host n] := by
    rw [trace_snoc, created_snoc, hcreated]
  -- what was there before the run is still there, so the address was free then
  have hbefore : s₁.contracts (accountAddress host n) = none := by
    rcases hx : s₁.contracts (accountAddress host n) with _ | x
    · rfl
    · have hkept : (run (exec host) is s₁).contracts (accountAddress host n) = some x :=
        run_keeps_contract is hx
      rw [hfree] at hkept
      cases hkept
  refine ⟨?_, ?_, ?_⟩
  · rw [htrace, List.nodup_append]
    refine ⟨h.nodup, List.nodup_singleton _, ?_⟩
    intro a ha b hb heq
    obtain ⟨_, x, hx⟩ := (h.mem_created a).mp ha
    rw [heq, List.mem_singleton.mp hb, hfree] at hx
    cases hx
  · intro a
    rw [htrace, List.mem_append, List.mem_singleton, hrun, h.mem_created a]
    by_cases ha : a = accountAddress host n
    · subst ha
      rw [Store.set_self]
      exact iff_of_true (.inr rfl) ⟨hbefore, _, rfl⟩
    · rw [Store.set_of_ne _ _ ha]
      exact or_iff_left ha
  · intro a x hx
    rw [hrun] at hx
    by_cases ha : a = accountAddress host n
    · subst ha
      rw [Store.set_self] at hx
      have hmem : p ∈ paramsOf (is ++ [i]) := by
        rw [paramsOf, List.filterMap_append]
        exact List.mem_append_right _ (by simp [hparams])
      exact .inr ⟨p, hmem, n, hn, rfl, (Option.some.inj hx).symm⟩
    · rw [Store.set_of_ne _ _ ha] at hx
      rcases h.origin a x hx with hold | ⟨q, hq, hrest⟩
      · exact .inl hold
      · exact .inr ⟨q, mem_paramsOf_snoc hq, hrest⟩

/-- Every run of a configured factory makes progress. -/
theorem run_progress (hconfig : s₁.config = some config) (is : List FactoryInput) :
    Progress host config s₁ is := by
  induction is using List.reverseRecOn with
  | nil =>
    refine ⟨List.nodup_nil, ?_, fun a x hx => .inl hx⟩
    intro a
    refine iff_of_false List.not_mem_nil ?_
    intro h
    rcases h with ⟨hnone, x, hx⟩
    rw [show s₁.contracts a = some x from hx] at hnone
    cases hnone
  | append_singleton is i ih =>
    rcases settle_cases (exec host) i (run (exec host) is s₁) with
      ⟨e, _, hset⟩ | ⟨r, s', hok, hset⟩
    · exact ih.snoc_idle (by rw [hset]; rfl) (by rw [hset])
    · rcases exec_cases hok with ⟨hcreated, rfl⟩ | ⟨p, c, n, hp, hc, hn, hfree, hcreated, rfl⟩
      · exact ih.snoc_idle (by rw [hset]; exact hcreated) (by rw [hset])
      · rw [run_keeps_config, hconfig] at hc
        obtain rfl := Option.some.inj hc
        exact ih.snoc_deploy hp hn hfree (by rw [hset]; exact hcreated) (by rw [hset])

end Run

/-! ## Creation is idempotent -/

/-- On the parameters at hand neither the hash nor the derived addresses
collide, and no other contract stands at the derived addresses before the
run. -/
structure CollisionFree (host : FactoryHost) (s₁ : FactoryState)
    (ps : List AccountInitParams) : Prop where
  sha256 : ∀ p ∈ ps, ∀ q ∈ ps, ∀ n m, normalizeParams p = .ok n → normalizeParams q = .ok m →
    host.sha256 (saltPreimage host n) = host.sha256 (saltPreimage host m) →
      saltPreimage host n = saltPreimage host m
  derive : ∀ p ∈ ps, ∀ q ∈ ps, ∀ n m, normalizeParams p = .ok n → normalizeParams q = .ok m →
    accountAddress host n = accountAddress host m →
      computeAccountDeploySalt host n = computeAccountDeploySalt host m
  fresh : ∀ p ∈ ps, ∀ n, normalizeParams p = .ok n → s₁.contracts (accountAddress host n) = none

/-- A signer of the parameters and the signer of the account that it becomes: an
address stays what it is, and a key gets the verifier of its kind. -/
inductive Translates (config : FactoryConfig) : AccountSignerInit → Signer → Prop
  | delegated (address : Address) : Translates config (.delegated address) (.delegated address)
  | ed25519 (e : ExternalSignerInit) : e.signerKind = .ed25519 →
      Translates config (.external e) (.external config.ed25519Verifier e.keyData)
  | webAuthn (e : ExternalSignerInit) : e.signerKind = .webAuthn →
      Translates config (.external e) (.external config.webauthnVerifier e.keyData)

theorem accountSigner_translates (config : FactoryConfig) (signer : AccountSignerInit) :
    Translates config signer (accountSigner config signer) := by
  cases signer with
  | delegated address => exact .delegated address
  | external e =>
    cases hkind : e.signerKind with
    | ed25519 =>
      simp only [accountSigner, hkind]
      exact .ed25519 e hkind
    | webAuthn =>
      simp only [accountSigner, hkind]
      exact .webAuthn e hkind

/-- The deployment carries the signers of the parameters with their verifiers, in
the canonical order, and the threshold policy exactly when there is more than one
signer. -/
structure Describes (config : FactoryConfig) (p : AccountInitParams) (n : NormalizedParams)
    (d : Deployment) : Prop where
  wasmHash : d.wasmHash = config.smartAccountWasmHash
  canonical : n.signers.Perm p.signers
  signers : List.Forall₂ (Translates config) n.signers d.signers
  no_policy : n.signers.length = 1 → d.policies = []
  threshold_policy : n.signers.length ≠ 1 →
    d.policies = [(config.thresholdPolicy, ⟨n.effectiveThreshold⟩)]
  threshold_range : 1 ≤ n.effectiveThreshold.val ∧ n.effectiveThreshold.val ≤ n.signers.length

theorem accountDeployment_describes {config : FactoryConfig} {p : AccountInitParams}
    {n : NormalizedParams} (h : Canonical p n) :
    Describes config p n (accountDeployment config n) := by
  have hlength : (buildAccountSigners config n.signers).length = n.signers.length :=
    List.length_map _
  have hpos : 0 < n.signers.length := by
    rw [h.perm.length_eq]
    exact List.length_pos_iff.mpr h.nonempty
  have hrange := (effectiveThreshold_spec h.threshold).2
  rw [← h.perm.length_eq] at hrange
  have hsigners : List.Forall₂ (Translates config) n.signers
      (n.signers.map (accountSigner config)) := by
    rw [List.forall₂_map_right_iff, List.forall₂_same]
    exact fun signer _ => accountSigner_translates config signer
  refine ⟨rfl, h.perm, hsigners, ?_, ?_, hrange⟩
  · intro hone
    have hnot : ¬ 1 < (buildAccountSigners config n.signers).length := by omega
    exact if_neg hnot
  · intro hne
    have hmany : 1 < (buildAccountSigners config n.signers).length := by omega
    exact if_pos hmany

section Idempotent

variable {host : FactoryHost} {config : FactoryConfig} {s₀ s₁ : FactoryState}
  {is : List FactoryInput} {p : AccountInitParams}

/-- What stands at the address of `p` is the deployment of `p`, whoever created
it. -/
theorem deployed_for (hhost : host.Encodes) (hconfig : s₁.config = some config)
    (hfree : CollisionFree host s₁ (p :: paramsOf is)) {n : NormalizedParams}
    (hn : normalizeParams p = .ok n) {x : Executable}
    (hx : (run (exec host) is s₁).contracts (accountAddress host n) = some x) :
    x = .account (accountDeployment config n) := by
  rcases (run_progress hconfig is).origin _ x hx with hold | ⟨q, hq, m, hm, haddr, rfl⟩
  · rw [hfree.fresh p List.mem_cons_self n hn] at hold
    cases hold
  · have hp := normalizeParams_eq_ok.mp hn
    have hm' := normalizeParams_eq_ok.mpr hm
    have hmem : q ∈ p :: paramsOf is := List.mem_cons_of_mem p hq
    have hsalt := hfree.derive p List.mem_cons_self q hmem n m hn hm' haddr
    have hpre := hfree.sha256 p List.mem_cons_self q hmem n m hn hm' hsalt
    rw [saltPreimage_injective hhost hp.signers_length_lt hm.signers_length_lt hpre]

/-- Where the host creates the contract, `create_account` succeeds for every
accepted `p`, and answers its address. -/
theorem exec_createAccount_iff {s : FactoryState} (hconfig : s.config = some config)
    {env : FactoryEnv}
    (hcreates : ∀ n, normalizeParams p = .ok n → env.creates (accountDeployment config n) = true)
    {a : Address} :
    (∃ r s', exec host ⟨env, .createAccount p⟩ s = .ok (r, s') ∧ r.address = a) ↔
      ∃ n, normalizeParams p = .ok n ∧ accountAddress host n = a := by
  constructor
  · intro h
    rcases h with ⟨r, s', hok, rfl⟩
    have hcreate : createAccount host env p s = .ok (r, s') := hok
    obtain ⟨_, n, _, hn, haddr, _⟩ := createAccount_eq_ok.mp hcreate
    exact ⟨n, normalizeParams_eq_ok.mpr hn, haddr.symm⟩
  · intro h
    rcases h with ⟨n, hn, rfl⟩
    have hcanonical := normalizeParams_eq_ok.mp hn
    rcases hx : s.contracts (accountAddress host n) with _ | x
    · refine ⟨⟨accountAddress host n, [accountAddress host n]⟩,
        s.deploy (accountAddress host n) (accountDeployment config n), ?_, rfl⟩
      exact createAccount_eq_ok.mpr
        ⟨config, n, hconfig, hcanonical, rfl, .inr ⟨hx, hcreates n hn, rfl, rfl⟩⟩
    · refine ⟨⟨accountAddress host n, []⟩, s, ?_, rfl⟩
      exact createAccount_eq_ok.mpr
        ⟨config, n, hconfig, hcanonical, rfl, .inl ⟨⟨x, hx⟩, rfl, rfl⟩⟩

theorem construct_config (h : construct config s₀ = .ok s₁) : s₁.config = some config := by
  simp only [construct, bind_eq_ok, pure_eq_ok] at h
  obtain ⟨_, _, _, _, _, _, _, _, rfl⟩ := h
  rfl

/-- After every run of a constructed factory: `create_account` succeeds exactly
when `get_account_address` does, with the same address, as long as the host
creates the contract; no address is created twice and the events name the
created addresses; the account of `p` is the deployment of its canonical form,
whoever created it; and no later call changes a contract or the
configuration. -/
theorem create_account_idempotent (hhost : host.Encodes)
    (hconstruct : construct config s₀ = .ok s₁)
    (hfree : CollisionFree host s₁ (p :: paramsOf is)) :
    let s := run (exec host) is s₁
    (∀ env, (∀ n, normalizeParams p = .ok n → env.creates (accountDeployment config n) = true) →
      ∀ a, (∃ r s', exec host ⟨env, .createAccount p⟩ s = .ok (r, s') ∧ r.address = a) ↔
        ∃ r s', exec host ⟨env, .getAccountAddress p⟩ s = .ok (r, s') ∧ r.address = a) ∧
    (∀ env r s', exec host ⟨env, .createAccount p⟩ s = .ok (r, s') →
      getAccountAddress host p = .ok r.address ∧ ∃ n, normalizeParams p = .ok n ∧
        s'.contracts r.address = some (.account (accountDeployment config n))) ∧
    (∀ n, normalizeParams p = .ok n →
      Describes config p n (accountDeployment config n) ∧
      ∀ x, s.contracts (accountAddress host n) = some x →
        x = .account (accountDeployment config n)) ∧
    (created (trace (exec host) is s₁)).Nodup ∧
    (∀ a, a ∈ created (trace (exec host) is s₁) ↔
      s₁.contracts a = none ∧ ∃ x, s.contracts a = some x) ∧
    ∀ js, (run (exec host) js s).config = some config ∧
      ∀ a x, s.contracts a = some x → (run (exec host) js s).contracts a = some x := by
  intro s
  have hconfig := construct_config hconstruct
  have hprogress : Progress host config s₁ is := run_progress hconfig is
  have hconfig' : s.config = some config := by
    rw [show s.config = s₁.config from run_keeps_config is]
    exact hconfig
  refine ⟨?_, ?_, ?_, hprogress.nodup, hprogress.mem_created, ?_⟩
  · intro env hcreates a
    rw [exec_getAccountAddress_iff]
    exact exec_createAccount_iff hconfig' hcreates
  · intro env r s' hok
    have hcreate : createAccount host env p s = .ok (r, s') := hok
    obtain ⟨c, n, hc, hcanonical, haddr, hcase⟩ := createAccount_eq_ok.mp hcreate
    obtain rfl : config = c := Option.some.inj (hconfig'.symm.trans hc)
    have hn := normalizeParams_eq_ok.mpr hcanonical
    refine ⟨?_, n, hn, ?_⟩
    · exact getAccountAddress_eq_ok.mpr ⟨n, hn, haddr.symm⟩
    · rw [haddr]
      rcases hcase with ⟨⟨x, hx⟩, _, rfl⟩ | ⟨_, _, _, rfl⟩
      · rw [hx, deployed_for hhost hconfig hfree hn hx]
      · exact Store.set_self _ _ _
  · intro n hn
    exact ⟨accountDeployment_describes (normalizeParams_eq_ok.mp hn),
      fun x hx => deployed_for hhost hconfig hfree hn hx⟩
  · intro js
    refine ⟨?_, fun a x hx => run_keeps_contract js hx⟩
    rw [run_keeps_config]
    exact hconfig'

end Idempotent

/-! ## Two callers, one account -/

def sampleConfig : FactoryConfig where
  smartAccountWasmHash := BytesN.replicate 32 1
  ed25519Verifier := .contract (BytesN.replicate 32 2)
  webauthnVerifier := .contract (BytesN.replicate 32 3)
  thresholdPolicy := .contract (BytesN.replicate 32 4)

/-- The network before the factory: the two verifiers and the policy. -/
def sampleNetwork : FactoryState where
  config := none
  contracts := fun a =>
    if a = sampleConfig.ed25519Verifier ∨ a = sampleConfig.webauthnVerifier ∨
        a = sampleConfig.thresholdPolicy then some .other else none

def sampleFactory : FactoryState := { sampleNetwork with config := some sampleConfig }

/-- The parameters of the second caller. -/
def sampleSecond : AccountInitParams := sampleParams [sampleDelegated, sampleKey] 1 (by decide)

/-- The call of the first caller. -/
def sampleFirst : FactoryInput :=
  ⟨⟨fun _ => true⟩, .createAccount (sampleParams [sampleKey, sampleDelegated] 1 (by decide))⟩

def sampleForm : NormalizedParams := ⟨[sampleDelegated, sampleKey], 1, BytesN.replicate 32 3⟩

theorem sample_form : ∀ q ∈ sampleSecond :: paramsOf [sampleFirst],
    normalizeParams q = .ok sampleForm := by
  intro q hq
  rcases List.mem_cons.mp hq with rfl | hq
  · rfl
  · rw [List.mem_singleton.mp hq]
    rfl

theorem sample_collisionFree :
    CollisionFree sampleHost sampleFactory (sampleSecond :: paramsOf [sampleFirst]) := by
  -- all parameters at hand have the same canonical form
  have hsame : ∀ q ∈ sampleSecond :: paramsOf [sampleFirst], ∀ n, normalizeParams q = .ok n →
      n = sampleForm := by
    intro q hq n hn
    exact Except.ok.inj (hn.symm.trans (sample_form q hq))
  refine ⟨?_, ?_, ?_⟩
  · intro p hp q hq n m hn hm _
    rw [hsame p hp n hn, hsame q hq m hm]
  · intro p hp q hq n m hn hm _
    rw [hsame p hp n hn, hsame q hq m hm]
  · intro p hp n hn
    rw [hsame p hp n hn]
    rfl

/-- The second caller lists the signers in the other order and gets the account
of the first one. -/
theorem create_account_idempotent_sample :
    ∃ r s', exec sampleHost ⟨⟨fun _ => true⟩, .createAccount sampleSecond⟩
        (run (exec sampleHost) [sampleFirst] sampleFactory) = .ok (r, s') ∧
      getAccountAddress sampleHost sampleSecond = .ok r.address := by
  have hconstruct : construct sampleConfig sampleNetwork = .ok sampleFactory := rfl
  obtain ⟨hiff, haddress, _⟩ :=
    create_account_idempotent sampleHost_encodes hconstruct sample_collisionFree
  have hform := sample_form sampleSecond List.mem_cons_self
  obtain ⟨r, s', hok, _⟩ := (hiff ⟨fun _ => true⟩ (fun _ _ => rfl) _).mpr
    (exec_getAccountAddress_iff.mpr ⟨sampleForm, hform, rfl⟩)
  exact ⟨r, s', hok, (haddress _ r s' hok).1⟩

end LatchContracts.Factory
