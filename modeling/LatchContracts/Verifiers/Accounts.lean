import LatchContracts.Factory.KeyIdentity
import LatchContracts.Verifiers.Keys

/-!
# Accounts and their verifiers

The factory checks the shape of a key and writes the address of a verifier next to
it.  The verifier gets the key in a call from the account, later.
`factory_keys_authenticate` puts the two together: no account that a factory
deploys has a key that its verifier cannot take.  The verifier of every key is one
of the two of the configuration, it has a canonical form for the key, and that
form is the part of the key that `signers_distinct_iff` compares.
-/

namespace LatchContracts.Verifiers

open LatchContracts.Lib LatchContracts.Host LatchContracts.Factory

/-- The contracts at the two addresses of the configuration are the verifiers. -/
structure Serves (crate : VerifiersCrate) (config : FactoryConfig)
    (network : Address → Option (Verifier Bytes Bytes U32)) : Prop where
  ed25519 : network config.ed25519Verifier = some (Ed25519.contract crate)
  webauthn : network config.webauthnVerifier = some (WebAuthn.verifier crate)

/-- The verifier of a signer takes its key. -/
def Usable (network : Address → Option (Verifier Bytes Bytes U32)) : Signer → Prop
  | .delegated _ => True
  | .external address keyData => ∃ v c, network address = some v ∧ Authenticates v ∧
      v.canonicalizeKey keyData = .ok c ∧
        ∀ hash sigData, v.verify hash c sigData = v.verify hash keyData sigData

section Accounts

variable {crypto : Crypto} {crate : VerifiersCrate} {config : FactoryConfig}
  {network : Address → Option (Verifier Bytes Bytes U32)} {host : FactoryHost}
  {s₀ s₁ : FactoryState} {is : List FactoryInput}

/-- The canonical form of an accepted key is the part of it that is verified. -/
theorem canonicalizeKey_verifiedKey (hcrate : crate.Documented crypto)
    (hserves : Serves crate config network) {e : ExternalSignerInit}
    (h : validateSignerShape (.external e) = .ok ()) :
    ∃ address v, accountSigner config (.external e) = .external address e.keyData ∧
      network address = some v ∧ Authenticates v ∧
      v.canonicalizeKey e.keyData = .ok (verifiedKey e.signerKind e.keyData) := by
  cases hkind : e.signerKind with
  | ed25519 =>
    obtain ⟨key, hkey⟩ := exists_tryFrom (keyData_length_of_ed25519 hkind h)
    refine ⟨config.ed25519Verifier, _, ?_, hserves.ed25519, Ed25519.contract_authenticates hcrate,
      ?_⟩
    · simp only [accountSigner, hkind]
    · refine onBytes_canonicalizeKey_eq_ok.mpr ⟨key, tryFrom_eq_some.mp hkey, ?_⟩
      show Except.ok (crate.ed25519CanonicalizeKey key) = .ok e.keyData
      rw [hcrate.ed25519CanonicalizeKey, tryFrom_eq_some.mp hkey]
  | webAuthn =>
    refine ⟨config.webauthnVerifier, _, ?_, hserves.webauthn,
      WebAuthn.verifier_authenticates hcrate, ?_⟩
    · simp only [accountSigner, hkind]
    · exact (WebAuthn.canonicalizeKey_eq_ok hcrate).mpr
        ⟨(keyData_length_of_webAuthn hkind h).le, rfl⟩

theorem usable_accountSigner (hcrate : crate.Documented crypto)
    (hserves : Serves crate config network) {signer : AccountSignerInit}
    (h : validateSignerShape signer = .ok ()) : Usable network (accountSigner config signer) := by
  cases signer with
  | delegated a => exact trivial
  | external e =>
    obtain ⟨address, v, hsigner, hv, hauth, hcanonical⟩ :=
      canonicalizeKey_verifiedKey hcrate hserves h
    rw [hsigner]
    exact ⟨v, _, hv, hauth, hcanonical, (hauth.canonical _ _ hcanonical).2⟩

/-- After every run of a factory, every account that was not there before has only
signers whose verifiers take their keys. -/
theorem factory_keys_authenticate (hcrate : crate.Documented crypto)
    (hserves : Serves crate config network) (hconstruct : construct config s₀ = .ok s₁)
    {address : Address} {d : Deployment} (hnew : s₁.contracts address = none)
    (hdeployed : (run (exec host) is s₁).contracts address = some (.account d)) :
    ∀ signer ∈ d.signers, Usable network signer := by
  intro signer hsigner
  have hconfig := construct_config hconstruct
  rcases (run_progress hconfig is).origin address _ hdeployed with
    hold | ⟨q, _, m, hm, _, hd⟩
  · rw [hnew] at hold
    cases hold
  · obtain rfl := Executable.account.inj hd
    obtain ⟨init, hinit, rfl⟩ := List.mem_map.mp hsigner
    exact usable_accountSigner hcrate hserves (hm.shapes init (hm.perm.mem_iff.mp hinit))

end Accounts

/-! ## The account of two callers -/

/-- The verifiers of the sample configuration. -/
def sampleVerifiers (address : Address) : Option (Verifier Bytes Bytes U32) :=
  if address = sampleConfig.ed25519Verifier then some (Ed25519.contract sampleCrate)
  else if address = sampleConfig.webauthnVerifier then some (WebAuthn.verifier sampleCrate)
  else none

theorem sampleVerifiers_serves : Serves sampleCrate sampleConfig sampleVerifiers :=
  ⟨rfl, rfl⟩

/-- The Ed25519 signer of the sample account can be used. -/
theorem factory_keys_authenticate_sample :
    Usable sampleVerifiers (accountSigner sampleConfig Factory.sampleKey) := by
  have hconstruct : construct sampleConfig sampleNetwork = .ok sampleFactory := rfl
  have hdeployed : (run (exec sampleHost) [sampleFirst] sampleFactory).contracts
      (accountAddress sampleHost sampleForm) =
        some (.account (accountDeployment sampleConfig sampleForm)) := rfl
  have hsigner : accountSigner sampleConfig Factory.sampleKey ∈
      (accountDeployment sampleConfig sampleForm).signers :=
    List.mem_map.mpr ⟨Factory.sampleKey, .tail _ (.head _), rfl⟩
  exact factory_keys_authenticate sampleCrate_documented sampleVerifiers_serves hconstruct rfl
    hdeployed _ hsigner

end LatchContracts.Verifiers
