import LatchContracts.Host.Types
import LatchContracts.Lib.DistinctSort
import LatchContracts.Lib.KeyedStore
import Mathlib.Data.Sum.Order

/-!
# The account factory

`account-factory/contracts/factory-contract/src/lib.rs`: the factory normalizes
the parameters of a new account, hashes them into a salt, and deploys the
account at the address that the host derives from the salt.

The lengths of host vectors and byte strings are `u32`, so the parameter types
carry the bound as a field.

Three functions belong to the host and stay parameters, in `FactoryHost`: the
hash, the XDR encoding of an address, and the address that the host derives for
this factory from a salt.  Whether `deploy_v2` creates the contract for a
deployment is part of what the host supplies to a call: the account's
constructor may reject it.

The state holds the configuration and the contracts that exist.  The lifetime of
the instance is in `Factory.Lifetime`.
-/

namespace LatchContracts.Factory

open LatchContracts.Lib LatchContracts.Host

/-! ## Data -/

/-- `SignerKind`. -/
inductive SignerKind
  | ed25519
  | webAuthn
  deriving DecidableEq

/-- `ExternalSignerInit`. -/
@[ext]
structure ExternalSignerInit where
  signerKind : SignerKind
  keyData : Bytes
  keyData_len : keyData.length < 2 ^ 32
  deriving DecidableEq

/-- `AccountSignerInit`. -/
inductive AccountSignerInit
  | delegated (address : Address)
  | external (e : ExternalSignerInit)
  deriving DecidableEq

/-- `AccountInitParams`. -/
structure AccountInitParams where
  signers : List AccountSignerInit
  threshold : Option U32
  accountSalt : BytesN 32
  signers_len : signers.length < 2 ^ 32

/-- `FactoryConfig`. -/
structure FactoryConfig where
  smartAccountWasmHash : BytesN 32
  ed25519Verifier : Address
  webauthnVerifier : Address
  thresholdPolicy : Address
  deriving DecidableEq

/-- `FactoryError`. -/
inductive FactoryError
  | alreadyInitialized
  | missingConfig
  | noSigners
  | duplicateSigner
  | missingThreshold
  | invalidThreshold
  | invalidEd25519Key
  | invalidWebAuthnKey
  | invalidEd25519Verifier
  | invalidWebAuthnVerifier
  | invalidThresholdPolicy
  deriving DecidableEq

/-- `NormalizedParams`. -/
@[ext]
structure NormalizedParams where
  signers : List AccountSignerInit
  effectiveThreshold : U32
  accountSalt : BytesN 32
  deriving DecidableEq

/-- `SimpleThresholdAccountParams` of the `stellar-accounts` crate. -/
structure SimpleThresholdAccountParams where
  threshold : U32
  deriving DecidableEq

/-- What `deploy_v2` receives: the code and the constructor arguments. -/
structure Deployment where
  wasmHash : BytesN 32
  signers : List Signer
  policies : List (Address × SimpleThresholdAccountParams)
  deriving DecidableEq

/-- What exists at an address: an account of this factory, or anything else. -/
inductive Executable
  | account (d : Deployment)
  | other
  deriving DecidableEq

/-! ## The order of signers -/

/-- `signer_kind_code`. -/
def signerKindCode : SignerKind → Byte
  | .ed25519 => 0x01
  | .webAuthn => 0x02

/-- `account_signer_code`. -/
def accountSignerCode : AccountSignerInit → Byte
  | .delegated _ => 0x00
  | .external e => signerKindCode e.signerKind

/-- `compare_signers`. -/
def compareSigners (left right : AccountSignerInit) : Ordering :=
  (cmp (accountSignerCode left) (accountSignerCode right)).then
    (match left, right with
    | .delegated leftAddr, .delegated rightAddr => cmp leftAddr rightAddr
    | .external leftExternal, .external rightExternal =>
        (cmp (signerKindCode leftExternal.signerKind)
          (signerKindCode rightExternal.signerKind)).then
          (cmp leftExternal.keyData rightExternal.keyData)
    | _, _ => .eq)

/-! ## Normalization -/

/-- `validate_signer_shape`. -/
def validateSignerShape : AccountSignerInit → Except (Fault FactoryError) Unit
  | .delegated _ => pure ()
  | .external e =>
    match e.signerKind with
    | .ed25519 => ensure (¬ e.keyData.length ≠ 32) (.contract .invalidEd25519Key)
    | .webAuthn =>
        ensure (¬ (e.keyData.length ≤ 65 ∨ e.keyData.head?.getD 0 ≠ 0x04))
          (.contract .invalidWebAuthnKey)

/-- The loop of `canonicalize_signers`: each signer is checked and inserted into
the list that is sorted so far. -/
def canonicalizeFrom : List AccountSignerInit → List AccountSignerInit →
    Except (Fault FactoryError) (List AccountSignerInit)
  | [], canonical => pure canonical
  | signer :: rest, canonical => do
      validateSignerShape signer
      let canonical' ← unwrapOr (insertDistinct compareSigners signer canonical)
        (.contract .duplicateSigner)
      canonicalizeFrom rest canonical'

/-- `canonicalize_signers`. -/
def canonicalizeSigners (signers : List AccountSignerInit) :
    Except (Fault FactoryError) (List AccountSignerInit) :=
  canonicalizeFrom signers []

/-- The threshold part of `normalize_params`. -/
def effectiveThreshold (signerCount : ℕ) (threshold : Option U32) :
    Except (Fault FactoryError) U32 :=
  if signerCount = 1 then
    match threshold with
    | none => pure 1
    | some t => do
        ensure (t.val = 1) (.contract .invalidThreshold)
        pure 1
  else
    match threshold with
    | some t => do
        ensure (1 ≤ t.val ∧ t.val ≤ signerCount) (.contract .invalidThreshold)
        pure t
    | none => throw (.contract .missingThreshold)

/-- `normalize_params`. -/
def normalizeParams (params : AccountInitParams) :
    Except (Fault FactoryError) NormalizedParams := do
  ensure (params.signers ≠ []) (.contract .noSigners)
  let canonicalSigners ← canonicalizeSigners params.signers
  let threshold ← effectiveThreshold canonicalSigners.length params.threshold
  pure ⟨canonicalSigners, threshold, params.accountSalt⟩

/-! ## The salt and the address -/

/-- The functions of the host that the derivation of an address uses. -/
structure FactoryHost where
  /-- `crypto().sha256`. -/
  sha256 : Bytes → BytesN 32
  /-- `address.to_xdr`. -/
  toXdr : Address → Bytes
  /-- `deployer().with_current_contract(salt).deployed_address()`. -/
  deployedAddress : BytesN 32 → Address

/-- `u32::to_be_bytes`. -/
def toBeBytes (n : ℕ) : Bytes :=
  [Fin.ofNat 256 (n / 2 ^ 24), Fin.ofNat 256 (n / 2 ^ 16), Fin.ofNat 256 (n / 2 ^ 8),
    Fin.ofNat 256 n]

/-- `b"latch.factory.account.v2"`. -/
def saltDomain : Bytes :=
  ['l', 'a', 't', 'c', 'h', '.', 'f', 'a', 'c', 't', 'o', 'r', 'y', '.', 'a', 'c', 'c', 'o', 'u',
    'n', 't', '.', 'v', '2'].map (fun c => Fin.ofNat 256 c.toNat)

section Host

variable (host : FactoryHost)

/-- The length-prefixed part of a signer in the preimage. -/
def signerPayload : AccountSignerInit → Bytes
  | .delegated address => host.toXdr address
  | .external e => e.keyData

/-- One turn of the loop of `compute_account_deploy_salt`. -/
def encodeSigner (signer : AccountSignerInit) : Bytes :=
  [accountSignerCode signer] ++
    (toBeBytes (signerPayload host signer).length ++ signerPayload host signer)

/-- The byte string that `compute_account_deploy_salt` hashes. -/
def saltPreimage (params : NormalizedParams) : Bytes :=
  saltDomain ++ (params.accountSalt.toList ++
    ((toBeBytes params.signers.length ++ params.signers.flatMap (encodeSigner host)) ++
      toBeBytes params.effectiveThreshold.val.toNat))

/-- `compute_account_deploy_salt`. -/
def computeAccountDeploySalt (params : NormalizedParams) : BytesN 32 :=
  host.sha256 (saltPreimage host params)

/-- The address of the account with these normalized parameters. -/
def accountAddress (params : NormalizedParams) : Address :=
  host.deployedAddress (computeAccountDeploySalt host params)

/-- `get_account_address`. -/
def getAccountAddress (params : AccountInitParams) : Except (Fault FactoryError) Address := do
  let normalized ← normalizeParams params
  pure (accountAddress host normalized)

/-! ## Deployment -/

/-- The state that the factory reads and writes. -/
structure FactoryState where
  config : Option FactoryConfig
  contracts : Store Address Executable

/-- The state with a new account at an address. -/
def FactoryState.deploy (s : FactoryState) (address : Address) (d : Deployment) : FactoryState :=
  { s with contracts := s.contracts.set address (.account d) }

/-- What the host supplies to a call: whether it creates the contract of a
deployment. -/
structure FactoryEnv where
  creates : Deployment → Bool

/-- What a call answers: an address, and the accounts of the `AccountCreated`
events it published. -/
structure FactoryReply where
  address : Address
  created : List Address

/-- `get_config`. -/
def getConfig (s : FactoryState) : Except (Fault FactoryError) FactoryConfig :=
  unwrapOr s.config (.contract .missingConfig)

/-- `validate_singleton_address`. -/
def validateSingletonAddress (s : FactoryState) (address : Address) (error : FactoryError) :
    Except (Fault FactoryError) Unit :=
  ensure (s.contracts.has address) (.contract error)

/-- `__constructor`. -/
def construct (config : FactoryConfig) (s : FactoryState) :
    Except (Fault FactoryError) FactoryState := do
  ensure (s.config = none) (.contract .alreadyInitialized)
  validateSingletonAddress s config.ed25519Verifier .invalidEd25519Verifier
  validateSingletonAddress s config.webauthnVerifier .invalidWebAuthnVerifier
  validateSingletonAddress s config.thresholdPolicy .invalidThresholdPolicy
  pure { s with config := some config }

/-- The signer of the account for a signer of the parameters. -/
def accountSigner (config : FactoryConfig) : AccountSignerInit → Signer
  | .delegated address => .delegated address
  | .external e =>
    match e.signerKind with
    | .ed25519 => .external config.ed25519Verifier e.keyData
    | .webAuthn => .external config.webauthnVerifier e.keyData

/-- `build_account_signers`. -/
def buildAccountSigners (config : FactoryConfig) (signers : List AccountSignerInit) : List Signer :=
  signers.map (accountSigner config)

/-- `build_account_policies`. -/
def buildAccountPolicies (config : FactoryConfig) (threshold : U32) (signerCount : ℕ) :
    List (Address × SimpleThresholdAccountParams) :=
  if 1 < signerCount then [(config.thresholdPolicy, ⟨threshold⟩)] else []

/-- The deployment that `create_account` asks for. -/
def accountDeployment (config : FactoryConfig) (normalized : NormalizedParams) : Deployment :=
  let signers := buildAccountSigners config normalized.signers
  ⟨config.smartAccountWasmHash, signers,
    buildAccountPolicies config normalized.effectiveThreshold signers.length⟩

/-- `deployer.deploy_v2`: the host refuses an address that is taken, and a
deployment whose constructor fails. -/
def deployV2 (env : FactoryEnv) (address : Address) (d : Deployment) (s : FactoryState) :
    Except (Fault FactoryError) FactoryState := do
  ensure (¬ s.contracts.has address) .trap
  ensure (env.creates d) .trap
  pure (s.deploy address d)

/-- `create_account`. -/
def createAccount (env : FactoryEnv) (params : AccountInitParams) (s : FactoryState) :
    Except (Fault FactoryError) (FactoryReply × FactoryState) := do
  let config ← getConfig s
  let normalized ← normalizeParams params
  let address := accountAddress host normalized
  if s.contracts.has address then
    pure (⟨address, []⟩, s)
  else
    let s' ← deployV2 env address (accountDeployment config normalized) s
    pure (⟨address, [address]⟩, s')

/-- `get_verifier`. -/
def getVerifier (signerKind : SignerKind) (s : FactoryState) :
    Except (Fault FactoryError) Address := do
  let config ← getConfig s
  match signerKind with
  | .ed25519 => pure config.ed25519Verifier
  | .webAuthn => pure config.webauthnVerifier

/-- `get_threshold_policy`. -/
def getThresholdPolicy (s : FactoryState) : Except (Fault FactoryError) Address := do
  let config ← getConfig s
  pure config.thresholdPolicy

/-- One call of the factory. -/
inductive FactoryCall
  | getAccountAddress (params : AccountInitParams)
  | createAccount (params : AccountInitParams)
  | getVerifier (signerKind : SignerKind)
  | getThresholdPolicy

/-- A call together with what the host supplies to it. -/
structure FactoryInput where
  env : FactoryEnv
  call : FactoryCall

/-- The answer of a call that only reads. -/
def readOnly (s : FactoryState) (x : Except (Fault FactoryError) Address) :
    Except (Fault FactoryError) (FactoryReply × FactoryState) :=
  x.map (fun address => (⟨address, []⟩, s))

/-- Dispatch a call to its entrypoint. -/
def exec (i : FactoryInput) (s : FactoryState) :
    Except (Fault FactoryError) (FactoryReply × FactoryState) :=
  match i.call with
  | .getAccountAddress params => readOnly s (getAccountAddress host params)
  | .createAccount params => createAccount host i.env params s
  | .getVerifier signerKind => readOnly s (getVerifier signerKind s)
  | .getThresholdPolicy => readOnly s (getThresholdPolicy s)

end Host

end LatchContracts.Factory
