import LatchContracts.Host.Types
import LatchContracts.Lib.Buffer

/-!
# The signature verifiers

`latch-verifiers/*/src/lib.rs` and `demo/modified-ed25519-verifier/src/lib.rs`: the
contracts that check the signature of an external signer.  They are stateless, so
each of them is a value of `Verifier`, the trait that they implement.

Two things are outside of the repository and stay parameters.  `Crypto` holds the
host's signature functions, which abort on a signature that they refuse.
`VerifiersCrate` holds the functions of `stellar_accounts::verifiers` that two of
the verifiers are a shell around.

An account stores the key of a signer as a byte string and calls the verifier with
it.  The host converts the arguments to the types of the entrypoint and aborts the
call when it cannot.  `Verifier.onBytes` is that conversion.
-/

namespace LatchContracts.Verifiers

open LatchContracts.Lib LatchContracts.Host

/-! ## The trait and its surroundings -/

/-- The trait `Verifier`. -/
structure Verifier (KeyData SigData ε : Type) where
  verify : Bytes → KeyData → SigData → Except (Fault ε) Bool
  canonicalizeKey : KeyData → Except (Fault ε) Bytes
  batchCanonicalizeKey : List KeyData → Except (Fault ε) (List Bytes)

/-- The signature functions of the host. -/
structure Crypto where
  /-- `crypto().ed25519_verify` does not abort. -/
  ed25519Verify : BytesN 32 → Bytes → BytesN 64 → Bool
  /-- `crypto_hazmat().secp256r1_verify` does not abort. -/
  secp256r1Verify : BytesN 65 → BytesN 32 → BytesN 64 → Bool
  /-- `crypto_hazmat().secp256k1_recover`. -/
  secp256k1Recover : BytesN 32 → BytesN 64 → U32 → Option (BytesN 65)

/-- `BytesN::<n>::try_from`. -/
def tryFrom (n : ℕ) (b : Bytes) : Option (BytesN n) :=
  if h : b.length = n then some ⟨b, h⟩ else none

/-- The first bytes of a longer string of fixed length. -/
def takeN {m : ℕ} (n : ℕ) (h : n ≤ m) (b : BytesN m) : BytesN n :=
  ⟨b.toList.take n, by rw [List.length_take, b.length_eq, Nat.min_eq_left h]⟩

/-- `to_array()[i]`. -/
def byteAt {n : ℕ} (b : BytesN n) (i : Fin n) : Byte :=
  b.toList.get ⟨i, by rw [b.length_eq]; exact i.isLt⟩

/-- `Vec::from_iter(e, key_data.iter().map(|key| Self::canonicalize_key(e, key)))`. -/
def canonicalizeEach {KeyData ε : Type} (canonicalizeKey : KeyData → Except (Fault ε) Bytes) :
    List KeyData → Except (Fault ε) (List Bytes)
  | [] => pure []
  | key :: keys => do
      let first ← canonicalizeKey key
      let rest ← canonicalizeEach canonicalizeKey keys
      pure (first :: rest)

/-- The arguments of a call as the host converts them. -/
def convertEach {KeyData ε : Type} (convert : Bytes → Option KeyData) :
    List Bytes → Except (Fault ε) (List KeyData)
  | [] => pure []
  | b :: bs => do
      let key ← unwrapOr (convert b) .trap
      let keys ← convertEach convert bs
      pure (key :: keys)

/-- A verifier as the contract that accounts call. -/
def Verifier.onBytes {KeyData SigData ε : Type} (v : Verifier KeyData SigData ε)
    (convertKey : Bytes → Option KeyData) (convertSig : Bytes → Option SigData) :
    Verifier Bytes Bytes ε where
  verify := fun hash keyData sigData => do
    let key ← unwrapOr (convertKey keyData) .trap
    let sig ← unwrapOr (convertSig sigData) .trap
    v.verify hash key sig
  canonicalizeKey := fun keyData => do
    let key ← unwrapOr (convertKey keyData) .trap
    v.canonicalizeKey key
  batchCanonicalizeKey := fun keyData => do
    let keys ← convertEach convertKey keyData
    v.batchCanonicalizeKey keys

/-- `validate_key_encoding` of the two verifiers of uncompressed SEC1 keys. -/
def validateEncoding {ε : Type} (invalidKeyEncoding : ε) (keyData : BytesN 65) :
    Except (Fault ε) Unit :=
  ensure (¬ keyData.toList[0]? ≠ some 0x04) (.contract invalidKeyEncoding)

/-! ## secp256k1 -/

namespace Secp256k1

/-- `Secp256k1VerifierError`. -/
inductive Secp256k1VerifierError
  | invalidHashLength
  | invalidKeyEncoding
  | keyMismatch
  | invalidRecoveryId
  deriving DecidableEq

/-- `validate_key_encoding`. -/
def validateKeyEncoding (keyData : BytesN 65) : Except (Fault Secp256k1VerifierError) Unit :=
  validateEncoding .invalidKeyEncoding keyData

/-- `u32::from(sig_bytes[64])`. -/
def recoveryId (sigData : BytesN 65) : U32 := .ofInt (byteAt sigData 64).val

/-- `verify`. -/
def verify (crypto : Crypto) (hash : Bytes) (keyData sigData : BytesN 65) :
    Except (Fault Secp256k1VerifierError) Bool := do
  ensure (¬ hash.length ≠ 32) (.contract .invalidHashLength)
  validateKeyEncoding keyData
  let hashN ← unwrapOr (tryFrom 32 hash) (.contract .invalidHashLength)
  ensure (¬ 1 < recoveryId sigData) (.contract .invalidRecoveryId)
  let signature := takeN 64 (by decide) sigData
  let recovered ← unwrapOr (crypto.secp256k1Recover hashN signature (recoveryId sigData)) .trap
  ensure (¬ recovered ≠ keyData) (.contract .keyMismatch)
  pure true

/-- `canonicalize_key`. -/
def canonicalizeKey (keyData : BytesN 65) : Except (Fault Secp256k1VerifierError) Bytes := do
  validateKeyEncoding keyData
  pure keyData.toList

def verifier (crypto : Crypto) : Verifier (BytesN 65) (BytesN 65) Secp256k1VerifierError where
  verify := verify crypto
  canonicalizeKey := canonicalizeKey
  batchCanonicalizeKey := canonicalizeEach canonicalizeKey

def contract (crypto : Crypto) : Verifier Bytes Bytes Secp256k1VerifierError :=
  (verifier crypto).onBytes (tryFrom 65) (tryFrom 65)

end Secp256k1

/-! ## P-256 -/

namespace P256

/-- `P256VerifierError`. -/
inductive P256VerifierError
  | invalidHashLength
  | invalidKeyEncoding
  deriving DecidableEq

/-- `validate_key_encoding`. -/
def validateKeyEncoding (keyData : BytesN 65) : Except (Fault P256VerifierError) Unit :=
  validateEncoding .invalidKeyEncoding keyData

/-- `verify`. -/
def verify (crypto : Crypto) (hash : Bytes) (keyData : BytesN 65) (sigData : BytesN 64) :
    Except (Fault P256VerifierError) Bool := do
  ensure (¬ hash.length ≠ 32) (.contract .invalidHashLength)
  validateKeyEncoding keyData
  let hashN ← unwrapOr (tryFrom 32 hash) (.contract .invalidHashLength)
  ensure (crypto.secp256r1Verify keyData hashN sigData) .trap
  pure true

/-- `canonicalize_key`. -/
def canonicalizeKey (keyData : BytesN 65) : Except (Fault P256VerifierError) Bytes := do
  validateKeyEncoding keyData
  pure keyData.toList

def verifier (crypto : Crypto) : Verifier (BytesN 65) (BytesN 64) P256VerifierError where
  verify := verify crypto
  canonicalizeKey := canonicalizeKey
  batchCanonicalizeKey := canonicalizeEach canonicalizeKey

def contract (crypto : Crypto) : Verifier Bytes Bytes P256VerifierError :=
  (verifier crypto).onBytes (tryFrom 65) (tryFrom 64)

end P256

/-! ## The shells around `stellar_accounts` -/

/-- The functions of `stellar_accounts::verifiers`.  Its errors are numbers. -/
structure VerifiersCrate where
  /-- `WebAuthnSigData`. -/
  WebAuthnSigData : Type
  /-- `WebAuthnSigData::from_xdr`. -/
  fromXdr : Bytes → Option WebAuthnSigData
  /-- `utils::extract_from_bytes`, for the range from zero to `n`. -/
  extractFromBytes : (n : ℕ) → Bytes → Option (BytesN n)
  /-- `webauthn::verify`. -/
  webauthnVerify : Bytes → BytesN 65 → WebAuthnSigData → Except (Fault U32) Bool
  /-- `webauthn::canonicalize_key`. -/
  webauthnCanonicalizeKey : Bytes → Except (Fault U32) Bytes
  /-- `webauthn::batch_canonicalize_key`. -/
  webauthnBatchCanonicalizeKey : List Bytes → Except (Fault U32) (List Bytes)
  /-- `ed25519::verify`. -/
  ed25519Verify : Bytes → BytesN 32 → BytesN 64 → Except (Fault U32) Bool
  /-- `ed25519::canonicalize_key`, which has no error. -/
  ed25519CanonicalizeKey : BytesN 32 → Bytes
  /-- `ed25519::batch_canonicalize_key`. -/
  ed25519BatchCanonicalizeKey : List (BytesN 32) → List Bytes

namespace Ed25519

def verifier (crate : VerifiersCrate) : Verifier (BytesN 32) (BytesN 64) U32 where
  verify := crate.ed25519Verify
  canonicalizeKey := fun keyData => pure (crate.ed25519CanonicalizeKey keyData)
  batchCanonicalizeKey := fun keyData => pure (crate.ed25519BatchCanonicalizeKey keyData)

def contract (crate : VerifiersCrate) : Verifier Bytes Bytes U32 :=
  (verifier crate).onBytes (tryFrom 32) (tryFrom 64)

end Ed25519

namespace WebAuthn

/-- `verify`. -/
def verify (crate : VerifiersCrate) (hash keyData sigData : Bytes) : Except (Fault U32) Bool := do
  let sigStruct ← unwrapOr (crate.fromXdr sigData) .trap
  let pubKey ← unwrapOr (crate.extractFromBytes 65 keyData) .trap
  crate.webauthnVerify hash pubKey sigStruct

def verifier (crate : VerifiersCrate) : Verifier Bytes Bytes U32 where
  verify := verify crate
  canonicalizeKey := crate.webauthnCanonicalizeKey
  batchCanonicalizeKey := crate.webauthnBatchCanonicalizeKey

end WebAuthn

/-! ## Ed25519 over a readable message -/

namespace ModifiedEd25519

/-- `ModifiedEd25519VerifierError`. -/
inductive ModifiedEd25519VerifierError
  | invalidHashLength
  deriving DecidableEq

/-- A byte string literal. -/
def ascii (s : List Char) : Bytes := s.map (fun c => Fin.ofNat 256 c.toNat)

/-- `AUTH_PREFIX`. -/
def authPrefix : Bytes :=
  ascii ['S', 't', 'e', 'l', 'l', 'a', 'r', ' ', 'S', 'm', 'a', 'r', 't', ' ', 'A', 'c', 'c', 'o',
    'u', 'n', 't', ' ', 'A', 'u', 't', 'h', ':', '\n']

/-- `PREFIX_LEN`. -/
def prefixLen : ℕ := 28

/-- `PAYLOAD_LEN`. -/
def payloadLen : ℕ := 32

/-- `HEX_LEN`. -/
def hexLen : ℕ := 64

/-- `SIGNED_MSG_LEN`. -/
def signedMsgLen : ℕ := prefixLen + hexLen

/-- `HEX`. -/
def hex : Bytes :=
  ascii ['0', '1', '2', '3', '4', '5', '6', '7', '8', '9', 'a', 'b', 'c', 'd', 'e', 'f']

/-- The loop of `hex_encode_lower`.  An index out of bounds panics. -/
def hexEncodeFrom : Bytes → Bytes → ℕ → Option Bytes
  | [], dst, _ => some dst
  | byte :: src, dst, i => do
      let high ← hex[byte.val >>> 4]?
      let dst ← write dst i high
      let low ← hex[byte.val &&& 0x0f]?
      let dst ← write dst (i + 1) low
      hexEncodeFrom src dst (i + 2)

/-- `hex_encode_lower`. -/
def hexEncodeLower (dst src : Bytes) : Option Bytes := hexEncodeFrom src dst 0

/-- `copy_from_slice`, which panics on slices of different lengths. -/
def copyFromSlice (dst src : Bytes) : Option Bytes :=
  if dst.length = src.length then some src else none

/-- The part of `verify` that builds the signed message. -/
def buildSignedMsg (hash : Bytes) : Option Bytes := do
  let signedMsg : Bytes := List.replicate signedMsgLen 0
  let start ← copyFromSlice (signedMsg.take prefixLen) authPrefix
  let rest ← hexEncodeLower (signedMsg.drop prefixLen) hash
  some (start ++ rest)

/-- `verify`. -/
def verify (crypto : Crypto) (hash : Bytes) (keyData : BytesN 32) (sigData : BytesN 64) :
    Except (Fault ModifiedEd25519VerifierError) Bool := do
  ensure (¬ hash.length ≠ payloadLen) (.contract .invalidHashLength)
  let signedMsg ← unwrapOr (buildSignedMsg hash) .trap
  ensure (crypto.ed25519Verify keyData signedMsg sigData) .trap
  pure true

def verifier (crypto : Crypto) (crate : VerifiersCrate) :
    Verifier (BytesN 32) (BytesN 64) ModifiedEd25519VerifierError where
  verify := verify crypto
  canonicalizeKey := fun keyData => pure (crate.ed25519CanonicalizeKey keyData)
  batchCanonicalizeKey := fun keyData => pure (crate.ed25519BatchCanonicalizeKey keyData)

def contract (crypto : Crypto) (crate : VerifiersCrate) :
    Verifier Bytes Bytes ModifiedEd25519VerifierError :=
  (verifier crypto crate).onBytes (tryFrom 32) (tryFrom 64)

end ModifiedEd25519

end LatchContracts.Verifiers
