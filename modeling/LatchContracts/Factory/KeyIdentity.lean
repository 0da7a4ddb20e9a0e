import LatchContracts.Factory.Deployment
import Mathlib.Data.List.Dedup

/-!
# Signers and the keys that authenticate them

The factory compares the whole `key_data` of two signers.  A verifier checks a
signature against a part of it: the Ed25519 verifier against all 32 bytes, and
the WebAuthn verifier against the first 65 bytes, the public key.  What follows
the public key is a credential ID, which `canonicalize_key` strips.

So the factory accepts two WebAuthn signers with the same public key and
different credential IDs, although one key authenticates both.
`signers_distinct_iff` says that this is the only way in which accepted signers
fail to be different keys.
-/

namespace LatchContracts.Factory

open LatchContracts.Lib LatchContracts.Host

/-! ## Identities -/

/-- The part of the key data that the verifier of a kind checks signatures
against. -/
def verifiedKey : SignerKind → Bytes → Bytes
  | .ed25519, keyData => keyData
  | .webAuthn, keyData => keyData.take 65

/-- What authenticates a signer: an address or a key. -/
inductive Identity
  | address (a : Address)
  | key (kind : SignerKind) (verified : Bytes)
  deriving DecidableEq

/-- The identity behind a signer. -/
def identity : AccountSignerInit → Identity
  | .delegated a => .address a
  | .external e => .key e.signerKind (verifiedKey e.signerKind e.keyData)

/-- What the `canonicalize_key` of the two configured verifiers answers: the
Ed25519 one passes a key through, and the WebAuthn one keeps the first 65
bytes. -/
structure Canonicalizes (config : FactoryConfig) (canonicalizeKey : Address → Bytes → Bytes) :
    Prop where
  ed25519 : ∀ keyData : Bytes, keyData.length = 32 →
    canonicalizeKey config.ed25519Verifier keyData = keyData
  webAuthn : ∀ keyData : Bytes, 65 < keyData.length →
    canonicalizeKey config.webauthnVerifier keyData = keyData.take 65

/-- The canonical form of an account's signer, by which the account detects
duplicates. -/
def canonicalSigner (canonicalizeKey : Address → Bytes → Bytes) : Signer → Signer
  | .delegated a => .delegated a
  | .external verifier keyData => .external verifier (canonicalizeKey verifier keyData)

/-- The signers of an account are different identities, so that a threshold of
`m` needs `m` different ones, and the account finds no duplicate. -/
structure SignersDistinct (config : FactoryConfig) (canonicalizeKey : Address → Bytes → Bytes)
    (n : NormalizedParams) : Prop where
  identities : (n.signers.map identity).Nodup
  threshold : ∀ approving : List AccountSignerInit, approving.Sublist n.signers →
    (approving.length : ℤ) = n.effectiveThreshold.val →
    ((approving.map identity).dedup.length : ℤ) = n.effectiveThreshold.val
  accepted : ((buildAccountSigners config n.signers).map (canonicalSigner canonicalizeKey)).Nodup

/-- No two different WebAuthn signers have the same public key. -/
def NoSharedPublicKey (signers : List AccountSignerInit) : Prop :=
  ∀ e f : ExternalSignerInit, .external e ∈ signers → .external f ∈ signers →
    e.signerKind = .webAuthn → f.signerKind = .webAuthn →
    e.keyData.take 65 = f.keyData.take 65 → e = f

/-! ## When accepted signers are different keys -/

theorem keyData_length_of_ed25519 {e : ExternalSignerInit} (hkind : e.signerKind = .ed25519)
    (h : validateSignerShape (.external e) = .ok ()) : e.keyData.length = 32 := by
  simp only [validateSignerShape, hkind, ensure_eq_ok] at h
  omega

theorem keyData_length_of_webAuthn {e : ExternalSignerInit} (hkind : e.signerKind = .webAuthn)
    (h : validateSignerShape (.external e) = .ok ()) : 65 < e.keyData.length := by
  simp only [validateSignerShape, hkind, ensure_eq_ok, not_or] at h
  omega

/-- Without a shared public key, the identity of a signer determines it. -/
theorem identity_injOn {signers : List AccountSignerInit} (h : NoSharedPublicKey signers)
    {a b : AccountSignerInit} (ha : a ∈ signers) (hb : b ∈ signers)
    (heq : identity a = identity b) : a = b := by
  cases a with
  | delegated x =>
    cases b with
    | delegated y => rw [Identity.address.inj heq]
    | external f => cases heq
  | external e =>
    cases b with
    | delegated y => cases heq
    | external f =>
      obtain ⟨hkind, hkey⟩ := Identity.key.inj heq
      cases he : e.signerKind with
      | ed25519 =>
        rw [he] at hkind hkey
        rw [← hkind] at hkey
        rw [ExternalSignerInit.ext (he.trans hkind) hkey]
      | webAuthn =>
        rw [he] at hkind hkey
        rw [← hkind] at hkey
        rw [h e f ha hb he hkind.symm hkey]

/-- The verified part of an accepted key has a length of its own for each
kind. -/
theorem verifiedKey_length {e : ExternalSignerInit}
    (h : validateSignerShape (.external e) = .ok ()) :
    (verifiedKey e.signerKind e.keyData).length =
      match e.signerKind with
      | .ed25519 => 32
      | .webAuthn => 65 := by
  cases hkind : e.signerKind with
  | ed25519 => exact keyData_length_of_ed25519 hkind h
  | webAuthn =>
    have hlength := keyData_length_of_webAuthn hkind h
    show (e.keyData.take 65).length = 65
    rw [List.length_take]
    omega

/-- The account keeps the verified part of a key. -/
theorem canonicalSigner_external {config : FactoryConfig}
    {canonicalizeKey : Address → Bytes → Bytes} (hcanon : Canonicalizes config canonicalizeKey)
    {e : ExternalSignerInit} (h : validateSignerShape (.external e) = .ok ()) :
    ∃ verifier, canonicalSigner canonicalizeKey (accountSigner config (.external e)) =
      .external verifier (verifiedKey e.signerKind e.keyData) := by
  cases hkind : e.signerKind with
  | ed25519 =>
    refine ⟨config.ed25519Verifier, ?_⟩
    simp only [accountSigner, hkind, canonicalSigner, verifiedKey,
      hcanon.ed25519 e.keyData (keyData_length_of_ed25519 hkind h)]
  | webAuthn =>
    refine ⟨config.webauthnVerifier, ?_⟩
    simp only [accountSigner, hkind, canonicalSigner, verifiedKey,
      hcanon.webAuthn e.keyData (keyData_length_of_webAuthn hkind h)]

/-- The canonical form of an account's signer determines its identity. -/
theorem identity_of_canonicalSigner {config : FactoryConfig}
    {canonicalizeKey : Address → Bytes → Bytes} (hcanon : Canonicalizes config canonicalizeKey)
    {a b : AccountSignerInit} (ha : validateSignerShape a = .ok ())
    (hb : validateSignerShape b = .ok ())
    (heq : canonicalSigner canonicalizeKey (accountSigner config a) =
      canonicalSigner canonicalizeKey (accountSigner config b)) : identity a = identity b := by
  cases a with
  | delegated x =>
    cases b with
    | delegated y => exact congrArg Identity.address (Signer.delegated.inj heq)
    | external f =>
      obtain ⟨verifier, hf⟩ := canonicalSigner_external hcanon hb
      rw [hf] at heq
      cases heq
  | external e =>
    obtain ⟨verifier, he⟩ := canonicalSigner_external hcanon ha
    cases b with
    | delegated y =>
      rw [he] at heq
      cases heq
    | external f =>
      obtain ⟨verifier', hf⟩ := canonicalSigner_external hcanon hb
      rw [he, hf] at heq
      have hkey := (Signer.external.inj heq).2
      -- keys of different kinds have different lengths, whatever the verifiers are
      have hlength := congrArg List.length hkey
      rw [verifiedKey_length ha, verifiedKey_length hb] at hlength
      have hkind : e.signerKind = f.signerKind := by
        cases hek : e.signerKind <;> cases hfk : f.signerKind <;> simp [hek, hfk] at hlength ⊢
      show Identity.key e.signerKind (verifiedKey e.signerKind e.keyData) =
        .key f.signerKind (verifiedKey f.signerKind f.keyData)
      rw [hkey, hkind]

/-- The signers that the factory accepts are different keys exactly when no two
different WebAuthn signers of the parameters have the same public key. -/
theorem signers_distinct_iff {config : FactoryConfig} {canonicalizeKey : Address → Bytes → Bytes}
    (hcanon : Canonicalizes config canonicalizeKey) {p : AccountInitParams} {n : NormalizedParams}
    (hp : normalizeParams p = .ok n) :
    SignersDistinct config canonicalizeKey n ↔ NoSharedPublicKey p.signers := by
  have hn := normalizeParams_eq_ok.mp hp
  have hnodup : n.signers.Nodup := hn.perm.nodup_iff.mpr hn.nodup
  constructor
  · intro h e f he hf hek hfk hkey
    have hinj := (List.nodup_map_iff_inj_on hnodup).mp h.identities
    have hsame : identity (.external e) = identity (.external f) := by
      show Identity.key e.signerKind (verifiedKey e.signerKind e.keyData) =
        .key f.signerKind (verifiedKey f.signerKind f.keyData)
      rw [hek, hfk]
      exact congrArg (Identity.key .webAuthn) hkey
    have heq := hinj _ (hn.perm.mem_iff.mpr he) _ (hn.perm.mem_iff.mpr hf) hsame
    exact AccountSignerInit.external.inj heq
  · intro h
    have hinj : ∀ a ∈ n.signers, ∀ b ∈ n.signers, identity a = identity b → a = b := by
      intro a ha b hb heq
      exact identity_injOn h (hn.perm.mem_iff.mp ha) (hn.perm.mem_iff.mp hb) heq
    have hidentities : (n.signers.map identity).Nodup :=
      (List.nodup_map_iff_inj_on hnodup).mpr hinj
    refine ⟨hidentities, ?_, ?_⟩
    · intro approving hsub hlength
      have hdistinct : (approving.map identity).Nodup := hidentities.sublist (hsub.map identity)
      rw [List.dedup_eq_self.mpr hdistinct, List.length_map]
      exact hlength
    · rw [buildAccountSigners, List.map_map]
      apply (List.nodup_map_iff_inj_on hnodup).mpr
      intro a ha b hb heq
      apply hinj a ha b hb
      exact identity_of_canonicalSigner hcanon (hn.shapes a (hn.perm.mem_iff.mp ha))
        (hn.shapes b (hn.perm.mem_iff.mp hb)) heq

/-! ## One public key with two credential IDs -/

def samplePasskey (publicKey credentialId : Byte) : ExternalSignerInit :=
  ⟨.webAuthn, 0x04 :: List.replicate 64 publicKey ++ [credentialId], by simp⟩

/-- The parameters with two passkeys and threshold two. -/
def samplePasskeys (a b : ExternalSignerInit) : AccountInitParams :=
  sampleParams [.external a, .external b] 2 (by simp)

/-- The `canonicalize_key` of the two sample verifiers. -/
def sampleCanonicalizeKey (verifier : Address) (keyData : Bytes) : Bytes :=
  if verifier = sampleConfig.webauthnVerifier then keyData.take 65 else keyData

theorem sampleCanonicalizeKey_canonicalizes :
    Canonicalizes sampleConfig sampleCanonicalizeKey where
  ed25519 := fun _ _ => if_neg (by decide)
  webAuthn := fun _ _ => if_pos rfl

/-- Two passkeys with one credential ID and different public keys are different
keys. -/
theorem signers_distinct_iff_sample :
    SignersDistinct sampleConfig sampleCanonicalizeKey
      ⟨[.external (samplePasskey 1 1), .external (samplePasskey 2 1)], 2,
        BytesN.replicate 32 3⟩ := by
  have hp : normalizeParams (samplePasskeys (samplePasskey 1 1) (samplePasskey 2 1)) =
      .ok ⟨[.external (samplePasskey 1 1), .external (samplePasskey 2 1)], 2,
        BytesN.replicate 32 3⟩ := rfl
  have hdiffer : (samplePasskey 1 1).keyData.take 65 ≠ (samplePasskey 2 1).keyData.take 65 := by
    decide
  have hmem : ∀ e, .external e ∈ (samplePasskeys (samplePasskey 1 1) (samplePasskey 2 1)).signers →
      e = samplePasskey 1 1 ∨ e = samplePasskey 2 1 := by
    intro e he
    simpa [samplePasskeys, sampleParams] using he
  refine (signers_distinct_iff sampleCanonicalizeKey_canonicalizes hp).mpr ?_
  intro e f he hf _ _ hkey
  rcases hmem e he with rfl | rfl
  · rcases hmem f hf with rfl | rfl
    · rfl
    · exact absurd hkey hdiffer
  · rcases hmem f hf with rfl | rfl
    · exact absurd hkey hdiffer.symm
    · rfl

/-- Two registrations of one passkey pass the factory with threshold two, and one
key authenticates both. -/
theorem shared_public_key_accepted :
    ¬ ∀ p n, normalizeParams p = .ok n → (n.signers.map identity).Nodup := by
  intro h
  have hp : normalizeParams (samplePasskeys (samplePasskey 1 1) (samplePasskey 1 2)) =
      .ok ⟨[.external (samplePasskey 1 1), .external (samplePasskey 1 2)], 2,
        BytesN.replicate 32 3⟩ := rfl
  exact absurd (h _ _ hp) (by decide)

end LatchContracts.Factory
