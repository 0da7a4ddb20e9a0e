import LatchContracts.Verifiers.Model
import Mathlib.Data.List.Forall2

/-!
# Keys and what they authenticate

An account compares the canonical forms of two keys to find a signer that is
registered twice, and hands the registered key to the verifier.  For that to be
sound the canonical form has to be all that the verifier looks at.
`Authenticates` says so for one verifier, together with the other half: a key that
authenticates anything has a canonical form, and a verifier never answers `false`.

The keys of four of the verifiers are byte strings of fixed length that are their
own canonical form, so `authenticates_onBytes` covers them at once.  The keys of
the WebAuthn verifier have a suffix that it does not look at.
-/

namespace LatchContracts.Verifiers

open LatchContracts.Lib LatchContracts.Host

/-- What an account relies on in a verifier. -/
structure Authenticates {ε : Type} (v : Verifier Bytes Bytes ε) : Prop where
  /-- A refused signature aborts the call. -/
  never_false : ∀ hash keyData sigData, v.verify hash keyData sigData ≠ .ok false
  /-- A key that authenticates has a canonical form. -/
  has_canonical : ∀ hash keyData sigData, v.verify hash keyData sigData = .ok true →
    ∃ c, v.canonicalizeKey keyData = .ok c
  /-- The canonical form is a key with itself as canonical form, and it
  authenticates what the key does. -/
  canonical : ∀ keyData c, v.canonicalizeKey keyData = .ok c →
    v.canonicalizeKey c = .ok c ∧ ∀ hash sigData, v.verify hash c sigData =
      v.verify hash keyData sigData
  /-- A batch succeeds when each key does, and keeps their order. -/
  batch : ∀ keys cs, v.batchCanonicalizeKey keys = .ok cs ↔
    List.Forall₂ (fun keyData c => v.canonicalizeKey keyData = .ok c) keys cs

/-- What the documentation of the crate and of the two verifiers says of its
functions. -/
structure VerifiersCrate.Documented (crate : VerifiersCrate) (crypto : Crypto) : Prop where
  extractFromBytes : ∀ n b, crate.extractFromBytes n b = tryFrom n (b.take n)
  webauthnVerify : ∀ hash pubKey sigStruct, crate.webauthnVerify hash pubKey sigStruct ≠ .ok false
  webauthnCanonicalizeKey : ∀ keyData : Bytes, crate.webauthnCanonicalizeKey keyData =
    if keyData.length < 65 then .error (.contract 3119) else .ok (keyData.take 65)
  webauthnBatchCanonicalizeKey : ∀ keys,
    crate.webauthnBatchCanonicalizeKey keys = canonicalizeEach crate.webauthnCanonicalizeKey keys
  ed25519Verify : ∀ hash keyData sigData, crate.ed25519Verify hash keyData sigData =
    if crypto.ed25519Verify keyData hash sigData then .ok true else .error .trap
  ed25519CanonicalizeKey : ∀ keyData, crate.ed25519CanonicalizeKey keyData = keyData.toList
  ed25519BatchCanonicalizeKey : ∀ keys,
    crate.ed25519BatchCanonicalizeKey keys = keys.map crate.ed25519CanonicalizeKey

/-! ## Conversions -/

theorem tryFrom_eq_some {n : ℕ} {b : Bytes} {key : BytesN n} :
    tryFrom n b = some key ↔ b = key.toList := by
  unfold tryFrom
  constructor
  · intro h
    split at h
    · rw [← Option.some.inj h]
    · cases h
  · intro h
    subst h
    rw [dif_pos key.length_eq]

theorem exists_tryFrom {n : ℕ} {b : Bytes} (h : b.length = n) : ∃ key, tryFrom n b = some key :=
  ⟨⟨b, h⟩, tryFrom_eq_some.mpr rfl⟩

section Each

variable {KeyData ε : Type}

theorem canonicalizeEach_eq_ok {canonicalizeKey : KeyData → Except (Fault ε) Bytes}
    {keys : List KeyData} {cs : List Bytes} :
    canonicalizeEach canonicalizeKey keys = .ok cs ↔
      List.Forall₂ (fun key c => canonicalizeKey key = .ok c) keys cs := by
  induction keys generalizing cs with
  | nil => rw [canonicalizeEach, pure_eq_ok, List.forall₂_nil_left_iff, eq_comm]
  | cons key keys ih =>
    simp only [canonicalizeEach, bind_eq_ok, pure_eq_ok, ih, List.forall₂_cons_left_iff]
    constructor
    · intro h
      rcases h with ⟨c, hc, rest, hrest, rfl⟩
      exact ⟨c, rest, hc, hrest, rfl⟩
    · intro h
      rcases h with ⟨c, rest, hc, hrest, rfl⟩
      exact ⟨c, hc, rest, hrest, rfl⟩

theorem convertEach_eq_ok {convert : Bytes → Option KeyData} {bs : List Bytes}
    {keys : List KeyData} :
    (convertEach convert bs : Except (Fault ε) (List KeyData)) = .ok keys ↔
      List.Forall₂ (fun b key => convert b = some key) bs keys := by
  induction bs generalizing keys with
  | nil => rw [convertEach, pure_eq_ok, List.forall₂_nil_left_iff, eq_comm]
  | cons b bs ih =>
    simp only [convertEach, bind_eq_ok, unwrapOr_eq_ok, pure_eq_ok, ih, List.forall₂_cons_left_iff]
    constructor
    · intro h
      rcases h with ⟨key, hkey, rest, hrest, rfl⟩
      exact ⟨key, rest, hkey, hrest, rfl⟩
    · intro h
      rcases h with ⟨key, rest, hkey, hrest, rfl⟩
      exact ⟨key, hkey, rest, hrest, rfl⟩

/-- Two lists that are related through a third one in the middle. -/
theorem forall₂_comp {α β γ : Type} {R : α → β → Prop} {S : β → γ → Prop} {as : List α}
    {cs : List γ} :
    (∃ bs, List.Forall₂ R as bs ∧ List.Forall₂ S bs cs) ↔
      List.Forall₂ (fun a c => ∃ b, R a b ∧ S b c) as cs := by
  induction as generalizing cs with
  | nil => simp
  | cons a as ih =>
    simp only [List.forall₂_cons_left_iff, ← ih]
    constructor
    · intro h
      rcases h with ⟨_, ⟨b, bs, hab, has, rfl⟩, hcs⟩
      obtain ⟨c, cs', hbc, hbs, rfl⟩ := List.forall₂_cons_left_iff.mp hcs
      exact ⟨c, cs', ⟨b, hab, hbc⟩, ⟨bs, has, hbs⟩, rfl⟩
    · intro h
      rcases h with ⟨c, cs', ⟨b, hab, hbc⟩, ⟨bs, has, hbs⟩, rfl⟩
      exact ⟨b :: bs, ⟨b, bs, hab, has, rfl⟩, .cons hbc hbs⟩

end Each

/-! ## Keys of fixed length -/

section Fixed

variable {n : ℕ} {SigData ε : Type} {v : Verifier (BytesN n) SigData ε}
  {convertSig : Bytes → Option SigData}

theorem onBytes_verify_eq_ok {hash keyData sigData : Bytes} {b : Bool} :
    (v.onBytes (tryFrom n) convertSig).verify hash keyData sigData = .ok b ↔
      ∃ key : BytesN n, keyData = key.toList ∧ ∃ sig, convertSig sigData = some sig ∧
        v.verify hash key sig = .ok b := by
  simp only [Verifier.onBytes, unwrapOr_bind_eq_ok, tryFrom_eq_some]

theorem onBytes_canonicalizeKey_eq_ok {keyData c : Bytes} :
    (v.onBytes (tryFrom n) convertSig).canonicalizeKey keyData = .ok c ↔
      ∃ key : BytesN n, keyData = key.toList ∧ v.canonicalizeKey key = .ok c := by
  simp only [Verifier.onBytes, unwrapOr_bind_eq_ok, tryFrom_eq_some]

/-- A verifier of keys of one length that are their own canonical form. -/
theorem authenticates_onBytes (hfalse : ∀ hash key sig, v.verify hash key sig ≠ .ok false)
    (hcanonical : ∀ hash key sig, v.verify hash key sig = .ok true →
      ∃ c, v.canonicalizeKey key = .ok c)
    (hsame : ∀ key c, v.canonicalizeKey key = .ok c → c = key.toList)
    (hbatch : ∀ keys, v.batchCanonicalizeKey keys = canonicalizeEach v.canonicalizeKey keys) :
    Authenticates (v.onBytes (tryFrom n) convertSig) where
  never_false := by
    intro hash keyData sigData h
    obtain ⟨key, _, sig, _, hverify⟩ := onBytes_verify_eq_ok.mp h
    exact hfalse hash key sig hverify
  has_canonical := by
    intro hash keyData sigData h
    obtain ⟨key, rfl, sig, _, hverify⟩ := onBytes_verify_eq_ok.mp h
    obtain ⟨c, hc⟩ := hcanonical hash key sig hverify
    exact ⟨c, onBytes_canonicalizeKey_eq_ok.mpr ⟨key, rfl, hc⟩⟩
  canonical := by
    intro keyData c h
    obtain ⟨key, rfl, hc⟩ := onBytes_canonicalizeKey_eq_ok.mp h
    obtain rfl := hsame key c hc
    exact ⟨h, fun _ _ => rfl⟩
  batch := by
    intro keys cs
    show (convertEach (tryFrom n) keys >>= v.batchCanonicalizeKey) = .ok cs ↔ _
    simp only [bind_eq_ok, convertEach_eq_ok, hbatch, canonicalizeEach_eq_ok, forall₂_comp,
      onBytes_canonicalizeKey_eq_ok, tryFrom_eq_some]

end Fixed

/-! ## The verifiers of this repository -/

section Verifiers

variable {crypto : Crypto} {crate : VerifiersCrate} {hash : Bytes}

theorem validateEncoding_eq_ok {ε : Type} {invalidKeyEncoding : ε} {keyData : BytesN 65}
    {u : Unit} :
    validateEncoding invalidKeyEncoding keyData = .ok u ↔ keyData.toList[0]? = some 0x04 := by
  rw [validateEncoding, ensure_eq_ok, not_not]

/-- Everything that a signature needs to be accepted. -/
theorem Secp256k1.verify_eq_ok {keyData sigData : BytesN 65} {b : Bool} :
    Secp256k1.verify crypto hash keyData sigData = .ok b ↔
      b = true ∧ keyData.toList[0]? = some 0x04 ∧ Secp256k1.recoveryId sigData ≤ 1 ∧
        ∃ hashN : BytesN 32, hash = hashN.toList ∧
          crypto.secp256k1Recover hashN (takeN 64 (by decide) sigData)
            (Secp256k1.recoveryId sigData) = some keyData := by
  simp only [Secp256k1.verify, Secp256k1.validateKeyEncoding, ensure_eq_ok, bind_eq_ok,
    validateEncoding_eq_ok, unwrapOr_eq_ok, tryFrom_eq_some, pure_eq_ok, exists_const, not_not,
    not_lt]
  constructor
  · intro h
    rcases h with ⟨_, hkey, hashN, hhash, hid, recovered, hrecover, rfl, rfl⟩
    exact ⟨rfl, hkey, hid, hashN, hhash, hrecover⟩
  · intro h
    rcases h with ⟨rfl, hkey, hid, hashN, rfl, hrecover⟩
    exact ⟨hashN.length_eq, hkey, hashN, rfl, hid, keyData, hrecover, rfl, rfl⟩

theorem P256.verify_eq_ok {keyData : BytesN 65} {sigData : BytesN 64} {b : Bool} :
    P256.verify crypto hash keyData sigData = .ok b ↔
      b = true ∧ keyData.toList[0]? = some 0x04 ∧
        ∃ hashN : BytesN 32, hash = hashN.toList ∧
          crypto.secp256r1Verify keyData hashN sigData = true := by
  simp only [P256.verify, P256.validateKeyEncoding, ensure_eq_ok, bind_eq_ok,
    validateEncoding_eq_ok, unwrapOr_eq_ok, tryFrom_eq_some, pure_eq_ok, exists_const, not_not]
  constructor
  · intro h
    rcases h with ⟨_, hkey, hashN, hhash, hverify, rfl⟩
    exact ⟨rfl, hkey, hashN, hhash, hverify⟩
  · intro h
    rcases h with ⟨rfl, hkey, hashN, rfl, hverify⟩
    exact ⟨hashN.length_eq, hkey, hashN, rfl, hverify, rfl⟩

theorem ModifiedEd25519.verify_eq_ok {keyData : BytesN 32} {sigData : BytesN 64} {b : Bool} :
    ModifiedEd25519.verify crypto hash keyData sigData = .ok b ↔
      b = true ∧ hash.length = 32 ∧ ∃ message, ModifiedEd25519.buildSignedMsg hash = some message ∧
        crypto.ed25519Verify keyData message sigData = true := by
  simp only [ModifiedEd25519.verify, ModifiedEd25519.payloadLen, ensure_bind_eq_ok,
    unwrapOr_bind_eq_ok, pure_eq_ok, not_not]
  constructor
  · intro h
    rcases h with ⟨hlength, message, hmessage, hverify, rfl⟩
    exact ⟨rfl, hlength, message, hmessage, hverify⟩
  · intro h
    rcases h with ⟨rfl, hlength, message, hmessage, hverify⟩
    exact ⟨hlength, message, hmessage, hverify, rfl⟩

/-- What `canonicalize_key` of the two verifiers of uncompressed keys does. -/
theorem validateEncoding_pure_eq_ok {ε : Type} {invalidKeyEncoding : ε} {keyData : BytesN 65}
    {c : Bytes} :
    (validateEncoding invalidKeyEncoding keyData >>= fun _ => pure keyData.toList) = .ok c ↔
      keyData.toList[0]? = some 0x04 ∧ keyData.toList = c := by
  simp only [bind_eq_ok, validateEncoding_eq_ok, pure_eq_ok, exists_const]

/-- A verifier of uncompressed keys that refuses every other encoding. -/
theorem authenticates_uncompressed {SigData ε : Type} {v : Verifier (BytesN 65) SigData ε}
    {convertSig : Bytes → Option SigData} {invalidKeyEncoding : ε}
    (hcanonicalize : ∀ key, v.canonicalizeKey key =
      (validateEncoding invalidKeyEncoding key >>= fun _ => pure key.toList))
    (hbatch : ∀ keys, v.batchCanonicalizeKey keys = canonicalizeEach v.canonicalizeKey keys)
    (hverify : ∀ hash key sig b, v.verify hash key sig = .ok b →
      b = true ∧ key.toList[0]? = some 0x04) :
    Authenticates (v.onBytes (tryFrom 65) convertSig) := by
  have hkey : ∀ key c, v.canonicalizeKey key = .ok c ↔
      key.toList[0]? = some 0x04 ∧ key.toList = c := by
    intro key c
    rw [hcanonicalize, validateEncoding_pure_eq_ok]
  refine authenticates_onBytes ?_ ?_ ?_ hbatch
  · intro hash key sig h
    cases (hverify hash key sig false h).1
  · intro hash key sig h
    exact ⟨key.toList, (hkey key _).mpr ⟨(hverify hash key sig true h).2, rfl⟩⟩
  · intro key c h
    exact ((hkey key c).mp h).2.symm

theorem Secp256k1.contract_authenticates (crypto : Crypto) :
    Authenticates (Secp256k1.contract crypto) := by
  refine authenticates_uncompressed (fun _ => rfl) (fun _ => rfl) ?_
  intro hash key sig b h
  obtain ⟨hb, hfirst, _⟩ := Secp256k1.verify_eq_ok.mp h
  exact ⟨hb, hfirst⟩

theorem P256.contract_authenticates (crypto : Crypto) : Authenticates (P256.contract crypto) := by
  refine authenticates_uncompressed (fun _ => rfl) (fun _ => rfl) ?_
  intro hash key sig b h
  obtain ⟨hb, hfirst, _⟩ := P256.verify_eq_ok.mp h
  exact ⟨hb, hfirst⟩

/-- A batch of keys that have no error. -/
theorem canonicalizeEach_pure {KeyData ε : Type} (canonicalizeKey : KeyData → Bytes)
    (keys : List KeyData) :
    canonicalizeEach (fun key => (pure (canonicalizeKey key) : Except (Fault ε) Bytes)) keys =
      pure (keys.map canonicalizeKey) := by
  induction keys with
  | nil => rfl
  | cons key keys ih =>
    rw [canonicalizeEach, ih]
    rfl

/-- A verifier with the key functions of the crate for Ed25519. -/
theorem authenticates_ed25519Keys {SigData ε : Type} {v : Verifier (BytesN 32) SigData ε}
    {convertSig : Bytes → Option SigData} (hcrate : crate.Documented crypto)
    (hcanonicalize : v.canonicalizeKey = fun key => pure (crate.ed25519CanonicalizeKey key))
    (hbatch : ∀ keys, v.batchCanonicalizeKey keys = pure (crate.ed25519BatchCanonicalizeKey keys))
    (hfalse : ∀ hash key sig, v.verify hash key sig ≠ .ok false) :
    Authenticates (v.onBytes (tryFrom 32) convertSig) := by
  refine authenticates_onBytes hfalse ?_ ?_ ?_
  · intro hash key sig _
    rw [hcanonicalize]
    exact ⟨_, rfl⟩
  · intro key c h
    rw [hcanonicalize, pure_eq_ok, hcrate.ed25519CanonicalizeKey] at h
    exact h.symm
  · intro keys
    rw [hbatch, hcanonicalize, canonicalizeEach_pure, hcrate.ed25519BatchCanonicalizeKey]

theorem Ed25519.contract_authenticates (hcrate : crate.Documented crypto) :
    Authenticates (Ed25519.contract crate) := by
  refine authenticates_ed25519Keys hcrate rfl (fun _ => rfl) ?_
  intro hash key sig h
  change crate.ed25519Verify hash key sig = .ok false at h
  rw [hcrate.ed25519Verify] at h
  split at h
  · cases h
  · cases h

theorem ModifiedEd25519.contract_authenticates (hcrate : crate.Documented crypto) :
    Authenticates (ModifiedEd25519.contract crypto crate) := by
  refine authenticates_ed25519Keys hcrate rfl (fun _ => rfl) ?_
  intro hash key sig h
  cases (ModifiedEd25519.verify_eq_ok.mp h).1

/-! ## Keys with a suffix -/

theorem WebAuthn.canonicalizeKey_eq_ok (hcrate : crate.Documented crypto) {keyData c : Bytes} :
    (WebAuthn.verifier crate).canonicalizeKey keyData = .ok c ↔
      65 ≤ keyData.length ∧ c = keyData.take 65 := by
  show crate.webauthnCanonicalizeKey keyData = .ok c ↔ _
  rw [hcrate.webauthnCanonicalizeKey]
  by_cases hshort : keyData.length < 65
  · rw [if_pos hshort]
    exact iff_of_false nofun (fun h => absurd h.1 (not_le.mpr hshort))
  · rw [if_neg hshort, Except.ok.injEq, eq_comm]
    exact (and_iff_right (not_lt.mp hshort)).symm

/-- Only the first 65 bytes of the key matter. -/
theorem WebAuthn.verify_take (hcrate : crate.Documented crypto) (keyData sigData : Bytes) :
    (WebAuthn.verifier crate).verify hash (keyData.take 65) sigData =
      (WebAuthn.verifier crate).verify hash keyData sigData := by
  show WebAuthn.verify crate hash _ sigData = WebAuthn.verify crate hash keyData sigData
  have hsame : crate.extractFromBytes 65 (keyData.take 65) = crate.extractFromBytes 65 keyData := by
    rw [hcrate.extractFromBytes, hcrate.extractFromBytes, List.take_take, Nat.min_self]
  unfold WebAuthn.verify
  rw [hsame]

theorem WebAuthn.verify_eq_ok (hcrate : crate.Documented crypto) {keyData sigData : Bytes}
    {b : Bool} (h : (WebAuthn.verifier crate).verify hash keyData sigData = .ok b) :
    b = true ∧ 65 ≤ keyData.length := by
  change WebAuthn.verify crate hash keyData sigData = .ok b at h
  simp only [WebAuthn.verify, unwrapOr_bind_eq_ok, hcrate.extractFromBytes, tryFrom_eq_some] at h
  obtain ⟨sigStruct, _, pubKey, hkey, hverify⟩ := h
  constructor
  · cases b with
    | true => rfl
    | false => exact absurd hverify (hcrate.webauthnVerify hash pubKey sigStruct)
  · have hlength := congrArg List.length hkey
    rw [List.length_take, pubKey.length_eq] at hlength
    omega

theorem WebAuthn.verifier_authenticates (hcrate : crate.Documented crypto) :
    Authenticates (WebAuthn.verifier crate) where
  never_false := by
    intro hash keyData sigData h
    cases (WebAuthn.verify_eq_ok hcrate h).1
  has_canonical := by
    intro hash keyData sigData h
    exact ⟨_, (WebAuthn.canonicalizeKey_eq_ok hcrate).mpr ⟨(WebAuthn.verify_eq_ok hcrate h).2, rfl⟩⟩
  canonical := by
    intro keyData c h
    obtain ⟨hlength, rfl⟩ := (WebAuthn.canonicalizeKey_eq_ok hcrate).mp h
    refine ⟨(WebAuthn.canonicalizeKey_eq_ok hcrate).mpr ⟨?_, ?_⟩, ?_⟩
    · rw [List.length_take]
      omega
    · rw [List.take_take, Nat.min_self]
    · intro hash sigData
      exact WebAuthn.verify_take hcrate keyData sigData
  batch := by
    intro keys cs
    show crate.webauthnBatchCanonicalizeKey keys = .ok cs ↔ _
    rw [hcrate.webauthnBatchCanonicalizeKey]
    exact canonicalizeEach_eq_ok

/-- Every verifier of the repository authenticates by the canonical form of a
key. -/
theorem verifiers_authenticate_canonical_keys (hcrate : crate.Documented crypto) :
    Authenticates (Secp256k1.contract crypto) ∧ Authenticates (P256.contract crypto) ∧
      Authenticates (Ed25519.contract crate) ∧ Authenticates (WebAuthn.verifier crate) ∧
      Authenticates (ModifiedEd25519.contract crypto crate) :=
  ⟨Secp256k1.contract_authenticates crypto, P256.contract_authenticates crypto,
    Ed25519.contract_authenticates hcrate, WebAuthn.verifier_authenticates hcrate,
    ModifiedEd25519.contract_authenticates hcrate⟩

/-! ## Recovered keys -/

/-- A signature is its first 64 bytes and the recovery ID. -/
theorem Secp256k1.toList_sigData (sigData : BytesN 65) :
    sigData.toList = (takeN 64 (by decide) sigData : BytesN 64).toList ++ [byteAt sigData 64] := by
  have hlength : 64 < sigData.toList.length := by
    rw [sigData.length_eq]
    decide
  have hall : sigData.toList.take 65 = sigData.toList :=
    List.take_of_length_le sigData.length_eq.le
  rw [← hall, List.take_succ_eq_append_getElem hlength]
  rfl

/-- The recovery ID is the number of the last byte. -/
theorem Secp256k1.val_recoveryId (sigData : BytesN 65) :
    (Secp256k1.recoveryId sigData).val = (byteAt sigData 64).val := by
  have hbyte := (byteAt sigData 64).isLt
  exact Bounded.val_ofInt_of_mem (by omega) (by omega)

theorem Secp256k1.contract_verify_iff {keyData sigData : Bytes} :
    (Secp256k1.contract crypto).verify hash keyData sigData = .ok true ↔
      ∃ (hashN : BytesN 32) (key sig : BytesN 65), hash = hashN.toList ∧ keyData = key.toList ∧
        sigData = sig.toList ∧ key.toList[0]? = some 0x04 ∧ Secp256k1.recoveryId sig ≤ 1 ∧
        crypto.secp256k1Recover hashN (takeN 64 (by decide) sig) (Secp256k1.recoveryId sig) =
          some key := by
  rw [Secp256k1.contract, onBytes_verify_eq_ok]
  simp only [tryFrom_eq_some, Secp256k1.verifier, Secp256k1.verify_eq_ok, true_and]
  constructor
  · intro h
    rcases h with ⟨key, hkey, sig, hsig, hfirst, hid, hashN, hhash, hrecover⟩
    exact ⟨hashN, key, sig, hhash, hkey, hsig, hfirst, hid, hrecover⟩
  · intro h
    rcases h with ⟨hashN, key, sig, hhash, hkey, hsig, hfirst, hid, hrecover⟩
    exact ⟨key, hkey, sig, hsig, hfirst, hid, hashN, hhash, hrecover⟩

/-- The two recovery IDs pick different candidates. -/
def Crypto.RecoversDistinct (crypto : Crypto) : Prop :=
  ∀ hash signature key, crypto.secp256k1Recover hash signature 0 = some key →
    crypto.secp256k1Recover hash signature 1 ≠ some key

theorem Secp256k1.recoveryId_cases {sig : BytesN 65} (h : Secp256k1.recoveryId sig ≤ 1) :
    (Secp256k1.recoveryId sig = 0 ∧ byteAt sig 64 = 0) ∨
      (Secp256k1.recoveryId sig = 1 ∧ byteAt sig 64 = 1) := by
  have hval := Secp256k1.val_recoveryId sig
  have hle : (Secp256k1.recoveryId sig).val ≤ 1 := Bounded.le_def.mp h
  rcases Nat.le_one_iff_eq_zero_or_eq_one.mp (show (byteAt sig 64).val ≤ 1 by omega) with hz | ho
  · exact .inl ⟨Bounded.ext (by rw [hval, hz]; rfl), Fin.ext hz⟩
  · exact .inr ⟨Bounded.ext (by rw [hval, ho]; rfl), Fin.ext ho⟩

/-- Recovering a key and comparing it is a verification.  For one hash a
signature authenticates one key at most, a key accepts one recovery byte at most
for the same `r` and `s` when the host recovers different keys for the two, and that
byte is zero or one, so that the values 27 and 28 of Ethereum are refused. -/
theorem secp256k1_signature_binds (crypto : Crypto) :
    (∀ hash key key' sig, (Secp256k1.contract crypto).verify hash key sig = .ok true →
      (Secp256k1.contract crypto).verify hash key' sig = .ok true → key = key') ∧
    (crypto.RecoversDistinct → ∀ hash key sig sig', sig.take 64 = sig'.take 64 →
      (Secp256k1.contract crypto).verify hash key sig = .ok true →
      (Secp256k1.contract crypto).verify hash key sig' = .ok true → sig = sig') ∧
    ∀ hash key sig, (Secp256k1.contract crypto).verify hash key sig = .ok true →
      hash.length = 32 ∧ key.length = 65 ∧ key[0]? = some 0x04 ∧
        ∃ rs : BytesN 64, sig = rs.toList ++ [0] ∨ sig = rs.toList ++ [1] := by
  refine ⟨?_, ?_, ?_⟩
  · intro hash key key' sig h h'
    obtain ⟨hashN, k, s, rfl, rfl, rfl, _, _, hrecover⟩ := Secp256k1.contract_verify_iff.mp h
    obtain ⟨hashN', k', s', hhash, rfl, hsig, _, _, hrecover'⟩ :=
      Secp256k1.contract_verify_iff.mp h'
    obtain rfl := BytesN.ext hhash
    obtain rfl := BytesN.ext hsig
    rw [hrecover] at hrecover'
    rw [Option.some.inj hrecover']
  · intro hcrypto hash key sig sig' hsame h h'
    obtain ⟨hashN, k, s, rfl, rfl, rfl, _, hid, hrecover⟩ := Secp256k1.contract_verify_iff.mp h
    obtain ⟨hashN', k', s', hhash, hkey, rfl, _, hid', hrecover'⟩ :=
      Secp256k1.contract_verify_iff.mp h'
    obtain rfl := BytesN.ext hhash
    obtain rfl := BytesN.ext hkey
    have hrs : (takeN 64 (by decide) s : BytesN 64) = takeN 64 (by decide) s' := BytesN.ext hsame
    rw [Secp256k1.toList_sigData s, Secp256k1.toList_sigData s', hrs]
    rw [hrs] at hrecover
    rcases Secp256k1.recoveryId_cases hid with ⟨hzero, hbyte⟩ | ⟨hone, hbyte⟩
    · rcases Secp256k1.recoveryId_cases hid' with ⟨_, hbyte'⟩ | ⟨hone', _⟩
      · rw [hbyte, hbyte']
      · rw [hzero] at hrecover
        rw [hone'] at hrecover'
        exact absurd hrecover' (hcrypto _ _ _ hrecover)
    · rcases Secp256k1.recoveryId_cases hid' with ⟨hzero', _⟩ | ⟨_, hbyte'⟩
      · rw [hone] at hrecover
        rw [hzero'] at hrecover'
        exact absurd hrecover (hcrypto _ _ _ hrecover')
      · rw [hbyte, hbyte']
  · intro hash key sig h
    obtain ⟨hashN, k, s, rfl, rfl, rfl, hfirst, hid, _⟩ := Secp256k1.contract_verify_iff.mp h
    refine ⟨hashN.length_eq, k.length_eq, hfirst, takeN 64 (by decide) s, ?_⟩
    rw [Secp256k1.toList_sigData s]
    rcases Secp256k1.recoveryId_cases hid with ⟨_, hbyte⟩ | ⟨_, hbyte⟩
    · exact .inl (by rw [hbyte])
    · exact .inr (by rw [hbyte])

end Verifiers

/-! ## A signature of the generator

The public key of the private key one is the generator.  With the nonce one the
`r` of its signatures is the first coordinate of the generator too. -/

def sampleHash : BytesN 32 := BytesN.replicate 32 1

def sampleR : Bytes :=
    [121, 190, 102, 126, 249, 220, 187, 172, 85, 160, 98, 149, 206, 135, 11, 7, 2, 155, 252, 219,
     45, 206, 40, 217, 89, 242, 129, 91, 22, 248, 23, 152]

def sampleS : Bytes :=
    [122, 191, 103, 127, 250, 221, 188, 173, 86, 161, 99, 150, 207, 136, 12, 8, 3, 156, 253, 220,
     46, 207, 41, 218, 90, 243, 130, 92, 23, 249, 24, 153]

/-- The generator. -/
def sampleKey : BytesN 65 where
  toList := 0x04 :: sampleR ++
    [72, 58, 218, 119, 38, 163, 196, 101, 93, 164, 251, 252, 14, 17, 8, 168, 253, 23, 180, 72, 166,
     133, 84, 25, 156, 71, 208, 143, 251, 16, 212, 184]
  length_eq := rfl

/-- The other candidate for the same `r` and `s`. -/
def sampleOtherKey : BytesN 65 where
  toList := 0x04 ::
    [179, 7, 213, 51, 48, 179, 101, 64, 241, 185, 146, 194, 32, 229, 130, 37, 212, 34, 231, 225,
     252, 200, 24, 93, 87, 25, 227, 196, 64, 50, 245, 162] ++
    [116, 199, 196, 195, 113, 216, 224, 203, 115, 250, 55, 250, 176, 246, 41, 55, 18, 247, 232,
     146, 168, 51, 240, 138, 10, 202, 102, 43, 156, 47, 93, 242]
  length_eq := rfl

def sampleSignature (recoveryId : Byte) : BytesN 65 :=
  ⟨sampleR ++ sampleS ++ [recoveryId], rfl⟩

/-- The host on the sample signature.  Everything else is refused. -/
def sampleCrypto : Crypto where
  ed25519Verify := fun _ _ _ => false
  secp256r1Verify := fun _ _ _ => false
  secp256k1Recover := fun hash signature recoveryId =>
    if hash = sampleHash ∧ signature.toList = sampleR ++ sampleS then
      if recoveryId = 0 then some sampleKey else some sampleOtherKey
    else none

theorem sampleCrypto_recoversDistinct : sampleCrypto.RecoversDistinct := by
  intro hash signature key h h'
  have hne : sampleKey ≠ sampleOtherKey := by decide
  simp only [sampleCrypto] at h h'
  split at h
  · rename_i hinput
    rw [if_pos trivial, Option.some.injEq] at h
    rw [if_pos hinput, if_neg (by decide), Option.some.injEq] at h'
    exact hne (h.trans h'.symm)
  · cases h

/-- The sample signature authenticates the generator and no other key, and the
generator accepts no other recovery byte with it. -/
theorem secp256k1_signature_binds_sample :
    (Secp256k1.contract sampleCrypto).verify sampleHash.toList sampleKey.toList
        (sampleSignature 0).toList = .ok true ∧
      (∀ key, (Secp256k1.contract sampleCrypto).verify sampleHash.toList key
        (sampleSignature 0).toList = .ok true → sampleKey.toList = key) ∧
      ∀ recoveryId, (Secp256k1.contract sampleCrypto).verify sampleHash.toList sampleKey.toList
        (sampleSignature recoveryId).toList = .ok true →
          (sampleSignature 0).toList = (sampleSignature recoveryId).toList := by
  have haccepted : (Secp256k1.contract sampleCrypto).verify sampleHash.toList sampleKey.toList
      (sampleSignature 0).toList = .ok true := rfl
  obtain ⟨hkeys, hbytes, _⟩ := secp256k1_signature_binds sampleCrypto
  refine ⟨haccepted, ?_, ?_⟩
  · intro key hkey
    exact hkeys _ _ _ _ haccepted hkey
  · intro recoveryId hsig
    exact hbytes sampleCrypto_recoversDistinct _ _ _ _ rfl haccepted hsig

/-! ## An assertion of a passkey

The private key and the nonce are one here too, on the other curve.  The browser's
data are those that the tests of the verifier build. -/

/-- The generator of P-256. -/
def sampleP256Key : BytesN 65 where
  toList := 0x04 ::
    [107, 23, 209, 242, 225, 44, 66, 71, 248, 188, 230, 229, 99, 164, 64, 242, 119, 3, 125, 129,
     45, 235, 51, 160, 244, 161, 57, 69, 216, 152, 194, 150] ++
    [79, 227, 66, 226, 254, 26, 127, 155, 142, 231, 235, 74, 124, 15, 158, 22, 43, 206, 51, 87,
     107, 49, 94, 206, 203, 182, 64, 104, 55, 191, 81, 245]
  length_eq := rfl

/-- The flags `UP`, `UV`, `BE` and `BS` are set. -/
def sampleAuthenticatorData : Bytes := List.replicate 32 0 ++ [0x1d] ++ List.replicate 4 0

/-- The challenge is the sample hash in base64url. -/
def sampleClientData : Bytes := ModifiedEd25519.ascii
  ("\x7b\"type\":\"webauthn.get\",".toList ++
    "\"challenge\":\"AQEBAQEBAQEBAQEBAQEBAQEBAQEBAQEBAQEBAQEBAQE\",".toList ++
    "\"origin\":\"https://example.com\",\"crossOrigin\":false\x7d".toList)

def sampleP256Signature : Bytes :=
    [107, 23, 209, 242, 225, 44, 66, 71, 248, 188, 230, 229, 99, 164, 64, 242, 119, 3, 125, 129,
     45, 235, 51, 160, 244, 161, 57, 69, 216, 152, 194, 150] ++
    [77, 4, 75, 8, 205, 22, 24, 199, 101, 95, 116, 242, 50, 177, 222, 183, 43, 254, 89, 194, 77,
     20, 130, 57, 104, 133, 144, 121, 65, 180, 214, 21]

/-- A symbol or a byte string in XDR: tag, length, bytes and padding. -/
def xdrField (tag : Byte) (b : Bytes) : Bytes :=
  [0, 0, 0, tag, 0, 0, 0, Fin.ofNat 256 b.length] ++ b ++ List.replicate ((4 - b.length % 4) % 4) 0

/-- `WebAuthnSigData::to_xdr`, a map of three entries. -/
def sampleAssertion : Bytes :=
  [0, 0, 0, 17, 0, 0, 0, 1, 0, 0, 0, 3] ++
    xdrField 15 (ModifiedEd25519.ascii "authenticator_data".toList) ++
    xdrField 13 sampleAuthenticatorData ++
    xdrField 15 (ModifiedEd25519.ascii "client_data".toList) ++ xdrField 13 sampleClientData ++
    xdrField 15 (ModifiedEd25519.ascii "signature".toList) ++ xdrField 13 sampleP256Signature

/-- The crate on the sample assertion.  Every other signature is refused. -/
def sampleCrate : VerifiersCrate where
  WebAuthnSigData := Unit
  fromXdr := fun sigData => if sigData = sampleAssertion then some () else none
  extractFromBytes := fun n b => tryFrom n (b.take n)
  webauthnVerify := fun hash pubKey _ =>
    if hash = sampleHash.toList ∧ pubKey = sampleP256Key then .ok true else .error .trap
  webauthnCanonicalizeKey := fun keyData =>
    if keyData.length < 65 then .error (.contract 3119) else .ok (keyData.take 65)
  webauthnBatchCanonicalizeKey := canonicalizeEach fun keyData =>
    if keyData.length < 65 then .error (.contract 3119) else .ok (keyData.take 65)
  ed25519Verify := fun _ _ _ => .error .trap
  ed25519CanonicalizeKey := fun keyData => keyData.toList
  ed25519BatchCanonicalizeKey := fun keys => keys.map (fun keyData => keyData.toList)

theorem sampleCrate_documented : sampleCrate.Documented sampleCrypto where
  extractFromBytes := fun _ _ => rfl
  webauthnVerify := by
    intro hash pubKey sigStruct h
    simp only [sampleCrate] at h
    split at h
    · cases h
    · cases h
  webauthnCanonicalizeKey := fun _ => rfl
  webauthnBatchCanonicalizeKey := fun _ => rfl
  ed25519Verify := fun _ _ _ => rfl
  ed25519CanonicalizeKey := fun _ => rfl
  ed25519BatchCanonicalizeKey := fun _ => rfl

/-- Two registrations of one passkey have one canonical form, and its assertion is
accepted for both of them and for that form. -/
theorem verifiers_authenticate_canonical_keys_sample :
    ((WebAuthn.verifier sampleCrate).canonicalizeKey (sampleP256Key.toList ++ [1]) =
        .ok sampleP256Key.toList ∧
      (WebAuthn.verifier sampleCrate).canonicalizeKey (sampleP256Key.toList ++ [2]) =
        .ok sampleP256Key.toList) ∧
      (WebAuthn.verifier sampleCrate).verify sampleHash.toList (sampleP256Key.toList ++ [1])
        sampleAssertion = .ok true ∧
      (WebAuthn.verifier sampleCrate).verify sampleHash.toList (sampleP256Key.toList ++ [2])
        sampleAssertion = .ok true ∧
      (WebAuthn.verifier sampleCrate).verify sampleHash.toList sampleP256Key.toList
        sampleAssertion = .ok true := by
  have hauth : Authenticates (WebAuthn.verifier sampleCrate) :=
    (verifiers_authenticate_canonical_keys sampleCrate_documented).2.2.2.1
  have hfirst : (WebAuthn.verifier sampleCrate).canonicalizeKey (sampleP256Key.toList ++ [1]) =
      .ok sampleP256Key.toList := rfl
  have hsecond : (WebAuthn.verifier sampleCrate).canonicalizeKey (sampleP256Key.toList ++ [2]) =
      .ok sampleP256Key.toList := rfl
  have haccepted : (WebAuthn.verifier sampleCrate).verify sampleHash.toList
      (sampleP256Key.toList ++ [1]) sampleAssertion = .ok true := by
    have hxdr : sampleCrate.fromXdr sampleAssertion = some () := by
      simp only [sampleCrate, if_true]
    show WebAuthn.verify sampleCrate sampleHash.toList _ sampleAssertion = .ok true
    rw [WebAuthn.verify, hxdr]
    rfl
  have hcanonical : (WebAuthn.verifier sampleCrate).verify sampleHash.toList sampleP256Key.toList
      sampleAssertion = .ok true := by
    rw [(hauth.canonical _ _ hfirst).2, haccepted]
  refine ⟨⟨hfirst, hsecond⟩, haccepted, ?_, hcanonical⟩
  rw [← (hauth.canonical _ _ hsecond).2, hcanonical]

end LatchContracts.Verifiers
