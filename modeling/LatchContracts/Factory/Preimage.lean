import LatchContracts.Factory.Canonical
import LatchContracts.Lib.SelfDelimiting

/-!
# The identity of an account address

The preimage of the salt is a concatenation of fields: a domain string, the
account salt, the number of signers, one field for each signer, and the
threshold.  A signer field is a tag, a length and a payload.  Each field can be
read off the front of the rest, so the preimage determines the normalized
parameters (`saltPreimage_injective`).

Together with `Canonical.eq_iff` this gives the identity of addresses in both
directions: the address is a function of the logical account, and where the hash
and the derivation do not collide, different accounts have different addresses
(`account_address_identity`).
-/

namespace LatchContracts.Factory

open LatchContracts.Lib LatchContracts.Host

/-- What the factory relies on of the XDR encoding of an address: different
addresses have different encodings, and an encoding is a host byte string. -/
structure FactoryHost.Encodes (host : FactoryHost) : Prop where
  toXdr_injective : Function.Injective host.toXdr
  toXdr_length : ∀ a, (host.toXdr a).length < 2 ^ 32

/-! ## The fields of the preimage -/

theorem toBeBytes_injective {n m : ℕ} (hn : n < 2 ^ 32) (hm : m < 2 ^ 32)
    (h : toBeBytes n = toBeBytes m) : n = m := by
  simp only [toBeBytes, List.cons.injEq, and_true, Fin.ext_iff, Fin.val_ofNat] at h
  omega

theorem toBeBytes_selfDelimiting : SelfDelimiting (fun n => n < 2 ^ 32) toBeBytes :=
  .of_length (n := 4) (fun _ _ => rfl) (fun _ _ hn hm h => toBeBytes_injective hn hm h)

section Host

variable {host : FactoryHost}

theorem signerPayload_length (hhost : host.Encodes) (signer : AccountSignerInit) :
    (signerPayload host signer).length < 2 ^ 32 := by
  cases signer with
  | delegated address => exact hhost.toXdr_length address
  | external e => exact e.keyData_len

/-- The tag and the payload determine a signer. -/
theorem signerPayload_injective (hhost : host.Encodes) {a b : AccountSignerInit}
    (hcode : accountSignerCode a = accountSignerCode b)
    (hpayload : signerPayload host a = signerPayload host b) : a = b := by
  cases a with
  | delegated x =>
    cases b with
    | delegated y => rw [hhost.toXdr_injective hpayload]
    | external f =>
      cases hk : f.signerKind <;> simp [hk, accountSignerCode, signerKindCode] at hcode
  | external e =>
    cases b with
    | delegated y =>
      cases hk : e.signerKind <;> simp [hk, accountSignerCode, signerKindCode] at hcode
    | external f =>
      have hkind := AccountSignerInit.signerKindCode_injective hcode
      rw [ExternalSignerInit.ext hkind hpayload]

/-- A signer field can be read off the front of a byte string. -/
theorem encodeSigner_selfDelimiting (hhost : host.Encodes) :
    SelfDelimiting (fun _ => True) (encodeSigner host) := by
  have htag : SelfDelimiting (fun _ : Byte => True) (fun code => [code]) :=
    .of_length (n := 1) (fun _ _ => rfl) (fun _ _ _ _ h => (List.cons.inj h).1)
  apply htag.bind (fun _ _ => trivial)
  intro code
  apply toBeBytes_selfDelimiting.lengthPrefixed.comap
  · intro signer _
    exact signerPayload_length hhost signer
  · intro a b ha hb h
    exact signerPayload_injective hhost (ha.2.trans hb.2.symm) h

theorem threshold_lt (n : NormalizedParams) : n.effectiveThreshold.val.toNat < 2 ^ 32 := by
  have hlo := n.effectiveThreshold.lo_le
  have hhi := n.effectiveThreshold.le_hi
  omega

/-- The preimage determines the normalized parameters. -/
theorem saltPreimage_injective (hhost : host.Encodes) {n m : NormalizedParams}
    (hn : n.signers.length < 2 ^ 32) (hm : m.signers.length < 2 ^ 32)
    (h : saltPreimage host n = saltPreimage host m) : n = m := by
  have hsalt : SelfDelimiting (fun _ : BytesN 32 => True) BytesN.toList :=
    .of_length (n := 32) (fun b _ => b.length_eq) (fun _ _ _ _ h => BytesN.ext h)
  have hsigners := (encodeSigner_selfDelimiting hhost).counted toBeBytes_selfDelimiting
  have hfields : SelfDelimiting (fun n : NormalizedParams => n.signers.length < 2 ^ 32)
      (fun n => n.accountSalt.toList ++
        ((toBeBytes n.signers.length ++ n.signers.flatMap (encodeSigner host)) ++
          toBeBytes n.effectiveThreshold.val.toNat)) := by
    apply hsalt.bind (fun _ _ => trivial)
    intro salt
    apply hsigners.bind (fun n hn => ⟨fun _ _ => trivial, hn.1⟩)
    intro signers
    -- salt and signers are read, and the threshold is the rest
    apply SelfDelimiting.of_length (n := 4) (fun _ _ => rfl)
    rintro n m ⟨⟨_, hsalt⟩, hsigners⟩ ⟨⟨_, hsalt'⟩, hsigners'⟩ hthreshold
    have hval := toBeBytes_injective (threshold_lt n) (threshold_lt m) hthreshold
    have hlo := n.effectiveThreshold.lo_le
    have hlo' := m.effectiveThreshold.lo_le
    refine NormalizedParams.ext (hsigners.trans hsigners'.symm) (Bounded.ext ?_)
      (hsalt.trans hsalt'.symm)
    omega
  exact hfields.injective hn hm (List.append_cancel_left h)

/-- The canonical form has as many signers as the parameters. -/
theorem Canonical.signers_length_lt {p : AccountInitParams} {n : NormalizedParams}
    (h : Canonical p n) : n.signers.length < 2 ^ 32 := by
  rw [h.perm.length_eq]
  exact p.signers_len

/-- Accepted parameters have the same preimage exactly when they describe the
same account. -/
theorem saltPreimage_eq_iff (hhost : host.Encodes) {p q : AccountInitParams}
    {n m : NormalizedParams} (hp : Canonical p n) (hq : Canonical q m) :
    saltPreimage host n = saltPreimage host m ↔ SameAccount p q := by
  rw [← hp.eq_iff hq]
  constructor
  · exact saltPreimage_injective hhost hp.signers_length_lt hq.signers_length_lt
  · intro heq
    rw [heq]

/-- Two accepted parameters have the same preimage exactly when they describe
the same account.  Where the hash of the two preimages and the addresses derived
from the two salts do not collide, the same holds of the address. -/
theorem account_address_identity (hhost : host.Encodes) {p q : AccountInitParams}
    {n m : NormalizedParams} (hp : normalizeParams p = .ok n) (hq : normalizeParams q = .ok m) :
    (saltPreimage host n = saltPreimage host m ↔ SameAccount p q) ∧
      ((host.sha256 (saltPreimage host n) = host.sha256 (saltPreimage host m) →
          saltPreimage host n = saltPreimage host m) →
        (host.deployedAddress (computeAccountDeploySalt host n) =
            host.deployedAddress (computeAccountDeploySalt host m) →
          computeAccountDeploySalt host n = computeAccountDeploySalt host m) →
        (getAccountAddress host p = getAccountAddress host q ↔ SameAccount p q)) := by
  have hiff := saltPreimage_eq_iff hhost (normalizeParams_eq_ok.mp hp) (normalizeParams_eq_ok.mp hq)
  refine ⟨hiff, ?_⟩
  intro hsha hderive
  have haddress : getAccountAddress host p = getAccountAddress host q ↔
      accountAddress host n = accountAddress host m := by
    unfold getAccountAddress
    rw [hp, hq]
    exact ⟨fun h => Except.ok.inj h, fun h => congrArg Except.ok h⟩
  rw [haddress, ← hiff]
  constructor
  · intro h
    exact hsha (hderive h)
  · intro h
    unfold accountAddress computeAccountDeploySalt
    rw [h]

end Host

/-! ## Three parameters of two accounts

Two signers in both orders with threshold one, and the same signers with
threshold two.  The sample host has the real digests of the two preimages and
the real addresses of a factory on the test network. -/

def sampleHost : FactoryHost where
  sha256 := fun preimage =>
    if preimage.getLast? = some 1 then
      ⟨[107, 209, 245, 195, 166, 204, 222, 242, 21, 70, 143, 141, 1, 253, 107, 214, 10, 220, 247,
        218, 73, 172, 52, 97, 212, 19, 51, 152, 169, 210, 97, 91], rfl⟩
    else
      ⟨[214, 119, 211, 67, 149, 117, 139, 213, 184, 42, 10, 52, 101, 39, 98, 33, 109, 11, 197, 248,
        124, 201, 228, 179, 60, 193, 74, 152, 128, 134, 233, 97], rfl⟩
  toXdr := fun
    | .account id => [0, 0, 0, 18, 0, 0, 0, 0, 0, 0, 0, 0] ++ id.toList
    | .contract id => [0, 0, 0, 18, 0, 0, 0, 1] ++ id.toList
  deployedAddress := fun salt =>
    if salt.toList.head? = some 107 then
      .contract ⟨[154, 168, 225, 241, 210, 94, 97, 253, 23, 155, 95, 253, 247, 84, 13, 44, 184, 52,
        170, 167, 61, 110, 31, 171, 37, 8, 140, 23, 15, 66, 0, 240], rfl⟩
    else
      .contract ⟨[124, 86, 82, 8, 49, 225, 93, 81, 247, 25, 239, 184, 236, 226, 83, 252, 43, 31, 74,
        170, 70, 133, 117, 126, 30, 128, 82, 65, 55, 214, 201, 244], rfl⟩

def sampleDelegated : AccountSignerInit := .delegated (.account (BytesN.replicate 32 5))

def sampleKey : AccountSignerInit := .external ⟨.ed25519, List.replicate 32 9, by decide⟩

def sampleParams (signers : List AccountSignerInit) (threshold : U32)
    (h : signers.length < 2 ^ 32) : AccountInitParams :=
  ⟨signers, some threshold, BytesN.replicate 32 3, h⟩

theorem sampleHost_encodes : sampleHost.Encodes where
  toXdr_injective := by
    intro a b h
    -- the byte at offset 7 tells accounts from contracts
    have htype : (sampleHost.toXdr a)[7]? = (sampleHost.toXdr b)[7]? := by rw [h]
    cases a with
    | account x =>
      cases b with
      | account y => rw [BytesN.ext (List.append_cancel_left h)]
      | contract y => simp [sampleHost] at htype
    | contract x =>
      cases b with
      | account y => simp [sampleHost] at htype
      | contract y => rw [BytesN.ext (List.append_cancel_left h)]
  toXdr_length := by
    intro a
    cases a <;> simp [sampleHost, BytesN.length_eq]

/-- The order of the signers does not change the address, and the threshold
does. -/
theorem account_address_identity_sample :
    getAccountAddress sampleHost (sampleParams [sampleKey, sampleDelegated] 1 (by decide)) =
        getAccountAddress sampleHost (sampleParams [sampleDelegated, sampleKey] 1 (by decide)) ∧
      getAccountAddress sampleHost (sampleParams [sampleDelegated, sampleKey] 1 (by decide)) ≠
        getAccountAddress sampleHost
          (sampleParams [sampleDelegated, sampleKey] 2 (by decide)) := by
  have hswapped : normalizeParams (sampleParams [sampleKey, sampleDelegated] 1 (by decide)) =
      .ok ⟨[sampleDelegated, sampleKey], 1, BytesN.replicate 32 3⟩ := rfl
  have hone : normalizeParams (sampleParams [sampleDelegated, sampleKey] 1 (by decide)) =
      .ok ⟨[sampleDelegated, sampleKey], 1, BytesN.replicate 32 3⟩ := rfl
  have htwo : normalizeParams (sampleParams [sampleDelegated, sampleKey] 2 (by decide)) =
      .ok ⟨[sampleDelegated, sampleKey], 2, BytesN.replicate 32 3⟩ := rfl
  refine ⟨?_, ?_⟩
  · apply ((account_address_identity sampleHost_encodes hswapped hone).2 (fun _ => rfl)
      (fun _ => rfl)).mpr
    exact ⟨rfl, .swap sampleDelegated sampleKey [], rfl⟩
  · intro heq
    have hsame := ((account_address_identity sampleHost_encodes hone htwo).2
      (fun h => absurd h (by decide)) (fun h => absurd h (by decide))).mp heq
    exact absurd hsame.2.2 (by decide)

end LatchContracts.Factory
