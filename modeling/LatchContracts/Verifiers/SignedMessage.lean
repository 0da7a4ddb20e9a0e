import LatchContracts.Lib.SelfDelimiting
import LatchContracts.Verifiers.Keys

/-!
# The message of the modified Ed25519 verifier

A wallet that refuses to sign 32 raw bytes signs a line of text instead: a fixed
prefix and the hash in lowercase hexadecimal.  The verifier builds that text in a
buffer of 92 bytes, with a loop that writes two digits for each byte.

`hexEncodeFrom_eq` says that the loop is a `writeAll` of the digits, so that the
rules of `Lib.Buffer` give the text it leaves.  `signed_message_binds` is what the
text has to do: it says the same as the hash, it cannot be taken for a hash, and
the verifier accepts the signatures of that text and no others.
-/

namespace LatchContracts.Verifiers

open LatchContracts.Lib LatchContracts.Host

namespace ModifiedEd25519

/-- The lowercase hexadecimal digit of a number below sixteen. -/
def hexDigit (n : ℕ) : Byte :=
  if n < 10 then Fin.ofNat 256 (48 + n) else Fin.ofNat 256 (87 + n)

/-- The two digits of a byte. -/
def hexPair (b : Byte) : Bytes := [hexDigit (b.val / 16), hexDigit (b.val % 16)]

/-- The lowercase hexadecimal form of a byte string. -/
def lowerHex (b : Bytes) : Bytes := b.flatMap hexPair

/-- The text that the wallet signs. -/
def signedText (hash : Bytes) : Bytes := authPrefix ++ lowerHex hash

/-- The byte is a character of a line of text. -/
def Readable (b : Byte) : Prop := b.val = 10 ∨ 32 ≤ b.val ∧ b.val < 127

instance (b : Byte) : Decidable (Readable b) := inferInstanceAs (Decidable (_ ∨ _))

/-! ## The loop -/

theorem hex_getElem? {n : ℕ} (h : n < 16) : hex[n]? = some (hexDigit n) := by
  have htable : ∀ m < 16, hex[m]? = some (hexDigit m) := by decide
  exact htable n h

theorem hex_high (b : Byte) : hex[b.val >>> 4]? = some (hexDigit (b.val / 16)) := by
  have hbyte := b.isLt
  rw [Nat.shiftRight_eq_div_pow]
  exact hex_getElem? (by omega)

theorem hex_low (b : Byte) : hex[b.val &&& 0x0f]? = some (hexDigit (b.val % 16)) := by
  rw [Nat.and_two_pow_sub_one_eq_mod b.val 4]
  exact hex_getElem? (by omega)

/-- Each turn of the loop writes the two digits of its byte. -/
theorem hexEncodeFrom_eq (src dst : Bytes) (i : ℕ) :
    hexEncodeFrom src dst i = writeAll (lowerHex src) dst i := by
  induction src generalizing dst i with
  | nil => rfl
  | cons b src ih =>
    simp only [hexEncodeFrom, hex_high, hex_low, ih, Option.bind_eq_bind, Option.bind_some]
    rfl

theorem length_lowerHex (b : Bytes) : (lowerHex b).length = 2 * b.length := by
  induction b with
  | nil => rfl
  | cons x b ih =>
    show (hexPair x ++ lowerHex b).length = _
    rw [List.length_append, ih, List.length_cons]
    show 2 + 2 * b.length = 2 * (b.length + 1)
    omega

theorem buildSignedMsg_eq {hash : Bytes} (h : hash.length = 32) :
    buildSignedMsg hash = some (signedText hash) := by
  have hlength : (lowerHex hash).length = 64 := by
    rw [length_lowerHex, h]
  have hne : lowerHex hash ≠ [] := by
    intro hnil
    rw [hnil] at hlength
    cases hlength
  have hstart : copyFromSlice ((List.replicate signedMsgLen 0).take prefixLen) authPrefix =
      some authPrefix := if_pos rfl
  have hrest : hexEncodeLower ((List.replicate signedMsgLen 0).drop prefixLen) hash =
      some (lowerHex hash) := by
    rw [hexEncodeLower, hexEncodeFrom_eq, writeAll_eq_some hne, hlength]
    refine ⟨le_rfl, ?_⟩
    show lowerHex hash = lowerHex hash ++ List.drop 64 (List.replicate 64 0)
    rw [List.drop_replicate, Nat.sub_self, List.replicate_zero, List.append_nil]
  simp only [buildSignedMsg, hstart, hrest, Option.bind_eq_bind, Option.bind_some]
  rfl

/-! ## The text says the same as the hash -/

theorem hexDigit_injective {n m : ℕ} (hn : n < 16) (hm : m < 16) (h : hexDigit n = hexDigit m) :
    n = m := by
  have htable : ∀ n < 16, ∀ m < 16, hexDigit n = hexDigit m → n = m := by decide
  exact htable n hn m hm h

theorem hexPair_injective {a b : Byte} (h : hexPair a = hexPair b) : a = b := by
  have ha := a.isLt
  have hb := b.isLt
  simp only [hexPair, List.cons.injEq, and_true] at h
  obtain ⟨hhigh, hlow⟩ := h
  have hdiv := hexDigit_injective (by omega) (by omega) hhigh
  have hmod := hexDigit_injective (by omega) (by omega) hlow
  apply Fin.ext
  omega

theorem lowerHex_injective {a b : Bytes} (h : lowerHex a = lowerHex b) : a = b := by
  have hpair : SelfDelimiting (fun _ : Byte => True) hexPair :=
    SelfDelimiting.of_length (n := 2) (fun _ _ => rfl) (fun _ _ _ _ => hexPair_injective)
  have hlength := congrArg List.length h
  rw [length_lowerHex, length_lowerHex] at hlength
  exact (hpair.flatMap b.length).injective ⟨fun _ _ => trivial, by omega⟩
    ⟨fun _ _ => trivial, rfl⟩ h

theorem readable_hexDigit {n : ℕ} (h : n < 16) : Readable (hexDigit n) := by
  have htable : ∀ n < 16, Readable (hexDigit n) := by decide
  exact htable n h

theorem readable_signedText {hash : Bytes} : ∀ b ∈ signedText hash, Readable b := by
  intro b hb
  rcases List.mem_append.mp hb with hprefix | hhex
  · have hall : ∀ c ∈ authPrefix, Readable c := by decide +kernel
    exact hall b hprefix
  · obtain ⟨x, _, hx⟩ := List.mem_flatMap.mp hhex
    have hbyte := x.isLt
    simp only [hexPair, List.mem_cons, List.not_mem_nil, or_false] at hx
    rcases hx with rfl | rfl
    · exact readable_hexDigit (by omega)
    · exact readable_hexDigit (by omega)

end ModifiedEd25519

open ModifiedEd25519

/-- The verifier accepts exactly the signatures that the Ed25519 verifier accepts
for the text of the hash.  It builds that text for every hash, the text has 92
readable bytes and so is no hash, and different hashes have different texts. -/
theorem signed_message_binds {crypto : Crypto} {crate : VerifiersCrate}
    (hcrate : crate.Documented crypto) :
    (∀ hash key sig, (ModifiedEd25519.contract crypto crate).verify hash key sig = .ok true ↔
      hash.length = 32 ∧
        (Ed25519.contract crate).verify (signedText hash) key sig = .ok true) ∧
    (∀ hash : Bytes, hash.length = 32 →
      buildSignedMsg hash = some (signedText hash) ∧ (signedText hash).length = 92 ∧
        ∀ b ∈ signedText hash, Readable b) ∧
    ∀ hash hash', signedText hash = signedText hash' → hash = hash' := by
  refine ⟨?_, ?_, ?_⟩
  · intro hash key sig
    rw [ModifiedEd25519.contract, Ed25519.contract, onBytes_verify_eq_ok, onBytes_verify_eq_ok]
    have hraw : ∀ k s, (Ed25519.verifier crate).verify (signedText hash) k s = .ok true ↔
        crypto.ed25519Verify k (signedText hash) s = true := by
      intro k s
      show crate.ed25519Verify (signedText hash) k s = .ok true ↔ _
      rw [hcrate.ed25519Verify]
      split <;> simp_all
    have htext : ∀ k s, (ModifiedEd25519.verifier crypto crate).verify hash k s = .ok true ↔
        hash.length = 32 ∧ crypto.ed25519Verify k (signedText hash) s = true := by
      intro k s
      refine ModifiedEd25519.verify_eq_ok.trans ?_
      constructor
      · intro h
        rcases h with ⟨_, hlength, message, hmessage, hverify⟩
        rw [buildSignedMsg_eq hlength, Option.some.injEq] at hmessage
        exact ⟨hlength, hmessage ▸ hverify⟩
      · intro h
        exact ⟨rfl, h.1, _, buildSignedMsg_eq h.1, h.2⟩
    simp only [hraw, htext]
    constructor
    · intro h
      rcases h with ⟨k, hk, s, hs, hlength, hverify⟩
      exact ⟨hlength, k, hk, s, hs, hverify⟩
    · intro h
      rcases h with ⟨hlength, k, hk, s, hs, hverify⟩
      exact ⟨k, hk, s, hs, hlength, hverify⟩
  · intro hash hlength
    refine ⟨buildSignedMsg_eq hlength, ?_, readable_signedText⟩
    rw [signedText, List.length_append, length_lowerHex, hlength]
    rfl
  · intro hash hash' h
    exact lowerHex_injective (List.append_cancel_left h)

/-- The text of the sample hash, which repeats the byte one. -/
theorem signed_message_binds_sample :
    buildSignedMsg sampleHash.toList =
      some (authPrefix ++ (List.replicate 32 [hexDigit 0, hexDigit 1]).flatten) :=
  ((signed_message_binds sampleCrate_documented).2.1 sampleHash.toList rfl).1

end LatchContracts.Verifiers
