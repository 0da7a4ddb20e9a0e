import LatchContracts.Factory.Model
import Mathlib.Tactic.Convert

/-!
# Canonical parameters

`compare_signers` is the order of a linear order on signers, so the loop of
`canonicalize_signers` is an insertion sort that refuses duplicates.

`Canonical p n` says what it means that `n` is the canonical form of `p`, and
`normalizeParams_eq_ok` that `normalize_params` finds it when there is one.  Two
accepted parameters have the same canonical form exactly when they describe the
same logical account (`Canonical.eq_iff`).  `normalize_params_exact` spells out
which inputs are accepted and what the order of the result is.
-/

namespace LatchContracts.Factory

open LatchContracts.Lib LatchContracts.Host

/-! ## The order of signers -/

namespace AccountSignerInit

/-- The order of signers: by code, then by address or by key data. -/
def orderKey : AccountSignerInit → Byte ×ₗ (Address ⊕ₗ Bytes)
  | .delegated address => toLex (0x00, Sum.inlₗ address)
  | .external e => toLex (signerKindCode e.signerKind, Sum.inrₗ e.keyData)

theorem signerKindCode_injective : Function.Injective signerKindCode := by
  intro k k' h
  cases k <;> cases k' <;> first | rfl | cases h

theorem signerKindCode_pos (k : SignerKind) : 0 < signerKindCode k := by
  cases k <;> decide

theorem orderKey_injective : Function.Injective orderKey := by
  intro a b h
  cases a with
  | delegated x =>
    cases b with
    | delegated y =>
      simp only [orderKey, toLex_inj, Prod.mk.injEq, true_and] at h
      rw [Sum.inl.inj (toLex_inj.mp h)]
    | external f =>
      simp only [orderKey, toLex_inj, Prod.mk.injEq] at h
      cases toLex_inj.mp h.2
  | external e =>
    cases b with
    | delegated y =>
      simp only [orderKey, toLex_inj, Prod.mk.injEq] at h
      cases toLex_inj.mp h.2
    | external f =>
      simp only [orderKey, toLex_inj, Prod.mk.injEq] at h
      have hkind := signerKindCode_injective h.1
      have hdata : e.keyData = f.keyData := Sum.inr.inj (toLex_inj.mp h.2)
      rw [ExternalSignerInit.ext hkind hdata]

instance : LinearOrder AccountSignerInit := LinearOrder.lift' orderKey orderKey_injective

end AccountSignerInit

open AccountSignerInit

/-- A comparison by the first component, and by the second one where the first
are equal, compares pairs. -/
theorem then_compares {α β : Type} [LinearOrder α] [LinearOrder β] {x x' : α} {y y' : β}
    {o : Ordering} (h : x = x' → o.Compares y y') :
    ((cmp x x').then o).Compares (toLex (x, y)) (toLex (x', y')) := by
  rcases lt_trichotomy x x' with hlt | rfl | hgt
  · rw [(cmp_eq_lt_iff x x').mpr hlt]
    exact Prod.Lex.toLex_lt_toLex.mpr (.inl hlt)
  · rw [cmp_self_eq_eq]
    show o.Compares (toLex (x, y)) (toLex (x, y'))
    have ho := h rfl
    cases o with
    | lt => exact Prod.Lex.toLex_lt_toLex.mpr (.inr ⟨rfl, ho⟩)
    | eq => exact congrArg (fun z => toLex (x, z)) ho
    | gt => exact Prod.Lex.toLex_lt_toLex.mpr (.inr ⟨rfl, ho⟩)
  · rw [(cmp_eq_gt_iff x x').mpr hgt]
    exact Prod.Lex.toLex_lt_toLex.mpr (.inl hgt)

/-- A strictly monotone map keeps a comparison. -/
theorem compares_map {α β : Type} [LinearOrder α] [LinearOrder β] {f : α → β} (hf : StrictMono f)
    {o : Ordering} {x y : α} (h : o.Compares x y) : o.Compares (f x) (f y) := by
  cases o with
  | lt => exact hf h
  | eq => exact congrArg f h
  | gt => exact hf h

/-- Byte strings have two decision procedures for their order, which agree. -/
theorem cmp_bytes_compares (x y : Bytes) : (cmp x y).Compares x y := by
  convert cmp_compares x y <;> rfl

theorem compares_orderKey (a b : AccountSignerInit) :
    (compareSigners a b).Compares a.orderKey b.orderKey := by
  cases a with
  | delegated x =>
    cases b with
    | delegated y =>
      refine then_compares fun _ => ?_
      exact compares_map Sum.Lex.inl_strictMono (cmp_compares x y)
    | external f =>
      refine then_compares fun hcode => ?_
      cases hk : f.signerKind <;> simp [hk, accountSignerCode, signerKindCode] at hcode
  | external e =>
    cases b with
    | delegated y =>
      refine then_compares fun hcode => ?_
      cases hk : e.signerKind <;> simp [hk, accountSignerCode, signerKindCode] at hcode
    | external f =>
      refine then_compares fun hcode => ?_
      have hsame : signerKindCode e.signerKind = signerKindCode f.signerKind := hcode
      show ((cmp (signerKindCode e.signerKind) (signerKindCode f.signerKind)).then
        (cmp e.keyData f.keyData)).Compares (Sum.inrₗ e.keyData) (Sum.inrₗ f.keyData)
      rw [hsame, cmp_self_eq_eq]
      exact compares_map Sum.Lex.inr_strictMono (cmp_bytes_compares e.keyData f.keyData)

/-- `compare_signers` answers the order of signers. -/
theorem compareSigners_eq_compare : compareSigners = compare := by
  funext a b
  have hkeys := compares_orderKey a b
  have hcompares : (compareSigners a b).Compares a b := by
    cases h : compareSigners a b with
    | lt => rw [h] at hkeys; exact hkeys
    | eq => rw [h] at hkeys; exact orderKey_injective hkeys
    | gt => rw [h] at hkeys; exact hkeys
  rw [← cmp_eq_compare]
  exact hcompares.inj (cmp_compares a b)

/-! ## Canonical signers -/

/-- The loop checks every shape and inserts every signer. -/
theorem canonicalizeFrom_eq_ok {signers acc canonical : List AccountSignerInit} :
    canonicalizeFrom signers acc = .ok canonical ↔
      (∀ s ∈ signers, validateSignerShape s = .ok ()) ∧
        insertAllDistinct compareSigners signers acc = some canonical := by
  induction signers generalizing acc with
  | nil => simp [canonicalizeFrom, insertAllDistinct, pure_eq_ok]
  | cons signer rest ih =>
    simp only [canonicalizeFrom, bind_eq_ok, unwrapOr_eq_ok, ih, insertAllDistinct,
      Option.bind_eq_some_iff, List.forall_mem_cons]
    constructor
    · intro h
      rcases h with ⟨⟨⟩, hshape, acc', hinsert, hshapes, hrest⟩
      exact ⟨⟨hshape, hshapes⟩, acc', hinsert, hrest⟩
    · intro h
      rcases h with ⟨⟨hshape, hshapes⟩, acc', hinsert, hrest⟩
      exact ⟨(), hshape, acc', hinsert, hshapes, hrest⟩

/-- `canonicalize_signers` succeeds on well-shaped signers without duplicates,
and sorts them. -/
theorem canonicalizeSigners_eq_ok {signers canonical : List AccountSignerInit} :
    canonicalizeSigners signers = .ok canonical ↔
      (∀ s ∈ signers, validateSignerShape s = .ok ()) ∧ signers.Nodup ∧
        canonical.Pairwise (· < ·) ∧ canonical.Perm signers := by
  rw [canonicalizeSigners, canonicalizeFrom_eq_ok, compareSigners_eq_compare]
  exact and_congr_right fun _ => distinctSort_eq_some

/-! ## Canonical parameters -/

/-- `n` is the canonical form of `p`. -/
structure Canonical (p : AccountInitParams) (n : NormalizedParams) : Prop where
  nonempty : p.signers ≠ []
  shapes : ∀ s ∈ p.signers, validateSignerShape s = .ok ()
  nodup : p.signers.Nodup
  sorted : n.signers.Pairwise (· < ·)
  perm : n.signers.Perm p.signers
  threshold : effectiveThreshold p.signers.length p.threshold = .ok n.effectiveThreshold
  salt : n.accountSalt = p.accountSalt

theorem normalizeParams_eq_ok {p : AccountInitParams} {n : NormalizedParams} :
    normalizeParams p = .ok n ↔ Canonical p n := by
  simp only [normalizeParams, bind_eq_ok, ensure_eq_ok, exists_const, pure_eq_ok,
    canonicalizeSigners_eq_ok]
  constructor
  · intro h'
    rcases h' with ⟨hne, c, ⟨hshapes, hnodup, hsorted, hperm⟩, t, ht, rfl⟩
    rw [hperm.length_eq] at ht
    exact ⟨hne, hshapes, hnodup, hsorted, hperm, ht, rfl⟩
  · intro h
    have ht := h.threshold
    rw [← h.perm.length_eq] at ht
    exact ⟨h.nonempty, n.signers, ⟨h.shapes, h.nodup, h.sorted, h.perm⟩, n.effectiveThreshold, ht,
      NormalizedParams.ext rfl rfl h.salt.symm⟩

/-- The effective threshold is the explicit one, or one, and lies between one
and the number of signers. -/
theorem effectiveThreshold_spec {count : ℕ} {threshold : Option U32} {t : U32}
    (h : effectiveThreshold count threshold = .ok t) :
    t = threshold.getD 1 ∧ 1 ≤ t.val ∧ t.val ≤ count := by
  have hone : (1 : U32).val = 1 := rfl
  unfold effectiveThreshold at h
  split at h
  · cases threshold with
    | none =>
      rw [pure_eq_ok] at h
      subst h
      exact ⟨rfl, by omega, by omega⟩
    | some u =>
      simp only [bind_eq_ok, ensure_eq_ok, exists_const, pure_eq_ok] at h
      obtain ⟨hu, rfl⟩ := h
      exact ⟨Bounded.ext hu.symm, by omega, by omega⟩
  · cases threshold with
    | none => exact absurd h throw_ne_ok
    | some u =>
      simp only [bind_eq_ok, ensure_eq_ok, exists_const, pure_eq_ok] at h
      obtain ⟨hu, rfl⟩ := h
      exact ⟨rfl, hu.1, hu.2⟩

/-- Two parameters describe the same logical account: the same salt, the same
signers in any order, and the same threshold, where an omitted threshold means
one. -/
def SameAccount (p q : AccountInitParams) : Prop :=
  p.accountSalt = q.accountSalt ∧ p.signers.Perm q.signers ∧
    p.threshold.getD 1 = q.threshold.getD 1

namespace Canonical

variable {p q : AccountInitParams} {n m : NormalizedParams}

theorem effectiveThreshold_eq (h : Canonical p n) : n.effectiveThreshold = p.threshold.getD 1 :=
  (effectiveThreshold_spec h.threshold).1

/-- Accepted parameters have the same canonical form exactly when they describe
the same account. -/
theorem eq_iff (hp : Canonical p n) (hq : Canonical q m) : n = m ↔ SameAccount p q := by
  constructor
  · intro heq
    subst heq
    refine ⟨hp.salt.symm.trans hq.salt, hp.perm.symm.trans hq.perm, ?_⟩
    rw [← hp.effectiveThreshold_eq, ← hq.effectiveThreshold_eq]
  · intro h
    rcases h with ⟨hsalt, hsigners, hthreshold⟩
    have hperm : n.signers.Perm m.signers := hp.perm.trans (hsigners.trans hq.perm.symm)
    have heff : n.effectiveThreshold = m.effectiveThreshold := by
      rw [hp.effectiveThreshold_eq, hq.effectiveThreshold_eq, hthreshold]
    have hsalts : n.accountSalt = m.accountSalt := by
      rw [hp.salt, hq.salt, hsalt]
    exact NormalizedParams.ext (hperm.eq_of_pairwise' hp.sorted hq.sorted) heff hsalts

end Canonical

/-! ## What is accepted -/

/-- The key data of a signer has the shape of its kind. -/
def ValidShape : AccountSignerInit → Prop
  | .delegated _ => True
  | .external e =>
    match e.signerKind with
    | .ed25519 => e.keyData.length = 32
    | .webAuthn => 65 < e.keyData.length ∧ e.keyData.head? = some 0x04

/-- The same delegated address, or the same kind and the same key data. -/
def SameSigner : AccountSignerInit → AccountSignerInit → Prop
  | .delegated x, .delegated y => x = y
  | .external e, .external f => e.signerKind = f.signerKind ∧ e.keyData = f.keyData
  | _, _ => False

/-- A lower code, or the same code and a lower address or key. -/
def SignerBefore (a b : AccountSignerInit) : Prop :=
  accountSignerCode a < accountSignerCode b ∨
    accountSignerCode a = accountSignerCode b ∧
      match a, b with
      | .delegated x, .delegated y => x < y
      | .external e, .external f => e.keyData < f.keyData
      | _, _ => False

/-- One signer takes no threshold or one, several take an explicit one between
one and their number. -/
def ValidThreshold (count : ℕ) (threshold : Option U32) : Prop :=
  (count = 1 ∧ (threshold = none ∨ threshold = some 1)) ∨
    (1 < count ∧ ∃ t, threshold = some t ∧ 1 ≤ t.val ∧ t.val ≤ count)

/-- The inputs that `normalize_params` is there for. -/
structure Acceptable (p : AccountInitParams) : Prop where
  nonempty : p.signers ≠ []
  shapes : ∀ s ∈ p.signers, ValidShape s
  distinct : p.signers.Pairwise fun a b => ¬ SameSigner a b
  threshold : ValidThreshold p.signers.length p.threshold

theorem validateSignerShape_eq_ok {s : AccountSignerInit} :
    validateSignerShape s = .ok () ↔ ValidShape s := by
  cases s with
  | delegated x => exact iff_of_true rfl trivial
  | external e =>
    obtain ⟨kind, key, hkey⟩ := e
    cases kind with
    | ed25519 => simp only [validateSignerShape, ValidShape, ensure_eq_ok, not_not]
    | webAuthn =>
      simp only [validateSignerShape, ValidShape, ensure_eq_ok, not_or, not_le, not_not]
      refine and_congr_right fun hlen => ?_
      -- a key longer than 65 bytes has a first byte, so the default is not read
      cases key with
      | nil => exact absurd hlen (by decide)
      | cons b rest => simp only [List.head?_cons, Option.getD_some, Option.some.injEq]

theorem sameSigner_iff {a b : AccountSignerInit} : SameSigner a b ↔ a = b := by
  cases a with
  | delegated x =>
    cases b with
    | delegated y => simp only [SameSigner, delegated.injEq]
    | external f => simp only [SameSigner, reduceCtorEq]
  | external e =>
    cases b with
    | delegated y => simp only [SameSigner, reduceCtorEq]
    | external f => simp only [SameSigner, external.injEq, ExternalSignerInit.ext_iff]

/-- Some threshold is in effect exactly for a valid one. -/
theorem exists_effectiveThreshold {count : ℕ} {threshold : Option U32} (hcount : 0 < count) :
    (∃ t, effectiveThreshold count threshold = .ok t) ↔ ValidThreshold count threshold := by
  have hone : (1 : U32).val = 1 := rfl
  unfold effectiveThreshold ValidThreshold
  by_cases hsingle : count = 1
  · rw [if_pos hsingle]
    cases threshold with
    | none => exact iff_of_true ⟨1, rfl⟩ (.inl ⟨hsingle, .inl rfl⟩)
    | some u =>
      simp only [bind_eq_ok, ensure_eq_ok, exists_const, pure_eq_ok, Option.some.injEq]
      constructor
      · intro h
        rcases h with ⟨t, hu, -⟩
        exact .inl ⟨hsingle, .inr (Bounded.ext hu)⟩
      · intro h
        rcases h with ⟨-, hnone | rfl⟩ | ⟨hmany, -⟩
        · cases hnone
        · exact ⟨1, rfl, rfl⟩
        · omega
  · rw [if_neg hsingle]
    have hmany : 1 < count := by omega
    cases threshold with
    | none =>
      refine iff_of_false (fun h => ?_) (fun h => ?_)
      · rcases h with ⟨t, ht⟩
        exact throw_ne_ok ht
      · rcases h with ⟨hcount', -⟩ | ⟨-, t, ht, -⟩
        · exact hsingle hcount'
        · cases ht
    | some u =>
      simp only [bind_eq_ok, ensure_eq_ok, exists_const, pure_eq_ok]
      constructor
      · intro h
        rcases h with ⟨t, hu, -⟩
        exact .inr ⟨hmany, u, rfl, hu⟩
      · intro h
        rcases h with ⟨hcount', -⟩ | ⟨-, t, ht, hbounds⟩
        · exact absurd hcount' hsingle
        · cases ht
          exact ⟨u, hbounds, rfl⟩

/-- `normalize_params` accepts exactly the acceptable inputs. -/
theorem exists_canonical {p : AccountInitParams} : (∃ n, Canonical p n) ↔ Acceptable p := by
  constructor
  · intro h
    rcases h with ⟨n, h⟩
    have hcount : 0 < p.signers.length := List.length_pos_iff.mpr h.nonempty
    refine ⟨h.nonempty, fun s hs => validateSignerShape_eq_ok.mp (h.shapes s hs), ?_, ?_⟩
    · exact h.nodup.imp fun hne hsame => hne (sameSigner_iff.mp hsame)
    · exact (exists_effectiveThreshold hcount).mp ⟨_, h.threshold⟩
  · intro h
    have hcount : 0 < p.signers.length := List.length_pos_iff.mpr h.nonempty
    have hshapes : ∀ s ∈ p.signers, validateSignerShape s = .ok () := fun s hs =>
      validateSignerShape_eq_ok.mpr (h.shapes s hs)
    have hnodup : p.signers.Nodup := h.distinct.imp fun hne heq => hne (sameSigner_iff.mpr heq)
    obtain ⟨t, ht⟩ := (exists_effectiveThreshold hcount).mpr h.threshold
    obtain ⟨l, hsorted, hperm⟩ := exists_increasing_perm hnodup
    exact ⟨⟨l, t, p.accountSalt⟩, h.nonempty, hshapes, hnodup, hsorted, hperm, ht, rfl⟩

/-! ## The order, as the source compares -/

theorem compareSigners_eq_lt {a b : AccountSignerInit} :
    compareSigners a b = .lt ↔ a < b := by
  rw [compareSigners_eq_compare, compare_lt_iff_lt]

theorem signerBefore_iff {a b : AccountSignerInit} : SignerBefore a b ↔ a < b := by
  show SignerBefore a b ↔ a.orderKey < b.orderKey
  cases a with
  | delegated x =>
    cases b with
    | delegated y =>
      simp only [SignerBefore, orderKey, accountSignerCode, Prod.Lex.toLex_lt_toLex,
        Sum.Lex.inl_lt_inl_iff]
    | external f =>
      have hcode : (0x00 : Byte) < signerKindCode f.signerKind := signerKindCode_pos f.signerKind
      exact iff_of_true (.inl hcode) (Prod.Lex.toLex_lt_toLex.mpr (.inl hcode))
  | external e =>
    cases b with
    | delegated y =>
      have hcode : (0x00 : Byte) < signerKindCode e.signerKind := signerKindCode_pos e.signerKind
      refine iff_of_false (fun h => ?_) (fun h => ?_)
      · rcases h with hlt | ⟨-, hfalse⟩
        · exact hcode.not_gt hlt
        · exact hfalse
      · rcases Prod.Lex.toLex_lt_toLex.mp h with hlt | ⟨heq, -⟩
        · exact hcode.not_gt hlt
        · exact hcode.ne' heq
    | external f =>
      simp only [SignerBefore, orderKey, accountSignerCode, Prod.Lex.toLex_lt_toLex,
        Sum.Lex.inr_lt_inr_iff]

/-- What the contract needs of its comparison. -/
structure StrictTotal {α : Type} (c : α → α → Ordering) : Prop where
  eq_iff : ∀ a b, c a b = .eq ↔ a = b
  swap : ∀ a b, c b a = (c a b).swap
  trans : ∀ a b d, c a b = .lt → c b d = .lt → c a d = .lt

/-- `compare_signers` is a strict total order. -/
theorem compareSigners_strictTotal : StrictTotal compareSigners := by
  rw [compareSigners_eq_compare]
  refine ⟨fun a b => compare_eq_iff_eq, fun a b => ?_, fun a b d hab hbd => ?_⟩
  · rw [← cmp_eq_compare, ← cmp_eq_compare, cmp_swap]
  · rw [compare_lt_iff_lt] at hab hbd ⊢
    exact hab.trans hbd

/-- Rearranging the signers changes neither whether there is a canonical form nor
which one it is. -/
theorem Canonical.of_perm {p q : AccountInitParams} {n : NormalizedParams} (h : Canonical p n)
    (hsigners : p.signers.Perm q.signers) (hthreshold : p.threshold = q.threshold)
    (hsalt : p.accountSalt = q.accountSalt) : Canonical q n := by
  refine ⟨?_, fun s hs => h.shapes s (hsigners.mem_iff.mpr hs), hsigners.nodup_iff.mp h.nodup,
    h.sorted, h.perm.trans hsigners, ?_, h.salt.trans hsalt⟩
  · intro hnil
    rw [hnil] at hsigners
    exact h.nonempty hsigners.eq_nil
  · rw [← hsigners.length_eq, ← hthreshold]
    exact h.threshold

/-- `normalize_params` accepts exactly the acceptable inputs and answers their
canonical form, whatever the order of the signers. -/
theorem normalize_params_exact (p : AccountInitParams) :
    ((∃ n, normalizeParams p = .ok n) ↔ Acceptable p) ∧
      (∀ n, normalizeParams p = .ok n →
        n.signers.Perm p.signers ∧ n.signers.Pairwise (fun a b => compareSigners a b = .lt) ∧
          1 ≤ n.effectiveThreshold.val ∧ n.effectiveThreshold.val ≤ p.signers.length) ∧
      StrictTotal compareSigners ∧
      (∀ a b, compareSigners a b = .lt ↔ SignerBefore a b) ∧
      (∀ q : AccountInitParams, p.signers.Perm q.signers → p.threshold = q.threshold →
        p.accountSalt = q.accountSalt →
          ∀ n, normalizeParams p = .ok n ↔ normalizeParams q = .ok n) := by
  refine ⟨?_, ?_, compareSigners_strictTotal, ?_, ?_⟩
  · simp only [normalizeParams_eq_ok, exists_canonical]
  · intro n hn
    have h : Canonical p n := normalizeParams_eq_ok.mp hn
    refine ⟨h.perm, ?_, (effectiveThreshold_spec h.threshold).2⟩
    exact h.sorted.imp fun hlt => compareSigners_eq_lt.mpr hlt
  · intro a b
    rw [compareSigners_eq_lt, signerBefore_iff]
  · intro q hsigners hthreshold hsalt n
    rw [normalizeParams_eq_ok, normalizeParams_eq_ok]
    constructor
    · intro h
      exact h.of_perm hsigners hthreshold hsalt
    · intro h
      exact h.of_perm hsigners.symm hthreshold.symm hsalt.symm

/-- Two delegated signers that must both sign. -/
def pairParams (first second : Byte) : AccountInitParams where
  signers := [.delegated (.account (BytesN.replicate 32 first)),
    .delegated (.account (BytesN.replicate 32 second))]
  threshold := some 2
  accountSalt := BytesN.replicate 32 3
  signers_len := by
    show 2 < 2 ^ 32
    omega

theorem normalize_params_exact_pair :
    normalizeParams (pairParams 1 2) =
        .ok ⟨(pairParams 1 2).signers, 2, BytesN.replicate 32 3⟩ ∧
      normalizeParams (pairParams 2 1) =
        .ok ⟨(pairParams 1 2).signers, 2, BytesN.replicate 32 3⟩ := by
  have hsorted : normalizeParams (pairParams 1 2) =
      .ok ⟨(pairParams 1 2).signers, 2, BytesN.replicate 32 3⟩ := rfl
  have hswap : (pairParams 1 2).signers.Perm (pairParams 2 1).signers := .swap _ _ []
  have hboth := (normalize_params_exact (pairParams 1 2)).2.2.2.2 (pairParams 2 1) hswap rfl rfl
  exact ⟨hsorted, (hboth _).mp hsorted⟩

end LatchContracts.Factory
