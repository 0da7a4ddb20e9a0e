import LatchContracts.Templates.Vault.Model

/-!
# The vault keeps its funds

`exec_cases` sums up what an accepted call does: it keeps the values of `Owner`
and `UnlockLedger`, and it changes no balance, or makes one `transfer` call.
`settle_balance` adds the laws of the tokens: a call that takes from the vault is
a withdrawal.  `vault_fund_safety` carries this over runs.

The vault signs nothing, so no authorization of the vault is ever part of what
the host supplies to a call.  The vault authorizes the calls that it makes
itself: the transfers of `withdraw` and nothing else.
-/

namespace LatchContracts.Templates.Vault

open LatchContracts.Lib LatchContracts.Host

/-- The values of the two entries. -/
def VaultState.config {W : Type} (s : VaultState W) : Option Address × Option U32 :=
  (s.owner.map Entry.value, s.unlockLedger.map Entry.value)

/-! ## Storage -/

section Storage

variable {α ε : Type} {ttl : TtlRule} {now threshold extendTo : ℤ} {o o' : Option (Entry α)}

theorem liveEntry_eq_ok {e : Entry α} :
    (liveEntry now o : Except (Fault ε) (Entry α)) = .ok e ↔ o = some e ∧ e.Live now := by
  simp only [liveEntry, bind_eq_ok, unwrapOr_eq_ok, ensure_eq_ok, exists_const, pure_eq_ok]
  constructor
  · intro h
    rcases h with ⟨e', ho, hlive, rfl⟩
    exact ⟨ho, hlive⟩
  · intro h
    rcases h with ⟨ho, hlive⟩
    exact ⟨e, ho, hlive, rfl⟩

theorem read_eq_ok {a : α} :
    (read now o : Except (Fault ε) α) = .ok a ↔ ∃ e, o = some e ∧ e.Live now ∧ e.value = a := by
  simp only [read, bind_eq_ok, liveEntry_eq_ok, pure_eq_ok, and_assoc]

/-- Extending the TTL of an entry keeps its value. -/
theorem extendTtl_value
    (h : (extendTtl ttl now threshold extendTo o : Except (Fault ε) (Option (Entry α))) = .ok o') :
    o'.map Entry.value = o.map Entry.value := by
  simp only [extendTtl, bind_eq_ok, liveEntry_eq_ok] at h
  obtain ⟨e, ⟨rfl, _⟩, h⟩ := h
  split at h
  · obtain rfl := pure_eq_ok.mp h
    rfl
  · obtain rfl := pure_eq_ok.mp h
    rfl

theorem restoreEntry_value (ttl : TtlRule) (now : ℤ) (o : Option (Entry α)) :
    (restoreEntry ttl now o).map Entry.value = o.map Entry.value := by
  cases o with
  | none => rfl
  | some e =>
    show some (if e.Live now then e else { e with liveUntil := now + ttl.initial }).value =
      some e.value
    split <;> rfl

end Storage

/-! ## One call -/

section Step

variable {W : Type} {tokens : TokenWorld W} {vault : Address} {ttl : TtlRule} {env : Env}
  {s s' : VaultState W} {i : VaultInput} {r : VaultReply}

theorem extendStateTtl_eq_ok (h : extendStateTtl ttl env s = .ok s') :
    s'.config = s.config ∧ s'.world = s.world := by
  simp only [extendStateTtl, bind_eq_ok, pure_eq_ok] at h
  obtain ⟨owner, howner, unlock, hunlock, rfl⟩ := h
  exact ⟨Prod.ext (extendTtl_value howner) (extendTtl_value hunlock), rfl⟩

theorem tokenTransfer_eq_ok {token source target : Address} {amount : I128}
    (h : tokenTransfer tokens vault env token source target amount s = .ok s') :
    s'.config = s.config ∧
      tokens.transfer ⟨env, some vault, token, source, target, amount⟩ s.world = some s'.world := by
  simp only [tokenTransfer, bind_eq_ok, unwrapOr_eq_ok, pure_eq_ok] at h
  obtain ⟨world, htransfer, rfl⟩ := h
  exact ⟨rfl, htransfer⟩

theorem deposit_eq_ok {source token : Address} {amount : I128} {es : List VaultEvent}
    (h : deposit tokens vault ttl env source token amount s = .ok (es, s')) :
    es = [.deposited token source amount] ∧ env.auth source = true ∧ s'.config = s.config ∧
      tokens.transfer ⟨env, some vault, token, source, vault, amount⟩ s.world = some s'.world := by
  simp only [deposit, Env.requireAuth, bind_eq_ok, ensure_eq_ok, exists_const, pure_eq_ok,
    Prod.mk.injEq] at h
  obtain ⟨hauth, t, ht, u, hu, hes, rfl⟩ := h
  obtain ⟨hconfig, htransfer⟩ := tokenTransfer_eq_ok ht
  obtain ⟨hconfig', hworld⟩ := extendStateTtl_eq_ok hu
  rw [hworld]
  exact ⟨hes.symm, hauth, hconfig'.trans hconfig, htransfer⟩

theorem withdraw_eq_ok {token target : Address} {amount : I128} {es : List VaultEvent}
    (h : withdraw tokens vault ttl env token amount target s = .ok (es, s')) :
    es = [.withdrawn token target amount] ∧ s'.config = s.config ∧
      tokens.transfer ⟨env, some vault, token, vault, target, amount⟩ s.world = some s'.world ∧
      ∃ owner unlockLedger, s.config = (some owner, some unlockLedger) ∧
        env.auth owner = true ∧ unlockLedger ≤ env.sequence := by
  simp only [withdraw, Env.requireAuth, bind_eq_ok, ensure_eq_ok, exists_const, pure_eq_ok,
    read_eq_ok, Prod.mk.injEq, not_lt] at h
  obtain ⟨owner, ⟨eo, heo, _, hvalue⟩, hauth, unlock, ⟨eu, heu, _, hvalue'⟩, hlocked, t, ht, u, hu,
    hes, rfl⟩ := h
  obtain ⟨hconfig, htransfer⟩ := tokenTransfer_eq_ok ht
  obtain ⟨hconfig', hworld⟩ := extendStateTtl_eq_ok hu
  rw [hworld]
  refine ⟨hes.symm, hconfig'.trans hconfig, htransfer, owner, unlock, ?_, hauth, hlocked⟩
  rw [VaultState.config, heo, heu, ← hvalue, ← hvalue']
  rfl

theorem restoreState_config (ttl : TtlRule) (env : Env) (s : VaultState W) :
    (restoreState ttl env s).config = s.config :=
  Prod.ext (restoreEntry_value _ _ _) (restoreEntry_value _ _ _)

/-- A restoration in the transaction of a call changes lifetimes only. -/
theorem found_eq (ttl : TtlRule) (i : VaultInput) (s : VaultState W) :
    (found ttl i s).config = s.config ∧ (found ttl i s).world = s.world := by
  unfold found
  split
  · exact ⟨restoreState_config ttl i.env s, rfl⟩
  · exact ⟨rfl, rfl⟩

/-- Everything an accepted call can do: the entries keep their values, and the
network stays as it is or makes one transfer.  The events tell the transfers that
the vault made. -/
theorem exec_cases (h : exec tokens vault ttl i s = .ok (r, s')) :
    s'.config = s.config ∧
      ((r.published = [] ∧ s'.world = s.world) ∨
        (∃ source token amount, i.call = .deposit source token amount ∧
          r.published = [.deposited token source amount] ∧ i.env.auth source = true ∧
          tokens.transfer ⟨i.env, some vault, token, source, vault, amount⟩ s.world =
            some s'.world) ∨
        (∃ token amount target owner unlockLedger, i.call = .withdraw token amount target ∧
          r.published = [.withdrawn token target amount] ∧
          s.config = (some owner, some unlockLedger) ∧ i.env.auth owner = true ∧
          unlockLedger ≤ i.env.sequence ∧
          tokens.transfer ⟨i.env, some vault, token, vault, target, amount⟩ s.world =
            some s'.world) ∨
        ∃ token source target amount, i.call = .transfer token source target amount ∧
          r.published = [] ∧
          tokens.transfer ⟨i.env, none, token, source, target, amount⟩ s.world =
            some s'.world) := by
  rw [← (found_eq ttl i s).1, ← (found_eq ttl i s).2]
  change dispatch tokens vault ttl i.env i.call (found ttl i s) = .ok (r, s') at h
  generalize found ttl i s = t at h ⊢
  obtain ⟨env, call, restores⟩ := i
  cases call with
  | bumpTtl =>
    simp only [dispatch, bumpTtl, bind_eq_ok, pure_eq_ok, Prod.mk.injEq] at h
    obtain ⟨_, ⟨u, hu, rfl⟩, rfl, rfl⟩ := h
    obtain ⟨hconfig, hworld⟩ := extendStateTtl_eq_ok hu
    exact ⟨hconfig, .inl ⟨rfl, hworld⟩⟩
  | deposit source token amount =>
    simp only [dispatch, bind_eq_ok, pure_eq_ok, Prod.mk.injEq] at h
    obtain ⟨⟨es, u⟩, hx, rfl, rfl⟩ := h
    obtain ⟨hes, hauth, hconfig, htransfer⟩ := deposit_eq_ok hx
    exact ⟨hconfig, .inr (.inl ⟨source, token, amount, rfl, hes, hauth, htransfer⟩)⟩
  | withdraw token amount target =>
    simp only [dispatch, bind_eq_ok, pure_eq_ok, Prod.mk.injEq] at h
    obtain ⟨⟨es, u⟩, hx, rfl, rfl⟩ := h
    obtain ⟨hes, hconfig, htransfer, owner, unlock, hvalues, hauth, hlocked⟩ := withdraw_eq_ok hx
    exact ⟨hconfig, .inr (.inr (.inl
      ⟨token, amount, target, owner, unlock, rfl, hes, hvalues, hauth, hlocked, htransfer⟩))⟩
  | getOwner =>
    simp only [dispatch, bind_eq_ok, pure_eq_ok, Prod.mk.injEq] at h
    obtain ⟨_, _, rfl, rfl⟩ := h
    exact ⟨rfl, .inl ⟨rfl, rfl⟩⟩
  | getUnlockLedger =>
    simp only [dispatch, bind_eq_ok, pure_eq_ok, Prod.mk.injEq] at h
    obtain ⟨_, _, rfl, rfl⟩ := h
    exact ⟨rfl, .inl ⟨rfl, rfl⟩⟩
  | getBalance token =>
    simp only [dispatch, pure_eq_ok, Prod.mk.injEq] at h
    obtain ⟨rfl, rfl⟩ := h
    exact ⟨rfl, .inl ⟨rfl, rfl⟩⟩
  | transfer token source target amount =>
    simp only [dispatch, bind_eq_ok, unwrapOr_eq_ok, pure_eq_ok, Prod.mk.injEq] at h
    obtain ⟨world, htransfer, rfl, rfl⟩ := h
    exact ⟨rfl, .inr (.inr (.inr ⟨token, source, target, amount, rfl, rfl, htransfer⟩))⟩
  | restore =>
    simp only [dispatch, pure_eq_ok, Prod.mk.injEq] at h
    obtain ⟨rfl, rfl⟩ := h
    exact ⟨restoreState_config ttl env t, .inl ⟨rfl, rfl⟩⟩

/-- The call is an accepted withdrawal of the token, which takes exactly its
amount from the vault, with the owner's authorization, not before the unlock
ledger. -/
def Withdraws (tokens : TokenWorld W) (vault : Address) (owner : Address) (unlockLedger : U32)
    (token : Address)
    (c : Settled VaultInput (VaultState W) (Fault VaultError) VaultReply) : Prop :=
  ∃ amount target, c.input.call = .withdraw token amount target ∧ c.accepted ∧
    tokens.balance c.post.world token vault =
      tokens.balance c.pre.world token vault - amount.val ∧
    c.input.env.auth owner = true ∧ unlockLedger ≤ c.input.env.sequence

/-- One call keeps the values of the entries, and a balance only goes down in a
withdrawal. -/
theorem settle_balance (hlaw : tokens.Lawful) (hvault : i.env.auth vault = false)
    {owner : Address} {unlockLedger : U32} (hconfig : s.config = (some owner, some unlockLedger)) :
    (settle (exec tokens vault ttl) i s).post.config = s.config ∧
      ∀ token, tokens.IsSep41 token →
        tokens.balance s.world token vault ≤
            tokens.balance (settle (exec tokens vault ttl) i s).post.world token vault ∨
          Withdraws tokens vault owner unlockLedger token
            (settle (exec tokens vault ttl) i s) := by
  rcases settle_cases (exec tokens vault ttl) i s with ⟨e, _, hset⟩ | ⟨r, s', hok, hset⟩
  · rw [hset]
    exact ⟨rfl, fun token _ => .inl le_rfl⟩
  · rw [hset]
    obtain ⟨hsame, hcase⟩ := exec_cases hok
    refine ⟨hsame, ?_⟩
    intro token htoken
    show tokens.balance s.world token vault ≤ tokens.balance s'.world token vault ∨ _
    rcases hcase with ⟨_, hworld⟩ | ⟨source, t, amount, _, _, hauth, htransfer⟩ |
      ⟨t, amount, target, owner', unlock', hcall, _, hvalues, hauth, hlocked, htransfer⟩ |
      ⟨t, source, target, amount, _, _, htransfer⟩
    · rw [hworld]
      exact .inl le_rfl
    · -- a deposit: the depositor signed, so it is not the vault
      have hne : source ≠ vault := by
        intro heq
        rw [← heq, hauth] at hvault
        cases hvault
      exact .inl (hlaw.balance_le htransfer hvault htoken (fun _ => hne))
    · obtain ⟨rfl, rfl⟩ : owner' = owner ∧ unlock' = unlockLedger := by
        rw [hconfig] at hvalues
        exact ⟨(Option.some.inj (congrArg Prod.fst hvalues)).symm,
          (Option.some.inj (congrArg Prod.snd hvalues)).symm⟩
      by_cases heq : t = token
      · subst heq
        have hmoves := hlaw.moves htoken htransfer vault
        rw [if_pos rfl] at hmoves
        change tokens.balance s'.world t vault = tokens.balance s.world t vault - amount.val +
          (if vault = target then amount.val else 0) at hmoves
        split at hmoves
        · exact .inl (by omega)
        · exact .inr ⟨amount, target, hcall, ⟨r, rfl⟩, by
            show tokens.balance s'.world t vault = tokens.balance s.world t vault - amount.val
            omega, hauth, hlocked⟩
      · exact .inl (hlaw.balance_le htransfer hvault htoken (fun h => absurd h heq))
    · -- a plain transfer: the vault neither signs nor makes the call
      exact .inl (hlaw.balance_le_of_unauthorized htransfer hvault nofun htoken)

end Step

/-! ## Whole runs -/

section Run

variable {W : Type} {tokens : TokenWorld W} {vault : Address} {ttl : TtlRule} {env₀ : Env}
  {owner : Address} {unlockLedger : U32} {w₀ : W} {s s₁ : VaultState W} {is : List VaultInput}

theorem construct_config (h : construct ttl env₀ owner unlockLedger w₀ = .ok s₁) :
    s₁.config = (some owner, some unlockLedger) := by
  simp only [construct, bind_eq_ok, ensure_eq_ok, exists_const] at h
  obtain ⟨_, h⟩ := h
  exact (extendStateTtl_eq_ok h).1

theorem run_config (is : List VaultInput) :
    (run (exec tokens vault ttl) is s).config = s.config := by
  refine run_invariant (P := fun t : VaultState W => t.config = s.config) ?_ is rfl
  intro i t r t' ht hok
  rw [(exec_cases hok).1]
  exact ht

/-- Before the unlock ledger no balance goes down, whoever signs. -/
theorem run_balance_le (hlaw : tokens.Lawful) (hconfig : s.config = (some owner, some unlockLedger))
    (hbefore : ∀ i ∈ is, i.env.auth vault = false ∧ i.env.sequence < unlockLedger)
    {token : Address} (htoken : tokens.IsSep41 token) :
    tokens.balance s.world token vault ≤
      tokens.balance (run (exec tokens vault ttl) is s).world token vault := by
  induction is generalizing s with
  | nil => exact le_rfl
  | cons i is ih =>
    obtain ⟨⟨hvault, hearly⟩, hrest⟩ := List.forall_mem_cons.mp hbefore
    have hsame : (settle (exec tokens vault ttl) i s).post.config = s.config :=
      (settle_balance hlaw hvault hconfig).1
    have hstep : tokens.balance s.world token vault ≤
        tokens.balance (settle (exec tokens vault ttl) i s).post.world token vault := by
      rcases (settle_balance hlaw hvault hconfig).2 token htoken with
        hle | ⟨amount, target, _, _, _, _, hlate⟩
      · exact hle
      · rw [settle_input] at hlate
        exact absurd hlate (not_le.mpr hearly)
    exact hstep.trans (ih (hsame.trans hconfig) hrest)

/-- After every run of a constructed vault: `Owner` and `UnlockLedger` have the
values of the constructor, the next call takes from a SEP-41 balance of the
vault only as a withdrawal of that token, of exactly its amount, that the owner
authorized and that is not before the unlock ledger, and any calls before the
unlock ledger leave every balance at least as it is. -/
theorem vault_fund_safety (hlaw : tokens.Lawful)
    (hconstruct : construct ttl env₀ owner unlockLedger w₀ = .ok s₁) :
    let s := run (exec tokens vault ttl) is s₁
    s.config = (some owner, some unlockLedger) ∧
    (∀ i : VaultInput, i.env.auth vault = false → ∀ token, tokens.IsSep41 token →
      tokens.balance (settle (exec tokens vault ttl) i s).post.world token vault <
          tokens.balance s.world token vault →
        Withdraws tokens vault owner unlockLedger token
          (settle (exec tokens vault ttl) i s)) ∧
    ∀ js : List VaultInput,
      (∀ j ∈ js, j.env.auth vault = false ∧ j.env.sequence < unlockLedger) →
        ∀ token, tokens.IsSep41 token →
          tokens.balance s.world token vault ≤
            tokens.balance (run (exec tokens vault ttl) js s).world token vault := by
  intro s
  have hconfig : s.config = (some owner, some unlockLedger) := by
    rw [show s.config = s₁.config from run_config is]
    exact construct_config hconstruct
  refine ⟨hconfig, ?_, ?_⟩
  · intro i hvault token htoken hlt
    rcases (settle_balance hlaw hvault hconfig).2 token htoken with hle | hwithdraws
    · exact absurd hlt (not_lt.mpr hle)
    · exact hwithdraws
  · intro js hjs token htoken
    exact run_balance_le hlaw hconfig hjs htoken

end Run

/-! ## A withdrawal at the unlock ledger -/

def sampleVault : Address := .contract (BytesN.replicate 32 1)

def sampleOwner : Address := .contract (BytesN.replicate 32 2)

def sampleToken : Address := .contract (BytesN.replicate 32 3)

def sampleUnlock : U32 := 20

/-- The owner signs, at a ledger. -/
def sampleEnv (ledger : U32) : Env :=
  ⟨fun a => a = sampleOwner, ledger, 0⟩

/-- The network holds nine tokens of the owner. -/
def sampleWorld : Balances :=
  fun t holder => if t = sampleToken ∧ holder = sampleOwner then 9 else 0

def sampleStart : VaultState Balances where
  owner := some ⟨sampleOwner, 10 + extendAmount⟩
  unlockLedger := some ⟨sampleUnlock, 10 + extendAmount⟩
  world := sampleWorld

/-- The owner deposits five tokens before the unlock ledger. -/
def sampleDeposit : VaultInput :=
  ⟨sampleEnv 12, .deposit sampleOwner sampleToken 5, false⟩

/-- The owner withdraws three tokens at the unlock ledger. -/
def sampleWithdraw : VaultInput :=
  ⟨sampleEnv sampleUnlock, .withdraw sampleToken 3 sampleOwner, false⟩

theorem vault_fund_safety_sample :
    Withdraws Balances.world sampleVault sampleOwner sampleUnlock sampleToken
      (settle (exec Balances.world sampleVault networkTtl) sampleWithdraw
        (run (exec Balances.world sampleVault networkTtl) [sampleDeposit] sampleStart)) := by
  have hconstruct : construct networkTtl (sampleEnv 10) sampleOwner sampleUnlock
      sampleWorld = .ok sampleStart := rfl
  exact (vault_fund_safety Balances.world_lawful hconstruct).2.1 sampleWithdraw rfl sampleToken
    trivial (by decide)

end LatchContracts.Templates.Vault
