import LatchContracts.Lib.EventLog
import LatchContracts.Templates.Vault.Safety

/-!
# Nothing is lost in the vault

Two more things that an owner wants to know.

When the entries of the vault are archived, no call gets through that does not
restore them.  A restoration brings them back: `vault_recovers` says that a restored
vault takes the withdrawals of its owner from the unlock ledger on, whatever was
called before and however long it was left alone.

The vault publishes an event for each deposit and each withdrawal.
`vault_events_account` says that these are an honest account of the balance.  The
vault never holds less than its deposits minus its withdrawals, and every
withdrawal in the log is one that the owner signed at a ledger at or after the
unlock ledger.
-/

namespace LatchContracts.Templates.Vault

open LatchContracts.Lib LatchContracts.Host

/-! ## Restored entries -/

section Restore

variable {α ε : Type} {ttl : TtlRule} {now threshold extendTo : ℤ}

theorem restoreEntry_live (hinitial : 0 ≤ ttl.initial) (now : ℤ) (e : Entry α) :
    ∃ e', restoreEntry ttl now (some e) = some e' ∧ e'.Live now ∧ e'.value = e.value := by
  unfold restoreEntry
  rw [Option.map_some]
  by_cases hlive : e.Live now
  · rw [if_pos hlive]
    exact ⟨e, rfl, hlive, rfl⟩
  · rw [if_neg hlive]
    refine ⟨_, rfl, ?_, rfl⟩
    show now ≤ now + ttl.initial
    omega

theorem extendTtl_of_live {e : Entry α} (h : e.Live now) :
    ∃ o, (extendTtl ttl now threshold extendTo (some e) : Except (Fault ε) (Option (Entry α))) =
      .ok o := by
  have hentry : (liveEntry now (some e) : Except (Fault ε) (Entry α)) = .ok e :=
    liveEntry_eq_ok.mpr ⟨rfl, h⟩
  unfold extendTtl
  rw [hentry]
  show ∃ o, (if ttl.Acts (e.liveUntil - now) threshold
    then pure (some { e with liveUntil := now + extendTo })
    else pure (some e) : Except (Fault ε) (Option (Entry α))) = .ok o
  split
  · exact ⟨_, rfl⟩
  · exact ⟨_, rfl⟩

end Restore

section Recovery

variable {W : Type} {tokens : TokenWorld W} {vault : Address} {ttl : TtlRule} {env env₀ : Env}
  {owner : Address} {unlockLedger : U32} {s s₁ : VaultState W} {w₀ : W} {is : List VaultInput}

/-- Both entries are there and live, with the parameters of the vault. -/
structure Awake (owner : Address) (unlockLedger : U32) (ledger : ℤ) (s : VaultState W) : Prop where
  owner : ∃ e, s.owner = some e ∧ e.Live ledger ∧ e.value = owner
  unlock : ∃ e, s.unlockLedger = some e ∧ e.Live ledger ∧ e.value = unlockLedger

theorem awake_restore (hinitial : 0 ≤ ttl.initial)
    (hconfig : s.config = (some owner, some unlockLedger)) :
    Awake owner unlockLedger env.sequence.val (restoreState ttl env s) := by
  obtain ⟨howner, hunlock⟩ := Prod.mk.inj hconfig
  obtain ⟨eo, heo, hvalue⟩ := Option.map_eq_some_iff.mp howner
  obtain ⟨eu, heu, hvalue'⟩ := Option.map_eq_some_iff.mp hunlock
  obtain ⟨eo', ho, hlive, hsame⟩ := restoreEntry_live hinitial env.sequence.val eo
  obtain ⟨eu', hu, hlive', hsame'⟩ := restoreEntry_live hinitial env.sequence.val eu
  constructor
  · exact ⟨eo', by rw [← ho, ← heo]; rfl, hlive, hsame.trans hvalue⟩
  · exact ⟨eu', by rw [← hu, ← heu]; rfl, hlive', hsame'.trans hvalue'⟩

/-- A call finds live entries when they are live, and when it restores them. -/
theorem awake_found (hinitial : 0 ≤ ttl.initial)
    (hconfig : s.config = (some owner, some unlockLedger)) {call : VaultCall} {restores : Bool}
    (h : restores = true ∨ Awake owner unlockLedger env.sequence.val s) :
    Awake owner unlockLedger env.sequence.val (found ttl ⟨env, call, restores⟩ s) := by
  cases restores with
  | true => exact awake_restore hinitial hconfig
  | false =>
    rcases h with hrestores | hawake
    · cases hrestores
    · exact hawake

theorem extendStateTtl_of_awake (ttl : TtlRule)
    (h : Awake owner unlockLedger env.sequence.val s) :
    ∃ s', extendStateTtl ttl env s = .ok s' := by
  obtain ⟨⟨eo, heo, hlive, _⟩, eu, heu, hlive', _⟩ := h
  obtain ⟨o, ho⟩ := extendTtl_of_live (ε := VaultError) hlive
  obtain ⟨u, hu⟩ := extendTtl_of_live (ε := VaultError) hlive'
  unfold extendStateTtl
  rw [heo, heu, ho, hu]
  exact ⟨_, rfl⟩

/-- A vault whose entries are live takes a withdrawal when the owner signs, the
unlock ledger has come and the token makes the transfer. -/
theorem withdraw_iff_of_awake (h : Awake owner unlockLedger env.sequence.val s)
    {token target : Address} {amount : I128} :
    (∃ p, withdraw tokens vault ttl env token amount target s = .ok p) ↔
      env.auth owner = true ∧ unlockLedger ≤ env.sequence ∧
        ∃ w, tokens.transfer ⟨env, some vault, token, vault, target, amount⟩ s.world = some w := by
  obtain ⟨⟨eo, heo, hlive, rfl⟩, eu, heu, hlive', rfl⟩ := h
  constructor
  · intro haccepted
    rcases haccepted with ⟨⟨es, t⟩, hx⟩
    obtain ⟨_, _, htransfer, owner, unlock, hvalues, hauth, hunlocked⟩ := withdraw_eq_ok hx
    rw [VaultState.config, heo, heu] at hvalues
    obtain ⟨howner, hunlock⟩ := Prod.mk.inj hvalues
    obtain rfl : eo.value = owner := Option.some.inj howner
    obtain rfl : eu.value = unlock := Option.some.inj hunlock
    exact ⟨hauth, hunlocked, _, htransfer⟩
  · intro h
    rcases h with ⟨hauth, hunlocked, w, hw⟩
    -- the transfer leaves the entries, which are then extended
    have hmoved : tokenTransfer tokens vault env token vault target amount s =
        .ok { s with world := w } := by
      rw [tokenTransfer, hw]
      rfl
    have hawake : Awake eo.value eu.value env.sequence.val { s with world := w } :=
      ⟨⟨eo, heo, hlive, rfl⟩, eu, heu, hlive', rfl⟩
    obtain ⟨s', hs'⟩ := extendStateTtl_of_awake ttl hawake
    refine ⟨([.withdrawn token target amount], s'), ?_⟩
    simp only [withdraw, Env.requireAuth, bind_eq_ok, ensure_eq_ok, read_eq_ok, pure_eq_ok,
      exists_const]
    exact ⟨eo.value, ⟨eo, heo, hlive, rfl⟩, hauth, eu.value, ⟨eu, heu, hlive', rfl⟩,
      not_lt.mpr hunlocked, _, hmoved, s', hs', rfl⟩

theorem accepted_withdraw_iff {token target : Address} {amount : I128} {restores : Bool} :
    (settle (exec tokens vault ttl) ⟨env, .withdraw token amount target, restores⟩ s).accepted ↔
      ∃ p, withdraw tokens vault ttl env token amount target
        (found ttl ⟨env, .withdraw token amount target, restores⟩ s) = .ok p := by
  constructor
  · intro h
    obtain ⟨r, s', hok, _⟩ := settle_of_accepted h
    simp only [exec, dispatch, bind_eq_ok] at hok
    obtain ⟨p, hp, _⟩ := hok
    exact ⟨p, hp⟩
  · intro h
    rcases h with ⟨⟨es, s'⟩, hp⟩
    have hok : exec tokens vault ttl ⟨env, .withdraw token amount target, restores⟩ s =
        .ok (.events es, s') := by
      simp only [exec, dispatch, hp]
      rfl
    rw [settle_of_ok hok]
    exact ⟨_, rfl⟩

/-- After every run of a constructed vault, a withdrawal that restores the entries,
or that comes right after their restoration, goes through exactly when the owner
signs, the unlock ledger has come and the token makes the transfer.  The parameters
of the vault are those of its constructor, before and after. -/
theorem vault_recovers (tokens : TokenWorld W) (vault : Address) (hinitial : 0 ≤ ttl.initial)
    (hconstruct : construct ttl env₀ owner unlockLedger w₀ = .ok s₁)
    (is : List VaultInput) (env : Env) :
    let s := run (exec tokens vault ttl) is s₁
    let restored := (settle (exec tokens vault ttl) ⟨env, .restore, false⟩ s).post
    restored.config = (some owner, some unlockLedger) ∧ restored.world = s.world ∧
    ∀ restores before, before = restored ∨ restores = true ∧ before = s →
      (settle (exec tokens vault ttl) ⟨env, .bumpTtl, restores⟩ before).accepted ∧
      ∀ token amount target,
        (settle (exec tokens vault ttl) ⟨env, .withdraw token amount target, restores⟩
            before).accepted ↔
          env.auth owner = true ∧ unlockLedger ≤ env.sequence ∧ ∃ w,
            tokens.transfer ⟨env, some vault, token, vault, target, amount⟩ s.world =
              some w := by
  intro s restored
  have hconfig : s.config = (some owner, some unlockLedger) := by
    rw [show s.config = s₁.config from run_config is]
    exact construct_config hconstruct
  have hrestored : restored = restoreState ttl env s := rfl
  have hsame : restored.config = (some owner, some unlockLedger) := by
    rw [hrestored, restoreState_config]
    exact hconfig
  refine ⟨hsame, rfl, ?_⟩
  intro restores before hbefore
  -- either way the call finds live entries, and the balances of before
  have hcall : ∀ call, Awake owner unlockLedger env.sequence.val
        (found ttl ⟨env, call, restores⟩ before) ∧
      (found ttl ⟨env, call, restores⟩ before).world = s.world := by
    intro call
    rw [(found_eq ttl _ before).2]
    rcases hbefore with rfl | ⟨rfl, rfl⟩
    · exact ⟨awake_found hinitial hsame (.inr (awake_restore hinitial hconfig)), rfl⟩
    · exact ⟨awake_found hinitial hconfig (.inl rfl), rfl⟩
  constructor
  · obtain ⟨s', hs'⟩ := extendStateTtl_of_awake ttl (hcall .bumpTtl).1
    have hok : exec tokens vault ttl ⟨env, .bumpTtl, restores⟩ before = .ok (.events [], s') := by
      simp only [exec, dispatch, bumpTtl, hs']
      rfl
    rw [settle_of_ok hok]
    exact ⟨_, rfl⟩
  · intro token amount target
    rw [accepted_withdraw_iff, withdraw_iff_of_awake (hcall _).1, (hcall _).2]

end Recovery

/-! ## The account of the events -/

/-- What an event says of the vault's balance of a token. -/
def VaultEvent.net (token : Address) : VaultEvent → ℤ
  | .deposited t _ amount => if t = token then amount.val else 0
  | .withdrawn t _ amount => if t = token then -amount.val else 0

/-- What a log says of the vault's balance of a token. -/
def netSum (token : Address) (log : List VaultEvent) : ℤ := (log.map (VaultEvent.net token)).sum

section Account

variable {W : Type} {tokens : TokenWorld W} {vault : Address} {ttl : TtlRule} {env₀ : Env}
  {owner token : Address} {unlockLedger : U32} {s s' s₁ : VaultState W} {w₀ : W}
  {i : VaultInput} {is : List VaultInput} {r : VaultReply}

/-- A deposit brings what its event says. -/
theorem transfer_in {c : TransferCall} {w w' : W} (hlaw : tokens.Lawful)
    (htoken : tokens.IsSep41 token) (htransfer : tokens.transfer c w = some w')
    (hvault : c.env.auth vault = false) (htarget : c.target = vault) (hsource : c.source ≠ vault) :
    tokens.balance w token vault + (if c.token = token then c.amount.val else 0) ≤
      tokens.balance w' token vault := by
  by_cases heq : c.token = token
  · subst heq
    have hmoves := hlaw.moves htoken htransfer vault
    rw [if_neg (fun h => hsource h.symm), if_pos htarget.symm] at hmoves
    rw [if_pos rfl]
    omega
  · have hle := hlaw.balance_le htransfer hvault htoken (fun h => absurd h heq)
    rw [if_neg heq]
    omega

/-- A withdrawal takes at most what its event says. -/
theorem transfer_out {c : TransferCall} {w w' : W} (hlaw : tokens.Lawful)
    (htoken : tokens.IsSep41 token) (htransfer : tokens.transfer c w = some w')
    (hvault : c.env.auth vault = false) (hsource : c.source = vault) :
    tokens.balance w token vault + (if c.token = token then -c.amount.val else 0) ≤
      tokens.balance w' token vault := by
  by_cases heq : c.token = token
  · subst heq
    have hnonneg := hlaw.nonneg htoken htransfer
    have hmoves := hlaw.moves htoken htransfer vault
    rw [if_pos hsource.symm] at hmoves
    rw [if_pos rfl]
    split at hmoves
    · omega
    · omega
  · have hle := hlaw.balance_le htransfer hvault htoken (fun h => absurd h heq)
    rw [if_neg heq]
    omega

/-- One call leaves the vault with at least what its events say. -/
theorem settle_net (hlaw : tokens.Lawful) (htoken : tokens.IsSep41 token)
    (hvault : i.env.auth vault = false) :
    tokens.balance s.world token vault +
        netSum token (eventsOf VaultReply.published (settle (exec tokens vault ttl) i s)) ≤
      tokens.balance (settle (exec tokens vault ttl) i s).post.world token vault := by
  rcases settle_cases (exec tokens vault ttl) i s with ⟨e, _, hset⟩ | ⟨r, s', hok, hset⟩
  · rw [hset]
    show tokens.balance s.world token vault + 0 ≤ tokens.balance s.world token vault
    omega
  · rw [hset]
    show tokens.balance s.world token vault + netSum token r.published ≤
      tokens.balance s'.world token vault
    have hsilent : r.published = [] → netSum token r.published = 0 := by
      intro hevents
      rw [hevents]
      rfl
    rcases (exec_cases hok).2 with ⟨hevents, hsame⟩ |
      ⟨source, t, amount, _, hevents, hauth, htransfer⟩ |
      ⟨t, amount, target, _, _, _, hevents, _, _, _, htransfer⟩ |
      ⟨t, source, target, amount, _, hevents, htransfer⟩
    · rw [hsilent hevents, Int.add_zero, hsame]
    · -- the depositor signed, so it is not the vault
      have hne : source ≠ vault := by
        intro heq
        rw [← heq, hauth] at hvault
        cases hvault
      have hin := transfer_in hlaw htoken htransfer hvault rfl hne
      have hnet : netSum token r.published = if t = token then amount.val else 0 := by
        rw [hevents]
        exact Int.add_zero _
      rw [hnet]
      exact hin
    · have hout := transfer_out hlaw htoken htransfer hvault rfl
      have hnet : netSum token r.published = if t = token then -amount.val else 0 := by
        rw [hevents]
        exact Int.add_zero _
      rw [hnet]
      exact hout
    · rw [hsilent hevents, Int.add_zero]
      exact hlaw.balance_le_of_unauthorized htransfer hvault nofun htoken

/-- A run leaves the vault with at least what its log says. -/
theorem run_net (hlaw : tokens.Lawful) (htoken : tokens.IsSep41 token)
    (hvault : ∀ i ∈ is, i.env.auth vault = false) :
    tokens.balance s.world token vault + netSum token
        (published VaultReply.published (trace (exec tokens vault ttl) is s)) ≤
      tokens.balance (run (exec tokens vault ttl) is s).world token vault := by
  induction is generalizing s with
  | nil =>
    show tokens.balance s.world token vault + 0 ≤ tokens.balance s.world token vault
    omega
  | cons i is ih =>
    obtain ⟨hfirst, hrest⟩ := List.forall_mem_cons.mp hvault
    have hstep : tokens.balance s.world token vault + netSum token
        (eventsOf VaultReply.published (settle (exec tokens vault ttl) i s)) ≤ _ :=
      settle_net hlaw htoken hfirst
    have hafter := ih (s := (settle (exec tokens vault ttl) i s).post) hrest
    rw [published_cons, netSum, List.map_append, List.sum_append]
    show tokens.balance s.world token vault + (netSum token _ + netSum token _) ≤
      tokens.balance (run (exec tokens vault ttl) is _).world token vault
    omega

/-- Over every run of a constructed vault that does not sign itself: it holds, of
each SEP-41 token, at least what it held at first and what its events say, and
every withdrawal of its log is a call that the owner signed, at a ledger not before
the unlock ledger. -/
theorem vault_events_account (hlaw : tokens.Lawful)
    (hconstruct : construct ttl env₀ owner unlockLedger w₀ = .ok s₁)
    (hvault : ∀ i ∈ is, i.env.auth vault = false) :
    let log := published VaultReply.published (trace (exec tokens vault ttl) is s₁)
    (∀ token, tokens.IsSep41 token → tokens.balance s₁.world token vault + netSum token log ≤
      tokens.balance (run (exec tokens vault ttl) is s₁).world token vault) ∧
    ∀ token target amount, .withdrawn token target amount ∈ log →
      ∃ c ∈ trace (exec tokens vault ttl) is s₁,
        c.input.call = .withdraw token amount target ∧ c.accepted ∧
          c.input.env.auth owner = true ∧ unlockLedger ≤ c.input.env.sequence := by
  intro log
  refine ⟨fun token htoken => run_net hlaw htoken hvault, ?_⟩
  intro token target amount hmem
  obtain ⟨c, hc, hevent⟩ := List.mem_flatMap.mp hmem
  refine ⟨c, hc, ?_⟩
  obtain ⟨before, i, after, rfl, rfl⟩ := exists_of_mem_trace hc
  rcases settle_cases (exec tokens vault ttl) i
    (run (exec tokens vault ttl) before s₁) with ⟨e, _, hset⟩ | ⟨r, s', hok, hset⟩
  · rw [hset] at hevent
    cases hevent
  · rw [hset] at hevent ⊢
    change .withdrawn token target amount ∈ r.published at hevent
    rcases (exec_cases hok).2 with ⟨hevents, _⟩ | ⟨source, t, a, _, hevents, _⟩ |
      ⟨t, a, target', owner', unlock', hcall, hevents, hvalues, hauth, hunlocked, _⟩ |
      ⟨_, _, _, _, _, hevents, _⟩
    · rw [hevents] at hevent
      cases hevent
    · rw [hevents, List.mem_singleton] at hevent
      cases hevent
    · rw [hevents, List.mem_singleton] at hevent
      cases hevent
      rw [run_config, construct_config hconstruct] at hvalues
      cases hvalues
      exact ⟨hcall, ⟨r, rfl⟩, hauth, hunlocked⟩
    · rw [hevents] at hevent
      cases hevent

end Account

/-! ## The sample vault -/

/-- The sample vault is left alone for years.  Then its owner restores it and
withdraws, in one transaction. -/
theorem vault_recovers_sample :
    (settle (exec Balances.world sampleVault networkTtl)
      ⟨sampleEnv 9000000, .withdraw sampleToken 5 sampleOwner, true⟩
      (run (exec Balances.world sampleVault networkTtl) [sampleDeposit]
        sampleStart)).accepted := by
  have hconstruct : construct networkTtl (sampleEnv 10) sampleOwner sampleUnlock
      sampleWorld = .ok sampleStart := rfl
  have hinitial : (0 : ℤ) ≤ networkTtl.initial := by decide
  have hrecovers := (vault_recovers Balances.world sampleVault hinitial hconstruct [sampleDeposit]
    (sampleEnv 9000000)).2.2 true _ (.inr ⟨rfl, rfl⟩)
  exact (hrecovers.2 _ _ _).mpr ⟨by decide, by decide, _, rfl⟩

/-- After a deposit of five and a withdrawal of three the vault holds two. -/
theorem vault_events_account_sample :
    netSum sampleToken [.deposited sampleToken sampleOwner 5,
        .withdrawn sampleToken sampleOwner 3] ≤
      (run (exec Balances.world sampleVault networkTtl) [sampleDeposit, sampleWithdraw]
        sampleStart).world sampleToken sampleVault := by
  have hconstruct : construct networkTtl (sampleEnv 10) sampleOwner sampleUnlock
      sampleWorld = .ok sampleStart := rfl
  have hvault : ∀ i ∈ [sampleDeposit, sampleWithdraw], i.env.auth sampleVault = false := by
    decide
  have haccount := (vault_events_account Balances.world_lawful hconstruct hvault).1 sampleToken
    trivial
  rw [show Balances.world.balance sampleStart.world sampleToken sampleVault = 0 from rfl,
    Int.zero_add] at haccount
  exact haccount

end LatchContracts.Templates.Vault
