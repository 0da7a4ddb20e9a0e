import LatchContracts.Lib.Lease
import LatchContracts.Templates.Vault.Safety

/-!
# Keeping the vault alive

`Owner` and `UnlockLedger` must be live when the funds can first be withdrawn.
The calls that reach `extend_state_ttl` refresh them: the constructor,
`bump_ttl`, `deposit`, and `withdraw`, which cannot run before the unlock ledger.

The documented rule is a refreshing call at least once per `EXTEND_AMOUNT`
ledgers.  It is not enough.  `extend_ttl` leaves an entry whose remaining TTL is
above `TTL_THRESHOLD`, so a call within a day of the last extension does nothing,
and the next one counts from there.  The entries are a lease in the sense of
`Lib.Lease`, with `EXTEND_AMOUNT` as its span and a day of idling: `keep_alive_iff`
says that they stay live until the unlock ledger exactly when the lease is
unbroken.  What happens when exactly `TTL_THRESHOLD` is left is up to the host, and
makes the idling a ledger longer or shorter.
-/

namespace LatchContracts.Templates.Vault

open LatchContracts.Lib LatchContracts.Host

variable {W : Type}

/-- Both entries are there and live at the ledger. -/
def VaultState.LiveAt (s : VaultState W) (ledger : ℤ) : Prop :=
  (∃ e, s.owner = some e ∧ e.Live ledger) ∧ ∃ e, s.unlockLedger = some e ∧ e.Live ledger

/-- The call gets as far as `extend_state_ttl`, with live entries. -/
def refreshes (tokens : TokenWorld W) (vault : Address) (s : VaultState W) (i : VaultInput) :
    Bool :=
  match i.call with
  | .bumpTtl => true
  | .deposit source token amount =>
      i.env.auth source &&
        (tokens.transfer ⟨i.env, some vault, token, source, vault, amount⟩ s.world).isSome
  | .withdraw token amount target =>
      s.owner.any (fun e => i.env.auth e.value) &&
        s.unlockLedger.any (fun e => e.value ≤ i.env.sequence) &&
        (tokens.transfer ⟨i.env, some vault, token, vault, target, amount⟩ s.world).isSome
  | _ => false

/-- The entries hold the parameters of the vault and were last extended at
ledger `a`. -/
structure Leased (owner : Address) (unlockLedger : U32) (s : VaultState W) (a : ℤ) : Prop where
  owner_eq : s.owner = some ⟨owner, a + extendAmount⟩
  unlock_eq : s.unlockLedger = some ⟨unlockLedger, a + extendAmount⟩

/-- For how long after an extension a refreshing call does nothing: for a day, or
for a ledger less when the host extends at the threshold. -/
def idleTime (ttl : TtlRule) : ℤ := dayInLedgers - ttl.margin

theorem idleTime_le (ttl : TtlRule) : idleTime ttl ≤ extendAmount := by
  have hmargin := ttl.margin_nonneg
  unfold idleTime extendAmount dayInLedgers
  omega

theorem acts_iff_idle {ttl : TtlRule} {a now : ℤ} :
    ttl.Acts (a + extendAmount - now) ttlThreshold ↔ a + idleTime ttl < now := by
  have hidle : extendAmount - ttlThreshold - ttl.margin = idleTime ttl := by
    unfold ttlThreshold idleTime
    omega
  rw [ttl.acts_lease_iff, hidle]

/-! ## One call -/

section Step

variable {tokens : TokenWorld W} {vault : Address} {ttl : TtlRule} {owner : Address}
  {unlockLedger : U32} {s s' : VaultState W} {a : ℤ} {env : Env} {i : VaultInput} {r : VaultReply}

theorem Leased.liveAt_iff (h : Leased owner unlockLedger s a) (ledger : ℤ) :
    s.LiveAt ledger ↔ ledger ≤ a + extendAmount := by
  unfold VaultState.LiveAt
  rw [h.owner_eq, h.unlock_eq]
  simp only [Option.some.injEq, exists_eq_left', Entry.Live, and_self]

/-- A live entry is extended unless its last extension is too recent. -/
theorem extendTtl_leased {α ε : Type} {now : ℤ} (v : α) (hlive : now ≤ a + extendAmount) :
    (extendTtl ttl now ttlThreshold extendAmount (some ⟨v, a + extendAmount⟩) :
        Except (Fault ε) (Option (Entry α))) =
      .ok (some ⟨v, renew (idleTime ttl) a now + extendAmount⟩) := by
  have hentry : (liveEntry now (some ⟨v, a + extendAmount⟩) : Except (Fault ε) (Entry α)) =
      .ok ⟨v, a + extendAmount⟩ := liveEntry_eq_ok.mpr ⟨rfl, hlive⟩
  unfold extendTtl renew
  rw [hentry]
  show (if ttl.Acts (a + extendAmount - now) ttlThreshold
    then pure (some (Entry.mk v (now + extendAmount)))
    else pure (some (Entry.mk v (a + extendAmount)))) = _
  by_cases hlate : a + idleTime ttl < now
  · rw [if_pos (acts_iff_idle.mpr hlate), if_pos hlate]
    rfl
  · rw [if_neg (fun h => hlate (acts_iff_idle.mp h)), if_neg hlate]
    rfl

/-- Live entries need no restoration. -/
theorem Leased.restoreState_eq (h : Leased owner unlockLedger s a)
    (hlive : env.sequence.val ≤ a + extendAmount) : restoreState ttl env s = s := by
  have hentry : ∀ {α : Type} (v : α), restoreEntry ttl env.sequence.val
      (some ⟨v, a + extendAmount⟩) = some ⟨v, a + extendAmount⟩ :=
    fun v => congrArg some (if_pos hlive)
  unfold restoreState
  rw [h.owner_eq, h.unlock_eq, hentry, hentry, ← h.owner_eq, ← h.unlock_eq]

theorem Leased.exec_eq (h : Leased owner unlockLedger s a)
    (hlive : i.env.sequence.val ≤ a + extendAmount) :
    exec tokens vault ttl i s = dispatch tokens vault ttl i.env i.call s := by
  unfold exec found
  rw [h.restoreState_eq hlive, ite_self]

theorem extendStateTtl_leased (h : Leased owner unlockLedger s a)
    (hlive : env.sequence.val ≤ a + extendAmount) :
    ∃ s', extendStateTtl ttl env s = .ok s' ∧
      Leased owner unlockLedger s' (renew (idleTime ttl) a env.sequence.val) := by
  unfold extendStateTtl
  rw [h.owner_eq, h.unlock_eq, extendTtl_leased owner hlive, extendTtl_leased unlockLedger hlive]
  exact ⟨_, rfl, rfl, rfl⟩

/-- A successful transfer leaves the entries for `extend_state_ttl` to renew. -/
theorem extendStateTtl_of_transfer (h : Leased owner unlockLedger s a)
    (hlive : env.sequence.val ≤ a + extendAmount) {token source target : Address} {amount : I128}
    (htransfer :
      (tokens.transfer ⟨env, some vault, token, source, target, amount⟩ s.world).isSome) :
    ∃ moved s', tokenTransfer tokens vault env token source target amount s = .ok moved ∧
      extendStateTtl ttl env moved = .ok s' ∧
      Leased owner unlockLedger s' (renew (idleTime ttl) a env.sequence.val) := by
  obtain ⟨world, hworld⟩ := Option.isSome_iff_exists.mp htransfer
  have hmoved : Leased owner unlockLedger { s with world := world } a :=
    ⟨h.owner_eq, h.unlock_eq⟩
  obtain ⟨s', hs', hleased⟩ := extendStateTtl_leased hmoved hlive
  refine ⟨_, s', ?_, hs', hleased⟩
  rw [tokenTransfer, hworld]
  rfl

/-- A withdrawal gets to the refresh with the owner's authorization, from the
unlock ledger on, when its transfer succeeds. -/
theorem refreshes_withdraw (h : Leased owner unlockLedger s a) {token target : Address}
    {amount : I128} {restores : Bool} :
    refreshes tokens vault s ⟨env, .withdraw token amount target, restores⟩ = true ↔
      env.auth owner = true ∧ unlockLedger ≤ env.sequence ∧
        (tokens.transfer ⟨env, some vault, token, vault, target, amount⟩ s.world).isSome := by
  simp only [refreshes, h.owner_eq, h.unlock_eq, Option.any_some, Bool.and_eq_true,
    decide_eq_true_eq, and_assoc]

/-- A refreshing call that finds the entries live is accepted and renews them. -/
theorem exec_of_refreshes (h : Leased owner unlockLedger s a)
    (hlive : i.env.sequence.val ≤ a + extendAmount) (hr : refreshes tokens vault s i = true) :
    ∃ r s', exec tokens vault ttl i s = .ok (r, s') ∧
      Leased owner unlockLedger s' (renew (idleTime ttl) a i.env.sequence.val) := by
  rw [h.exec_eq hlive]
  obtain ⟨env, call, restores⟩ := i
  cases call with
  | bumpTtl =>
    obtain ⟨s', hs', hleased⟩ := extendStateTtl_leased h hlive
    refine ⟨.events [], s', ?_, hleased⟩
    simp only [dispatch, bumpTtl, hs']
    rfl
  | deposit source token amount =>
    obtain ⟨hauth, htransfer⟩ := Bool.and_eq_true_iff.mp hr
    obtain ⟨moved, s', hmoved, hs', hleased⟩ := extendStateTtl_of_transfer h hlive htransfer
    refine ⟨.events [.deposited token source amount], s', ?_, hleased⟩
    simp only [dispatch, deposit, Env.requireAuth, bind_eq_ok, ensure_eq_ok, pure_eq_ok,
      exists_const, Prod.mk.injEq]
    exact ⟨_, ⟨hauth, moved, hmoved, s', hs', rfl⟩, rfl, rfl⟩
  | withdraw token amount target =>
    obtain ⟨hauth, hunlocked, htransfer⟩ := (refreshes_withdraw h).mp hr
    obtain ⟨moved, s', hmoved, hs', hleased⟩ := extendStateTtl_of_transfer h hlive htransfer
    refine ⟨.events [.withdrawn token target amount], s', ?_, hleased⟩
    have hseq : ¬ env.sequence < unlockLedger := not_lt.mpr hunlocked
    simp only [dispatch, withdraw, Env.requireAuth, bind_eq_ok, ensure_eq_ok, read_eq_ok,
      pure_eq_ok, exists_const, Prod.mk.injEq]
    exact ⟨_, ⟨owner, ⟨_, h.owner_eq, hlive, rfl⟩, hauth, unlockLedger,
      ⟨_, h.unlock_eq, hlive, rfl⟩, hseq, moved, hmoved, s', hs', rfl⟩, rfl, rfl⟩
  | getOwner => cases hr
  | getUnlockLedger => cases hr
  | getBalance token => cases hr
  | transfer token source target amount => cases hr
  | restore => cases hr

/-- An accepted withdrawal got to the refresh. -/
theorem refreshes_of_withdraw (h : Leased owner unlockLedger s a)
    (hlive : env.sequence.val ≤ a + extendAmount) {token target : Address} {amount : I128}
    {restores : Bool}
    (hok : exec tokens vault ttl ⟨env, .withdraw token amount target, restores⟩ s = .ok (r, s')) :
    refreshes tokens vault s ⟨env, .withdraw token amount target, restores⟩ = true := by
  rw [h.exec_eq hlive] at hok
  simp only [dispatch, bind_eq_ok, pure_eq_ok, Prod.mk.injEq] at hok
  obtain ⟨⟨es, t⟩, hx, _, rfl⟩ := hok
  obtain ⟨_, _, htransfer, owner', unlock', hvalues, hauth, hunlocked⟩ := withdraw_eq_ok hx
  rw [VaultState.config, h.owner_eq, h.unlock_eq] at hvalues
  obtain ⟨hown, hunl⟩ := Prod.mk.inj hvalues
  obtain rfl : owner = owner' := Option.some.inj hown
  obtain rfl : unlockLedger = unlock' := Option.some.inj hunl
  rw [refreshes_withdraw h, htransfer]
  exact ⟨hauth, hunlocked, rfl⟩

/-- Any other call leaves live entries as they are. -/
theorem exec_of_not_refreshes (h : Leased owner unlockLedger s a)
    (hlive : i.env.sequence.val ≤ a + extendAmount) (hr : ¬ refreshes tokens vault s i = true)
    (hok : exec tokens vault ttl i s = .ok (r, s')) : Leased owner unlockLedger s' a := by
  have hcall := hok
  rw [h.exec_eq hlive] at hcall
  obtain ⟨env, call, restores⟩ := i
  cases call with
  | bumpTtl => exact absurd rfl hr
  | deposit source token amount =>
    simp only [dispatch, bind_eq_ok, pure_eq_ok, Prod.mk.injEq] at hcall
    obtain ⟨⟨es, t⟩, hx, _, rfl⟩ := hcall
    obtain ⟨_, hauth, _, htransfer⟩ := deposit_eq_ok hx
    refine absurd ?_ hr
    simp only [refreshes, hauth, htransfer, Option.isSome_some, Bool.and_self]
  | withdraw token amount target =>
    exact absurd (refreshes_of_withdraw h hlive hok) hr
  | getOwner =>
    simp only [dispatch, bind_eq_ok, pure_eq_ok, Prod.mk.injEq] at hcall
    obtain ⟨_, _, _, rfl⟩ := hcall
    exact h
  | getUnlockLedger =>
    simp only [dispatch, bind_eq_ok, pure_eq_ok, Prod.mk.injEq] at hcall
    obtain ⟨_, _, _, rfl⟩ := hcall
    exact h
  | getBalance token =>
    simp only [dispatch, pure_eq_ok, Prod.mk.injEq] at hcall
    obtain ⟨_, rfl⟩ := hcall
    exact h
  | transfer token source target amount =>
    simp only [dispatch, bind_eq_ok, unwrapOr_eq_ok, pure_eq_ok, Prod.mk.injEq] at hcall
    obtain ⟨world, _, _, rfl⟩ := hcall
    exact ⟨h.owner_eq, h.unlock_eq⟩
  | restore =>
    simp only [dispatch, pure_eq_ok, Prod.mk.injEq] at hcall
    obtain ⟨_, rfl⟩ := hcall
    rw [h.restoreState_eq hlive]
    exact h

/-- The ledger of the last extension after a call. -/
def renewed (tokens : TokenWorld W) (vault : Address) (ttl : TtlRule) (s : VaultState W)
    (i : VaultInput) (a : ℤ) : ℤ :=
  if refreshes tokens vault s i then renew (idleTime ttl) a i.env.sequence.val else a

/-- What a call that finds the entries live does to them. -/
theorem settle_leased (h : Leased owner unlockLedger s a)
    (hlive : i.env.sequence.val ≤ a + extendAmount) :
    Leased owner unlockLedger (settle (exec tokens vault ttl) i s).post
        (renewed tokens vault ttl s i a) ∧
      (refreshes tokens vault s i = true →
        (settle (exec tokens vault ttl) i s).accepted) := by
  unfold renewed
  by_cases hr : refreshes tokens vault s i = true
  · obtain ⟨r, s', hok, hleased⟩ := exec_of_refreshes h hlive hr
    rw [if_pos hr, settle_of_ok hok]
    exact ⟨hleased, fun _ => ⟨r, rfl⟩⟩
  · rw [if_neg hr]
    refine ⟨?_, fun h' => absurd h' hr⟩
    refine settle_post (P := fun t => Leased owner unlockLedger t a) h ?_
    intro r s' hok
    exact exec_of_not_refreshes h hlive hr hok

end Step

/-! ## Runs -/

section Run

variable (tokens : TokenWorld W) (vault : Address) (ttl : TtlRule)

/-- The ledgers of the refreshing calls of a run. -/
def refreshTimes (is : List VaultInput) (s : VaultState W) : List ℤ :=
  ((trace (exec tokens vault ttl) is s).filter
    (fun c => refreshes tokens vault c.pre c.input)).map (fun c => c.input.env.sequence.val)

/-- From ledger `first` to the unlock ledger the entries are live, so every
refreshing call is accepted, and at the unlock ledger a withdrawal needs the
owner's authorization and a transfer that succeeds, and no more. -/
structure StaysAlive (owner : Address) (unlockLedger : U32) (first : ℤ) (s : VaultState W)
    (is : List VaultInput) : Prop where
  live : ∀ before after, is = before ++ after → ∀ ledger, first ≤ ledger →
    ledger ≤ unlockLedger.val → (∀ i ∈ before, i.env.sequence.val ≤ ledger) →
    (∀ i ∈ after, ledger ≤ i.env.sequence.val) →
      (run (exec tokens vault ttl) before s).LiveAt ledger
  refresh : ∀ c ∈ trace (exec tokens vault ttl) is s,
    refreshes tokens vault c.pre c.input = true → c.accepted
  withdraw : ∀ env token amount target restores, env.sequence = unlockLedger →
    ((∃ r s', exec tokens vault ttl ⟨env, .withdraw token amount target, restores⟩
        (run (exec tokens vault ttl) is s) = .ok (r, s')) ↔
      env.auth owner = true ∧
        (tokens.transfer ⟨env, some vault, token, vault, target, amount⟩
          (run (exec tokens vault ttl) is s).world).isSome)

variable {tokens vault ttl} {owner : Address} {unlockLedger : U32} {s : VaultState W}
  {a first : ℤ} {is : List VaultInput} {i : VaultInput}

theorem refreshTimes_cons :
    refreshTimes tokens vault ttl (i :: is) s =
      if refreshes tokens vault s i then
        i.env.sequence.val ::
          refreshTimes tokens vault ttl is (settle (exec tokens vault ttl) i s).post
      else
        refreshTimes tokens vault ttl is
          (settle (exec tokens vault ttl) i s).post := by
  unfold refreshTimes
  rw [trace, List.filter_cons, settle_pre, settle_input]
  by_cases hr : refreshes tokens vault s i = true
  · rw [if_pos hr, if_pos hr, List.map_cons, settle_input]
  · rw [if_neg hr, if_neg hr]

theorem exists_of_mem_refreshTimes {t : ℤ} (h : t ∈ refreshTimes tokens vault ttl is s) :
    ∃ i ∈ is, t = i.env.sequence.val := by
  obtain ⟨c, hc, rfl⟩ := List.mem_map.mp h
  obtain ⟨before, i, after, rfl, rfl⟩ := exists_of_mem_trace (List.mem_of_mem_filter hc)
  exact ⟨i, by simp, by rw [settle_input]⟩

/-- The lease of a run is that of the run after its first call, if that call
comes in time. -/
theorem unbroken_run_cons :
    Unbroken extendAmount (idleTime ttl) a (refreshTimes tokens vault ttl (i :: is) s)
        unlockLedger.val ↔
      (refreshes tokens vault s i = true → i.env.sequence.val ≤ a + extendAmount) ∧
        Unbroken extendAmount (idleTime ttl) (renewed tokens vault ttl s i a)
          (refreshTimes tokens vault ttl is (settle (exec tokens vault ttl) i s).post)
          unlockLedger.val := by
  rw [refreshTimes_cons, renewed]
  by_cases hr : refreshes tokens vault s i = true
  · rw [if_pos hr, if_pos hr, unbroken_cons (idleTime_le ttl)]
    exact and_congr_left fun _ => ⟨fun h _ => h, fun h => h hr⟩
  · rw [if_neg hr, if_neg hr]
    exact (and_iff_right (fun h => absurd h hr)).symm

/-- An unbroken lease covers any ledger up to the calls that are left and the
unlock ledger. -/
theorem unbroken_run_le {now : ℤ}
    (hlease : Unbroken extendAmount (idleTime ttl) a (refreshTimes tokens vault ttl is s)
      unlockLedger.val)
    (hnow : ∀ i ∈ is, now ≤ i.env.sequence.val) (hunlock : now ≤ unlockLedger.val) :
    now ≤ a + extendAmount := by
  refine hlease.le (idleTime_le ttl) ?_ hunlock
  intro t ht
  obtain ⟨i, hi, rfl⟩ := exists_of_mem_refreshTimes ht
  exact hnow i hi

/-- An unbroken lease is unbroken at every cut of the run. -/
theorem unbroken_run_append {before after : List VaultInput} (h : Leased owner unlockLedger s a)
    (hclock : (before ++ after).Pairwise (fun i j => i.env.sequence.val ≤ j.env.sequence.val))
    (hend : ∀ i ∈ before ++ after, i.env.sequence.val ≤ unlockLedger.val)
    (hlease : Unbroken extendAmount (idleTime ttl) a
      (refreshTimes tokens vault ttl (before ++ after) s) unlockLedger.val) :
    ∃ a', Leased owner unlockLedger (run (exec tokens vault ttl) before s) a' ∧
      Unbroken extendAmount (idleTime ttl) a'
        (refreshTimes tokens vault ttl after (run (exec tokens vault ttl) before s))
        unlockLedger.val := by
  induction before generalizing s a with
  | nil => exact ⟨a, h, hlease⟩
  | cons i before ih =>
    obtain ⟨hlater, hclock'⟩ := List.pairwise_cons.mp hclock
    obtain ⟨hi, hend'⟩ := List.forall_mem_cons.mp hend
    have hlive : i.env.sequence.val ≤ a + extendAmount :=
      unbroken_run_le hlease (List.forall_mem_cons.mpr ⟨le_rfl, hlater⟩) hi
    obtain ⟨hleased, _⟩ := settle_leased h hlive
    exact ih hleased hclock' hend' (unbroken_run_cons.mp hlease).2

/-- An unbroken lease keeps the vault alive. -/
theorem staysAlive_of_unbroken (h : Leased owner unlockLedger s a)
    (hclock : is.Pairwise (fun i j => i.env.sequence.val ≤ j.env.sequence.val))
    (hend : ∀ i ∈ is, i.env.sequence.val ≤ unlockLedger.val)
    (hlease : Unbroken extendAmount (idleTime ttl) a (refreshTimes tokens vault ttl is s)
      unlockLedger.val) :
    StaysAlive tokens vault ttl owner unlockLedger first s is := by
  refine ⟨?_, ?_, ?_⟩
  · intro before after heq ledger _ hledger _ hafter
    subst heq
    obtain ⟨a', hleased, hlease'⟩ := unbroken_run_append h hclock hend hlease
    rw [hleased.liveAt_iff]
    exact unbroken_run_le hlease' hafter hledger
  · intro c hc
    obtain ⟨before, i, after, rfl, rfl⟩ := exists_of_mem_trace hc
    obtain ⟨a', hleased, hlease'⟩ := unbroken_run_append h hclock hend hlease
    obtain ⟨_, hsorted, _⟩ := List.pairwise_append.mp hclock
    obtain ⟨hlater, _⟩ := List.pairwise_cons.mp hsorted
    have hlive : i.env.sequence.val ≤ a' + extendAmount :=
      unbroken_run_le hlease' (List.forall_mem_cons.mpr ⟨le_rfl, hlater⟩) (hend i (by simp))
    rw [settle_pre, settle_input]
    exact (settle_leased hleased hlive).2
  · intro env token amount target restores hseq
    rw [← List.append_nil is] at hclock hend hlease
    obtain ⟨a', hleased, hlease'⟩ := unbroken_run_append h hclock hend hlease
    have hlive : env.sequence.val ≤ a' + extendAmount := by
      rw [hseq]
      exact unbroken_nil.mp hlease'
    have hunlocked : unlockLedger ≤ env.sequence := hseq.ge
    constructor
    · intro hok
      rcases hok with ⟨r, s', hok⟩
      obtain ⟨hauth, _, htransfer⟩ := (refreshes_withdraw hleased).mp
        (refreshes_of_withdraw hleased hlive hok)
      exact ⟨hauth, htransfer⟩
    · intro hpasses
      rcases hpasses with ⟨hauth, htransfer⟩
      obtain ⟨r, s', hok, _⟩ := exec_of_refreshes hleased hlive
        ((refreshes_withdraw hleased).mpr ⟨hauth, hunlocked, htransfer⟩)
      exact ⟨r, s', hok⟩

/-- Entries that are live at every ledger up to the unlock ledger have an
unbroken lease. -/
theorem unbroken_of_live (h : Leased owner unlockLedger s a)
    (hclock : is.Pairwise (fun i j => i.env.sequence.val ≤ j.env.sequence.val))
    (hfirst : ∀ i ∈ is, first ≤ i.env.sequence.val)
    (hend : ∀ i ∈ is, i.env.sequence.val ≤ unlockLedger.val) (hunlock : first ≤ unlockLedger.val)
    (hlive : ∀ before after, is = before ++ after → ∀ ledger, first ≤ ledger →
      ledger ≤ unlockLedger.val → (∀ i ∈ before, i.env.sequence.val ≤ ledger) →
      (∀ i ∈ after, ledger ≤ i.env.sequence.val) →
        (run (exec tokens vault ttl) before s).LiveAt ledger) :
    Unbroken extendAmount (idleTime ttl) a (refreshTimes tokens vault ttl is s)
      unlockLedger.val := by
  induction is generalizing s a first with
  | nil =>
    have hlast := hlive [] [] rfl unlockLedger.val hunlock le_rfl (by simp) (by simp)
    exact unbroken_nil.mpr ((h.liveAt_iff _).mp hlast)
  | cons i is ih =>
    obtain ⟨hlater, hclock'⟩ := List.pairwise_cons.mp hclock
    have hi : first ≤ i.env.sequence.val := hfirst i List.mem_cons_self
    obtain ⟨hiend, hend'⟩ := List.forall_mem_cons.mp hend
    -- the first call finds the entries live, so it moves the lease
    have hnow := hlive [] (i :: is) rfl i.env.sequence.val hi hiend (by simp)
      (List.forall_mem_cons.mpr ⟨le_rfl, hlater⟩)
    have hintime : i.env.sequence.val ≤ a + extendAmount := (h.liveAt_iff _).mp hnow
    obtain ⟨hleased, _⟩ := settle_leased h hintime
    refine unbroken_run_cons.mpr ⟨fun _ => hintime, ?_⟩
    -- and the rest of the run starts at its ledger
    refine ih hleased hclock' hlater hend' hiend ?_
    intro before after heq ledger hledger hle hbefore hafter
    exact hlive (i :: before) after (by rw [heq]; rfl) ledger (hi.trans hledger) hle
      (List.forall_mem_cons.mpr ⟨hledger, hbefore⟩) hafter

end Run

/-! ## The rule -/

/-- The ledger from which the lease of a new vault counts.  The constructor
extends the entries, unless the host gave them a TTL that is too long for it. -/
def firstRenewal (ttl : TtlRule) (ledger : ℤ) : ℤ :=
  if ttl.Acts ttl.initial ttlThreshold then ledger else ledger + ttl.initial - extendAmount

theorem construct_leased {ttl : TtlRule} {env : Env} {owner : Address} {unlockLedger : U32}
    {world : W} {s : VaultState W}
    (h : construct ttl env owner unlockLedger world = .ok s) :
    env.sequence < unlockLedger ∧
      Leased owner unlockLedger s (firstRenewal ttl env.sequence.val) := by
  rw [construct, ensure_bind_eq_ok, not_le] at h
  obtain ⟨hfuture, hextend⟩ := h
  refine ⟨hfuture, ?_⟩
  have hentry : env.sequence.val + ttl.initial =
      (env.sequence.val + ttl.initial - extendAmount) + extendAmount := by omega
  rw [hentry] at hextend
  have hlive : env.sequence.val ≤
      (env.sequence.val + ttl.initial - extendAmount) + extendAmount := by
    simp only [extendStateTtl, extendTtl, bind_eq_ok, liveEntry_eq_ok] at hextend
    obtain ⟨_, ⟨e, ⟨he, hlive⟩, _⟩, _⟩ := hextend
    rw [← Option.some.inj he] at hlive
    exact hlive
  have hleased : Leased owner unlockLedger
      { owner := some ⟨owner, (env.sequence.val + ttl.initial - extendAmount) + extendAmount⟩
        unlockLedger :=
          some ⟨unlockLedger, (env.sequence.val + ttl.initial - extendAmount) + extendAmount⟩
        world := world } (env.sequence.val + ttl.initial - extendAmount) := ⟨rfl, rfl⟩
  obtain ⟨s', hs', hleased'⟩ := extendStateTtl_leased hleased hlive
  obtain rfl : s' = s := Except.ok.inj (hs'.symm.trans hextend)
  have hfirst : renew (idleTime ttl) (env.sequence.val + ttl.initial - extendAmount)
      env.sequence.val = firstRenewal ttl env.sequence.val := by
    have hleft : env.sequence.val + ttl.initial - extendAmount + extendAmount -
        env.sequence.val = ttl.initial := by omega
    have hiff : ttl.Acts ttl.initial ttlThreshold ↔
        env.sequence.val + ttl.initial - extendAmount + idleTime ttl < env.sequence.val := by
      rw [← acts_iff_idle, hleft]
    simp only [renew, firstRenewal, hiff]
  rw [← hfirst]
  exact hleased'

/-- From its constructor on a vault stays alive until the unlock ledger if and
only if its lease is unbroken: counting a refreshing call only when it comes more
than the idle time after the last one that counts, no two of them, and not the last
one and the unlock ledger, are more than `EXTEND_AMOUNT` apart. -/
theorem keep_alive_iff {tokens : TokenWorld W} {vault : Address} {ttl : TtlRule} {env : Env}
    {owner : Address} {unlockLedger : U32} {world : W} {s : VaultState W} {is : List VaultInput}
    (hconstruct : construct ttl env owner unlockLedger world = .ok s)
    (hclock : is.Pairwise (fun i j => i.env.sequence.val ≤ j.env.sequence.val))
    (hfirst : ∀ i ∈ is, env.sequence.val ≤ i.env.sequence.val)
    (hend : ∀ i ∈ is, i.env.sequence.val ≤ unlockLedger.val) :
    StaysAlive tokens vault ttl owner unlockLedger env.sequence.val s is ↔
      Unbroken extendAmount (idleTime ttl) (firstRenewal ttl env.sequence.val)
        (refreshTimes tokens vault ttl is s) unlockLedger.val := by
  obtain ⟨hfuture, hleased⟩ := construct_leased hconstruct
  have hunlock : env.sequence.val ≤ unlockLedger.val := (Bounded.lt_def.mp hfuture).le
  constructor
  · intro h
    exact unbroken_of_live hleased hclock hfirst hend hunlock h.live
  · intro hlease
    exact staysAlive_of_unbroken hleased hclock hend hlease

/-! ## A bump a day after the constructor

A lock that ends about a day and `EXTEND_AMOUNT` after the constructor, with one
`bump_ttl` call.  One ledger decides whether the call counts. -/

def longUnlock : U32 := 2090889

def longStart : VaultState Balances where
  owner := some ⟨sampleOwner, 10 + extendAmount⟩
  unlockLedger := some ⟨longUnlock, 10 + extendAmount⟩
  world := sampleWorld

def bumpAt (ledger : U32) : VaultInput := ⟨sampleEnv ledger, .bumpTtl, false⟩

/-- A day after the constructor the call counts on the network. -/
theorem keep_alive_iff_sample :
    StaysAlive Balances.world sampleVault networkTtl sampleOwner longUnlock 10 longStart
      [bumpAt 17290] := by
  have hconstruct : construct networkTtl (sampleEnv 10) sampleOwner longUnlock sampleWorld =
      .ok longStart := rfl
  refine (keep_alive_iff hconstruct (List.pairwise_singleton _ _) ?_ ?_).mpr ?_
  · intro i hi
    rw [List.mem_singleton.mp hi]
    decide
  · intro i hi
    rw [List.mem_singleton.mp hi]
    decide
  · have htimes : refreshTimes Balances.world sampleVault networkTtl [bumpAt 17290] longStart =
        [17290] := rfl
    rw [htimes, unbroken_cons (idleTime_le networkTtl), unbroken_nil]
    decide

/-- One ledger earlier the call does nothing.  The refreshing calls and the unlock
ledger are within `EXTEND_AMOUNT` of each other, and yet the entries are archived
from ledger 2073611 on, and a withdrawal at the unlock ledger that does not restore
them traps. -/
def RuleFails (ttl : TtlRule) : Prop :=
  construct ttl (sampleEnv 10) sampleOwner longUnlock sampleWorld = .ok longStart ∧
    (10 :: refreshTimes Balances.world sampleVault ttl [bumpAt 17289] longStart ++
      [longUnlock.val]).IsChain (fun x y => y ≤ x + extendAmount) ∧
    (∀ ledger, (run (exec Balances.world sampleVault ttl) [bumpAt 17289] longStart).LiveAt ledger ↔
      ledger ≤ 2073610) ∧
    exec Balances.world sampleVault ttl
        ⟨sampleEnv longUnlock, .withdraw sampleToken 0 sampleOwner, false⟩
        (run (exec Balances.world sampleVault ttl) [bumpAt 17289] longStart) = .error .trap ∧
    ¬ StaysAlive Balances.world sampleVault ttl sampleOwner longUnlock 10 longStart [bumpAt 17289]

theorem ruleFails_of_4095 (atThreshold : Bool) : RuleFails ⟨atThreshold, 4095⟩ := by
  have htimes : refreshTimes Balances.world sampleVault ⟨atThreshold, 4095⟩ [bumpAt 17289]
      longStart = [17289] := by cases atThreshold <;> rfl
  have hleased : Leased sampleOwner longUnlock (run (exec Balances.world sampleVault
      ⟨atThreshold, 4095⟩) [bumpAt 17289] longStart) 10 := by
    cases atThreshold <;> exact ⟨rfl, rfl⟩
  refine ⟨by cases atThreshold <;> rfl, ?_, hleased.liveAt_iff, by cases atThreshold <;> rfl, ?_⟩
  · rw [htimes]
    show [10, 17289, longUnlock.val].IsChain _
    simp only [List.isChain_cons_cons, List.isChain_singleton, and_true]
    decide
  · intro h
    have hlive := h.live [bumpAt 17289] [] rfl longUnlock.val (by decide) le_rfl
      (by simp [bumpAt, sampleEnv]; decide) (by simp)
    rw [hleased.liveAt_iff] at hlive
    exact absurd hlive (by decide)

/-- The documented rule fails, whether or not the host extends at the threshold. -/
theorem keep_alive_rule_fails : RuleFails documentedTtl ∧ RuleFails networkTtl :=
  ⟨ruleFails_of_4095 false, ruleFails_of_4095 true⟩

end LatchContracts.Templates.Vault
