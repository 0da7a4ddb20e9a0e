import LatchContracts.Lib.LastWrite
import LatchContracts.Policies.RecipientAllowlist
import LatchContracts.Policies.Session

/-!
# Allowlists decide by the last write

The session and the recipient-allowlist policy keep one list per key.  `install`
writes it, `uninstall` removes it, and the recipient policy has
`set_allowed_recipients` as a second way to write.  After any run, whatever calls
of whatever keys it holds and however they end, `enforce` decides by the list of
the last accepted call that wrote the key's entry.

`Writes` is what one accepted call does to the storage, and gives the step
condition of `Lib.LastWrite` for every key (`Writes.lastWrite`).
-/

namespace LatchContracts.Policies

open LatchContracts.Lib LatchContracts.Host

section Allowlist

variable {ι D ε ρ X : Type} {exec : ι → Entries D → Except (Fault ε) (ρ × Entries D)}
  {list : D → List X} {grant : ι → Option (AccountContext × List X)}
  {revoke : ι → Option AccountContext}

/-- The settled call is an accepted call that gives key `k` the list `A`. -/
def Grants (grant : ι → Option (AccountContext × List X)) (k : AccountContext) (A : List X)
    (c : Settled ι (Entries D) (Fault ε) ρ) : Prop :=
  c.accepted ∧ grant c.input = some (k, A)

/-- The settled call is an accepted call that takes the list of key `k` away. -/
def Revokes (revoke : ι → Option AccountContext) (k : AccountContext)
    (c : Settled ι (Entries D) (Fault ε) ρ) : Prop :=
  c.accepted ∧ revoke c.input = some k

/-- The last accepted write of key `k` in the settled calls `cs` gave it `A`. -/
def LastGiven (grant : ι → Option (AccountContext × List X)) (revoke : ι → Option AccountContext)
    (k : AccountContext) (A : List X) (cs : List (Settled ι (Entries D) (Fault ε) ρ)) : Prop :=
  LastGrant (Grants grant k) (Revokes revoke k) A cs

/-- Everything an accepted call can do to the storage: it writes the list it
gives, which has 1 to 10 entries, or removes, or leaves the storage. -/
def Writes (exec : ι → Entries D → Except (Fault ε) (ρ × Entries D)) (list : D → List X)
    (grant : ι → Option (AccountContext × List X)) (revoke : ι → Option AccountContext) : Prop :=
  ∀ i s r s', exec i s = .ok (r, s') →
    (∃ k d, grant i = some (k, list d) ∧ revoke i = none ∧ s' = s.set k d ∧
      1 ≤ (list d).length ∧ (list d).length ≤ 10) ∨
    (∃ k, grant i = none ∧ revoke i = some k ∧ s' = s.remove k) ∨
    (grant i = none ∧ revoke i = none ∧ s' = s)

/-- For every key the stored list is the one last given. -/
theorem Writes.lastWrite (h : Writes exec list grant revoke) (k : AccountContext) :
    LastWrite exec (Grants grant k) (Revokes revoke k) (fun s => (s k).map list) := by
  refine ⟨?_, ?_, ?_⟩
  · intro i s A hgrants
    obtain ⟨haccepted, hgrant⟩ := hgrants
    obtain ⟨r, s', hok, hset⟩ := settle_of_accepted haccepted
    rw [settle_input] at hgrant
    rw [hset]
    rcases h i s r s' hok with ⟨k', d, hgrant', _, rfl, _⟩ | ⟨k', hgrant', _⟩ | ⟨hgrant', _⟩
    · obtain ⟨rfl, rfl⟩ := Prod.mk.inj (Option.some.inj (hgrant'.symm.trans hgrant))
      show ((s.set k' d) k').map list = some (list d)
      rw [Store.set_self, Option.map_some]
    · rw [hgrant'] at hgrant
      cases hgrant
    · rw [hgrant'] at hgrant
      cases hgrant
  · intro i s hrevokes
    obtain ⟨haccepted, hrevoke⟩ := hrevokes
    obtain ⟨r, s', hok, hset⟩ := settle_of_accepted haccepted
    rw [settle_input] at hrevoke
    rw [hset]
    rcases h i s r s' hok with ⟨k', d, _, hrevoke', _⟩ | ⟨k', _, hrevoke', rfl⟩ | ⟨_, hrevoke', _⟩
    · rw [hrevoke'] at hrevoke
      cases hrevoke
    · obtain rfl : k' = k := Option.some.inj (hrevoke'.symm.trans hrevoke)
      show ((s.remove k') k').map list = none
      rw [Store.remove_self, Option.map_none]
    · rw [hrevoke'] at hrevoke
      cases hrevoke
  · intro i s hgrants hrevokes
    rcases settle_cases exec i s with ⟨e, _, hset⟩ | ⟨r', s', hok, hset⟩
    · rw [hset]
    · rw [hset] at hgrants hrevokes ⊢
      show (s' k).map list = (s k).map list
      rcases h i s r' s' hok with ⟨k', d, hgrant, _, rfl, _⟩ | ⟨k', _, hrevoke, rfl⟩ | ⟨_, _, rfl⟩
      · have hne : k ≠ k' := by
          intro heq
          exact hgrants (list d) ⟨⟨r', rfl⟩, heq ▸ hgrant⟩
        rw [Store.set_of_ne _ _ hne]
      · have hne : k ≠ k' := by
          intro heq
          exact hrevokes ⟨⟨r', rfl⟩, heq ▸ hrevoke⟩
        rw [Store.remove_of_ne _ hne]
      · rfl

/-- Every stored list has 1 to 10 entries. -/
theorem Writes.bounded (h : Writes exec list grant revoke) (is : List ι) :
    (run exec is Store.empty).All (fun d => 1 ≤ (list d).length ∧ (list d).length ≤ 10) := by
  refine run_invariant ?_ is (Store.all_empty _)
  intro i s r s' hs hok
  rcases h i s r s' hok with ⟨k, d, _, _, rfl, hlength⟩ | ⟨k, _, _, rfl⟩ | ⟨_, _, rfl⟩
  · exact hs.set k hlength
  · exact hs.remove k
  · exact hs

/-- What holds of an allowlist policy for one key, after every run from the empty
storage.  `enforce env context signers` is the call of the account with its
rule. -/
structure DecidesByLastWrite (exec : ι → Entries D → Except (Fault ε) (ρ × Entries D))
    (list : D → List X) (grant : ι → Option (AccountContext × List X))
    (revoke : ι → Option AccountContext) (admits : List X → Context → Prop) (account : Address)
    (ruleId : U32) (enforce : Env → Context → List Signer → ι) : Prop where
  /-- `enforce` accepts what the list last given admits. -/
  decides : ∀ is env context signers, env.auth account = true → signers ≠ [] →
    ((∃ r s', exec (enforce env context signers) (run exec is Store.empty) = .ok (r, s')) ↔
      ∃ A, LastGiven grant revoke ⟨account, ruleId⟩ A (trace exec is Store.empty) ∧
        admits A context)
  /-- The storage holds the list last given, and it has 1 to 10 entries. -/
  stored : ∀ is A, (run exec is Store.empty ⟨account, ruleId⟩).map list = some A ↔
    LastGiven grant revoke ⟨account, ruleId⟩ A (trace exec is Store.empty)
  bounded : ∀ is d, run exec is Store.empty ⟨account, ruleId⟩ = some d →
    1 ≤ (list d).length ∧ (list d).length ≤ 10
  /-- Neither `enforce` nor a failed call changes the storage. -/
  enforce_keeps : ∀ s env context signers,
    (settle exec (enforce env context signers) s).post = s
  failed_keeps : ∀ s i e, exec i s = .error e → (settle exec i s).post = s

/-- A policy that writes as it is called and whose `enforce` reads the entry of
its key decides by the last write. -/
theorem Writes.decidesByLastWrite (h : Writes exec list grant revoke)
    {admits : List X → Context → Prop} {account : Address} {ruleId : U32}
    {enforce : Env → Context → List Signer → ι}
    (henforce : ∀ s env context signers,
      (∀ r s', exec (enforce env context signers) s = .ok (r, s') → s' = s) ∧
      (env.auth account = true → signers ≠ [] →
        ((∃ r s', exec (enforce env context signers) s = .ok (r, s')) ↔
          ∃ d, s ⟨account, ruleId⟩ = some d ∧ admits (list d) context))) :
    DecidesByLastWrite exec list grant revoke admits account ruleId enforce := by
  have hstored : ∀ is A, (run exec is Store.empty ⟨account, ruleId⟩).map list = some A ↔
      LastGiven grant revoke ⟨account, ruleId⟩ A (trace exec is Store.empty) := by
    intro is A
    exact (h.lastWrite ⟨account, ruleId⟩).view_run rfl is
  refine ⟨?_, hstored, fun is d => h.bounded is ⟨account, ruleId⟩ d, ?_, ?_⟩
  · intro is env context signers hauth hsigners
    rw [(henforce _ env context signers).2 hauth hsigners]
    constructor
    · intro hd
      rcases hd with ⟨d, hd, hadmits⟩
      refine ⟨list d, (hstored is (list d)).mp ?_, hadmits⟩
      rw [hd, Option.map_some]
    · intro hA
      rcases hA with ⟨A, hlast, hadmits⟩
      obtain ⟨d, hd, rfl⟩ := Option.map_eq_some_iff.mp ((hstored is A).mpr hlast)
      exact ⟨d, hd, hadmits⟩
  · intro s env context signers
    exact settle_post (P := fun t => t = s) rfl (henforce s env context signers).1
  · intro s i e he
    rw [settle_of_error he]

/-- A guarded `enforce` leaves the storage, and with authorization and signers it
accepts exactly what the decision on the stored entry accepts. -/
theorem guarded_reads {ev out : Type} {noSigner notInstalled : ε}
    {decision : D → Except (Fault ε) (List ev)} (list : D → List X) (admits : List X → Prop)
    (hdecision : ∀ d, (∃ es, decision d = .ok es) ↔ admits (list d)) (env : Env)
    (signers : List Signer) (rule : ContextRule) (account : Address) (s : Entries D) :
    let x := reply out (guardedEnforce noSigner notInstalled decision env signers rule account s)
    (∀ r s', x = .ok (r, s') → s' = s) ∧
      (env.auth account = true → signers ≠ [] →
        ((∃ r s', x = .ok (r, s')) ↔ ∃ d, s ⟨account, rule.id⟩ = some d ∧ admits (list d))) := by
  intro x
  constructor
  · intro r s' hok
    obtain ⟨es, _, hx⟩ := reply_eq_ok.mp hok
    exact (guardedEnforce_eq_ok.mp hx).2.2.1
  · intro hauth hsigners
    constructor
    · intro h
      rcases h with ⟨r, s', hok⟩
      obtain ⟨es, _, hx⟩ := reply_eq_ok.mp hok
      obtain ⟨_, _, _, d, hd, hes⟩ := guardedEnforce_eq_ok.mp hx
      exact ⟨d, hd, (hdecision d).mp ⟨es, hes⟩⟩
    · intro h
      rcases h with ⟨d, hd, hadmits⟩
      obtain ⟨es, hes⟩ := (hdecision d).mpr hadmits
      refine ⟨.events es, s, reply_eq_ok.mpr ⟨es, rfl, ?_⟩⟩
      exact guardedEnforce_eq_ok.mpr ⟨hauth, hsigners, rfl, d, hd, hes⟩

end Allowlist

/-! ## The session policy -/

namespace Session

/-- The key and the list of an `install`. -/
def grant (i : Invocation Env (Call SessionAccountParams)) :
    Option (AccountContext × List Symbol) :=
  match i.call with
  | .install params rule account => some (⟨account, rule.id⟩, params.allowedFns)
  | _ => none

/-- The key of an `uninstall`. -/
def revoke (i : Invocation Env (Call SessionAccountParams)) : Option AccountContext :=
  match i.call with
  | .uninstall rule account => some ⟨account, rule.id⟩
  | _ => none

/-- The context is a contract call of a function of the list. -/
def Admits (A : List Symbol) (context : Context) : Prop :=
  ∃ c, context = .contract c ∧ c.fnName ∈ A

theorem checkParams_eq_ok {params : SessionAccountParams} (h : checkParams params = .ok ()) :
    1 ≤ params.allowedFns.length ∧ params.allowedFns.length ≤ 10 := by
  obtain ⟨hne, hle⟩ := not_or.mp (ensure_eq_ok.mp h)
  have hpos := List.length_pos_iff.mpr hne
  unfold maxAllowedFns at hle
  omega

theorem checkContext_eq_ok {context : Context} {rule : ContextRule} {account : Address}
    {data : SessionData} :
    (∃ es, checkContext context rule account data = .ok es) ↔ Admits data.allowedFns context := by
  cases context with
  | contract c =>
    simp only [checkContext, ensure_bind_eq_ok, pure_eq_ok, exists_and_left, exists_eq', and_true,
      Admits, Context.contract.injEq, exists_eq_left']
  | createContractHostFn => simp [checkContext, throw_ne_ok, Admits]
  | createContractWithCtorHostFn => simp [checkContext, throw_ne_ok, Admits]

theorem writes : Writes contract.exec SessionData.allowedFns grant revoke := by
  intro i s r s' hok
  obtain ⟨env, call⟩ := i
  cases call with
  | install params rule account =>
    obtain ⟨es, _, hx⟩ := reply_eq_ok.mp hok
    obtain ⟨_, _, hparams, _, d, hd, _, hs'⟩ := installEntry_eq_ok.mp hx
    obtain rfl := pure_eq_ok.mp hd
    exact .inl ⟨⟨account, rule.id⟩, ⟨params.allowedFns⟩, rfl, rfl, hs', checkParams_eq_ok hparams⟩
  | uninstall rule account =>
    obtain ⟨es, _, hx⟩ := reply_eq_ok.mp hok
    obtain ⟨_, _, _, hs'⟩ := uninstallEntry_eq_ok.mp hx
    exact .inr (.inl ⟨⟨account, rule.id⟩, rfl, rfl, hs'⟩)
  | enforce context signers rule account =>
    obtain ⟨es, _, hx⟩ := reply_eq_ok.mp hok
    exact .inr (.inr ⟨rfl, rfl, (guardedEnforce_eq_ok.mp hx).2.2.1⟩)
  | get ruleId account => exact .inr (.inr ⟨rfl, rfl, (view_eq_ok.mp hok).1⟩)

theorem decidesByLastWrite (account : Address) (rule : ContextRule) :
    DecidesByLastWrite contract.exec SessionData.allowedFns grant revoke Admits account rule.id
      (fun env context signers => ⟨env, .enforce context signers rule account⟩) := by
  apply writes.decidesByLastWrite
  intro s env context signers
  exact guarded_reads SessionData.allowedFns (Admits · context) (fun _ => checkContext_eq_ok) env
    signers rule account s

end Session

/-! ## The recipient-allowlist policy -/

namespace RecipientAllowlist

/-- The key and the list of an `install` or a `set_allowed_recipients`. -/
def grant (i : Invocation Env RecipientCall) : Option (AccountContext × List Address) :=
  match i.call with
  | .policy (.install params rule account) => some (⟨account, rule.id⟩, params.allowedRecipients)
  | .setAllowedRecipients allowedRecipients ruleId account =>
      some (⟨account, ruleId⟩, allowedRecipients)
  | _ => none

/-- The key of an `uninstall`. -/
def revoke (i : Invocation Env RecipientCall) : Option AccountContext :=
  match i.call with
  | .policy (.uninstall rule account) => some ⟨account, rule.id⟩
  | _ => none

/-- The context is a call named `transfer` whose argument 1 is an address of the
list. -/
def Admits (A : List Address) (context : Context) : Prop :=
  ∃ c recipient, context = .contract c ∧ c.fnName = "transfer" ∧
    c.args[1]? = some (.address recipient) ∧ recipient ∈ A

theorem checkRecipients_eq_ok {allowedRecipients : List Address}
    (h : checkRecipients allowedRecipients = .ok ()) :
    1 ≤ allowedRecipients.length ∧ allowedRecipients.length ≤ 10 := by
  obtain ⟨hne, hle⟩ := not_or.mp (ensure_eq_ok.mp h)
  have hpos := List.length_pos_iff.mpr hne
  unfold maxAllowedRecipients at hle
  omega

theorem checkContext_eq_ok {context : Context} {rule : ContextRule} {account : Address}
    {data : RecipientData} :
    (∃ es, checkContext context rule account data = .ok es) ↔
      Admits data.allowedRecipients context := by
  cases context with
  | contract c =>
    simp only [checkContext, bind_eq_ok, ensure_eq_ok, unwrapOr_eq_ok, pure_eq_ok, exists_const,
      Val.toAddress?_eq_some, Admits, Context.contract.injEq]
    constructor
    · intro h
      rcases h with ⟨es, hname, v, hv, recipient, rfl, hmem, _⟩
      exact ⟨c, recipient, rfl, hname, hv, hmem⟩
    · intro h
      rcases h with ⟨c', recipient, rfl, hname, harg, hmem⟩
      exact ⟨_, hname, _, harg, recipient, rfl, hmem, rfl⟩
  | createContractHostFn => simp [checkContext, throw_ne_ok, Admits]
  | createContractWithCtorHostFn => simp [checkContext, throw_ne_ok, Admits]

theorem writes : Writes exec RecipientData.allowedRecipients grant revoke := by
  intro i s r s' hok
  obtain ⟨env, call⟩ := i
  cases call with
  | policy call =>
    cases call with
    | install params rule account =>
      obtain ⟨es, _, hx⟩ := reply_eq_ok.mp hok
      obtain ⟨_, _, hparams, _, d, hd, _, hs'⟩ := installEntry_eq_ok.mp hx
      obtain rfl := pure_eq_ok.mp hd
      exact .inl ⟨⟨account, rule.id⟩, ⟨params.allowedRecipients⟩, rfl, rfl, hs',
        checkRecipients_eq_ok hparams⟩
    | uninstall rule account =>
      obtain ⟨es, _, hx⟩ := reply_eq_ok.mp hok
      obtain ⟨_, _, _, hs'⟩ := uninstallEntry_eq_ok.mp hx
      exact .inr (.inl ⟨⟨account, rule.id⟩, rfl, rfl, hs'⟩)
    | enforce context signers rule account =>
      obtain ⟨es, _, hx⟩ := reply_eq_ok.mp hok
      exact .inr (.inr ⟨rfl, rfl, (guardedEnforce_eq_ok.mp hx).2.2.1⟩)
    | get ruleId account => exact .inr (.inr ⟨rfl, rfl, (view_eq_ok.mp hok).1⟩)
  | setAllowedRecipients allowedRecipients ruleId account =>
    obtain ⟨es, _, hx⟩ := reply_eq_ok.mp hok
    obtain ⟨_, hcheck, _, _, hs'⟩ := setAllowedRecipients_eq_ok.mp hx
    exact .inl ⟨⟨account, ruleId⟩, ⟨allowedRecipients⟩, rfl, rfl, hs',
      checkRecipients_eq_ok hcheck⟩

theorem decidesByLastWrite (account : Address) (rule : ContextRule) :
    DecidesByLastWrite exec RecipientData.allowedRecipients grant revoke Admits account rule.id
      (fun env context signers => ⟨env, .policy (.enforce context signers rule account)⟩) := by
  apply writes.decidesByLastWrite
  intro s env context signers
  exact guarded_reads RecipientData.allowedRecipients (Admits · context)
    (fun _ => checkContext_eq_ok) env signers rule account s

end RecipientAllowlist

/-! ## Both policies -/

/-- Both allowlist policies decide by the last write of a key.  An installation
needs a `CallContract` rule and a key where nothing is installed, and
`set_allowed_recipients` changes what is installed but never whether something
is. -/
theorem allowlists_decide_by_last_write (account : Address) (rule : ContextRule) :
    DecidesByLastWrite Session.contract.exec Session.SessionData.allowedFns Session.grant
      Session.revoke Session.Admits account rule.id
      (fun env context signers => ⟨env, .enforce context signers rule account⟩) ∧
    DecidesByLastWrite RecipientAllowlist.exec RecipientAllowlist.RecipientData.allowedRecipients
      RecipientAllowlist.grant RecipientAllowlist.revoke RecipientAllowlist.Admits account rule.id
      (fun env context signers => ⟨env, .policy (.enforce context signers rule account)⟩) ∧
    (∀ s env params r s',
      Session.contract.exec ⟨env, .install params rule account⟩ s = .ok (r, s') →
        s ⟨account, rule.id⟩ = none ∧ ∃ target, rule.contextType = .callContract target) ∧
    (∀ s env params r s',
      RecipientAllowlist.exec ⟨env, .policy (.install params rule account)⟩ s = .ok (r, s') →
        s ⟨account, rule.id⟩ = none ∧ ∃ target, rule.contextType = .callContract target) ∧
    (∀ s env allowedRecipients r s',
      RecipientAllowlist.exec
          ⟨env, .setAllowedRecipients allowedRecipients rule.id account⟩ s = .ok (r, s') →
        ∀ k, s'.has k ↔ s.has k) := by
  refine ⟨Session.decidesByLastWrite account rule, RecipientAllowlist.decidesByLastWrite account
    rule, ?_, ?_, ?_⟩
  · intro s env params r s' hok
    obtain ⟨es, _, hx⟩ := reply_eq_ok.mp hok
    obtain ⟨_, htype, _, hnone, _⟩ := installEntry_eq_ok.mp hx
    exact ⟨hnone, isCallContract_iff.mp htype⟩
  · intro s env params r s' hok
    obtain ⟨es, _, hx⟩ := reply_eq_ok.mp hok
    obtain ⟨_, htype, _, hnone, _⟩ := installEntry_eq_ok.mp hx
    exact ⟨hnone, isCallContract_iff.mp htype⟩
  · intro s env allowedRecipients r s' hok k
    obtain ⟨es, _, hx⟩ := reply_eq_ok.mp hok
    obtain ⟨_, _, ⟨d, hd⟩, _, rfl⟩ := RecipientAllowlist.setAllowedRecipients_eq_ok.mp hx
    by_cases hk : k = ⟨account, rule.id⟩
    · subst hk
      rw [Store.has_iff, Store.has_iff, Store.set_self]
      exact iff_of_true ⟨_, rfl⟩ ⟨d, hd⟩
    · exact Store.has_congr (Store.set_of_ne s _ hk)

/-! ## A list that was replaced -/

namespace RecipientAllowlist

def sampleAddress (b : Byte) : Address := .contract (BytesN.replicate 32 b)

def sampleRule : ContextRule := ⟨0, .callContract (sampleAddress 9)⟩

def sampleEnv : Env := ⟨fun _ => true, 7, 1000⟩

/-- Address 2 is installed, and then replaced by address 3. -/
def sampleWrites : List (Invocation Env RecipientCall) :=
  [⟨sampleEnv, .policy (.install ⟨[sampleAddress 2]⟩ sampleRule (sampleAddress 1))⟩,
    ⟨sampleEnv, .setAllowedRecipients [sampleAddress 3] 0 (sampleAddress 1)⟩]

def sampleTransfer : Context :=
  .contract ⟨sampleAddress 9, "transfer", [.address (sampleAddress 1), .address (sampleAddress 3)]⟩

end RecipientAllowlist

open RecipientAllowlist in
/-- After the replacement a transfer to address 3 is accepted. -/
theorem allowlists_decide_by_last_write_sample :
    ∃ r s', RecipientAllowlist.exec
      ⟨sampleEnv, .policy (.enforce sampleTransfer [.delegated (sampleAddress 4)] sampleRule
        (sampleAddress 1))⟩ (run RecipientAllowlist.exec sampleWrites Store.empty) =
          .ok (r, s') := by
  have hdecides := (allowlists_decide_by_last_write (sampleAddress 1) sampleRule).2.1.decides
    sampleWrites sampleEnv sampleTransfer [.delegated (sampleAddress 4)] rfl (by simp)
  refine hdecides.mpr ⟨[sampleAddress 3], ?_, ?_⟩
  · unfold LastGiven LastGrant
    exact ⟨[_], _, [], rfl, ⟨⟨.events [], rfl⟩, rfl⟩, by simp⟩
  · exact ⟨_, sampleAddress 3, rfl, rfl, rfl, List.mem_singleton_self _⟩

end LatchContracts.Policies
