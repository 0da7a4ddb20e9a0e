import LatchContracts.Lib.EventLog
import LatchContracts.Policies.LastWrite
import LatchContracts.Policies.ParameterScoped.Model

/-!
# What the events of the policies tell

The session policy publishes the installed list with the installation, so its
events are the whole of its storage: `Session.applyEvent` keeps up a copy.  The
parameter-scoped policy publishes no conditions, and
`set_allowed_recipients` publishes nothing, so the events of these two tell which
keys are installed and not what for.

The events are also a trail to audit.  Nothing is published out of turn: an
installation at a free key, a removal and an enforcement at an installed one, and
in the session policy of an allowed function.
-/

namespace LatchContracts.Policies

open LatchContracts.Lib LatchContracts.Host

/-- The events of a reply. -/
def Reply.published {ev out : Type} : Reply ev out → List ev
  | .events es => es
  | .value _ => []

/-! ## Installed keys -/

/-- What an event tells about its key. -/
inductive KeyEvent
  | installed (k : AccountContext)
  | uninstalled (k : AccountContext)
  | enforced (k : AccountContext)

/-- The installed keys after an event. -/
def applyKey (keys : AccountContext → Bool) : KeyEvent → AccountContext → Bool
  | .installed k => Function.update keys k true
  | .uninstalled k => Function.update keys k false
  | .enforced _ => keys

/-- The event fits the installed keys. -/
def InTurn (keys : AccountContext → Bool) : KeyEvent → Prop
  | .installed k => keys k = false
  | .uninstalled k => keys k = true
  | .enforced k => keys k = true

/-- The keys that are installed. -/
def installedKeys {D : Type} (s : Entries D) : AccountContext → Bool := fun k => (s k).isSome

section Keys

variable {ι D ε ev out : Type}

theorem installedKeys_set (s : Entries D) (k : AccountContext) (d : D) :
    installedKeys (s.set k d) = Function.update (installedKeys s) k true := by
  funext k'
  by_cases hk : k' = k
  · subst hk
    rw [installedKeys, Store.set_self, Function.update_self]
    rfl
  · rw [installedKeys, Store.set_of_ne s d hk, Function.update_of_ne hk]
    rfl

theorem installedKeys_remove (s : Entries D) (k : AccountContext) :
    installedKeys (s.remove k) = Function.update (installedKeys s) k false := by
  funext k'
  by_cases hk : k' = k
  · subst hk
    rw [installedKeys, Store.remove_self, Function.update_self]
    rfl
  · rw [installedKeys, Store.remove_of_ne s hk, Function.update_of_ne hk]
    rfl

/-- The events of a policy tell its installed keys. -/
def KeysLogged (exec : ι → Entries D → Except (Fault ε) (Reply ev out × Entries D))
    (keyEvent : ev → KeyEvent) : Prop :=
  Audited exec Reply.published (fun keys e => InTurn keys (keyEvent e))
    (fun keys e => applyKey keys (keyEvent e)) installedKeys

end Keys

/-- What an accepted call publishes about the installed keys. -/
abbrev PublishesKeys {D ev : Type} (keyEvent : ev → KeyEvent) (s s' : Entries D)
    (es : List ev) : Prop :=
  Publishes (fun keys e => InTurn keys (keyEvent e)) (fun keys e => applyKey keys (keyEvent e))
    (installedKeys s) (installedKeys s') es

/-- A policy whose entrypoints publish one event each, at the key they are
called for. -/
theorem PolicyContract.publishes {E Params D ε ev out : Type}
    {P : PolicyContract E Params D ε ev out} {keyEvent : ev → KeyEvent}
    (hinstall : ∀ env params rule account s es s', P.install env params rule account s =
      .ok (es, s') → s ⟨account, rule.id⟩ = none ∧ (∃ d, s' = s.set ⟨account, rule.id⟩ d) ∧
        ∃ e, es = [e] ∧ keyEvent e = .installed ⟨account, rule.id⟩)
    (huninstall : ∀ env rule account s es s', P.uninstall env rule account s = .ok (es, s') →
      s.has ⟨account, rule.id⟩ ∧ s' = s.remove ⟨account, rule.id⟩ ∧
        ∃ e, es = [e] ∧ keyEvent e = .uninstalled ⟨account, rule.id⟩)
    (henforce : ∀ env context signers rule account s es s',
      P.enforce env context signers rule account s = .ok (es, s') →
        s.has ⟨account, rule.id⟩ ∧ s' = s ∧
          ∃ e, es = [e] ∧ keyEvent e = .enforced ⟨account, rule.id⟩)
    (i : Invocation E (Call Params)) (s : Entries D) (r : Reply ev out) (s' : Entries D)
    (h : P.exec i s = .ok (r, s')) : PublishesKeys keyEvent s s' r.published := by
  obtain ⟨env, call⟩ := i
  cases call with
  | install params rule account =>
    obtain ⟨es, rfl, hx⟩ := reply_eq_ok.mp h
    obtain ⟨hfree, ⟨d, rfl⟩, e, rfl, he⟩ := hinstall _ _ _ _ _ _ _ hx
    refine .one ?_ ?_
    · rw [he]
      exact Option.isSome_eq_false_iff.mpr (Option.isNone_iff_eq_none.mpr hfree)
    · rw [he]
      exact installedKeys_set s _ d
  | uninstall rule account =>
    obtain ⟨es, rfl, hx⟩ := reply_eq_ok.mp h
    obtain ⟨hhas, rfl, e, rfl, he⟩ := huninstall _ _ _ _ _ _ hx
    refine .one ?_ ?_
    · rw [he]
      exact hhas
    · rw [he]
      exact installedKeys_remove s _
  | enforce context signers rule account =>
    obtain ⟨es, rfl, hx⟩ := reply_eq_ok.mp h
    obtain ⟨hhas, rfl, e, rfl, he⟩ := henforce _ _ _ _ _ _ _ _ hx
    refine .one ?_ ?_
    · rw [he]
      exact hhas
    · rw [he]
      rfl
  | get ruleId account =>
    obtain ⟨rfl, o, _, rfl⟩ := view_eq_ok.mp h
    exact .silent rfl

/-! ## The three policies -/

section Shapes

variable {D ε ev : Type} {keyEvent : ev → KeyEvent} {env : Env} {rule : ContextRule}
  {account : Address} {s s' : Entries D} {es : List ev} {e : ev}

theorem installEntry_publishes {wrongRule alreadyInstalled : ε} {params : Except (Fault ε) Unit}
    {data : Except (Fault ε) D} (he : keyEvent e = .installed ⟨account, rule.id⟩)
    (h : installEntry wrongRule alreadyInstalled params data [e] env rule account s =
      .ok (es, s')) :
    s ⟨account, rule.id⟩ = none ∧ (∃ d, s' = s.set ⟨account, rule.id⟩ d) ∧
      ∃ e, es = [e] ∧ keyEvent e = .installed ⟨account, rule.id⟩ := by
  obtain ⟨_, _, _, hfree, d, _, hes, hs'⟩ := installEntry_eq_ok.mp h
  exact ⟨hfree, ⟨d, hs'⟩, e, hes, he⟩

theorem uninstallEntry_publishes {notInstalled : ε}
    (he : keyEvent e = .uninstalled ⟨account, rule.id⟩)
    (h : uninstallEntry notInstalled [e] env rule account s = .ok (es, s')) :
    s.has ⟨account, rule.id⟩ ∧ s' = s.remove ⟨account, rule.id⟩ ∧
      ∃ e, es = [e] ∧ keyEvent e = .uninstalled ⟨account, rule.id⟩ := by
  obtain ⟨_, hhas, hes, hs'⟩ := uninstallEntry_eq_ok.mp h
  exact ⟨Store.has_iff.mpr hhas, hs', e, hes, he⟩

theorem guardedEnforce_publishes {noSigner notInstalled : ε}
    {decision : D → Except (Fault ε) (List ev)} {signers : List Signer}
    (he : ∀ d es, decision d = .ok es →
      ∃ e, es = [e] ∧ keyEvent e = .enforced ⟨account, rule.id⟩)
    (h : guardedEnforce noSigner notInstalled decision env signers rule account s = .ok (es, s')) :
    s.has ⟨account, rule.id⟩ ∧ s' = s ∧
      ∃ e, es = [e] ∧ keyEvent e = .enforced ⟨account, rule.id⟩ := by
  obtain ⟨_, _, hs', d, hd, hdecision⟩ := guardedEnforce_eq_ok.mp h
  exact ⟨Store.has_iff.mpr ⟨d, hd⟩, hs', he d es hdecision⟩

end Shapes

namespace Session

/-- The storage after an event. -/
def applyEvent (s : Entries SessionData) : SessionEvent → Entries SessionData
  | .enforced _ _ _ => s
  | .installed account ruleId allowedFns => s.set ⟨account, ruleId⟩ ⟨allowedFns⟩
  | .uninstalled account ruleId => s.remove ⟨account, ruleId⟩

/-- The event is what the installed lists allow. -/
def Justified (s : Entries SessionData) : SessionEvent → Prop
  | .enforced account ruleId fnName =>
      ∃ allowedFns, s ⟨account, ruleId⟩ = some ⟨allowedFns⟩ ∧ fnName ∈ allowedFns
  | .installed account ruleId allowedFns =>
      s ⟨account, ruleId⟩ = none ∧ 1 ≤ allowedFns.length ∧ allowedFns.length ≤ 10
  | .uninstalled account ruleId => s.has ⟨account, ruleId⟩

theorem checkContext_events {context : Context} {rule : ContextRule} {account : Address}
    {data : SessionData} {es : List SessionEvent}
    (h : checkContext context rule account data = .ok es) :
    ∃ fnName ∈ data.allowedFns, es = [.enforced account rule.id fnName] := by
  cases context with
  | contract c =>
    simp only [checkContext, ensure_bind_eq_ok, pure_eq_ok] at h
    exact ⟨c.fnName, h.1, h.2.symm⟩
  | createContractHostFn => exact absurd h throw_ne_ok
  | createContractWithCtorHostFn => exact absurd h throw_ne_ok

/-- An accepted call publishes what it does, and does what is justified. -/
theorem publishes (i : Invocation Env (Call SessionAccountParams)) (s : Entries SessionData)
    (r : Reply SessionEvent (List Symbol)) (s' : Entries SessionData)
    (h : contract.exec i s = .ok (r, s')) :
    Publishes Justified applyEvent s s' r.published := by
  obtain ⟨env, call⟩ := i
  cases call with
  | install params rule account =>
    obtain ⟨es, rfl, hx⟩ := reply_eq_ok.mp h
    obtain ⟨_, _, hparams, hfree, d, hd, rfl, rfl⟩ := installEntry_eq_ok.mp hx
    obtain rfl := pure_eq_ok.mp hd
    exact .one ⟨hfree, checkParams_eq_ok hparams⟩ rfl
  | uninstall rule account =>
    obtain ⟨es, rfl, hx⟩ := reply_eq_ok.mp h
    obtain ⟨_, hhas, rfl, rfl⟩ := uninstallEntry_eq_ok.mp hx
    exact .one (Store.has_iff.mpr hhas) rfl
  | enforce context signers rule account =>
    obtain ⟨es, rfl, hx⟩ := reply_eq_ok.mp h
    obtain ⟨_, _, rfl, d, hd, hdecision⟩ := guardedEnforce_eq_ok.mp hx
    obtain ⟨fnName, hmem, rfl⟩ := checkContext_events hdecision
    exact .one ⟨d.allowedFns, hd, hmem⟩ rfl
  | get ruleId account =>
    obtain ⟨rfl, o, _, rfl⟩ := view_eq_ok.mp h
    exact .silent rfl

end Session

namespace ParameterScoped

def ParameterScopedEvent.keyEvent : ParameterScopedEvent → KeyEvent
  | .enforced account ruleId _ => .enforced ⟨account, ruleId⟩
  | .installed account ruleId => .installed ⟨account, ruleId⟩
  | .uninstalled account ruleId => .uninstalled ⟨account, ruleId⟩

theorem checkContext_events {context : Context} {rule : ContextRule} {account : Address}
    {data : ParameterScopedData} {es : List ParameterScopedEvent}
    (h : checkContext context rule account data = .ok es) :
    ∃ fnName, es = [.enforced account rule.id fnName] := by
  cases context with
  | contract c =>
    simp only [checkContext, bind_eq_ok, pure_eq_ok] at h
    obtain ⟨_, _, _, _, rfl⟩ := h
    exact ⟨c.fnName, rfl⟩
  | createContractHostFn => exact absurd h throw_ne_ok
  | createContractWithCtorHostFn => exact absurd h throw_ne_ok

theorem keysLogged : KeysLogged contract.exec ParameterScopedEvent.keyEvent := by
  refine audited_of_publishes (PolicyContract.publishes ?_ ?_ ?_)
  · intro env params rule account s es s' h
    exact installEntry_publishes rfl h
  · intro env rule account s es s' h
    exact uninstallEntry_publishes rfl h
  · intro env context signers rule account s es s' h
    refine guardedEnforce_publishes ?_ h
    intro d es hdecision
    obtain ⟨fnName, rfl⟩ := checkContext_events hdecision
    exact ⟨_, rfl, rfl⟩

end ParameterScoped

namespace RecipientAllowlist

def RecipientEvent.keyEvent : RecipientEvent → KeyEvent
  | .enforced account ruleId _ => .enforced ⟨account, ruleId⟩
  | .installed account ruleId _ => .installed ⟨account, ruleId⟩
  | .uninstalled account ruleId => .uninstalled ⟨account, ruleId⟩

theorem checkContext_events {context : Context} {rule : ContextRule} {account : Address}
    {data : RecipientData} {es : List RecipientEvent}
    (h : checkContext context rule account data = .ok es) :
    ∃ recipient, es = [.enforced account rule.id recipient] := by
  cases context with
  | contract c =>
    simp only [checkContext, ensure_bind_eq_ok, unwrapOr_bind_eq_ok, pure_eq_ok] at h
    obtain ⟨_, _, _, recipient, _, _, rfl⟩ := h
    exact ⟨recipient, rfl⟩
  | createContractHostFn => exact absurd h throw_ne_ok
  | createContractWithCtorHostFn => exact absurd h throw_ne_ok

/-- `set_allowed_recipients` works silently on a key that is installed already. -/
theorem setAllowedRecipients_silent {env : Env} {allowedRecipients : List Address}
    {contextRuleId : U32} {smartAccount : Address} {s s' : Entries RecipientData}
    {r : Reply RecipientEvent (List Address)}
    (h : exec ⟨env, .setAllowedRecipients allowedRecipients contextRuleId smartAccount⟩ s =
      .ok (r, s')) :
    r.published = [] ∧ installedKeys s' = installedKeys s := by
  obtain ⟨es, rfl, hx⟩ := reply_eq_ok.mp h
  obtain ⟨_, _, ⟨d, hd⟩, rfl, rfl⟩ := setAllowedRecipients_eq_ok.mp hx
  refine ⟨rfl, ?_⟩
  have hinstalled : true = installedKeys s ⟨smartAccount, contextRuleId⟩ := by
    rw [installedKeys, hd]
    rfl
  rw [installedKeys_set]
  exact Function.update_eq_self_iff.mpr hinstalled

theorem keysLogged : KeysLogged exec RecipientEvent.keyEvent := by
  apply audited_of_publishes
  intro i s r s' h
  obtain ⟨env, call⟩ := i
  cases call with
  | policy c =>
    refine PolicyContract.publishes ?_ ?_ ?_ ⟨env, c⟩ s r s' h
    · intro env params rule account s es s' h
      exact installEntry_publishes rfl h
    · intro env rule account s es s' h
      exact uninstallEntry_publishes rfl h
    · intro env context signers rule account s es s' h
      refine guardedEnforce_publishes ?_ h
      intro d es hdecision
      obtain ⟨recipient, rfl⟩ := checkContext_events hdecision
      exact ⟨_, rfl, rfl⟩
  | setAllowedRecipients allowedRecipients contextRuleId smartAccount =>
    obtain ⟨hpublished, hkeys⟩ := setAllowedRecipients_silent h
    rw [hpublished]
    exact .silent hkeys

end RecipientAllowlist

/-- Over every run, the events of the session policy are its storage and those of
the other two policies tell the installed keys, and no event comes that what is
installed does not justify.  An accepted `set_allowed_recipients` publishes nothing
and changes no key. -/
theorem policy_event_logs :
    Audited Session.contract.exec Reply.published Session.Justified Session.applyEvent id ∧
    KeysLogged ParameterScoped.contract.exec ParameterScoped.ParameterScopedEvent.keyEvent ∧
    KeysLogged RecipientAllowlist.exec RecipientAllowlist.RecipientEvent.keyEvent ∧
    ∀ env allowedRecipients contextRuleId smartAccount s r s',
      RecipientAllowlist.exec
        ⟨env, .setAllowedRecipients allowedRecipients contextRuleId smartAccount⟩ s =
          .ok (r, s') → r.published = [] ∧ installedKeys s' = installedKeys s := by
  refine ⟨audited_of_publishes Session.publishes, ParameterScoped.keysLogged,
    RecipientAllowlist.keysLogged, ?_⟩
  intro env allowedRecipients contextRuleId smartAccount s r s' h
  exact RecipientAllowlist.setAllowedRecipients_silent h

end LatchContracts.Policies
