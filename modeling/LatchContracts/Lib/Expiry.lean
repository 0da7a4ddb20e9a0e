import LatchContracts.Lib.Call
import LatchContracts.Lib.Lease
import Mathlib.Logic.Function.Basic

/-!
# Contracts whose entries expire

A ledger keeps an entry of a contract until a time of its own.  After that time
the entry is archived.  Its value stays, and it is back when it is restored: by an
operation of its own, or by the transaction of a call that needs it.  Which calls
come with a restoration is up to their callers and to the ledger, so a call of a
run says it itself.  A call that needs an archived entry and does not restore it
does not run.

`Expiry` says how a contract uses such entries, and `Expiry.onLedger` is the contract
on a ledger with lifetimes, around a contract `exec` that knows nothing of them.

* `run_state` and `settle_call` are the refinement.  On the ledger, a run is a run
  of the calls that the ledger let run, and every other call fails and changes
  nothing.
* `stays_live_iff` is the lifetime of one entry.  It is a lease in the sense of
  `Lib.Lease`: the entry is live throughout a run if and only if the calls that
  extend it leave the lease unbroken.
-/

namespace LatchContracts.Lib

/-- How the calls `ι` of a contract with states `σ` use the entries `K`. -/
structure Expiry (ι σ K : Type) where
  /-- The entry that a call needs. -/
  addr : ι → K
  /-- The time of a call. -/
  time : ι → ℤ
  /-- The entry is there. -/
  present : σ → K → Bool
  /-- A call that succeeds extends the entry that it found. -/
  touches : ι → Bool
  /-- An extension acts when this is left of a lifetime, or less. -/
  threshold : ℤ
  /-- An extended entry lives for this long. -/
  span : ℤ
  /-- What the ledger does with lifetimes. -/
  ttl : TtlRule

/-- A state with the last time at which each entry is live. -/
structure Dated (σ K : Type) where
  state : σ
  liveUntil : K → ℤ

/-- A call, whose transaction may restore the entry that it needs, or the
restoration of an entry. -/
inductive Operation (ι K : Type)
  | call (i : ι) (restores : Bool)
  | restore (k : K) (time : ℤ)

/-- The call of an operation. -/
def Operation.call? {ι K : Type} : Operation ι K → Option ι
  | .call i _ => some i
  | .restore _ _ => none

namespace Expiry

variable {ι σ K ε ρ : Type} (E : Expiry ι σ K)

/-- The entry is not archived: it is live, or not there. -/
def Live (d : Dated σ K) (k : K) (time : ℤ) : Prop :=
  E.present d.state k = true → time ≤ d.liveUntil k

instance (d : Dated σ K) (k : K) (time : ℤ) : Decidable (E.Live d k time) :=
  inferInstanceAs (Decidable (_ → _))

/-- The ledger lets a call run: its entry is not archived, or its transaction
restores it. -/
def Admits (d : Dated σ K) (i : ι) (restores : Bool) : Prop :=
  restores = true ∨ E.Live d (E.addr i) (E.time i)

instance (d : Dated σ K) (i : ι) (restores : Bool) : Decidable (E.Admits d i restores) :=
  inferInstanceAs (Decidable (_ ∨ _))

/-- The time of an operation. -/
def opTime : Operation ι K → ℤ
  | .call i _ => E.time i
  | .restore _ time => time

/-- The lifetime with which a call finds its entry. -/
def found (i : ι) (d : Dated σ K) : ℤ :=
  if E.Live d (E.addr i) (E.time i) then d.liveUntil (E.addr i) else E.time i + E.ttl.initial

/-- The lifetime of the entry of a call that succeeded. -/
def renewed (i : ι) (s s' : σ) (liveUntil : ℤ) : ℤ :=
  if E.present s (E.addr i) = false ∧ E.present s' (E.addr i) = true then
    E.time i + E.ttl.initial
  else if E.touches i = true ∧ E.ttl.Acts (liveUntil - E.time i) E.threshold then
    E.time i + E.span
  else liveUntil

section Found

variable {E} {i : ι} {d : Dated σ K} {s s' : σ} {liveUntil a : ℤ}

/-- A call that finds its entry live finds the lifetime that the entry has. -/
theorem found_of_live (h : E.Live d (E.addr i) (E.time i)) :
    E.found i d = d.liveUntil (E.addr i) := if_pos h

/-- A restored entry lives longer than it did. -/
theorem liveUntil_le_found (hinitial : 0 ≤ E.ttl.initial) :
    d.liveUntil (E.addr i) ≤ E.found i d := by
  unfold found
  by_cases h : E.Live d (E.addr i) (E.time i)
  · rw [if_pos h]
  · rw [if_neg h]
    have hlate : ¬ E.time i ≤ d.liveUntil (E.addr i) := fun hle => h (fun _ => hle)
    omega

/-- A call that found its entry is no creation of it. -/
theorem renewed_of_present (hpresent : E.present s (E.addr i) = true) :
    E.renewed i s s' liveUntil =
      if E.touches i = true ∧ E.ttl.Acts (liveUntil - E.time i) E.threshold then
        E.time i + E.span
      else liveUntil := by
  have hold : ¬ (E.present s (E.addr i) = false ∧ E.present s' (E.addr i) = true) := by
    rw [hpresent]
    simp
  rw [renewed, if_neg hold]

theorem le_renewed (hthreshold : E.threshold ≤ E.span)
    (hpresent : E.present s (E.addr i) = true) : liveUntil ≤ E.renewed i s s' liveUntil := by
  rw [renewed_of_present hpresent]
  split
  · rename_i hacts
    have hleft := E.ttl.acts_iff.mp hacts.2
    have hmargin := E.ttl.margin_le_one
    omega
  · exact le_rfl

/-- On a lifetime that was last extended at `a`, the extension of a call is a
renewal of a lease. -/
theorem renewed_lease (hpresent : E.present s (E.addr i) = true) :
    E.renewed i s s' (a + E.span) =
      (if E.touches i then renew (E.span - E.threshold - E.ttl.margin) a (E.time i) else a) +
        E.span := by
  rw [renewed_of_present hpresent]
  simp only [E.ttl.acts_lease_iff, renew]
  by_cases htouches : E.touches i = true
  · simp only [htouches, true_and, if_true]
    split <;> rfl
  · simp only [htouches, false_and, if_false, Bool.false_eq_true]

end Found

variable [DecidableEq K] (exec : ι → σ → Except ε (ρ × σ)) (archived : ε)

/-- One operation on the ledger. -/
def onLedger : Operation ι K → Dated σ K → Except ε (Option ρ × Dated σ K)
  | .call i restores, d => do
      ensure (E.Admits d i restores) archived
      let p ← exec i d.state
      pure (some p.1, ⟨p.2, Function.update d.liveUntil (E.addr i)
        (E.renewed i d.state p.2 (E.found i d))⟩)
  | .restore k time, d =>
      pure (none,
        { d with
          liveUntil :=
            if E.Live d k time then d.liveUntil
            else Function.update d.liveUntil k (time + E.ttl.initial) })

/-- The calls of a run that the ledger let run. -/
def ran : List (Operation ι K) → Dated σ K → List ι
  | [], _ => []
  | .call i restores :: os, d =>
      (if E.Admits d i restores then [i] else []) ++
        ran os (settle (E.onLedger exec archived) (.call i restores) d).post
  | .restore k time :: os, d => ran os (settle (E.onLedger exec archived) (.restore k time) d).post

/-! ## The ledger refines the contract -/

section Refinement

variable {E exec archived} {i : ι} {restores : Bool} {d : Dated σ K}

/-- A call that needs an archived entry and does not restore it fails and changes
nothing. -/
theorem onLedger_archived (h : ¬ E.Admits d i restores) :
    E.onLedger exec archived (.call i restores) d = .error archived := by
  unfold onLedger
  exact ensure_false_bind h

theorem onLedger_error (h : E.Admits d i restores) {e : ε} (he : exec i d.state = .error e) :
    E.onLedger exec archived (.call i restores) d = .error e := by
  simp only [onLedger, ensure_true_bind h, he]
  rfl

theorem onLedger_ok (h : E.Admits d i restores) {r : ρ} {s' : σ}
    (hok : exec i d.state = .ok (r, s')) :
    E.onLedger exec archived (.call i restores) d =
      .ok (some r, ⟨s', Function.update d.liveUntil (E.addr i)
        (E.renewed i d.state s' (E.found i d))⟩) := by
  simp only [onLedger, ensure_true_bind h, hok]
  rfl

/-- A call that the ledger lets run does what the contract does. -/
theorem settle_call (h : E.Admits d i restores) :
    (settle (E.onLedger exec archived) (.call i restores) d).outcome =
        (settle exec i d.state).outcome.map some ∧
      (settle (E.onLedger exec archived) (.call i restores) d).post.state =
        (settle exec i d.state).post := by
  rcases settle_cases exec i d.state with ⟨e, he, hset⟩ | ⟨r, s', hok, hset⟩
  · rw [settle_of_error (onLedger_error h he), hset]
    exact ⟨rfl, rfl⟩
  · rw [settle_of_ok (onLedger_ok h hok), hset]
    exact ⟨rfl, rfl⟩

/-- A run on the ledger is a run of the calls that the ledger let run. -/
theorem run_state (os : List (Operation ι K)) (d : Dated σ K) :
    (run (E.onLedger exec archived) os d).state = run exec (E.ran exec archived os d) d.state := by
  induction os generalizing d with
  | nil => rfl
  | cons o os ih =>
    show (run (E.onLedger exec archived) os (settle (E.onLedger exec archived) o d).post).state = _
    rw [ih]
    cases o with
    | restore k time => rfl
    | call i restores =>
      rw [ran, run_append]
      by_cases h : E.Admits d i restores
      · rw [if_pos h, (settle_call h).2]
        rfl
      · rw [if_neg h, settle_of_error (onLedger_archived h)]
        rfl

/-- The calls that ran are some of the calls of the run, in their order. -/
theorem ran_sublist (os : List (Operation ι K)) (d : Dated σ K) :
    (E.ran exec archived os d).Sublist (os.filterMap Operation.call?) := by
  induction os generalizing d with
  | nil => exact List.Sublist.slnil
  | cons o os ih =>
    cases o with
    | restore k time => exact ih _
    | call i restores =>
      rw [ran]
      by_cases h : E.Admits d i restores
      · rw [if_pos h]
        exact (ih _).cons_cons i
      · rw [if_neg h]
        exact (ih _).cons i

end Refinement

/-! ## The lifetime of one entry -/

/-- The operation succeeds and extends the entry `k`. -/
def touchesEntry (k : K) (s : σ) : Operation ι K → Bool
  | .call i _ => E.addr i = k && E.touches i && (exec i s).toBool
  | .restore _ _ => false

/-- The times at which a run extends the entry `k`. -/
def touchTimes (k : K) (os : List (Operation ι K)) (d : Dated σ K) : List ℤ :=
  ((trace (E.onLedger exec archived) os d).filter
    (fun c => E.touchesEntry exec k c.pre.state c.input)).map (fun c => E.opTime c.input)

/-- From time `first` to time `stop` the entry `k` is never archived. -/
def LiveThroughout (k : K) (first stop : ℤ) (os : List (Operation ι K)) (d : Dated σ K) : Prop :=
  ∀ before after, os = before ++ after → ∀ time, first ≤ time → time ≤ stop →
    (∀ o ∈ before, E.opTime o ≤ time) → (∀ o ∈ after, time ≤ E.opTime o) →
      E.Live (run (E.onLedger exec archived) before d) k time

section Lifetime

variable {E exec archived} {k : K} {o : Operation ι K} {os : List (Operation ι K)}
  {d : Dated σ K} {a first stop : ℤ}

theorem touchTimes_cons :
    E.touchTimes exec archived k (o :: os) d =
      if E.touchesEntry exec k d.state o then
        E.opTime o ::
          E.touchTimes exec archived k os (settle (E.onLedger exec archived) o d).post
      else
        E.touchTimes exec archived k os (settle (E.onLedger exec archived) o d).post := by
  unfold touchTimes
  rw [trace, List.filter_cons, settle_pre, settle_input]
  by_cases h : E.touchesEntry exec k d.state o = true
  · rw [if_pos h, if_pos h, List.map_cons, settle_input]
  · rw [if_neg h, if_neg h]

theorem exists_of_mem_touchTimes {time : ℤ} (h : time ∈ E.touchTimes exec archived k os d) :
    ∃ o ∈ os, time = E.opTime o := by
  obtain ⟨c, hc, rfl⟩ := List.mem_map.mp h
  obtain ⟨before, o, after, rfl, rfl⟩ := exists_of_mem_trace (List.mem_of_mem_filter hc)
  exact ⟨o, by simp, by rw [settle_input]⟩

/-- No extension comes before the first operation. -/
theorem le_of_mem_touchTimes (hlater : ∀ o' ∈ os, E.opTime o ≤ E.opTime o') {time : ℤ}
    (h : time ∈ E.touchTimes exec archived k (o :: os) d) : E.opTime o ≤ time := by
  obtain ⟨o', ho', rfl⟩ := exists_of_mem_touchTimes h
  rcases List.mem_cons.mp ho' with rfl | ho'
  · exact le_rfl
  · exact hlater o' ho'

theorem liveThroughout_nil (hpresent : E.present d.state k = true) (hstop : first ≤ stop) :
    E.LiveThroughout exec archived k first stop [] d ↔ stop ≤ d.liveUntil k := by
  constructor
  · intro h
    exact h [] [] rfl stop hstop le_rfl (by simp) (by simp) hpresent
  · intro h before after heq time _ hto _ _
    obtain ⟨rfl, rfl⟩ := List.append_eq_nil_iff.mp heq.symm
    intro _
    exact hto.trans h

/-- The entry is live until the first operation of a run, and from there on. -/
theorem liveThroughout_cons (hfirst : first ≤ E.opTime o) (hstop : E.opTime o ≤ stop)
    (hlater : ∀ o' ∈ os, E.opTime o ≤ E.opTime o') :
    E.LiveThroughout exec archived k first stop (o :: os) d ↔
      E.Live d k (E.opTime o) ∧
        E.LiveThroughout exec archived k (E.opTime o) stop os
          (settle (E.onLedger exec archived) o d).post := by
  constructor
  · intro h
    refine ⟨?_, ?_⟩
    · exact h [] (o :: os) rfl _ hfirst hstop (by simp) (List.forall_mem_cons.mpr ⟨le_rfl, hlater⟩)
    · intro before after heq time hfrom hto hbefore hafter
      exact h (o :: before) after (by rw [heq]; rfl) time (hfirst.trans hfrom) hto
        (List.forall_mem_cons.mpr ⟨hfrom, hbefore⟩) hafter
  · intro h before after heq time hfrom hto hbefore hafter
    rcases h with ⟨hnow, hthen⟩
    cases before with
    | nil =>
      have hnext : time ≤ E.opTime o := by
        apply hafter
        rw [← List.nil_append after, ← heq]
        exact List.mem_cons_self
      intro hpresent
      exact hnext.trans (hnow hpresent)
    | cons o' before =>
      obtain ⟨rfl, heq'⟩ := List.cons.inj heq
      obtain ⟨ho, hbefore'⟩ := List.forall_mem_cons.mp hbefore
      exact hthen before after heq' time ho hto hbefore' hafter

/-- No operation takes an entry's lifetime back. -/
theorem liveUntil_le_settle (hthreshold : E.threshold ≤ E.span) (hinitial : 0 ≤ E.ttl.initial)
    (hpresent : E.present d.state k = true) :
    d.liveUntil k ≤ (settle (E.onLedger exec archived) o d).post.liveUntil k := by
  refine settle_post (P := fun d' : Dated σ K => d.liveUntil k ≤ d'.liveUntil k) le_rfl ?_
  intro r d' hok
  cases o with
  | restore k' time =>
    simp only [onLedger, pure_eq_ok, Prod.mk.injEq] at hok
    obtain ⟨_, rfl⟩ := hok
    show d.liveUntil k ≤ (if E.Live d k' time then d.liveUntil else _) k
    by_cases h : E.Live d k' time
    · rw [if_pos h]
    · rw [if_neg h]
      by_cases hk : k = k'
      · subst hk
        rw [Function.update_self]
        have hlate : ¬ time ≤ d.liveUntil k := fun hle => h (fun _ => hle)
        omega
      · rw [Function.update_of_ne hk]
  | call i restores =>
    simp only [onLedger, bind_eq_ok, pure_eq_ok, Prod.mk.injEq] at hok
    obtain ⟨_, _, p, _, _, rfl⟩ := hok
    show d.liveUntil k ≤ Function.update d.liveUntil (E.addr i) _ k
    by_cases hk : k = E.addr i
    · subst hk
      rw [Function.update_self]
      exact (liveUntil_le_found hinitial).trans (le_renewed hthreshold hpresent)
    · rw [Function.update_of_ne hk]

theorem liveUntil_le_run (hthreshold : E.threshold ≤ E.span) (hinitial : 0 ≤ E.ttl.initial)
    (hpresent : ∀ before after, os = before ++ after →
      E.present (run (E.onLedger exec archived) before d).state k = true) :
    d.liveUntil k ≤ (run (E.onLedger exec archived) os d).liveUntil k := by
  induction os generalizing d with
  | nil => exact le_rfl
  | cons o os ih =>
    have hstep : d.liveUntil k ≤ (settle (E.onLedger exec archived) o d).post.liveUntil k :=
      liveUntil_le_settle hthreshold hinitial (hpresent [] (o :: os) rfl)
    refine hstep.trans (ih ?_)
    intro before after heq
    exact hpresent (o :: before) after (by rw [heq]; rfl)

/-- What an operation does to the lifetime of an entry that is live and
stays. -/
theorem settle_liveUntil (hlease : d.liveUntil k = a + E.span)
    (hpresent : E.present d.state k = true) (hlive : E.opTime o ≤ a + E.span) :
    (settle (E.onLedger exec archived) o d).post.liveUntil k =
      (if E.touchesEntry exec k d.state o then
        renew (E.span - E.threshold - E.ttl.margin) a (E.opTime o) else a) + E.span := by
  cases o with
  | restore k' time =>
    have hno : E.touchesEntry exec k d.state (.restore k' time) = false := rfl
    rw [hno, if_neg Bool.false_ne_true, ← hlease]
    show (if E.Live d k' time then d.liveUntil else Function.update d.liveUntil k' _) k = _
    by_cases h : E.Live d k' time
    · rw [if_pos h]
    · have hne : k ≠ k' := by
        intro heq
        subst heq
        exact h (fun _ => hlease ▸ hlive)
      rw [if_neg h, Function.update_of_ne hne]
  | call i restores =>
    by_cases haddr : E.addr i = k
    · subst haddr
      have hentry : E.Live d (E.addr i) (E.time i) := fun _ => hlease ▸ hlive
      rcases hexec : exec i d.state with e | ⟨r, s'⟩
      · have hno : E.touchesEntry exec (E.addr i) d.state (.call i restores) = false := by
          simp [touchesEntry, hexec, Except.toBool]
        rw [settle_of_error (onLedger_error (.inr hentry) hexec), hno, if_neg Bool.false_ne_true]
        exact hlease
      · have htouch : E.touchesEntry exec (E.addr i) d.state (.call i restores) = E.touches i := by
          simp [touchesEntry, hexec, Except.toBool]
        rw [settle_of_ok (onLedger_ok (.inr hentry) hexec), htouch]
        show Function.update d.liveUntil (E.addr i) _ (E.addr i) = _
        rw [Function.update_self, found_of_live hentry, hlease, renewed_lease hpresent]
        rfl
    · have hno : E.touchesEntry exec k d.state (.call i restores) = false := by
        simp [touchesEntry, haddr]
      rw [hno, if_neg Bool.false_ne_true, ← hlease]
      refine settle_post (P := fun d' : Dated σ K => d'.liveUntil k = d.liveUntil k) rfl ?_
      intro r d' hok
      simp only [onLedger, bind_eq_ok, pure_eq_ok, Prod.mk.injEq] at hok
      obtain ⟨_, _, p, _, _, rfl⟩ := hok
      exact Function.update_of_ne (fun h => haddr h.symm) _ _

/-- An entry that stays is live throughout a run if and only if the calls that
extend it leave its lease unbroken.  No restoration can make up for a break. -/
theorem stays_live_iff (hthreshold : 0 ≤ E.threshold) (hlease : d.liveUntil k = a + E.span)
    (hpresent : ∀ before after, os = before ++ after →
      E.present (run (E.onLedger exec archived) before d).state k = true)
    (hclock : os.Pairwise (fun o o' => E.opTime o ≤ E.opTime o'))
    (hfirst : ∀ o ∈ os, first ≤ E.opTime o) (hend : ∀ o ∈ os, E.opTime o ≤ stop)
    (hstop : first ≤ stop) :
    E.LiveThroughout exec archived k first stop os d ↔
      Unbroken E.span (E.span - E.threshold - E.ttl.margin) a
        (E.touchTimes exec archived k os d) stop := by
  have hidle : E.span - E.threshold - E.ttl.margin ≤ E.span := by
    have hmargin := E.ttl.margin_nonneg
    omega
  induction os generalizing d a first with
  | nil =>
    have hthere : E.present d.state k = true := hpresent [] [] rfl
    rw [liveThroughout_nil hthere hstop, hlease]
    exact unbroken_nil.symm
  | cons o os ih =>
    obtain ⟨hlater, hclock'⟩ := List.pairwise_cons.mp hclock
    obtain ⟨ho, _⟩ := List.forall_mem_cons.mp hfirst
    obtain ⟨hoend, hend'⟩ := List.forall_mem_cons.mp hend
    have hthere := hpresent [] (o :: os) rfl
    rw [liveThroughout_cons ho hoend hlater]
    have hnow : E.Live d k (E.opTime o) ↔ E.opTime o ≤ a + E.span := by
      unfold Live
      rw [hlease]
      exact ⟨fun h => h hthere, fun h _ => h⟩
    rw [hnow]
    by_cases hlive : E.opTime o ≤ a + E.span
    · have hrest : ∀ before after, os = before ++ after → E.present
          (run (E.onLedger exec archived) before
            (settle (E.onLedger exec archived) o d).post).state k = true := by
        intro before after heq
        exact hpresent (o :: before) after (by rw [heq]; rfl)
      refine (and_congr_right fun _ => ih (settle_liveUntil hlease hthere hlive) hrest hclock'
        hlater hend' hoend).trans ?_
      rw [touchTimes_cons]
      by_cases htouch : E.touchesEntry exec k d.state o = true
      · rw [if_pos htouch, if_pos htouch, unbroken_cons hidle]
      · rw [if_neg htouch, if_neg htouch]
        exact and_iff_right hlive
    · -- the first operation comes too late, for the entry and for the lease
      refine iff_of_false (fun h => hlive h.1) ?_
      intro hunbroken
      exact hlive (hunbroken.le hidle (fun _ => le_of_mem_touchTimes hlater) hoend)

end Lifetime

end Expiry

end LatchContracts.Lib
