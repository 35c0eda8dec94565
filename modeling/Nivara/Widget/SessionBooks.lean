import Nivara.Widget.WidgetSessionService

/-! The books of the visitors: what each call holds on to between two statements, and what the others leave of it. -/
namespace Nivara.Widget

def WidgetEvent.sessionId : WidgetEvent → Uuid
  | .saw sessionId => sessionId
  | .renewed sessionId => sessionId
  | .created sessionId _ => sessionId

namespace Visitors
open Transactions

variable {ι : Type} {s s' : Visitors ι} {i j : ι} {k c : Uuid}

/-! ## What holds in every state -/

structure Grows (r r' : WidgetSession) : Prop where
  contactId : ∀ c, r.contactId = some c → r'.contactId = some c
  revokedAt : r.revokedAt ≠ none → r'.revokedAt ≠ none

theorem Grows.refl (r : WidgetSession) : Grows r r := ⟨fun _ h => h,fun h => h⟩

theorem Grows.trans {r r' r'' : WidgetSession} (h : Grows r r') (h' : Grows r' r'') : Grows r r'' :=
  ⟨fun c hc => h'.contactId c (h.contactId c hc),fun hr => h'.revokedAt (h.revokedAt hr)⟩

def contactOf (s : Visitors ι) (k : Uuid) : Option Uuid := (s.sessions.committed k).bind (·.contactId)

def Revoked (s : Visitors ι) (k : Uuid) : Prop := ∃ r, s.sessions.committed k = some r ∧ r.revokedAt ≠ none

theorem contactOf_some : s.contactOf k = some c ↔ ∃ r, s.sessions.committed k = some r ∧ r.contactId = some c :=
  Option.bind_eq_some_iff

def Fresh (s : Visitors ι) (i : ι) : Prop := ∀ k c, (i, .created k c) ∉ s.history

def Told (s : Visitors ι) (i : ι) : WidgetAnswer → Prop
  | .verified (some p) => (∀ c, p.contactId = some c → s.contactOf p.sessionId = some c) ∧ (i, .saw p.sessionId) ∈ s.history
  | .contact _ c => ∃ p, s.requests i = some (.contactPrincipalFor p) ∧ s.contactOf p.sessionId = some c
  | .granted _ _ => ∀ p origin, s.requests i = some (.renew p origin) → (i, .renewed p.sessionId) ∈ s.history
  | _ => True

variable [DecidableEq ι]

def Inserted (s : Visitors ι) (c : Uuid) : Prop := ∃ r, s.contacts.Version c r

def Clean (s : Visitors ι) (i : ι) : Prop := (∀ k, s.sessions.own i k = none) ∧ ∀ c, s.contacts.own i c = none

/-- An inserted Contact is the session's, or about to be: then call `i` holds the session. -/
def Placed (s : Visitors ι) (i : ι) (k c : Uuid) : Prop :=
  (s.contactOf k = some c ∧ s.contacts.committed c ≠ none) ∨
  ∃ r, s.sessions.own i k = some r ∧ s.contacts.own i c ≠ none ∧ s.contacts.committed c = none ∧
    ∀ c', r.contactId = some c' → c' = c

structure Held (s : Visitors ι) (i : ι) : Prop where
  grows : ∀ k r r', s.sessions.committed k = some r → s.sessions.own i k = some r' → Grows r r'
  named : ∀ k r c, s.sessions.own i k = some r → r.contactId = some c →
    s.contactOf k = some c ∨ ((i, .created k c) ∈ s.history ∧ s.contacts.own i c ≠ none)
  created : ∀ k c, (i, .created k c) ∈ s.history → c < s.contacts.size ∧ (s.Inserted c → s.Placed i k c)
  lone : ∀ k c k' c', (i, .created k c) ∈ s.history → (i, .created k' c') ∈ s.history → k = k' ∧ c = c'

def Holding (s : Visitors ι) (i : ι) (p : WidgetPrincipal) : Prop :=
  s.requests i = some (.contactPrincipalFor p) ∧
    ∃ r, s.sessions.own i p.sessionId = some r ∧ r.tenantId = p.tenantId ∧ r.contactId = none ∧ r.revokedAt = none

def Returns (s : Visitors ι) (i : ι) : Outcome → Prop
  | .grant _ _ _ => ∀ p origin, s.requests i = some (.renew p origin) → (i, .renewed p.sessionId) ∈ s.history
  | .requester _ (some c) => ∃ p, s.requests i = some (.contactPrincipalFor p) ∧
      ∃ r, s.sessions.visible i p.sessionId = some r ∧ r.contactId = some c
  | _ => True

def Fits (s : Visitors ι) (i : ι) : WidgetCall → Prop
  | .bootstrapOrigin _ _ _ => s.Fresh i ∧ ∃ t origin, s.requests i = some (.bootstrap t origin)
  | .createSession _ _ => s.Fresh i ∧ ∃ t origin, s.requests i = some (.bootstrap t origin)
  | .findSession _ _ => s.Fresh i ∧ s.Clean i
  | .inspect _ k session => s.Fresh i ∧ s.Clean i ∧ ∀ r, session = some r →
      (∀ c, r.contactId = some c → s.contactOf k = some c) ∧ (r.revokedAt = none → (i, .saw k) ∈ s.history)
  | .renewOrigin p _ _ => s.Fresh i ∧ ∃ origin, s.requests i = some (.renew p origin)
  | .extend p _ => s.Fresh i ∧ ∃ origin, s.requests i = some (.renew p origin)
  | .lockSession p => s.Fresh i ∧ s.requests i = some (.contactPrincipalFor p)
  | .createContact p => s.Fresh i ∧ s.Holding i p
  | .setContact p c => s.Holding i p ∧ (i, .created p.sessionId c) ∈ s.history ∧ s.contacts.own i c ≠ none
  | .kill _ _ => s.Fresh i
  | .commit outcome => s.Returns i outcome ∧
      ∀ k c, (i, .created k c) ∈ s.history → ∃ r, s.sessions.own i k = some r ∧ r.contactId = some c
  | .rollback => True
  | .reply answer => s.Fresh i ∧ s.Clean i ∧ s.Told i answer

structure Kept (s : Visitors ι) : Prop where
  held : ∀ i, s.Held i
  fits : ∀ i call, s.calls i = some call → s.Fits i call
  idle : ∀ i, s.calls i = none → s.Clean i
  named : ∀ k c, s.contactOf k = some c → (∃ i, (i, .created k c) ∈ s.history) ∧ s.contacts.committed c ≠ none
  told : ∀ i a, (i, a) ∈ s.answers → s.Told i a ∧ s.requests i ≠ none
  past : ∀ i e, (i, e) ∈ s.history → s.requests i ≠ none
  asked : ∀ i call, s.calls i = some call → s.requests i ≠ none

/-- A step after which all of it holds again; it takes no Contact and no revocation away, and does nothing with a
session whose revocation is committed. -/
structure Takes (s s' : Visitors ι) : Prop where
  kept : s'.Kept
  contacts : ∀ k c, s.contactOf k = some c → s'.contactOf k = some c
  revoked : ∀ k, s.Revoked k → s'.Revoked k
  history : s'.history = s.history ∨ ∃ i e, s'.history = s.history ++ [(i, e)] ∧ ¬ s.Revoked e.sessionId

/-! ## What a step leaves of the others -/

/-- What the others leave to call `j`: its versions, what it holds, and what is committed. -/
structure Beside (s s' : Visitors ι) (j : ι) : Prop where
  requests : s'.requests j = s.requests j
  own : ∀ k, s'.sessions.own j k = s.sessions.own j k
  ownContact : ∀ c, s'.contacts.own j c = s.contacts.own j c
  locked : ∀ k r, s.sessions.own j k = some r → s'.sessions.committed k = s.sessions.committed k
  lockedContact : ∀ c, s.contacts.own j c ≠ none → s'.contacts.committed c = s.contacts.committed c
  contactOf : ∀ k c, s.contactOf k = some c → s'.contactOf k = some c
  contact : ∀ c, s.contacts.committed c ≠ none → s'.contacts.committed c ≠ none
  inserted : ∀ c, c < s.contacts.size → s'.Inserted c → s.Inserted c
  size : s.contacts.size ≤ s'.contacts.size
  history : ∀ e, (j, e) ∈ s'.history ↔ (j, e) ∈ s.history

omit [DecidableEq ι] in
theorem Told.mono {answer : WidgetAnswer} (hrequests : s'.requests i = s.requests i)
    (hcontact : ∀ k c, s.contactOf k = some c → s'.contactOf k = some c) (hhistory : ∀ e, (i, e) ∈ s.history → (i, e) ∈ s'.history)
    (h : s.Told i answer) : s'.Told i answer := by
  cases answer with
  | verified p =>
    cases p with
    | none => trivial
    | some p => exact ⟨fun c hc => hcontact _ c (h.1 c hc),hhistory _ h.2⟩
  | contact _ c =>
    obtain ⟨p,hp,hc⟩ := h
    exact ⟨p,hrequests.trans hp,hcontact _ c hc⟩
  | granted _ _ => exact fun p origin hp => hhistory _ (h p origin (hrequests.symm.trans hp))
  | revoked => trivial
  | refused _ _ => trivial
  | failed => trivial

namespace Beside

theorem told {answer : WidgetAnswer} (h : Beside s s' j) (ht : s.Told j answer) : s'.Told j answer :=
  ht.mono h.requests h.contactOf fun e he => (h.history e).mpr he

theorem clean (h : Beside s s' j) (hc : s.Clean j) : s'.Clean j :=
  ⟨fun k => (h.own k).trans (hc.1 k),fun c => (h.ownContact c).trans (hc.2 c)⟩

theorem fresh (h : Beside s s' j) (hf : s.Fresh j) : s'.Fresh j := fun k c he => hf k c ((h.history _).mp he)

theorem held (h : Beside s s' j) (hh : s.Held j) : s'.Held j where
  grows k r r' hr ho := by
    rw [h.own k] at ho
    rw [h.locked k r' ho] at hr
    exact hh.grows k r r' hr ho
  named k r c ho hc := by
    rw [h.own k] at ho
    rw [h.history, h.ownContact c]
    exact (hh.named k r c ho hc).imp_left (h.contactOf k c)
  created k c he := by
    obtain ⟨hlt,hplaced⟩ := hh.created k c ((h.history _).mp he)
    refine ⟨Nat.lt_of_lt_of_le hlt h.size,fun hi => ?_⟩
    rcases hplaced (h.inserted c hlt hi) with ⟨hk,hc⟩ | ⟨r,ho,hc,hnone,hr⟩
    · exact .inl ⟨h.contactOf k c hk,h.contact c hc⟩
    · refine .inr ⟨r,(h.own k).trans ho,?_,(h.lockedContact c hc).trans hnone,hr⟩
      rw [h.ownContact c]
      exact hc
  lone k c k' c' he he' := hh.lone k c k' c' ((h.history _).mp he) ((h.history _).mp he')

theorem holding {p : WidgetPrincipal} (h : Beside s s' j) (hh : s.Holding j p) : s'.Holding j p := by
  obtain ⟨hreq,r,ho,hr⟩ := hh
  exact ⟨h.requests.trans hreq,r,(h.own _).trans ho,hr⟩

/-- What call `j` sees of a session keeps its Contact. -/
theorem seen {r : WidgetSession} (h : Beside s s' j) (hv : s.sessions.visible j k = some r) (hc : r.contactId = some c) :
    ∃ r', s'.sessions.visible j k = some r' ∧ r'.contactId = some c := by
  rcases Table.visible_cases _ _ _ hv with ho | ⟨ho,hr⟩
  · exact ⟨r,Table.visible_of_own _ _ _ ((h.own k).trans ho),hc⟩
  · obtain ⟨r',hr',hc'⟩ := contactOf_some.mp (h.contactOf k c (contactOf_some.mpr ⟨r,hr,hc⟩))
    exact ⟨r',(Table.visible_of_no_own _ _ _ ((h.own k).trans ho)).trans hr',hc'⟩

theorem returns {outcome : Outcome} (h : Beside s s' j) (hr : s.Returns j outcome) : s'.Returns j outcome := by
  cases outcome with
  | grant _ _ _ => exact fun p origin hp => (h.history _).mpr (hr p origin (h.requests.symm.trans hp))
  | requester _ contactId =>
    cases contactId with
    | none => trivial
    | some c =>
      obtain ⟨p,hp,r,hv,hc⟩ := hr
      exact ⟨p,h.requests.trans hp,h.seen hv hc⟩
  | originRefused => trivial
  | sessionDead => trivial
  | revoked => trivial

theorem fits {call : WidgetCall} (h : Beside s s' j) (hf : s.Fits j call) : s'.Fits j call := by
  cases call with
  | bootstrapOrigin _ _ _ => exact ⟨h.fresh hf.1,hf.2.imp fun _ => .imp fun _ hr => h.requests.trans hr⟩
  | createSession _ _ => exact ⟨h.fresh hf.1,hf.2.imp fun _ => .imp fun _ hr => h.requests.trans hr⟩
  | findSession _ _ => exact ⟨h.fresh hf.1,h.clean hf.2⟩
  | inspect _ k session =>
    refine ⟨h.fresh hf.1,h.clean hf.2.1,fun r hr => ?_⟩
    obtain ⟨hc,hsaw⟩ := hf.2.2 r hr
    exact ⟨fun c hc' => h.contactOf k c (hc c hc'),fun hr => (h.history _).mpr (hsaw hr)⟩
  | renewOrigin _ _ _ => exact ⟨h.fresh hf.1,hf.2.imp fun _ hr => h.requests.trans hr⟩
  | extend _ _ => exact ⟨h.fresh hf.1,hf.2.imp fun _ hr => h.requests.trans hr⟩
  | lockSession _ => exact ⟨h.fresh hf.1,h.requests.trans hf.2⟩
  | createContact _ => exact ⟨h.fresh hf.1,h.holding hf.2⟩
  | setContact _ c =>
    refine ⟨h.holding hf.1,(h.history _).mpr hf.2.1,?_⟩
    rw [h.ownContact c]
    exact hf.2.2
  | kill _ _ => exact h.fresh hf
  | commit _ =>
    refine ⟨h.returns hf.1,fun k c he => ?_⟩
    obtain ⟨r,ho,hc⟩ := hf.2 k c ((h.history _).mp he)
    exact ⟨r,(h.own k).trans ho,hc⟩
  | rollback => trivial
  | reply _ => exact ⟨h.fresh hf.1,h.clean hf.2.1,h.told hf.2.2⟩

end Beside

end Visitors
end Nivara.Widget
