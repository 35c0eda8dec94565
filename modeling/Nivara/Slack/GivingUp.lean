import Nivara.Slack.Agreement
import Nivara.Transactions.View

/-! Giving up on a delivery, statement by statement: what `abandon` does after it has settled the
row, with the audit log and the events of the agents' room. The row and its audit entry are in the
handler's transaction; the event is published before that transaction ends. -/
namespace Nivara.Slack
open Transactions Scheduler

/-- A row of `audit_log` with the action `integration.failed`; its target is the delivery's row. -/
structure IntegrationFailed where
  tenantId : Uuid
  targetId : Nat
  ticketId : Option Uuid
  target : String
  messageId : Uuid
  attempts : Nat
  error : String
  deriving DecidableEq, Repr

/-- The event `ticket.integration.failed`, to the agents of the tenant. -/
structure IntegrationFailureSnapshot where
  tenantId : Uuid
  ticketId : Uuid
  messageId : Uuid
  target : String
  error : String
  deriving DecidableEq, Repr

/-- What `abandon` has still to do once row `k` is settled. -/
inductive Duty where
  | find (k : Nat) (error : String)
  | record (k : Nat) (error : String) (ticketId : Option Uuid)
  | announce (k : Nat) (error : String) (ticketId : Uuid)
  deriving DecidableEq, Repr

def Handling.givesUp (x : Handling) : Option (Nat × String) :=
  match x.stage with
  | .claimed k => if (parseSlackTarget x.target).isNone then some (k, notADestination x.target) else none
  | .caught k error => if error.permanent ∨ x.maxAttempts ≤ x.attempt then some (k, error.message) else none
  | _ => none

/-- The drainers with their handlers, the Ticket of each Message, the audit log, the row each handler
has claimed, what it has still to do, and what has been published. -/
structure Despatch (ι : Type) where
  courier : Courier ι
  tickets : List Uuid
  audit : Table ι IntegrationFailed
  claimed : ι → Option OutboundDelivery
  duties : ι → Option Duty
  published : List IntegrationFailureSnapshot

inductive DespatchAction (ι : Type) where
  | create (message : Message) (ticketId : Uuid)
  | courier (a : CourierAction ι)
  /-- The next statement of `abandon` after it has settled the row. -/
  | perform (i : ι)

namespace Despatch
variable {ι : Type} [DecidableEq ι]

def initial : Despatch ι := ⟨Courier.initial, [], Table.empty, fun _ => none, fun _ => none, []⟩

def ticketOf (s : Despatch ι) (messageId : Uuid) : Option Uuid :=
  if s.courier.alive messageId then s.tickets[messageId]? else none

def assign (s : Despatch ι) (i : ι) (duty : Option Duty) : Despatch ι := { s with duties := Function.update s.duties i duty }

def perform (s : Despatch ι) (i : ι) (x : Handling) : Duty → Despatch ι
  | .find k error => s.assign i (some (.record k error (s.ticketOf x.messageId)))
  | .record k error ticketId =>
    let attempts := ((s.claimed i).map (·.attempts)).getD 0
    let entry : IntegrationFailed := ⟨x.tenantId, k, ticketId, x.target, x.messageId, attempts, error⟩
    { s with audit := s.audit.insert i entry }.assign i (ticketId.map (.announce k error))
  | .announce _ error ticketId =>
    let event : IntegrationFailureSnapshot := ⟨x.tenantId, ticketId, x.messageId, x.target, error⟩
    { s with published := s.published ++ [event] }.assign i none

def advanced (s : Despatch ι) (c : Courier ι) (i : ι) (x : Handling) : Despatch ι :=
  match x.stage with
  | .claiming =>
    { s with courier := c, claimed := Function.update s.claimed i ((c.handlers i).bind fun y => y.stage.row.bind c.deliveries.committed) }
  | .returning => { s with courier := c, audit := s.audit.commit i }
  | .thrown _ => { s with courier := c, audit := s.audit.rollback i }
  | _ => { s with courier := c }.assign i (x.givesUp.map fun (k, error) => Duty.find k error)

def follow (s : Despatch ι) (c : Courier ι) : CourierAction ι → Despatch ι
  | .advance i => (s.courier.handlers i).elim { s with courier := c } (s.advanced c i)
  | .fail i _ => { s with courier := c }.assign i none
  | .drain (.crash i) => { s with courier := c, audit := s.audit.rollback i }.assign i none
  | _ => { s with courier := c }

/-- The handler awaits its `abandon`, and Messages come with their Tickets. -/
def allows (s : Despatch ι) : CourierAction ι → Bool
  | .create _ => false
  | .advance i => (s.duties i).isNone
  | _ => true

def step (s : Despatch ι) : DespatchAction ι → Option (Despatch ι)
  | .create message ticketId => (s.courier.step (.create message)).map fun c => { s with courier := c, tickets := s.tickets ++ [ticketId] }
  | .courier a => if s.allows a then (s.courier.step a).map fun c => s.follow c a else none
  | .perform i => (s.courier.handlers i).bind fun x => (s.duties i).map (s.perform i x)

end Despatch

def Stage.isOver : Stage → Bool
  | .returning => true
  | .thrown _ => true
  | _ => false

def CourierAction.mover {ι : Type} : CourierAction ι → Option ι
  | .drain (.start i) => some i
  | .drain (.crash i) => some i
  | .advance i => some i
  | .fail i _ => some i
  | .post i _ _ => some i
  | _ => none

/-- No transaction is touched; a row keeps its pair, stays as it is while it is locked, and does not come
to be `dead`. -/
structure Keeps {ι : Type} [DecidableEq ι] (t t' : Table ι OutboundDelivery) : Prop where
  own : ∀ j k, t'.own j k = t.own j k
  rows : ∀ k r, t.committed k = some r → ∃ r', t'.committed k = some r' ∧ r'.key = r.key ∧ (t.pending k ≠ none → r' = r)
  dead : ∀ k r', t'.committed k = some r' → r'.status = .dead → ∃ r, t.committed k = some r ∧ r.status = .dead

section Keeps
variable {ι : Type} [DecidableEq ι] {t : Table ι OutboundDelivery}

theorem Keeps.refl : Keeps t t := ⟨fun _ _ => rfl,fun _ r hr => ⟨r,hr,rfl,fun _ => rfl⟩,fun _ r hr hdead => ⟨r,hr,hdead⟩⟩

theorem Keeps.append {r : OutboundDelivery} (hr : r.status ≠ .dead) : Keeps t (t.append r) where
  own _ _ := rfl
  rows k s hs := ⟨s,Table.append_committed_of_committed _ _ hs,rfl,fun _ => rfl⟩
  dead k s hs hdead := by
    rw [Table.append_committed] at hs
    split at hs
    · cases hs
      exact absurd hdead hr
    · exact ⟨s,hs,hdead⟩

theorem Keeps.amend {k : Nat} {f : OutboundDelivery → OutboundDelivery} (hfree : t.pending k = none)
    (hkey : ∀ r, (f r).key = r.key) (hdead : ∀ r, (f r).status = .dead → r.status = .dead) : Keeps t (t.amend k f) where
  own _ _ := rfl
  rows j s hs := by
    rw [Table.amend_committed]
    split
    · rename_i hjk
      subst hjk
      exact ⟨f s,by rw [hs]; rfl,hkey s,fun hlocked => absurd hfree hlocked⟩
    · exact ⟨s,hs,rfl,fun _ => rfl⟩
  dead j s hs hd := by
    rw [Table.amend_committed] at hs
    split at hs
    · rename_i hjk
      subst hjk
      obtain ⟨w,hw,rfl⟩ := Option.map_eq_some_iff.mp hs
      exact ⟨w,hw,hdead w hd⟩
    · exact ⟨s,hs,hd⟩

end Keeps

theorem Handling.not_over_of_givesUp {x : Handling} {gives : Nat × String} (h : x.givesUp = some gives) : x.stage.isOver = false := by
  cases hstage : x.stage with
  | returning => simp [Handling.givesUp, hstage] at h
  | thrown message => simp [Handling.givesUp, hstage] at h
  | _ => rfl

/-- The action is a statement of the handler that goes through and does not give up, one that fails, or a post. -/
inductive Handling.Acts {ι : Type} (x : Handling) (i : ι) : CourierAction ι → Prop where
  | advance (gives : x.givesUp = none) (ended : x.stage.isOver = false) : Acts x i (.advance i)
  | fail (message : String) : Acts x i (.fail i message)
  | post (accepts : Bool) (answer : Answer) (ended : x.stage.isOver = false) : Acts x i (.post i accepts answer)

namespace Courier
variable {ι : Type} [DecidableEq ι]

inductive Moves (c : Courier ι) : CourierAction ι → Courier ι → Prop where
  | quiet {a : CourierAction ι} {c' : Courier ι} (still : a.mover = none) (keeps : Keeps c.deliveries c'.deliveries)
      (handlers : c'.handlers = c.handlers) : Moves c a c'
  | begins {i : ι} {x : Option Handling} {c' : Courier ι} (idle : c.handlers i = none) (deliveries : c'.deliveries = c.deliveries)
      (fresh : ∀ y ∈ x, y.stage = .claiming) (handlers : c'.handlers = Function.update c.handlers i x) :
      Moves c (.drain (.start i)) c'
  | goes {a : CourierAction ι} {i : ι} {x : Handling} {stage : Stage} {c' : Courier ι} (mover : a.mover = some i)
      (hx : c.handlers i = some x) (acts : x.Acts i a) (keeps : Keeps c.deliveries c'.deliveries)
      (row : ∀ k, stage.row = some k → ∃ r, c'.deliveries.committed k = some r ∧ r.key = x.key)
      (ended : x.stage.isOver = true → ∃ message, stage = .thrown message)
      (handlers : c'.handlers = Function.update c.handlers i (some { x with stage := stage })) : Moves c a c'
  | abandons {i : ι} {x : Handling} {k : Nat} {error : String} {r : OutboundDelivery} {c' : Courier ι} (hx : c.handlers i = some x)
      (gives : x.givesUp = some (k, error)) (row : c.deliveries.committed k = some r) (hkey : r.key = x.key)
      (free : c.deliveries.free i [k] = true)
      (deliveries : c'.deliveries = c.deliveries.write i [k] (fun _ => true) (OutboundDelivery.settled .dead error))
      (handlers : c'.handlers = Function.update c.handlers i (some { x with stage := .returning })) : Moves c (.advance i) c'
  | returns {i : ι} {x : Handling} {c' : Courier ι} (hx : c.handlers i = some x) (stage : x.stage = .returning)
      (deliveries : c'.deliveries = c.deliveries.commit i) (handlers : c'.handlers = Function.update c.handlers i none) :
      Moves c (.advance i) c'
  | throws {i : ι} {x : Handling} {message : String} {c' : Courier ι} (hx : c.handlers i = some x) (stage : x.stage = .thrown message)
      (deliveries : c'.deliveries = c.deliveries.rollback i) (handlers : c'.handlers = Function.update c.handlers i none) :
      Moves c (.advance i) c'
  | crashes {i : ι} {c' : Courier ι} (deliveries : c'.deliveries = c.deliveries.rollback i)
      (handlers : c'.handlers = Function.update c.handlers i none) : Moves c (.drain (.crash i)) c'

section Moves
variable {c c' : Courier ι} {i : ι} {x : Handling}

private theorem moves_amend {k : Nat} {f : OutboundDelivery → OutboundDelivery} {stage : Stage} {c₁ : Courier ι}
    (hx : c.handlers i = some x) (hs : c.inOwnTransaction k f = some c₁) (hover : x.stage.isOver = false)
    (hgives : x.givesUp = none) (hkey : ∀ r, (f r).key = r.key) (hdead : ∀ r, (f r).status = .dead → r.status = .dead)
    (hrow : ∀ k', stage.row = some k' → k' = k ∧ ∃ r, c.deliveries.committed k = some r ∧ r.key = x.key) :
    c.Moves (.advance i) (c₁.goto i x stage) := by
  obtain ⟨rfl,hfree,_⟩ := inOwnTransaction_some hs
  have hkeeps := Keeps.amend hfree hkey hdead
  refine .goes rfl hx (.advance hgives hover) hkeeps (fun k' hk' => ?_) (fun h => ?_) rfl
  · obtain ⟨rfl,r,hr,hkey'⟩ := hrow k' hk'
    obtain ⟨r',hr',he,_⟩ := hkeeps.rows k' r hr
    exact ⟨r',hr',he.trans hkey'⟩
  · rw [hover] at h
    cases h

private theorem moves_abandon {k : Nat} {error : String} (hx : c.handlers i = some x) (hgives : x.givesUp = some (k, error))
    {r : OutboundDelivery} (hr : c.deliveries.committed k = some r) (hkey : r.key = x.key)
    (hs : c.abandon i x k error = some c') : c.Moves (.advance i) c' := by
  obtain ⟨c₁,h₁,rfl⟩ := Option.map_eq_some_iff.mp hs
  obtain ⟨rfl,hfree,_⟩ := inTransaction_some h₁
  exact .abandons hx hgives hr hkey hfree rfl rfl

/-- Nothing is written, and the handler of `i` goes on with the row it has. -/
private theorem moves_goto {a : CourierAction ι} {stage : Stage} (hmover : a.mover = some i) (hx : c.handlers i = some x)
    (hacts : x.Acts i a)
    (hrows : ∀ k, x.stage.row = some k → ∃ r, c.deliveries.committed k = some r ∧ r.key = x.key)
    (hrow : ∀ k, stage.row = some k → x.stage.row = some k) (hover : x.stage.isOver = true → ∃ message, stage = .thrown message)
    (hd : c'.deliveries = c.deliveries) (hh : c'.handlers = Function.update c.handlers i (some { x with stage := stage })) :
    c.Moves a c' := by
  refine .goes hmover hx hacts (hd ▸ Keeps.refl) (fun k hk => ?_) hover hh
  rw [hd]
  exact hrows k (hrow k hk)

private theorem moves_claim (hx : c.handlers i = some x) (hstage : x.stage = .claiming) (hs : c.claim i x = some c') :
    c.Moves (.advance i) c' := by
  have hgives : x.givesUp = none := by rw [Handling.givesUp, hstage]
  have hover : x.stage.isOver = false := by rw [hstage]; rfl
  simp only [claim] at hs
  split at hs
  · cases hs
    refine moves_goto rfl hx (.advance hgives hover) (fun k hk => ?_) (fun k hk => by cases hk) (fun h => ?_) rfl rfl
    · rw [hstage] at hk
      cases hk
    · rw [hover] at h
      cases h
  · rename_i k howed
    obtain ⟨c₁,h₁,rfl⟩ := Option.map_eq_some_iff.mp hs
    refine moves_amend hx h₁ hover hgives (fun _ => rfl) (fun _ hd => hd) fun k' hk' => ?_
    cases hk'
    have hfound := List.find?_some howed
    obtain ⟨r,hr,howes⟩ := (Option.any_eq_true _ _).mp hfound
    have howes := of_decide_eq_true howes
    exact ⟨rfl,r,hr,howes.2.1⟩

private theorem moves_advance (hrows : ∀ k, x.stage.row = some k → ∃ r, c.deliveries.committed k = some r ∧ r.key = x.key)
    (hx : c.handlers i = some x) (hs : c.advance i x = some c') : c.Moves (.advance i) c' := by
  cases hstage : x.stage with
  | claiming =>
    simp only [advance, hstage] at hs
    exact moves_claim hx hstage hs
  | claimed k =>
    obtain ⟨r,hr,hkey⟩ := hrows k (by rw [hstage]; rfl)
    simp only [advance, hstage] at hs
    split at hs
    · rename_i hparse
      exact moves_abandon hx (by simp [Handling.givesUp, hstage, hparse]) hr hkey hs
    · rename_i destination hparse
      split at hs
      · -- the row has gone with its Message, so the update finds nothing
        rename_i htext
        obtain ⟨c₁,h₁,_⟩ := Option.map_eq_some_iff.mp hs
        obtain ⟨_,_,r',hr',halive,_⟩ := inTransaction_some h₁
        cases hr.symm.trans hr'
        have hm : r.messageId = x.messageId := congrArg Prod.fst hkey
        rw [alive, hm] at halive
        rw [textOf, Option.map_eq_none_iff] at htext
        rw [htext] at halive
        cases halive
      · cases hs
        refine moves_goto rfl hx (.advance (by simp [Handling.givesUp, hstage, hparse]) (by rw [hstage]; rfl)) hrows
          (fun k' hk' => ?_) (fun h => ?_) rfl rfl
        · cases hk'
          rw [hstage]
          rfl
        · rw [hstage] at h
          cases h
  | composed k text =>
    simp only [advance, hstage] at hs
    cases hs
  | posted k ts =>
    simp only [advance, hstage] at hs
    obtain ⟨c₁,h₁,rfl⟩ := Option.map_eq_some_iff.mp hs
    refine moves_amend hx h₁ (by rw [hstage]; rfl) (by rw [Handling.givesUp, hstage]) (fun _ => rfl) (fun _ hd => ?_)
      fun _ hk => by cases hk
    cases hd
  | caught k error =>
    obtain ⟨r,hr,hkey⟩ := hrows k (by rw [hstage]; rfl)
    simp only [advance, hstage] at hs
    split at hs
    · rename_i hgiven
      exact moves_abandon hx (by simp [Handling.givesUp, hstage, hgiven]) hr hkey hs
    · rename_i hretry
      obtain ⟨c₁,h₁,rfl⟩ := Option.map_eq_some_iff.mp hs
      refine moves_amend hx h₁ (by rw [hstage]; rfl) (by simp [Handling.givesUp, hstage, hretry]) (fun _ => rfl) (fun _ hd => ?_)
        fun _ hk => by cases hk
      cases hd
  | returning =>
    simp only [advance, hstage] at hs
    obtain ⟨d,_,rfl⟩ := Option.map_eq_some_iff.mp hs
    exact .returns hx hstage rfl rfl
  | thrown message =>
    simp only [advance, hstage] at hs
    obtain ⟨d,_,rfl⟩ := Option.map_eq_some_iff.mp hs
    exact .throws hx hstage rfl rfl

private theorem moves_failed {message : String} (hrows : ∀ k, x.stage.row = some k → ∃ r, c.deliveries.committed k = some r ∧ r.key = x.key)
    (hx : c.handlers i = some x) (hs : c.failed i x message = some c') : c.Moves (.fail i message) c' := by
  simp only [failed] at hs
  split at hs
  · rename_i k text hstage
    cases hs
    refine moves_goto rfl hx (.fail message) hrows (fun k' hk' => ?_) (fun h => ?_) rfl rfl
    · cases hk'
      rw [hstage]
      rfl
    · rw [hstage] at h
      cases h
  · rename_i k ts hstage
    cases hs
    refine moves_goto rfl hx (.fail message) hrows (fun k' hk' => ?_) (fun h => ?_) rfl rfl
    · cases hk'
      rw [hstage]
      rfl
    · rw [hstage] at h
      cases h
  · cases hs
  · cases hs
    exact moves_goto rfl hx (.fail message) hrows (fun k' hk' => by cases hk') (fun _ => ⟨message,rfl⟩) rfl rfl

private theorem moves_post {accepts : Bool} {answer : Answer}
    (hrows : ∀ k, x.stage.row = some k → ∃ r, c.deliveries.committed k = some r ∧ r.key = x.key)
    (hx : c.handlers i = some x) (hs : c.post i x accepts answer = some c') : c.Moves (.post i accepts answer) c' := by
  simp only [post] at hs
  split at hs
  · rename_i k text hstage
    split at hs
    · cases hs
      refine moves_goto rfl hx (.post accepts answer (by rw [hstage]; rfl)) hrows (fun k' hk' => ?_) (fun h => ?_) rfl rfl
      · have hk : k' = k := by
          split at hk' <;> cases hk' <;> rfl
        rw [hstage, hk]
        rfl
      · rw [hstage] at h
        cases h
    · cases hs
  · cases hs

private theorem moves_drain {a : DrainAction ι JobPayload} (hs : c.drain a = some c') : c.Moves (.drain a) c' := by
  cases a with
  | enqueue tenantId input =>
    simp only [drain] at hs
    split at hs
    · cases hs
    · obtain ⟨d,_,rfl⟩ := Option.map_eq_some_iff.mp hs
      exact .quiet rfl .refl rfl
  | start i =>
    simp only [drain] at hs
    split at hs
    · rename_i hidle
      obtain ⟨d,_,rfl⟩ := Option.map_eq_some_iff.mp hs
      refine .begins (Option.isNone_iff_eq_none.mp hidle) rfl (fun y hy => ?_) rfl
      obtain ⟨hand,_,hy⟩ := Option.bind_eq_some_iff.mp hy
      split at hy
      · split at hy <;> cases hy
        rfl
      · cases hy
    · cases hs
  | finish i error =>
    simp only [drain] at hs
    split at hs
    · obtain ⟨d,_,rfl⟩ := Option.map_eq_some_iff.mp hs
      exact .quiet rfl .refl rfl
    · cases hs
  | crash i =>
    simp only [drain] at hs
    obtain ⟨d,_,rfl⟩ := Option.map_eq_some_iff.mp hs
    exact .crashes rfl rfl
  | _ =>
    obtain ⟨d,_,rfl⟩ := Option.map_eq_some_iff.mp hs
    exact .quiet rfl .refl rfl

private theorem moves_dispatch {messageId : Uuid} {slackChannelId slackThreadTs : Option String}
    (hs : c.dispatchIn messageId slackChannelId slackThreadTs = some c') :
    c.Moves (.dispatch messageId slackChannelId slackThreadTs) c' := by
  obtain ⟨message,_,hs⟩ := Option.bind_eq_some_iff.mp hs
  split at hs
  · cases hs
    exact .quiet rfl .refl rfl
  · split at hs
    · cases hs
      exact .quiet rfl .refl rfl
    · simp only [schedule] at hs
      split at hs
      · cases hs
        exact .quiet rfl .refl rfl
      · obtain ⟨d,_,rfl⟩ := Option.map_eq_some_iff.mp hs
        exact .quiet rfl (.append (by simp)) rfl

theorem moves_of_step {a : CourierAction ι}
    (hrows : ∀ i x k, c.handlers i = some x → x.stage.row = some k → ∃ r, c.deliveries.committed k = some r ∧ r.key = x.key)
    (hs : c.step a = some c') : c.Moves a c' := by
  cases a with
  | create message =>
    cases hs
    exact .quiet rfl .refl rfl
  | delete messageId =>
    simp only [step] at hs
    split at hs
    · cases hs
      exact .quiet rfl .refl rfl
    · cases hs
  | dispatch messageId slackChannelId slackThreadTs => exact moves_dispatch hs
  | drain a => exact moves_drain hs
  | advance i =>
    obtain ⟨x,hx,hs⟩ := Option.bind_eq_some_iff.mp hs
    exact moves_advance (fun k => hrows i x k hx) hx hs
  | fail i message =>
    obtain ⟨x,hx,hs⟩ := Option.bind_eq_some_iff.mp hs
    exact moves_failed (fun k => hrows i x k hx) hx hs
  | post i accepts answer =>
    obtain ⟨x,hx,hs⟩ := Option.bind_eq_some_iff.mp hs
    exact moves_post (fun k => hrows i x k hx) hx hs

end Moves
end Courier

def Duty.row : Duty → Nat
  | .find k _ => k
  | .record k _ _ => k
  | .announce k _ _ => k

def Duty.isUnrecorded : Duty → Bool
  | .announce _ _ _ => false
  | _ => true

namespace Despatch
variable {ι : Type} [DecidableEq ι]

section Follow
variable {s : Despatch ι} {c : Courier ι} {a : CourierAction ι} {i j : ι}

@[simp] theorem assign_self (s : Despatch ι) (i : ι) (duty : Option Duty) : (s.assign i duty).duties i = duty :=
  Function.update_self ..

theorem assign_other (s : Despatch ι) (duty : Option Duty) (hji : j ≠ i) : (s.assign i duty).duties j = s.duties j :=
  Function.update_of_ne hji ..

private theorem follow_courier : (s.follow c a).courier = c := by
  cases a with
  | advance i =>
    simp only [follow]
    cases s.courier.handlers i with
    | none => rfl
    | some x =>
      simp only [Option.elim, advanced]
      split <;> rfl
  | drain a => cases a <;> rfl
  | _ => rfl

private theorem follow_published : (s.follow c a).published = s.published := by
  cases a with
  | advance i =>
    simp only [follow]
    cases s.courier.handlers i with
    | none => rfl
    | some x =>
      simp only [Option.elim, advanced]
      split <;> rfl
  | drain a => cases a <;> rfl
  | _ => rfl

private theorem follow_insertOnly (h : s.audit.InsertOnly) : (s.follow c a).audit.InsertOnly := by
  cases a with
  | advance i =>
    simp only [follow]
    cases s.courier.handlers i with
    | none => exact h
    | some x =>
      simp only [Option.elim, advanced]
      split
      · exact h
      · exact h.commit i
      · exact h.rollback i
      · exact h
  | drain a =>
    cases a with
    | crash i => exact h.rollback i
    | _ => exact h
  | _ => exact h

private theorem follow_other (hj : a.mover ≠ some j) :
    (s.follow c a).duties j = s.duties j ∧ ∀ n, (s.follow c a).audit.own j n = s.audit.own j n := by
  cases a with
  | advance i =>
    have hji : j ≠ i := fun he => hj (by rw [he]; rfl)
    simp only [follow]
    cases s.courier.handlers i with
    | none => exact ⟨rfl,fun _ => rfl⟩
    | some x =>
      simp only [Option.elim, advanced]
      split
      · exact ⟨rfl,fun _ => rfl⟩
      · exact ⟨rfl,fun n => Table.own_commit_other _ _ _ _ hji⟩
      · exact ⟨rfl,fun n => Table.own_rollback_other _ _ _ _ hji⟩
      · exact ⟨assign_other _ _ hji,fun _ => rfl⟩
  | fail i message => exact ⟨assign_other _ _ fun he => hj (by rw [he]; rfl),fun _ => rfl⟩
  | drain a =>
    cases a with
    | crash i =>
      have hji : j ≠ i := fun he => hj (by rw [he]; rfl)
      exact ⟨assign_other _ _ hji,fun n => Table.own_rollback_other _ _ _ _ hji⟩
    | _ => exact ⟨rfl,fun _ => rfl⟩
  | _ => exact ⟨rfl,fun _ => rfl⟩

end Follow

def Noted (s : Despatch ι) (i : ι) (x : Handling) (k : Nat) : Prop :=
  (∃ duty, s.duties i = some duty ∧ duty.row = k ∧ duty.isUnrecorded = true) ∨
  ∃ n entry, s.audit.own i n = some entry ∧ entry.targetId = k ∧ (entry.messageId, entry.target) = x.key

/-- Where the handler of `i` stands with the row it has or has given up. -/
structure Pursues (s : Despatch ι) (i : ι) : Prop where
  row : ∀ x k, s.courier.handlers i = some x → x.stage.row = some k → ∃ r, s.courier.deliveries.committed k = some r ∧ r.key = x.key
  own : ∀ k v, s.courier.deliveries.own i k = some v → ∃ x, s.courier.handlers i = some x ∧ x.stage.isOver = true ∧
    (x.stage = .returning → s.Noted i x k) ∧ v.key = x.key ∧ ∃ r, s.courier.deliveries.committed k = some r ∧ r.key = x.key
  duty : ∀ duty, s.duties i = some duty → ∃ x v, s.courier.handlers i = some x ∧ x.stage = .returning ∧
    s.courier.deliveries.own i duty.row = some v

structure Pursued (s : Despatch ι) : Prop where
  audit : s.audit.InsertOnly
  each : ∀ i, s.Pursues i

theorem pursued_initial : (initial : Despatch ι).Pursued where
  audit k p h := by cases h
  each i := ⟨fun x k h => (by cases h),fun k v h => (by cases h),fun duty h => (by cases h)⟩

structure Spares (s s' : Despatch ι) (j : ι) : Prop where
  handlers : s'.courier.handlers j = s.courier.handlers j
  own : ∀ k, s'.courier.deliveries.own j k = s.courier.deliveries.own j k
  duties : s'.duties j = s.duties j
  audit : ∀ n, s'.audit.own j n = s.audit.own j n
  rows : ∀ k r, s.courier.deliveries.committed k = some r →
    ∃ r', s'.courier.deliveries.committed k = some r' ∧ r'.key = r.key ∧ (s.courier.deliveries.own j k ≠ none → r' = r)

theorem Pursues.spared {s s' : Despatch ι} {j : ι} (h : s.Pursues j) (g : Spares s s' j) : s'.Pursues j where
  row x k hx hk := by
    obtain ⟨r,hr,hkey⟩ := h.row x k (g.handlers.symm.trans hx) hk
    obtain ⟨r',hr',he,_⟩ := g.rows k r hr
    exact ⟨r',hr',he.trans hkey⟩
  own k v hv := by
    obtain ⟨x,hx,hover,hnoted,hkey,r,hr,hrkey⟩ := h.own k v ((g.own k).symm.trans hv)
    obtain ⟨r',hr',he,_⟩ := g.rows k r hr
    refine ⟨x,g.handlers.trans hx,hover,fun hstage => ?_,hkey,r',hr',he.trans hrkey⟩
    refine (hnoted hstage).imp (fun ⟨duty,hd,hrest⟩ => ⟨duty,g.duties.trans hd,hrest⟩) fun ⟨n,entry,hn,hrest⟩ => ?_
    exact ⟨n,entry,(g.audit n).trans hn,hrest⟩
  duty duty hd := by
    obtain ⟨x,v,hx,hstage,hv⟩ := h.duty duty (g.duties.symm.trans hd)
    exact ⟨x,v,g.handlers.trans hx,hstage,(g.own _).trans hv⟩

section Courier
variable {s : Despatch ι} {c : Courier ι} {a : CourierAction ι} {i j : ι}

private theorem locked_of_own {t : Table ι OutboundDelivery} {k : Nat} (h : t.own j k ≠ none) : t.pending k ≠ none := by
  obtain ⟨v,hv⟩ := Option.ne_none_iff_exists'.mp h
  rw [(Table.own_eq_some_iff _ _ _).mp hv]
  simp

/-- A step of the drainers and handlers leaves alone whom it is not about. -/
private theorem spares_of_moves (h : s.Pursued) (hm : s.courier.Moves a c) (hj : a.mover ≠ some j) : Spares s (s.follow c a) j := by
  obtain ⟨hduties,haudit⟩ := follow_other (s := s) (c := c) hj
  have hne : ∀ {i}, a.mover = some i → j ≠ i := fun hi he => hj (he ▸ hi)
  have hkept : Keeps s.courier.deliveries c.deliveries → c.handlers j = s.courier.handlers j → Spares s (s.follow c a) j := by
    intro hk hh
    refine ⟨by rw [follow_courier, hh],fun k => by rw [follow_courier, hk.own],hduties,haudit,fun k r hr => ?_⟩
    obtain ⟨r',hr',hkey,hlocked⟩ := hk.rows k r hr
    rw [follow_courier]
    exact ⟨r',hr',hkey,fun hown => hlocked (locked_of_own hown)⟩
  cases hm with
  | quiet still keeps handlers => exact hkept keeps (by rw [handlers])
  | begins idle deliveries fresh handlers =>
    exact hkept (deliveries ▸ .refl) (by rw [handlers, Function.update_of_ne (hne rfl)])
  | goes mover hx acts keeps row ended handlers =>
    exact hkept keeps (by rw [handlers, Function.update_of_ne (hne mover)])
  | abandons hx gives row hkey free deliveries handlers =>
    refine ⟨?_,fun k => ?_,hduties,haudit,fun k r hr => ?_⟩
    · rw [follow_courier, handlers, Function.update_of_ne (hne rfl)]
    · rw [follow_courier, deliveries, Table.own_write_other _ _ _ _ (hne rfl) free]
    · rw [follow_courier, deliveries]
      exact ⟨r,hr,rfl,fun _ => rfl⟩
  | @returns i x _ hx stage deliveries handlers =>
    have hji : j ≠ i := hne rfl
    refine ⟨?_,fun k => ?_,hduties,haudit,fun k r hr => ?_⟩
    · rw [follow_courier, handlers, Function.update_of_ne hji]
    · rw [follow_courier, deliveries, Table.own_commit_other _ _ _ _ hji]
    · rw [follow_courier, deliveries, Table.commit_committed]
      cases hown : s.courier.deliveries.own i k with
      | none => exact ⟨r,(Table.visible_of_no_own _ _ _ hown).trans hr,rfl,fun _ => rfl⟩
      | some v =>
        obtain ⟨y,hy,_,_,hkey,r',hr',hrkey⟩ := (h.each i).own k v hown
        cases hr.symm.trans hr'
        exact ⟨v,Table.visible_of_own _ _ _ hown,hkey.trans hrkey.symm,
          fun hj => absurd (Table.own_exclusive _ _ _ _ hown hji) hj⟩
  | throws hx stage deliveries handlers =>
    refine ⟨?_,fun k => ?_,hduties,haudit,fun k r hr => ?_⟩
    · rw [follow_courier, handlers, Function.update_of_ne (hne rfl)]
    · rw [follow_courier, deliveries, Table.own_rollback_other _ _ _ _ (hne rfl)]
    · rw [follow_courier, deliveries]
      exact ⟨r,hr,rfl,fun _ => rfl⟩
  | crashes deliveries handlers =>
    refine ⟨?_,fun k => ?_,hduties,haudit,fun k r hr => ?_⟩
    · rw [follow_courier, handlers, Function.update_of_ne (hne rfl)]
    · rw [follow_courier, deliveries, Table.own_rollback_other _ _ _ _ (hne rfl)]
    · rw [follow_courier, deliveries]
      exact ⟨r,hr,rfl,fun _ => rfl⟩

private theorem pursues_idle {s : Despatch ι} (hh : ∀ x, s.courier.handlers i = some x → x.stage = .claiming)
    (hown : ∀ k, s.courier.deliveries.own i k = none) (hduty : s.duties i = none) : s.Pursues i where
  row x k hx hk := by
    rw [hh x hx] at hk
    cases hk
  own k v hv := by
    rw [hown] at hv
    cases hv
  duty duty hd := by
    rw [hduty] at hd
    cases hd

/-- A handler that has not come to its end has written nothing. -/
theorem Pursues.unwritten {x : Handling} (h : s.Pursues i) (hx : s.courier.handlers i = some x) (hover : x.stage.isOver = false) (k : Nat) :
    s.courier.deliveries.own i k = none := by
  cases hown : s.courier.deliveries.own i k with
  | none => rfl
  | some v =>
    obtain ⟨y,hy,hyover,_⟩ := h.own k v hown
    cases hx.symm.trans hy
    rw [hover] at hyover
    cases hyover

theorem Pursues.dutiless {x : Handling} (h : s.Pursues i) (hx : s.courier.handlers i = some x) (hover : x.stage.isOver = false) :
    s.duties i = none := by
  cases hduty : s.duties i with
  | none => rfl
  | some duty =>
    obtain ⟨y,v,hy,hstage,_⟩ := h.duty duty hduty
    cases hx.symm.trans hy
    rw [hstage] at hover
    cases hover

theorem Pursues.idle (h : s.Pursues i) (hx : s.courier.handlers i = none) :
    (∀ k, s.courier.deliveries.own i k = none) ∧ s.duties i = none := by
  refine ⟨fun k => ?_,?_⟩
  · cases hown : s.courier.deliveries.own i k with
    | none => rfl
    | some v =>
      obtain ⟨y,hy,_⟩ := h.own k v hown
      cases hx.symm.trans hy
  · cases hduty : s.duties i with
    | none => rfl
    | some duty =>
      obtain ⟨y,v,hy,_⟩ := h.duty duty hduty
      cases hx.symm.trans hy

private theorem duties_acts {x : Handling} (h : s.Pursues i) (hallows : s.allows a = true) (hx : s.courier.handlers i = some x)
    (hacts : x.Acts i a) : (s.follow c a).duties i = none := by
  cases hacts with
  | advance gives _ =>
    have hnone : s.duties i = none := Option.isNone_iff_eq_none.mp hallows
    simp only [follow, hx, Option.elim, advanced]
    split
    · exact hnone
    · exact hnone
    · exact hnone
    · simp [gives]
  | fail message => exact assign_self ..
  | post accepts answer hover => exact h.dutiless hx hover

private theorem duties_over {x : Handling} (hallows : s.allows (.advance i) = true) (hx : s.courier.handlers i = some x)
    (hover : x.stage.isOver = true) : (s.follow c (.advance i)).duties i = none := by
  have hnone : s.duties i = none := Option.isNone_iff_eq_none.mp hallows
  cases hstage : x.stage with
  | returning => simp only [follow, hx, Option.elim, advanced, hstage, hnone]
  | thrown message => simp only [follow, hx, Option.elim, advanced, hstage, hnone]
  | _ =>
    rw [hstage] at hover
    cases hover

private theorem duties_abandons {x : Handling} {k : Nat} {error : String} (hx : s.courier.handlers i = some x)
    (hgives : x.givesUp = some (k, error)) : (s.follow c (.advance i)).duties i = some (.find k error) := by
  simp only [follow, hx, Option.elim, advanced]
  split
  · rename_i hstage
    simp [Handling.givesUp, hstage] at hgives
  · rename_i hstage
    simp [Handling.givesUp, hstage] at hgives
  · rename_i hstage
    simp [Handling.givesUp, hstage] at hgives
  · simp [hgives]

private theorem pursues_mover (h : s.Pursued) (hallows : s.allows a = true) (hm : s.courier.Moves a c) (hi : a.mover = some i) :
    (s.follow c a).Pursues i := by
  cases hm with
  | quiet still keeps handlers =>
    rw [still] at hi
    cases hi
  | begins idle deliveries fresh handlers =>
    cases hi
    obtain ⟨hown,hduty⟩ := (h.each i).idle idle
    refine pursues_idle (fun x hx => ?_) (fun k => ?_) hduty
    · rw [follow_courier, handlers, Function.update_self] at hx
      exact fresh x hx
    · rw [follow_courier, deliveries, hown]
  | @goes _ i' x stage _ mover hx acts keeps row ended handlers =>
    cases mover.symm.trans hi
    have hduty := duties_acts (c := c) (h.each i) hallows hx acts
    refine ⟨fun y k hy hk => ?_,fun k v hv => ?_,fun duty hd => ?_⟩
    · rw [follow_courier, handlers, Function.update_self] at hy
      cases hy
      rw [follow_courier]
      exact row k hk
    · rw [follow_courier, keeps.own] at hv
      obtain ⟨y,hy,hover,_,hkey,r,hr,hrkey⟩ := (h.each i).own k v hv
      cases hx.symm.trans hy
      obtain ⟨message,rfl⟩ := ended hover
      obtain ⟨r',hr',he,_⟩ := keeps.rows k r hr
      rw [follow_courier, handlers, Function.update_self]
      exact ⟨_,rfl,rfl,fun hstage => (by cases hstage),hkey,r',hr',he.trans hrkey⟩
    · rw [hduty] at hd
      cases hd
  | @abandons _ x k error r _ hx gives row hkey free deliveries handlers =>
    cases hi
    have hover := Handling.not_over_of_givesUp gives
    have hduty := duties_abandons (c := c) hx gives
    have hself : c.deliveries.own i k = some (r.settled .dead error) := by
      rw [deliveries]
      refine Table.own_write_picked _ _ _ (List.mem_singleton.mpr rfl) ?_ rfl
      rw [Table.visible_of_no_own _ _ _ ((h.each i).unwritten hx hover k), row]
    refine ⟨fun y k' hy hk' => ?_,fun k' v hv => ?_,fun duty hd => ?_⟩
    · rw [follow_courier, handlers, Function.update_self] at hy
      cases hy
      cases hk'
    · rw [follow_courier, deliveries] at hv
      rcases Table.own_write_cases _ _ _ hv with ⟨s',hk',hvis,_,rfl⟩ | hold
      · cases List.mem_singleton.mp hk'
        rw [Table.visible_of_no_own _ _ _ ((h.each i).unwritten hx hover k), row] at hvis
        cases hvis
        rw [follow_courier, handlers, Function.update_self, deliveries]
        exact ⟨_,rfl,rfl,fun _ => .inl ⟨_,hduty,rfl,rfl⟩,hkey,r,row,hkey⟩
      · rw [(h.each i).unwritten hx hover k'] at hold
        cases hold
    · cases hduty.symm.trans hd
      rw [follow_courier, handlers, Function.update_self]
      exact ⟨_,_,rfl,rfl,hself⟩
  | returns hx stage deliveries handlers =>
    cases hi
    refine pursues_idle (fun x hx => ?_) (fun k => ?_) ?_
    · rw [follow_courier, handlers, Function.update_self] at hx
      cases hx
    · rw [follow_courier, deliveries, Table.own_commit_self]
    · exact duties_over hallows hx (by rw [stage]; rfl)
  | throws hx stage deliveries handlers =>
    cases hi
    refine pursues_idle (fun x hx => ?_) (fun k => ?_) ?_
    · rw [follow_courier, handlers, Function.update_self] at hx
      cases hx
    · rw [follow_courier, deliveries, Table.own_rollback_self]
    · exact duties_over hallows hx (by rw [stage]; rfl)
  | crashes deliveries handlers =>
    cases hi
    refine pursues_idle (fun x hx => ?_) (fun k => ?_) ?_
    · rw [follow_courier, handlers, Function.update_self] at hx
      cases hx
    · rw [follow_courier, deliveries, Table.own_rollback_self]
    · exact assign_self ..

end Courier

section Perform
variable {s : Despatch ι} {i j : ι} {x : Handling} {duty : Duty}

private theorem perform_courier : (s.perform i x duty).courier = s.courier := by cases duty <;> rfl

private theorem spares_perform (hji : j ≠ i) : Spares s (s.perform i x duty) j := by
  refine ⟨by rw [perform_courier],fun k => by rw [perform_courier],?_,fun n => ?_,fun k r hr => ?_⟩
  · cases duty <;> exact assign_other _ _ hji
  · cases duty with
    | record k error ticketId => exact Table.own_insert_other _ _ _ _ hji
    | _ => rfl
  · rw [perform_courier]
    exact ⟨r,hr,rfl,fun _ => rfl⟩

/-- The giving up stays noted from the settled row to the audit entry. -/
private theorem noted_perform {k : Nat} (hd : s.duties i = some duty) (h : s.Noted i x k) : (s.perform i x duty).Noted i x k := by
  rcases h with ⟨duty',hd',hrow,hun⟩ | ⟨n,entry,hn,hrest⟩
  · cases hd.symm.trans hd'
    cases duty with
    | find k' error => exact .inl ⟨_,assign_self ..,hrow,rfl⟩
    | record k' error ticketId => exact .inr ⟨_,_,Table.own_insert_self _ _ _,hrow,rfl⟩
    | announce k' error ticketId => cases hun
  · refine .inr ⟨n,entry,?_,hrest⟩
    cases duty with
    | record k' error ticketId => exact Table.own_insert_of_own _ _ _ _ hn
    | _ => exact hn

private theorem row_perform {duty' : Duty} (h : (s.perform i x duty).duties i = some duty') : duty'.row = duty.row := by
  cases duty with
  | find k error =>
    cases (assign_self ..).symm.trans h
    rfl
  | record k error ticketId =>
    obtain ⟨t,_,rfl⟩ := Option.map_eq_some_iff.mp ((assign_self ..).symm.trans h)
    rfl
  | announce k error ticketId => cases (assign_self ..).symm.trans h

private theorem pursues_perform (h : s.Pursues i) (hx : s.courier.handlers i = some x) (hd : s.duties i = some duty) :
    (s.perform i x duty).Pursues i := by
  refine ⟨?_,fun k v hv => ?_,fun duty' hd' => ?_⟩
  · rw [perform_courier]
    exact h.row
  · rw [perform_courier] at hv ⊢
    obtain ⟨y,hy,hover,hnoted,hrest⟩ := h.own k v hv
    cases hx.symm.trans hy
    exact ⟨x,hx,hover,fun hstage => noted_perform hd (hnoted hstage),hrest⟩
  · rw [perform_courier, row_perform hd']
    exact h.duty duty hd

end Perform

end Despatch

def DespatchAction.underlying {ι : Type} : DespatchAction ι → Option (CourierAction ι)
  | .create message _ => some (.create message)
  | .courier a => some a
  | .perform _ => none

namespace Despatch
variable {ι : Type} [DecidableEq ι] {s s' : Despatch ι} {a : DespatchAction ι} {i : ι}

/-- The three kinds of steps. -/
theorem step_cases (hs : s.step a = some s') :
    (∃ message ticketId c, a = .create message ticketId ∧ s.courier.step (.create message) = some c ∧
      s' = { s with courier := c, tickets := s.tickets ++ [ticketId] }) ∨
    (∃ b c, a = .courier b ∧ s.allows b = true ∧ s.courier.step b = some c ∧ s' = s.follow c b) ∨
    ∃ i x duty, a = .perform i ∧ s.courier.handlers i = some x ∧ s.duties i = some duty ∧ s' = s.perform i x duty := by
  cases a with
  | create message ticketId =>
    simp only [step] at hs
    obtain ⟨c,hc,rfl⟩ := Option.map_eq_some_iff.mp hs
    exact .inl ⟨message,ticketId,c,rfl,hc,rfl⟩
  | courier b =>
    simp only [step] at hs
    split at hs
    · rename_i hallows
      obtain ⟨c,hc,rfl⟩ := Option.map_eq_some_iff.mp hs
      exact .inr (.inl ⟨b,c,rfl,hallows,hc,rfl⟩)
    · cases hs
  | perform i =>
    obtain ⟨x,hx,hs⟩ := Option.bind_eq_some_iff.mp hs
    obtain ⟨duty,hd,rfl⟩ := Option.map_eq_some_iff.mp hs
    exact .inr (.inr ⟨i,x,duty,rfl,hx,hd,rfl⟩)

theorem Pursued.step (h : s.Pursued) (hs : s.step a = some s') : s'.Pursued := by
  obtain ⟨message,ticketId,c,rfl,hc,rfl⟩ | ⟨b,c,rfl,hallows,hc,rfl⟩ | ⟨i,x,duty,rfl,hx,hd,rfl⟩ := step_cases hs
  · cases hc
    exact ⟨h.audit,fun i => (h.each i).spared ⟨rfl,fun _ => rfl,rfl,fun _ => rfl,fun k r hr => ⟨r,hr,rfl,fun _ => rfl⟩⟩⟩
  · have hm := Courier.moves_of_step (fun i => (h.each i).row) hc
    refine ⟨follow_insertOnly h.audit,fun i => ?_⟩
    by_cases hi : b.mover = some i
    · exact pursues_mover h hallows hm hi
    · exact (h.each i).spared (spares_of_moves h hm hi)
  · refine ⟨?_,fun j => ?_⟩
    · cases duty with
      | record k error ticketId => exact h.audit.insert i _
      | _ => exact h.audit
    · by_cases hji : j = i
      · subst hji
        exact pursues_perform (h.each j) hx hd
      · exact (h.each j).spared (spares_perform hji)

theorem pursued_of_run {ok : Despatch ι → DespatchAction ι → Prop} {acts : List (DespatchAction ι)} (hr : Run step ok initial acts s) :
    s.Pursued := hr.invariant pursued_initial fun _ _ _ h _ hs => h.step hs

/-- A delivery comes to be `dead` together with the audit entry about it. -/
def Records (s s' : Despatch ι) : Prop :=
  ∀ k r, s'.courier.deliveries.committed k = some r → r.status = .dead →
    (∀ r₀, s.courier.deliveries.committed k = some r₀ → r₀.status ≠ .dead) →
    ∃ n entry, s.audit.committed n = none ∧ s'.audit.committed n = some entry ∧ entry.targetId = k ∧
      (entry.messageId, entry.target) = r.key

theorem Pursued.records (h : s.Pursued) (hs : s.step a = some s') : Records s s' := by
  intro k r hr hdead hnot
  have hsame : ∀ {t : Table ι OutboundDelivery}, Keeps s.courier.deliveries t → t.committed k = some r → False := by
    intro t hk ht
    obtain ⟨r₀,hr₀,hdead₀⟩ := hk.dead k r ht hdead
    exact hnot r₀ hr₀ hdead₀
  obtain ⟨message,ticketId,c,rfl,hc,rfl⟩ | ⟨b,c,rfl,hallows,hc,rfl⟩ | ⟨i,x,duty,rfl,_,_,rfl⟩ := step_cases hs
  · cases hc
    exact (hsame .refl hr).elim
  · rw [follow_courier] at hr
    cases Courier.moves_of_step (fun i => (h.each i).row) hc with
    | quiet still keeps handlers => exact (hsame keeps hr).elim
    | begins idle deliveries fresh handlers => exact (hsame .refl (deliveries ▸ hr)).elim
    | goes mover hx acts keeps row ended handlers => exact (hsame keeps hr).elim
    | abandons hx gives row hkey free deliveries handlers =>
      rw [deliveries] at hr
      exact (hsame .refl hr).elim
    | @returns i x _ hx stage deliveries handlers =>
      rw [deliveries, Table.commit_committed] at hr
      rcases Table.visible_cases _ _ _ hr with hown | ⟨_,hr⟩
      · obtain ⟨y,hy,_,hnoted,hkey,_⟩ := (h.each i).own k r hown
        cases hx.symm.trans hy
        have hnone : s.duties i = none := Option.isNone_iff_eq_none.mp hallows
        rcases hnoted stage with ⟨duty,hd,_⟩ | ⟨n,entry,hn,htarget,hentry⟩
        · cases hnone.symm.trans hd
        · refine ⟨n,entry,h.audit n _ ((Table.own_eq_some_iff _ _ _).mp hn),?_,htarget,hentry.trans hkey.symm⟩
          simp only [follow, hx, Option.elim, advanced, stage, Table.commit_committed]
          exact Table.visible_of_own _ _ _ hn
      · exact (hsame .refl hr).elim
    | throws hx stage deliveries handlers =>
      rw [deliveries] at hr
      exact (hsame .refl hr).elim
    | crashes deliveries handlers =>
      rw [deliveries] at hr
      exact (hsame .refl hr).elim
  · rw [perform_courier] at hr
    exact (hsame .refl hr).elim

/-- What a step publishes is about deliveries whose committed row is `dead` already. -/
def Announces (s s' : Despatch ι) : Prop :=
  ∃ events, s'.published = s.published ++ events ∧ ∀ event ∈ events,
    ∃ k r, s.courier.deliveries.committed k = some r ∧ r.key = (event.messageId, event.target) ∧ r.status = .dead

/-- The handler of `i` does not give up, unless on a delivery that is `dead` already. -/
def leavesDead (s : Despatch ι) (i : ι) : DespatchAction ι → Bool
  | .courier (.advance j) => j ≠ i || (s.courier.handlers j).all fun x => x.givesUp.all fun (k, _) =>
      (s.courier.deliveries.committed k).all (·.status = .dead)
  | _ => true

def Late (s : Despatch ι) (i : ι) : Prop :=
  ∀ duty x, s.duties i = some duty → s.courier.handlers i = some x →
    ∃ r, s.courier.deliveries.committed duty.row = some r ∧ r.key = x.key ∧ r.status = .dead

private theorem Late.spared (h : s.Pursued) (hl : s.Late i) (g : Spares s s' i) : s'.Late i := by
  intro duty x hd hx
  have hd := g.duties.symm.trans hd
  obtain ⟨r,hr,hkey,hdead⟩ := hl duty x hd (g.handlers.symm.trans hx)
  obtain ⟨_,v,_,_,hown⟩ := (h.each i).duty duty hd
  obtain ⟨r',hr',_,hlocked⟩ := g.rows _ r hr
  cases hlocked (by rw [hown]; simp)
  exact ⟨r,hr',hkey,hdead⟩

/-- The handler's own step: only `abandon` gives it something to do, and then on a delivery that is dead. -/
private theorem Late.moved {b : CourierAction ι} {c : Courier ι} (h : s.Pursued) (hallows : s.allows b = true)
    (hm : s.courier.Moves b c) (hj : b.mover = some i) (ha : s.leavesDead i (.courier b) = true) : (s.follow c b).Late i := by
  intro duty x hd hx
  have hnot : (s.follow c b).duties i = none → False := fun hnone => by cases hnone.symm.trans hd
  cases hm with
  | quiet still keeps handlers => cases still.symm.trans hj
  | begins idle deliveries fresh handlers =>
    cases hj
    exact (hnot ((h.each i).idle idle).2).elim
  | goes mover hy acts keeps row ended handlers =>
    cases mover.symm.trans hj
    exact (hnot (duties_acts (h.each i) hallows hy acts)).elim
  | abandons hy gives row hkey free deliveries handlers =>
    cases hj
    cases (duties_abandons hy gives).symm.trans hd
    rw [follow_courier, handlers, Function.update_self] at hx
    cases hx
    rw [follow_courier, deliveries]
    refine ⟨_,row,hkey,?_⟩
    simp only [leavesDead, hy, gives, Option.all_some, row, ne_eq, not_true_eq_false, decide_false, Bool.false_or] at ha
    exact of_decide_eq_true ha
  | returns hy stage deliveries handlers =>
    cases hj
    exact (hnot (duties_over hallows hy (by rw [stage]; rfl))).elim
  | throws hy stage deliveries handlers =>
    cases hj
    exact (hnot (duties_over hallows hy (by rw [stage]; rfl))).elim
  | crashes deliveries handlers =>
    cases hj
    exact (hnot (assign_self ..)).elim

private theorem Late.step (h : s.Pursued) (hl : s.Late i) (ha : s.leavesDead i a = true) (hs : s.step a = some s') : s'.Late i := by
  obtain ⟨message,ticketId,c,rfl,hc,rfl⟩ | ⟨b,c,rfl,hallows,hc,rfl⟩ | ⟨j,y,duty₀,rfl,hy,hd₀,rfl⟩ := step_cases hs
  · cases hc
    exact hl
  · have hm := Courier.moves_of_step (fun i => (h.each i).row) hc
    by_cases hj : b.mover = some i
    · exact Late.moved h hallows hm hj ha
    · exact hl.spared h (spares_of_moves h hm hj)
  · by_cases hji : i = j
    · subst hji
      intro duty x hd hx
      rw [perform_courier] at hx ⊢
      rw [row_perform hd]
      exact hl duty₀ x hd₀ hx
    · exact hl.spared h (spares_perform hji)

/-- Only the last duty of a handler publishes. -/
theorem Late.announces (hl : ∀ i, a = .perform i → s.Late i) (hs : s.step a = some s') : Announces s s' := by
  have hnothing : s'.published = s.published → Announces s s' := fun he => ⟨[],by rw [he, List.append_nil],fun _ h => by cases h⟩
  obtain ⟨message,ticketId,c,rfl,hc,rfl⟩ | ⟨b,c,rfl,hallows,hc,rfl⟩ | ⟨i,x,duty,rfl,hx,hd,rfl⟩ := step_cases hs
  · exact hnothing rfl
  · exact hnothing follow_published
  · cases duty with
    | find k error => exact hnothing rfl
    | record k error ticketId => exact hnothing rfl
    | announce k error ticketId =>
      obtain ⟨r,hr,hkey,hdead⟩ := hl i rfl _ x hd hx
      refine ⟨_,rfl,fun event hevent => ?_⟩
      cases List.mem_singleton.mp hevent
      exact ⟨k,r,hr,hkey,hdead⟩

/-- Nothing but the post and its record fails on the last attempt at a delivery that is still owed, and no retry
puts back a delivery that is dead. -/
def seesThrough (s : Despatch ι) (a : DespatchAction ι) : Bool :=
  a.underlying.all fun b => s.courier.lastsOut b && s.courier.sparesDead b

private theorem agreed_step (h : s.courier.Agreed) (ha : s.seesThrough a = true) (hs : s.step a = some s') : s'.courier.Agreed := by
  obtain ⟨message,ticketId,c,rfl,hc,rfl⟩ | ⟨b,c,rfl,hallows,hc,rfl⟩ | ⟨i,x,duty,rfl,_,_,rfl⟩ := step_cases hs
  · exact h.step rfl rfl hc
  · obtain ⟨hlasts,hspares⟩ := Bool.and_eq_true_iff.mp ha
    rw [follow_courier]
    exact h.step hlasts hspares hc
  · rw [perform_courier]
    exact h

/-- The job and the delivery agree about giving up in every run in which the handler has its say on the last
attempt and no retry takes back what is dead; in every run a delivery dies with its audit entry; and what a handler
publishes follows the commit as long as it gives up only on what is dead already. -/
theorem agrees_of_run :
    (∀ (acts : List (DespatchAction ι)) (s : Despatch ι), Run step (fun s a => s.seesThrough a = true) initial acts s →
      s.courier.JobsAgree) ∧
    (∀ (acts : List (DespatchAction ι)) (s s' : Despatch ι) (a : DespatchAction ι), Run step Always initial acts s →
      s.step a = some s' → Records s s') ∧
    (∀ (acts : List (DespatchAction ι)) (s s' : Despatch ι) (a : DespatchAction ι), Run step Always initial acts s →
      (∀ i, a = .perform i → Run step (fun s a => s.leavesDead i a = true) initial acts s) → s.step a = some s' →
      Announces s s') := by
  refine ⟨fun acts s hr => ?_,fun acts s s' a hr hs => (pursued_of_run hr).records hs,fun acts s s' a _ hr hs => ?_⟩
  · have hagreed := hr.invariant Courier.agreed_initial fun _ _ _ h ha hs => agreed_step h ha hs
    exact Courier.Agreed.jobsAgree hagreed
  · refine Late.announces (fun i hi => ?_) hs
    have hlate := (hr i hi).invariant (I := fun s => s.Pursued ∧ s.Late i) ⟨pursued_initial,fun duty x hd => (by cases hd)⟩
      fun _ _ _ h ha hs => ⟨h.1.step hs,h.2.step h.1 ha hs⟩
    exact hlate.2

def replyDespatched : List (DespatchAction Bool) :=
  [.create ⟨7, .user, "Done, please retry."⟩ 3, .courier (.dispatch 0 (some "C1") (some "17.5")),
   .courier (.drain (.claim false (.finite 20) [0])), .courier (.drain (.commit false))]

def refusedForGood : List (DespatchAction Bool) := replyDespatched ++
  [DespatchAction.courier (.drain (.start false)), .courier (.advance false), .courier (.advance false),
   .courier (.post false false (.refused (some "channel_not_found"))), .courier (.advance false), .perform false, .perform false]

def givenUp : List (DespatchAction Bool) := refusedForGood ++
  [DespatchAction.perform false, .courier (.advance false), .courier (.drain (.settle false 0))]

/-- The job outlives its lease, a second handler claims the delivery, and the first gives up; the second is refused too. -/
def overlapped : List (DespatchAction Bool) := replyDespatched ++
  [DespatchAction.courier (.drain (.start false)), .courier (.advance false), .courier (.advance false),
   .courier (.drain (.elapse 300001)), .courier (.drain (.claim true (.finite 20) [0])), .courier (.drain (.commit true)),
   .courier (.drain (.start true)), .courier (.advance true), .courier (.advance true),
   .courier (.post false false (.refused (some "channel_not_found"))), .courier (.advance false), .perform false, .perform false,
   .perform false, .courier (.advance false),
   .courier (.post true false (.refused (some "channel_not_found"))), .courier (.advance true), .perform true, .perform true]

/-- The job of the delivery that was given up is done, its row dead and on record; and what the second of two handlers
publishes is about a row that is dead. -/
theorem agrees_of_givenUp : ∃ s : Despatch Bool, Run step (fun s a => s.seesThrough a = true) initial givenUp s ∧
    s.courier.JobsAgree ∧ (s.courier.drainage.queue.table.committed 0).map (·.status) = some .done ∧
    (s.courier.deliveries.committed 0).map (·.status) = some .dead ∧ (s.audit.committed 0).map (·.targetId) = some 0 ∧
    ∃ t t' : Despatch Bool, Run step (fun s a => s.leavesDead true a = true) initial overlapped t ∧
      t.step (.perform true) = some t' ∧ t'.published.length = t.published.length + 1 ∧ Announces t t' ∧ Records t t' := by
  have hexec : (exec step (fun s a => s.seesThrough a = true) initial givenUp).any fun s =>
      (s.courier.drainage.queue.table.committed 0).map (·.status) = some .done ∧
      (s.courier.deliveries.committed 0).map (·.status) = some .dead ∧ (s.audit.committed 0).map (·.targetId) = some 0 := by
    decide +kernel
  have hexec' : (exec step (fun s a => s.leavesDead true a = true) initial overlapped).any fun t =>
      (t.step (.perform true)).map (fun t' => t'.published.length) = some (t.published.length + 1) := by decide +kernel
  obtain ⟨s,hr,hend⟩ := exec_any hexec
  obtain ⟨t,hr',hend'⟩ := exec_any hexec'
  obtain ⟨t',ht',hlength⟩ := Option.map_eq_some_iff.mp (of_decide_eq_true hend')
  obtain ⟨hjob,hrow,haudit⟩ := of_decide_eq_true hend
  have halways : Run step Always initial overlapped t := hr'.mono fun _ _ _ => trivial
  refine ⟨s,hr,agrees_of_run.1 _ s hr,hjob,hrow,haudit,t,t',hr',ht',hlength,?_,agrees_of_run.2.1 _ t t' _ halways ht'⟩
  refine agrees_of_run.2.2 _ t t' _ halways (fun i hi => ?_) ht'
  cases hi
  exact hr'

def claimFails (now : Int) : List (DespatchAction Bool) :=
  [.courier (.drain (.start false)), .courier (.fail false "timeout"), .courier (.advance false),
   .courier (.drain (.settle false 0)), .courier (.drain (.elapse now)),
   .courier (.drain (.claim false (.finite 20) [0])), .courier (.drain (.commit false))]

def claimAlwaysFails : List (DespatchAction Bool) := replyDespatched ++ claimFails 1000000 ++ claimFails 2000000 ++
  claimFails 3000000 ++ claimFails 4000000 ++
  [DespatchAction.courier (.drain (.start false)), .courier (.fail false "timeout"), .courier (.advance false), .courier (.drain (.settle false 0))]

private theorem pending_of_size {t : Table Bool OutboundDelivery} (hsize : t.size = 1)
    (hrow : (t.committed 0).map (·.status) = some .pending) {k : Nat} {r : OutboundDelivery} (hr : t.committed k = some r) :
    r.status = .pending := by
  have hk : k = 0 := by
    have := t.lt_size_of_committed k hr
    omega
  subst hk
  rw [hr] at hrow
  exact Option.some.inj hrow

/-- The agents are told of a giving up that is not committed, and the job of a delivery that is still pending
is given up. -/
theorem givingUp_disagrees : (∃ s s' : Despatch Bool, Run step Always initial refusedForGood s ∧
      s.step (.perform false) = some s' ∧ ¬ Announces s s') ∧
    ∃ s : Despatch Bool, Run step Always initial claimAlwaysFails s ∧ ¬ s.courier.JobsAgree := by
  have hrefused : (exec step Always initial refusedForGood).any fun s =>
      s.courier.deliveries.size = 1 ∧ (s.courier.deliveries.committed 0).map (·.status) = some .pending ∧
      (s.step (.perform false)).map (fun s' => s'.published.length) = some (s.published.length + 1) := by decide +kernel
  have hfails : (exec step Always initial claimAlwaysFails).any fun s =>
      s.courier.deliveries.size = 1 ∧ (s.courier.deliveries.committed 0).map (·.status) = some .pending ∧
      s.courier.alive 0 = true ∧ (s.courier.drainage.queue.table.committed 0).map (fun job => (job.kind, job.payload, job.status)) =
        some (outboundDeliveryJob, .delivery 0 "C1/17.5", .dead) := by decide +kernel
  obtain ⟨s,hr,hend⟩ := exec_any hrefused
  obtain ⟨t,hr',hend'⟩ := exec_any hfails
  obtain ⟨hsize,hrow,hstep⟩ := of_decide_eq_true hend
  obtain ⟨hsize',hrow',halive,hjob⟩ := of_decide_eq_true hend'
  obtain ⟨s',hs',hlength⟩ := Option.map_eq_some_iff.mp hstep
  obtain ⟨job,hjob,hfacts⟩ := Option.map_eq_some_iff.mp hjob
  obtain ⟨hkind,hpayload,hstatus⟩ := Prod.mk.inj hfacts |>.imp_right Prod.mk.inj
  refine ⟨⟨s,s',hr,hs',?_⟩,⟨t,hr',?_⟩⟩
  · rintro ⟨events,hevents,hall⟩
    cases events with
    | nil =>
      rw [hevents] at hlength
      simp at hlength
    | cons event events =>
      obtain ⟨k,r,hrk,_,hdead⟩ := hall event (List.mem_cons_self ..)
      cases hdead.symm.trans (pending_of_size hsize hrow hrk)
  · intro hagree
    obtain ⟨n,r,hrn,_,hset⟩ := hagree 0 job 0 "C1/17.5" hjob hkind hpayload (.inr hstatus) halive
    have hpending := pending_of_size hsize' hrow' hrn
    rw [hpending] at hset
    rcases hset with h | h <;> cases h

end Despatch
end Nivara.Slack
