import Mathlib.Data.List.Nodup
import Nivara.Auth.Invitation
import Nivara.Transactions.Run

/-! The books of the doors: the tables against the log of committed writes, what each call holds on to
between two statements, and what a commit adds. -/
namespace Nivara.Auth
open Transactions

variable {ι : Type}

/-! ## The tables and the log -/
section Log
variable [DecidableEq ι] {R : Type}

structure Column (R : Type) where
  write : Nat → R → DoorWrite
  read : Nat → DoorWrite → Option R
  read_iff : ∀ k w r, read k w = some r ↔ w = write k r
  write_inj : ∀ k k' r r', write k r = write k' r' → k = k' ∧ r = r'

def userColumn : Column User where
  write := .user
  read k
    | .user j row => if j = k then some row else none
    | _ => none
  read_iff k w r := by cases w <;> simp
  write_inj k k' r r' h := by simpa using h

def invitationColumn : Column StaffInvitation where
  write := .invitation
  read k
    | .invitation j row => if j = k then some row else none
    | _ => none
  read_iff k w r := by cases w <;> simp
  write_inj k k' r r' h := by simpa using h

def refreshTokenColumn : Column RefreshToken where
  write := .refreshToken
  read k
    | .refreshToken j row => if j = k then some row else none
    | _ => none
  read_iff k w r := by cases w <;> simp
  write_inj k k' r r' h := by simpa using h

def Tracks (K : Column R) (t : Table ι R) (wrote : ι → List DoorWrite) : Prop :=
  ∀ i k r, t.own i k = some r ↔ K.write k r ∈ wrote i

omit [DecidableEq ι] in
def Recorded (K : Column R) (before : Nat → Option R) (t : Table ι R) (log : List (ι × DoorWrite)) : Prop :=
  ∀ k, t.committed k = (log.filterMap fun e => K.read k e.2).getLast?.or (before k)

variable {K : Column R} {t : Table ι R} {wrote : ι → List DoorWrite} {log : List (ι × DoorWrite)} {i : ι}
  {before : Nat → Option R}

theorem Tracks.insert (h : Tracks K t wrote) (i : ι) (r : R) :
    Tracks K (t.insert i r) (Function.update wrote i (wrote i ++ [K.write t.size r])) := by
  intro j k s
  by_cases hji : j = i
  · subst hji
    rw [Function.update_self, List.mem_append, List.mem_singleton, ← h j k s]
    constructor
    · intro ho
      rcases Table.own_insert_cases t j j k ho with ⟨rfl,_,rfl⟩ | ho
      · exact .inr rfl
      · exact .inl ho
    · rintro (ho | he)
      · exact Table.own_insert_of_own t j j k ho
      · obtain ⟨rfl,rfl⟩ := K.write_inj _ _ _ _ he
        exact Table.own_insert_self t j s
  · rw [Function.update_of_ne hji, Table.own_insert_other t i j k hji]
    exact h j k s

theorem Tracks.update (h : Tracks K t wrote) {k : Nat}
    {p : R → Bool} {f : R → R} {r : R} (hfree : t.free i [k] = true) (hv : t.visible i k = some r) (hp : p r = true)
    (hown : t.own i k = none) :
    Tracks K (t.write i [k] p f) (Function.update wrote i (wrote i ++ [K.write k (f r)])) := by
  intro j m s
  by_cases hji : j = i
  · subst hji
    rw [Function.update_self, List.mem_append, List.mem_singleton, ← h j m s]
    constructor
    · intro ho
      rcases Table.own_write_cases t j m ho with ⟨s',hm,hs',_,rfl⟩ | ho
      · cases List.mem_singleton.mp hm
        cases hv.symm.trans hs'
        exact .inr rfl
      · exact .inl ho
    · rintro (ho | he)
      · have hmk : m ∉ [k] := by
          intro hm
          cases List.mem_singleton.mp hm
          cases hown.symm.trans ho
        rw [Table.own_write_self, if_neg hmk]
        exact ho
      · obtain ⟨rfl,rfl⟩ := K.write_inj _ _ _ _ he
        exact Table.own_write_picked t j m (List.mem_singleton_self m) hv hp
  · rw [Function.update_of_ne hji, Table.own_write_other t i j m hji hfree]
    exact h j m s

/-- A write to another table. -/
theorem Tracks.aside (h : Tracks K t wrote) {w : DoorWrite} (hw : ∀ k r, w ≠ K.write k r) (i : ι) :
    Tracks K t (Function.update wrote i (wrote i ++ [w])) := by
  intro j k r
  by_cases hji : j = i
  · subst hji
    rw [Function.update_self, List.mem_append, List.mem_singleton, h j k r]
    exact ⟨.inl,fun hm => hm.resolve_right fun he => hw k r he.symm⟩
  · rw [Function.update_of_ne hji]
    exact h j k r

theorem Tracks.commit (h : Tracks K t wrote) (i : ι) : Tracks K (t.commit i) (Function.update wrote i []) := by
  intro j k r
  by_cases hji : j = i
  · subst hji
    simp
  · rw [Function.update_of_ne hji, Table.own_commit_other t i j k hji]
    exact h j k r

theorem Tracks.rollback (h : Tracks K t wrote) (i : ι) : Tracks K (t.rollback i) (Function.update wrote i []) := by
  intro j k r
  by_cases hji : j = i
  · subst hji
    simp
  · rw [Function.update_of_ne hji, Table.own_rollback_other t i j k hji]
    exact h j k r

/-- Each row is written at most once, so the last version of a transaction is its only one. -/
theorem Recorded.commit (h : Recorded K before t log) (ht : Tracks K t wrote) (i : ι) :
    Recorded K before (t.commit i) (log ++ (wrote i).map (i, ·)) := by
  intro k
  rw [Table.commit_committed, List.filterMap_append, List.getLast?_append, Option.or_assoc, ← h k, List.filterMap_map]
  cases ho : t.own i k with
  | none =>
    have hnone : (wrote i).filterMap (fun w => K.read k w) = [] := by
      refine List.filterMap_eq_nil_iff.mpr fun w hw => ?_
      cases hr : K.read k w with
      | none => rfl
      | some r =>
        rw [K.read_iff k w r] at hr
        subst hr
        cases ho.symm.trans ((ht i k r).mpr hw)
    rw [Table.visible_of_no_own t i k ho]
    simp [hnone]
  | some r =>
    have hlast : ((wrote i).filterMap fun w => K.read k w).getLast? = some r := by
      cases hl : ((wrote i).filterMap fun w => K.read k w).getLast? with
      | none =>
        rw [List.getLast?_eq_none_iff, List.filterMap_eq_nil_iff] at hl
        have := hl _ ((ht i k r).mp ho)
        rw [(K.read_iff k _ r).mpr rfl] at this
        cases this
      | some r' =>
        obtain ⟨w,hw,hr⟩ := List.mem_filterMap.mp (List.mem_of_getLast? hl)
        rw [K.read_iff k w r'] at hr
        subst hr
        exact ((ht i k r').mpr hw).symm.trans ho
    rw [Table.visible_of_own t i k ho]
    simp [hlast]

omit [DecidableEq ι] in
theorem Recorded.mem (h : Recorded K (fun _ => none) t log) {k : Nat} {r : R} (hk : t.committed k = some r) :
    ∃ i, (i, K.write k r) ∈ log := by
  have hr := h k
  rw [hk, Option.or_none] at hr
  obtain ⟨e,he,hread⟩ := List.mem_filterMap.mp (List.mem_of_getLast? hr.symm)
  rw [K.read_iff k e.2 r] at hread
  exact ⟨e.1,hread ▸ he⟩

end Log

/-! ## What the calls hold on to -/
namespace Doors
variable {s s' : Doors ι} {i j : ι} {k m n : Uuid}

def DoorWrite.spends (m : Uuid) : DoorWrite → Bool
  | .invitation j row => j = m && row.acceptedAt.isSome
  | _ => false

def Opens : DoorRequest → Prop
  | .accept _ _ _ _ => True
  | .signInWithGoogle _ => True
  | _ => False

def IsInvite (s : Doors ι) (i : ι) : Prop := ∃ v now, s.requests i = some (.invite v, now)

def IsAccept (s : Doors ι) (i : ι) : Prop := ∃ t token password salt now, s.requests i = some (.accept t token password salt, now)

def IsGoogle (s : Doors ι) (i : ι) : Prop := ∃ v now, s.requests i = some (.signInWithGoogle v, now)

def Cleared (s : Doors ι) (ws : List DoorWrite) (k : Uuid) : Prop :=
  s.users.committed k ≠ none ∧ ∀ m r, s.invitations.committed m = some r → r.userId = k →
    r.acceptedAt ≠ none ∨ ∃ r', .invitation m r' ∈ ws ∧ r'.acceptedAt ≠ none

def InTenant (s : Doors ι) (tenantId k : Uuid) : Prop := ∃ u, s.users.committed k = some u ∧ u.tenantId = tenantId

def Seen (s : Doors ι) (m : Uuid) (invitation : StaffInvitation) : Prop :=
  ∃ r, s.invitations.committed m = some r ∧ r.userId = invitation.userId ∧ r.expiresAt = invitation.expiresAt

/-- An invitation is written by the call that makes it, with its User, or by one that spends it in time. -/
def InvitationWritten (s : Doors ι) (i : ι) (m : Uuid) (r : StaffInvitation) : Prop :=
  (s.IsInvite i ∧ r.acceptedAt = none ∧ s.invitations.committed m = none ∧ s.users.committed r.userId = none ∧
    ∃ u, .user r.userId u ∈ s.wrote i ∧ u.tenantId = r.tenantId) ∨
  ∃ request now r₀, s.requests i = some (request, now) ∧ Opens request ∧ s.invitations.committed m = some r₀ ∧
    r₀.acceptedAt = none ∧ r = { r₀ with acceptedAt := some now } ∧ now < r₀.expiresAt

/-- A User is written by the call that invites them, by one that accepts, or to be linked. -/
def UserWritten (s : Doors ι) (i : ι) (k : Uuid) (u : User) : Prop :=
  (s.IsInvite i ∧ s.users.committed k = none ∧ u.passwordHash = none) ∨
  ∃ u₀, s.users.committed k = some u₀ ∧ u.tenantId = u₀.tenantId ∧
    ((s.IsAccept i ∧ ∃ m r, .invitation m r ∈ s.wrote i ∧ r.acceptedAt ≠ none ∧ r.userId = k) ∨
      (s.IsGoogle i ∧ u.passwordHash = u₀.passwordHash))

structure Lawful (s : Doors ι) (i : ι) : Prop where
  nodup : (s.wrote i).Nodup
  lone : ∀ m r m' r', .invitation m r ∈ s.wrote i → .invitation m' r' ∈ s.wrote i → m = m'
  invitation : ∀ m r, .invitation m r ∈ s.wrote i → s.InvitationWritten i m r
  user : ∀ k u, .user k u ∈ s.wrote i → s.UserWritten i k u
  session : ∀ l₁ l₂ n r, s.wrote i = l₁ ++ DoorWrite.refreshToken n r :: l₂ → ∃ k, r.userId = some k ∧ s.Cleared l₁ k

def NoneElse (ws : List DoorWrite) : Prop := ∀ w ∈ ws, ∃ m r, w = .invitation m r

def Fits (s : Doors ι) (i : ι) : DoorCall → Prop
  | .createUser _ => s.IsInvite i ∧ s.wrote i = []
  | .createInvitation v k => s.IsInvite i ∧ ∃ u, s.wrote i = [.user k u] ∧ u.tenantId = v.tenantId
  | .findInvitation _ _ _ _ => s.IsAccept i ∧ s.wrote i = []
  | .hashPassword _ m invitation _ _ => s.IsAccept i ∧ s.wrote i = [] ∧ s.Seen m invitation ∧
      ∀ request now, s.requests i = some (request, now) → now < invitation.expiresAt
  | .spend _ m invitation _ => s.IsAccept i ∧ s.wrote i = [] ∧ s.Seen m invitation ∧
      ∀ request now, s.requests i = some (request, now) → now < invitation.expiresAt
  | .setPassword _ k _ => s.IsAccept i ∧ ∃ m r, s.wrote i = [.invitation m r] ∧ r.acceptedAt ≠ none ∧ r.userId = k
  | .findByEmail _ _ _ => s.wrote i = []
  | .findBySubject _ => s.IsGoogle i ∧ s.wrote i = []
  | .findByGoogleEmail _ => s.IsGoogle i ∧ s.wrote i = []
  | .findInvitationOf v k _ => s.IsGoogle i ∧ s.wrote i = [] ∧ s.InTenant v.tenantId k
  | .spendByGoogle _ k _ m => s.IsGoogle i ∧ s.wrote i = [] ∧ s.users.committed k ≠ none ∧
      ∃ invitation, s.Seen m invitation ∧ invitation.userId = k ∧
        ∀ request now, s.requests i = some (request, now) → now < invitation.expiresAt
  | .link _ k _ => s.IsGoogle i ∧ NoneElse (s.wrote i) ∧ s.Cleared (s.wrote i) k
  | .issue _ k _ => (∀ n r, .refreshToken n r ∉ s.wrote i) ∧ s.Cleared (s.wrote i) k
  | .commit answer => ∀ code message, answer = .refused code message → s.wrote i = []
  | .rollback _ => True

def setsPassword (s : Doors ι) (k : Uuid) (e : ι × DoorWrite) : Bool :=
  match e.2, s.requests e.1 with
  | .user j _, some (.accept _ _ _ _, _) => j = k
  | _, _ => false

structure Ruled (s : Doors ι) : Prop where
  logged : ∀ i m r, (i, .invitation m r) ∈ s.log → ∃ r', s.invitations.committed m = some r' ∧ r'.userId = r.userId ∧
    r'.expiresAt = r.expiresAt ∧ (r.acceptedAt ≠ none → r' = r)
  once : ∀ m, s.log.countP (fun e => DoorWrite.spends m e.2) ≤ 1
  inTime : ∀ i m r, (i, .invitation m r) ∈ s.log → r.acceptedAt ≠ none →
    ∃ request now, s.requests i = some (request, now) ∧ Opens request ∧ now < r.expiresAt
  /-- A User with a password has nothing left to accept. -/
  password : ∀ k u m r, s.users.committed k = some u → u.passwordHash ≠ none → s.invitations.committed m = some r →
    r.userId = k → r.acceptedAt ≠ none
  seated : ∀ m r, s.invitations.committed m = some r → s.InTenant r.tenantId r.userId
  lone : ∀ m m' r r', s.invitations.committed m = some r → s.invitations.committed m' = some r' →
    r.userId = r'.userId → m = m'
  session : ∀ l₁ l₂ i n r, s.log = l₁ ++ (i, .refreshToken n r) :: l₂ → ∃ k, r.userId = some k ∧
    s.users.committed k ≠ none ∧ ∀ m r', s.invitations.committed m = some r' → r'.userId = k →
      ∃ j r'', (j, .invitation m r'') ∈ l₁ ∧ r''.acceptedAt ≠ none
  setOnce : ∀ k, s.log.countP (s.setsPassword k) ≤ 1
  setBySpender : ∀ i k u, (i, .user k u) ∈ s.log → s.IsAccept i →
    ∃ m r, (i, .invitation m r) ∈ s.log ∧ r.acceptedAt ≠ none ∧ r.userId = k

def lastUser (seeded : List User) (log : List (ι × DoorWrite)) (k : Uuid) : Option User :=
  (log.filterMap fun e => userColumn.read k e.2).getLast?.or seeded[k]?

structure Kept [DecidableEq ι] (seeded : List User) (s : Doors ι) : Prop where
  users : Tracks userColumn s.users s.wrote
  invitations : Tracks invitationColumn s.invitations s.wrote
  refreshTokens : Tracks refreshTokenColumn s.refreshTokens s.wrote
  usersLogged : Recorded userColumn (fun k => seeded[k]?) s.users s.log
  invitationsLogged : Recorded invitationColumn (fun _ => none) s.invitations s.log
  refreshTokensLogged : Recorded refreshTokenColumn (fun _ => none) s.refreshTokens s.log
  idle : ∀ i, s.calls i = none → s.wrote i = []
  requested : ∀ i call, s.calls i = some call → s.requests i ≠ none
  lawful : ∀ i, s.Lawful i
  fits : ∀ i call, s.calls i = some call → s.Fits i call
  ended : ∀ i w, (i, w) ∈ s.log → s.calls i = none ∧ s.requests i ≠ none
  answered : ∀ i a, (i, a) ∈ s.answers → s.calls i = none ∧ s.requests i ≠ none
  refused : ∀ i code message, (i, .refused code message) ∈ s.answers → ∀ w, (i, w) ∉ s.log
  unchanged : ∀ l₁ l₂ i k u, s.log = l₁ ++ (i, .user k u) :: l₂ → ¬ s.IsAccept i →
    u.passwordHash = (lastUser seeded l₁ k).bind (·.passwordHash)
  ruled : s.Ruled

/-! ## What a step leaves of the others -/

/-- To call `j` the rows it has written stay as they were, and the others only move on. -/
structure Beside (s s' : Doors ι) (j : ι) : Prop where
  wrote : s'.wrote j = s.wrote j
  requests : s'.requests j = s.requests j
  users : ∀ t k, s.InTenant t k → s'.InTenant t k
  userLocked : ∀ k u, .user k u ∈ s.wrote j → s'.users.committed k = s.users.committed k
  invitations : ∀ m r, s.invitations.committed m = some r → ∃ r', s'.invitations.committed m = some r' ∧
    r'.userId = r.userId ∧ r'.expiresAt = r.expiresAt ∧ (r.acceptedAt ≠ none → r' = r)
  invitationLocked : ∀ m r, .invitation m r ∈ s.wrote j → s'.invitations.committed m = s.invitations.committed m
  /-- A new invitation comes with its User. -/
  appears : ∀ m r', s'.invitations.committed m = some r' → (∃ r, s.invitations.committed m = some r ∧ r.userId = r'.userId ∧
    (r.acceptedAt ≠ none → r' = r)) ∨ s.users.committed r'.userId = none

namespace Beside

/-- A step that commits nothing. -/
theorem same (hwrote : s'.wrote j = s.wrote j) (hrequests : s'.requests j = s.requests j)
    (husers : s'.users.committed = s.users.committed) (hinvitations : s'.invitations.committed = s.invitations.committed) :
    Beside s s' j where
  wrote := hwrote
  requests := hrequests
  users _ _ h := by
    obtain ⟨u,hu,ht⟩ := h
    exact ⟨u,husers ▸ hu,ht⟩
  userLocked k _ _ := by rw [husers]
  invitations m r h := ⟨r,hinvitations ▸ h,rfl,rfl,fun _ => rfl⟩
  invitationLocked m _ _ := by rw [hinvitations]
  appears m r' h := .inl ⟨r',hinvitations ▸ h,rfl,fun _ => rfl⟩

variable (h : Beside s s' j)
include h

theorem present (hk : s.users.committed k ≠ none) : s'.users.committed k ≠ none := by
  obtain ⟨u,hu⟩ := Option.ne_none_iff_exists'.mp hk
  obtain ⟨u',hu',_⟩ := h.users u.tenantId k ⟨u,hu,rfl⟩
  rw [hu']
  simp

theorem isInvite (hj : s.IsInvite j) : s'.IsInvite j := by
  obtain ⟨v,now,hr⟩ := hj
  exact ⟨v,now,h.requests.trans hr⟩

theorem isAccept (hj : s.IsAccept j) : s'.IsAccept j := by
  obtain ⟨t,token,password,salt,now,hr⟩ := hj
  exact ⟨t,token,password,salt,now,h.requests.trans hr⟩

theorem isGoogle (hj : s.IsGoogle j) : s'.IsGoogle j := by
  obtain ⟨v,now,hr⟩ := hj
  exact ⟨v,now,h.requests.trans hr⟩

theorem cleared {ws : List DoorWrite} (hk : s.Cleared ws k) : s'.Cleared ws k := by
  refine ⟨h.present hk.1,fun m r' hm hr' => ?_⟩
  rcases h.appears m r' hm with ⟨r,hr,hu,hacc⟩ | hnew
  · rcases hk.2 m r hr (hu.trans hr') with ha | hw
    · rw [hacc ha]
      exact .inl ha
    · exact .inr hw
  · rw [hr'] at hnew
    exact absurd hnew hk.1

theorem seen {invitation : StaffInvitation} (hm : s.Seen m invitation) : s'.Seen m invitation := by
  obtain ⟨r,hr,hu,he⟩ := hm
  obtain ⟨r',hr',hu',he',_⟩ := h.invitations m r hr
  exact ⟨r',hr',hu'.trans hu,he'.trans he⟩

theorem lawful (hl : s.Lawful j) : s'.Lawful j := by
  refine ⟨h.wrote ▸ hl.nodup,fun m r m' r' hm hm' => ?_,fun m r hm => ?_,fun k u hk => ?_,fun l₁ l₂ n r he => ?_⟩
  · rw [h.wrote] at hm hm'
    exact hl.lone m r m' r' hm hm'
  · rw [h.wrote] at hm
    rcases hl.invitation m r hm with ⟨hi,ha,hc,hu,u,hw,hut⟩ | ⟨request,now,r₀,hreq,hopens,hc,ha,he,ht⟩
    · refine .inl ⟨h.isInvite hi,ha,(h.invitationLocked m r hm).trans hc,(h.userLocked _ u hw).trans hu,u,?_,hut⟩
      rw [h.wrote]
      exact hw
    · exact .inr ⟨request,now,r₀,h.requests.trans hreq,hopens,(h.invitationLocked m r hm).trans hc,ha,he,ht⟩
  · rw [h.wrote] at hk
    rcases hl.user k u hk with ⟨hi,hc,hp⟩ | ⟨u₀,hc,ht,⟨hi,m,r,hm,ha,hu⟩ | ⟨hi,hp⟩⟩
    · exact .inl ⟨h.isInvite hi,(h.userLocked k u hk).trans hc,hp⟩
    · refine .inr ⟨u₀,(h.userLocked k u hk).trans hc,ht,.inl ⟨h.isAccept hi,m,r,?_,ha,hu⟩⟩
      rw [h.wrote]
      exact hm
    · exact .inr ⟨u₀,(h.userLocked k u hk).trans hc,ht,.inr ⟨h.isGoogle hi,hp⟩⟩
  · rw [h.wrote] at he
    obtain ⟨k,hk,hc⟩ := hl.session l₁ l₂ n r he
    exact ⟨k,hk,h.cleared hc⟩

theorem fits {call : DoorCall} (hf : s.Fits j call) : s'.Fits j call := by
  have htime : ∀ x : Int, (∀ request now, s.requests j = some (request, now) → now < x) →
      ∀ request now, s'.requests j = some (request, now) → now < x :=
    fun x hx request now hr => hx request now (h.requests.symm.trans hr)
  cases call with
  | createUser v => exact ⟨h.isInvite hf.1,h.wrote.trans hf.2⟩
  | createInvitation v k =>
    obtain ⟨hi,u,hw,ht⟩ := hf
    exact ⟨h.isInvite hi,u,h.wrote.trans hw,ht⟩
  | findInvitation => exact ⟨h.isAccept hf.1,h.wrote.trans hf.2⟩
  | hashPassword _ m invitation _ _ =>
    exact ⟨h.isAccept hf.1,h.wrote.trans hf.2.1,h.seen hf.2.2.1,htime _ hf.2.2.2⟩
  | spend _ m invitation _ =>
    exact ⟨h.isAccept hf.1,h.wrote.trans hf.2.1,h.seen hf.2.2.1,htime _ hf.2.2.2⟩
  | setPassword _ k _ =>
    obtain ⟨hi,m,r,hw,ha,hu⟩ := hf
    exact ⟨h.isAccept hi,m,r,h.wrote.trans hw,ha,hu⟩
  | findByEmail => exact h.wrote.trans hf
  | findBySubject => exact ⟨h.isGoogle hf.1,h.wrote.trans hf.2⟩
  | findByGoogleEmail => exact ⟨h.isGoogle hf.1,h.wrote.trans hf.2⟩
  | findInvitationOf _ k _ => exact ⟨h.isGoogle hf.1,h.wrote.trans hf.2.1,h.users _ k hf.2.2⟩
  | spendByGoogle _ k _ m =>
    obtain ⟨hi,hw,hk,invitation,hm,hu,ht⟩ := hf
    exact ⟨h.isGoogle hi,h.wrote.trans hw,h.present hk,invitation,h.seen hm,hu,htime _ ht⟩
  | link _ k _ =>
    refine ⟨h.isGoogle hf.1,?_,?_⟩
    · rw [h.wrote]
      exact hf.2.1
    · rw [h.wrote]
      exact h.cleared hf.2.2
  | issue _ k _ =>
    refine ⟨?_,?_⟩
    · rw [h.wrote]
      exact hf.1
    · rw [h.wrote]
      exact h.cleared hf.2
  | commit answer => exact fun code message he => h.wrote.trans (hf code message he)
  | rollback answer => trivial

end Beside

variable [DecidableEq ι]

/-! ## A commit -/
section Commit
variable {seeded : List User} (h : s.Kept seeded) (i : ι)
include h

theorem own_user {u : User} : s.users.own i k = some u ↔ .user k u ∈ s.wrote i := h.users i k u

theorem own_invitation {r : StaffInvitation} : s.invitations.own i m = some r ↔ .invitation m r ∈ s.wrote i :=
  h.invitations i m r

/-- A committed invitation was there before, or is new and comes with its User. -/
private theorem origin {r : StaffInvitation} (hr : (s.committed i).invitations.committed m = some r) :
    (∃ r₀, s.invitations.committed m = some r₀ ∧ r₀.userId = r.userId ∧ r.expiresAt = r₀.expiresAt ∧
      r.tenantId = r₀.tenantId ∧ (r₀.acceptedAt ≠ none → r = r₀)) ∨
    (.invitation m r ∈ s.wrote i ∧ s.users.committed r.userId = none ∧
      ∃ u, .user r.userId u ∈ s.wrote i ∧ u.tenantId = r.tenantId) := by
  rcases Table.visible_cases _ _ _ hr with ho | ⟨_,hc⟩
  · have hm := (own_invitation h i).mp ho
    rcases (h.lawful i).invitation m r hm with ⟨_,_,_,hu,hw⟩ | ⟨_,_,r₀,_,_,hc,ha,rfl,_⟩
    · exact .inr ⟨hm,hu,hw⟩
    · exact .inl ⟨r₀,hc,rfl,rfl,rfl,fun hne => absurd ha hne⟩
  · exact .inl ⟨r,hc,rfl,rfl,rfl,fun _ => rfl⟩

private theorem users_grow {t : Uuid} (hk : s.InTenant t k) : (s.committed i).InTenant t k := by
  obtain ⟨u₀,hu₀,ht⟩ := hk
  cases ho : s.users.own i k with
  | none => exact ⟨u₀,(Table.visible_of_no_own _ _ _ ho).trans hu₀,ht⟩
  | some u =>
    refine ⟨u,Table.visible_of_own _ _ _ ho,?_⟩
    rcases (h.lawful i).user k u ((own_user h i).mp ho) with ⟨_,hc,_⟩ | ⟨u₁,hc,htu,_⟩
    · cases hc.symm.trans hu₀
    · cases hc.symm.trans hu₀
      exact htu.trans ht

private theorem present_grow (hk : s.users.committed k ≠ none) : (s.committed i).users.committed k ≠ none := by
  obtain ⟨u,hu⟩ := Option.ne_none_iff_exists'.mp hk
  obtain ⟨u',hu',_⟩ := users_grow h i ⟨u,hu,rfl⟩
  rw [hu']
  simp

private theorem invitations_grow {r : StaffInvitation} (hr : s.invitations.committed m = some r) :
    ∃ r', (s.committed i).invitations.committed m = some r' ∧ r'.userId = r.userId ∧ r'.expiresAt = r.expiresAt ∧
      (r.acceptedAt ≠ none → r' = r) := by
  cases ho : s.invitations.own i m with
  | none => exact ⟨r,(Table.visible_of_no_own _ _ _ ho).trans hr,rfl,rfl,fun _ => rfl⟩
  | some r' =>
    rcases (h.lawful i).invitation m r' ((own_invitation h i).mp ho) with ⟨_,_,hc,_⟩ | ⟨_,_,r₀,_,_,hc,ha,rfl,_⟩
    · cases hc.symm.trans hr
    · cases hc.symm.trans hr
      exact ⟨_,Table.visible_of_own _ _ _ ho,rfl,rfl,fun hne => absurd ha hne⟩

theorem beside_commit (hij : j ≠ i) : Beside s (s.committed i) j where
  wrote := Function.update_of_ne hij _ _
  requests := rfl
  users _ _ hk := users_grow h i hk
  userLocked k u hm := Table.visible_of_no_own _ _ _ (Table.own_exclusive _ _ _ _ ((own_user h j).mpr hm) hij.symm)
  invitations _ _ hr := invitations_grow h i hr
  invitationLocked m r hm :=
    Table.visible_of_no_own _ _ _ (Table.own_exclusive _ _ _ _ ((own_invitation h j).mpr hm) hij.symm)
  appears m r hr := by
    rcases origin h i hr with ⟨r₀,hr₀,hu,_,_,hacc⟩ | ⟨_,hu,_⟩
    · exact .inl ⟨r₀,hr₀,hu,hacc⟩
    · exact .inr hu

private theorem committed_of_wrote {r : StaffInvitation} (hm : .invitation m r ∈ s.wrote i) :
    (s.committed i).invitations.committed m = some r := Table.visible_of_own _ _ _ ((own_invitation h i).mpr hm)

private theorem spending {r : StaffInvitation} (hm : .invitation m r ∈ s.wrote i) (ha : r.acceptedAt ≠ none) :
    ∃ request now r₀, s.requests i = some (request, now) ∧ Opens request ∧ s.invitations.committed m = some r₀ ∧
      r₀.acceptedAt = none ∧ r = { r₀ with acceptedAt := some now } ∧ now < r₀.expiresAt := by
  rcases (h.lawful i).invitation m r hm with ⟨_,hnone,_⟩ | hspend
  · exact absurd hnone ha
  · exact hspend

omit [DecidableEq ι] h in
/-- At most one element of a list without repetitions has a property that only one can have. -/
private theorem countP_le_one {α : Type} {l : List α} {p : α → Bool} (hl : l.Nodup)
    (hp : ∀ a ∈ l, ∀ b ∈ l, p a = true → p b = true → a = b) : l.countP p ≤ 1 := by
  rw [List.countP_eq_length_filter]
  match hf : l.filter p with
  | [] => simp
  | [a] => simp
  | a :: b :: rest =>
    have hnodup := hl.filter p
    rw [hf] at hnodup
    obtain ⟨ha,hpa⟩ := List.mem_filter.mp (hf ▸ List.mem_cons_self : a ∈ l.filter p)
    obtain ⟨hb,hpb⟩ := List.mem_filter.mp (hf ▸ List.mem_cons_of_mem _ List.mem_cons_self : b ∈ l.filter p)
    cases hp a ha b hb hpa hpb
    simp at hnodup

private theorem spends_once (m : Uuid) : ((s.wrote i).map (i, ·)).countP (fun e => DoorWrite.spends m e.2) ≤ 1 := by
  rw [List.countP_map]
  refine countP_le_one (h.lawful i).nodup fun w hw w' hw' hp hp' => ?_
  cases w <;> cases w' <;> simp [DoorWrite.spends] at hp hp'
  obtain ⟨rfl,_⟩ := hp
  obtain ⟨rfl,_⟩ := hp'
  rw [Option.some.inj (((own_invitation h i).mpr hw).symm.trans ((own_invitation h i).mpr hw'))]

omit [DecidableEq ι] h in
theorem setsPassword_iff {w : DoorWrite} : s.setsPassword k (i, w) = true ↔ s.IsAccept i ∧ ∃ u, w = .user k u := by
  unfold setsPassword IsAccept
  constructor
  · intro hp
    split at hp
    · rename_i j u t token password salt now he hr
      cases he
      cases of_decide_eq_true hp
      exact ⟨⟨t,token,password,salt,now,hr⟩,u,rfl⟩
    · cases hp
  · rintro ⟨⟨t,token,password,salt,now,hr⟩,u,rfl⟩
    simp [hr]

private theorem sets_once (k : Uuid) : ((s.wrote i).map (i, ·)).countP (s.setsPassword k) ≤ 1 := by
  rw [List.countP_map]
  refine countP_le_one (h.lawful i).nodup fun w hw w' hw' hp hp' => ?_
  obtain ⟨_,u,rfl⟩ := (setsPassword_iff _).mp hp
  obtain ⟨_,u',rfl⟩ := (setsPassword_iff _).mp hp'
  rw [Option.some.inj (((own_user h i).mpr hw).symm.trans ((own_user h i).mpr hw'))]

private theorem lone_commit {r r' : StaffInvitation} {m m' : Uuid} (hr : (s.committed i).invitations.committed m = some r)
    (hr' : (s.committed i).invitations.committed m' = some r') (hu : r.userId = r'.userId) : m = m' := by
  rcases origin h i hr with ⟨r₀,hr₀,hu₀,_⟩ | ⟨hm,hnone,_⟩ <;> rcases origin h i hr' with ⟨r₀',hr₀',hu₀',_⟩ | ⟨hm',hnone',_⟩
  · exact h.ruled.lone m m' r₀ r₀' hr₀ hr₀' (hu₀.trans (hu.trans hu₀'.symm))
  · obtain ⟨u,hseat,_⟩ := h.ruled.seated m r₀ hr₀
    rw [← hu, ← hu₀, hseat] at hnone'
    cases hnone'
  · obtain ⟨u,hseat,_⟩ := h.ruled.seated m' r₀' hr₀'
    rw [hu, ← hu₀', hseat] at hnone
    cases hnone
  · exact (h.lawful i).lone m r m' r' hm hm'

private theorem old_of_seated {r : StaffInvitation} (hr : (s.committed i).invitations.committed m = some r)
    (hk : s.users.committed r.userId ≠ none) : ∃ r₀, s.invitations.committed m = some r₀ ∧ r₀.userId = r.userId ∧
      (r₀.acceptedAt ≠ none → r = r₀) := by
  rcases origin h i hr with ⟨r₀,hr₀,hu,_,_,hacc⟩ | ⟨_,hnone,_⟩
  · exact ⟨r₀,hr₀,hu,hacc⟩
  · exact absurd hnone hk

private theorem password_commit {k : Uuid} {u : User} {r : StaffInvitation} (hu : (s.committed i).users.committed k = some u)
    (hp : u.passwordHash ≠ none) (hr : (s.committed i).invitations.committed m = some r) (hk : r.userId = k) :
    r.acceptedAt ≠ none := by
  -- a password that was there before: so were the invitation and its end
  have hold : ∀ u₀, s.users.committed k = some u₀ → u₀.passwordHash ≠ none → r.acceptedAt ≠ none := by
    intro u₀ hu₀ hp₀
    obtain ⟨r₀,hr₀,huid,hacc⟩ := old_of_seated h i hr (by rw [hk, hu₀]; simp)
    have ha := h.ruled.password k u₀ m r₀ hu₀ hp₀ hr₀ (huid.trans hk)
    rw [hacc ha]
    exact ha
  rcases Table.visible_cases _ _ _ hu with ho | ⟨_,hc⟩
  · rcases (h.lawful i).user k u ((own_user h i).mp ho) with ⟨_,_,hnone⟩ | ⟨u₀,hc,_,⟨_,m₀,r₀,hm₀,ha₀,hu₀⟩ | ⟨_,he⟩⟩
    · exact absurd hnone hp
    · have hr₀ := committed_of_wrote h i hm₀
      cases lone_commit h i hr hr₀ (hk.trans hu₀.symm)
      cases hr.symm.trans hr₀
      exact ha₀
    · exact hold u₀ hc (he ▸ hp)
  · exact hold u hc hp

private theorem seated_commit {r : StaffInvitation} (hr : (s.committed i).invitations.committed m = some r) :
    (s.committed i).InTenant r.tenantId r.userId := by
  rcases origin h i hr with ⟨r₀,hr₀,hu,_,ht,_⟩ | ⟨_,_,u,hw,ht⟩
  · rw [← hu, ht]
    exact users_grow h i (h.ruled.seated m r₀ hr₀)
  · exact ⟨u,Table.visible_of_own _ _ _ ((own_user h i).mpr hw),ht⟩

private theorem once_commit (m : Uuid) : (s.committed i).log.countP (fun e => DoorWrite.spends m e.2) ≤ 1 := by
  show (s.log ++ (s.wrote i).map (i, ·)).countP _ ≤ 1
  rw [List.countP_append]
  have hchunk := spends_once h i m
  have hlog := h.ruled.once m
  by_contra hgt
  obtain ⟨⟨j,w⟩,he,hp⟩ := List.countP_pos_iff.mp (show 0 < s.log.countP fun e => DoorWrite.spends m e.2 by omega)
  obtain ⟨e',he',hp'⟩ := List.countP_pos_iff.mp
    (show 0 < ((s.wrote i).map (i, ·)).countP fun e => DoorWrite.spends m e.2 by omega)
  obtain ⟨w',hw',rfl⟩ := List.mem_map.mp he'
  cases w <;> cases w' <;> simp [DoorWrite.spends] at hp hp'
  rename_i m₁ r₁ m₂ r₂
  obtain ⟨rfl,ha₁⟩ := hp
  obtain ⟨rfl,ha₂⟩ := hp'
  obtain ⟨r,hr,_,_,hacc⟩ := h.ruled.logged j _ r₁ he
  obtain ⟨_,_,r₀,_,_,hc,hnone,_⟩ := spending h i hw' (Option.isSome_iff_ne_none.mp ha₂)
  cases hc.symm.trans hr
  rw [hacc (Option.isSome_iff_ne_none.mp ha₁)] at hnone
  rw [hnone] at ha₁
  cases ha₁

omit h in
/-- An entry of the new log is an old one, or one of this transaction. -/
private theorem entry_commit {l₁ l₂ : List (ι × DoorWrite)} {j : ι} {w : DoorWrite} (he : (s.committed i).log = l₁ ++ (j, w) :: l₂) :
    (∃ c, s.log = l₁ ++ (j, w) :: c) ∨
      ∃ ws₁ ws₂, s.wrote i = ws₁ ++ w :: ws₂ ∧ j = i ∧ l₁ = s.log ++ ws₁.map (i, ·) := by
  rcases List.append_eq_append_iff.mp (show s.log ++ (s.wrote i).map (i, ·) = _ from he) with
    ⟨c₁,rfl,hchunk⟩ | ⟨c,hlog,hchunk⟩
  · obtain ⟨ws₁,ws,hws,rfl,hrest⟩ := List.map_eq_append_iff.mp hchunk
    obtain ⟨w',ws₂,rfl,hw,_⟩ := List.map_eq_cons_iff.mp hrest
    cases hw
    exact .inr ⟨ws₁,ws₂,hws,rfl,rfl⟩
  · cases c with
    | nil =>
      obtain ⟨w',ws₂,hws,hw,_⟩ := List.map_eq_cons_iff.mp hchunk.symm
      cases hw
      rw [List.append_nil] at hlog
      exact .inr ⟨[],ws₂,hws,rfl,by simp [hlog]⟩
    | cons e c =>
      obtain ⟨rfl,_⟩ := List.cons.inj hchunk
      exact .inl ⟨c,hlog⟩

private theorem session_commit {l₁ l₂ : List (ι × DoorWrite)} {j : ι} {n : Uuid} {r : RefreshToken}
    (he : (s.committed i).log = l₁ ++ (j, .refreshToken n r) :: l₂) : ∃ k, r.userId = some k ∧
      (s.committed i).users.committed k ≠ none ∧ ∀ m r', (s.committed i).invitations.committed m = some r' → r'.userId = k →
        ∃ j r'', (j, .invitation m r'') ∈ l₁ ∧ r''.acceptedAt ≠ none := by
  rcases entry_commit i he with ⟨c,hlog⟩ | ⟨ws₁,ws₂,hws,_,rfl⟩
  · obtain ⟨k,hk,huser,hall⟩ := h.ruled.session l₁ c j n r hlog
    refine ⟨k,hk,present_grow h i huser,fun m r' hr' hu => ?_⟩
    obtain ⟨r₀,hr₀,hu₀,_⟩ := old_of_seated h i hr' (by rw [hu]; exact huser)
    exact hall m r₀ hr₀ (hu₀.trans hu)
  · obtain ⟨k,hk,hc⟩ := (h.lawful i).session ws₁ ws₂ n r hws
    refine ⟨k,hk,present_grow h i hc.1,fun m r' hr' hu => ?_⟩
    obtain ⟨r₀,hr₀,hu₀,_⟩ := old_of_seated h i hr' (by rw [hu]; exact hc.1)
    rcases hc.2 m r₀ hr₀ (hu₀.trans hu) with ha | ⟨r'',hm,ha⟩
    · obtain ⟨j,hj⟩ := h.invitationsLogged.mem hr₀
      exact ⟨j,r₀,List.mem_append_left _ hj,ha⟩
    · exact ⟨i,r'',List.mem_append_right _ (List.mem_map.mpr ⟨_,hm,rfl⟩),ha⟩

/-- A call that does not accept writes the password it found. -/
theorem unchanged_commit {l₁ l₂ : List (ι × DoorWrite)} {j : ι} {u : User}
    (he : (s.committed i).log = l₁ ++ (j, .user k u) :: l₂) (hj : ¬ s.IsAccept j) :
    u.passwordHash = (lastUser seeded l₁ k).bind (·.passwordHash) := by
  rcases entry_commit i he with ⟨c,hlog⟩ | ⟨ws₁,ws₂,hws,rfl,rfl⟩
  · exact h.unchanged l₁ c j k u hlog hj
  · -- the transaction has not written this row before
    have hnone : ws₁.filterMap (userColumn.read k) = [] := by
      refine List.filterMap_eq_nil_iff.mpr fun w hw => ?_
      cases hr : userColumn.read k w with
      | none => rfl
      | some u' =>
        rw [userColumn.read_iff] at hr
        subst hr
        have hu : u' = u := Option.some.inj (((own_user h j).mpr (by simp [hws, userColumn] at hw ⊢; exact .inl hw)).symm.trans
          ((own_user h j).mpr (by simp [hws])))
        subst hu
        have hnodup := (h.lawful j).nodup
        rw [hws] at hnodup
        exact absurd hw fun hw => (List.nodup_append.mp hnodup).2.2 _ hw _ List.mem_cons_self rfl
    have hlast : lastUser seeded (s.log ++ ws₁.map (j, ·)) k = s.users.committed k := by
      rw [h.usersLogged k, lastUser, List.filterMap_append, List.filterMap_map]
      simp [hnone]
    rw [hlast]
    rcases (h.lawful j).user k u (by simp [hws]) with ⟨_,hc,hp⟩ | ⟨u₀,hc,_,⟨ha,_⟩ | ⟨_,hp⟩⟩
    · rw [hc, hp]
      rfl
    · exact absurd ha hj
    · rw [hc, hp]
      rfl

/-- The write of an accepting call to a User goes with a spend of their invitation. -/
private theorem spends_of_sets {u : User} (ha : s.IsAccept i) (hw : .user k u ∈ s.wrote i) :
    ∃ m r, .invitation m r ∈ s.wrote i ∧ r.acceptedAt ≠ none ∧ r.userId = k := by
  obtain ⟨t,token,password,salt,now,hreq⟩ := ha
  rcases (h.lawful i).user k u hw with ⟨⟨_,_,hi⟩,_⟩ | ⟨_,_,_,⟨_,hspend⟩ | ⟨⟨_,_,hi⟩,_⟩⟩
  · cases hreq.symm.trans hi
  · exact hspend
  · cases hreq.symm.trans hi

private theorem setOnce_commit (k : Uuid) : (s.committed i).log.countP ((s.committed i).setsPassword k) ≤ 1 := by
  show (s.log ++ (s.wrote i).map (i, ·)).countP (s.setsPassword k) ≤ 1
  rw [List.countP_append]
  have hchunk := sets_once h i k
  have hlog := h.ruled.setOnce k
  by_contra hgt
  obtain ⟨⟨j,w⟩,he,hp⟩ := List.countP_pos_iff.mp (show 0 < s.log.countP (s.setsPassword k) by omega)
  obtain ⟨e',he',hp'⟩ := List.countP_pos_iff.mp (show 0 < ((s.wrote i).map (i, ·)).countP (s.setsPassword k) by omega)
  obtain ⟨w',hw',rfl⟩ := List.mem_map.mp he'
  obtain ⟨haj,u,rfl⟩ := (setsPassword_iff _).mp hp
  obtain ⟨hai,u',rfl⟩ := (setsPassword_iff _).mp hp'
  -- both have spent the User's one invitation
  obtain ⟨m,r,hm,ha,hu⟩ := h.ruled.setBySpender j k u he haj
  obtain ⟨m',r',hm',ha',hu'⟩ := spends_of_sets h i hai hw'
  obtain ⟨r₁,hr₁,_,_,hacc⟩ := h.ruled.logged j m r hm
  obtain ⟨_,_,r₀,_,_,hc,hnone,rfl,_⟩ := spending h i hm' ha'
  cases hacc ha
  cases h.ruled.lone m m' r r₀ hr₁ hc (hu.trans hu'.symm)
  cases hr₁.symm.trans hc
  exact ha hnone

theorem ruled_commit : (s.committed i).Ruled where
  logged j m r hm := by
    rcases List.mem_append.mp (show (j, .invitation m r) ∈ s.log ++ (s.wrote i).map (i, ·) from hm) with hm | hm
    · obtain ⟨r',hr',hu,he,hacc⟩ := h.ruled.logged j m r hm
      obtain ⟨r'',hr'',hu',he',hacc'⟩ := invitations_grow h i hr'
      refine ⟨r'',hr'',hu'.trans hu,he'.trans he,fun ha => ?_⟩
      cases hacc ha
      exact hacc' ha
    · obtain ⟨w,hw,he⟩ := List.mem_map.mp hm
      cases he
      exact ⟨r,committed_of_wrote h i hw,rfl,rfl,fun _ => rfl⟩
  once := once_commit h i
  inTime j m r hm ha := by
    rcases List.mem_append.mp (show (j, .invitation m r) ∈ s.log ++ (s.wrote i).map (i, ·) from hm) with hm | hm
    · exact h.ruled.inTime j m r hm ha
    · obtain ⟨w,hw,he⟩ := List.mem_map.mp hm
      cases he
      obtain ⟨request,now,r₀,hreq,hopens,_,_,rfl,ht⟩ := spending h i hw ha
      exact ⟨request,now,hreq,hopens,ht⟩
  password k u m r hu hp hr hk := password_commit h i hu hp hr hk
  seated m r hr := seated_commit h i hr
  lone m m' r r' hr hr' hu := lone_commit h i hr hr' hu
  session l₁ l₂ j n r he := session_commit h i he
  setOnce := setOnce_commit h i
  setBySpender j k u hm haj := by
    rcases List.mem_append.mp (show (j, .user k u) ∈ s.log ++ (s.wrote i).map (i, ·) from hm) with hm | hm
    · obtain ⟨m,r,hmr,ha,hu⟩ := h.ruled.setBySpender j k u hm haj
      exact ⟨m,r,List.mem_append_left _ hmr,ha,hu⟩
    · obtain ⟨w,hw,he⟩ := List.mem_map.mp hm
      cases he
      obtain ⟨m,r,hmr,ha,hu⟩ := spends_of_sets h i haj hw
      exact ⟨m,r,List.mem_append_right _ (List.mem_map.mpr ⟨_,hmr,rfl⟩),ha,hu⟩

end Commit

end Doors
end Nivara.Auth
