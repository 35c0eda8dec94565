import Nivara.Auth.InvitationBooks

/-! An invitation opens once. Two services spend it, each with a test and a conditional `UPDATE` of its
own; whatever the interleaving, one call wins, and nobody is signed in before it has. -/
namespace Nivara.Auth.Doors
open Transactions

variable {ι : Type} [DecidableEq ι] {s s' : Doors ι} {i : ι} {k m n : Uuid}

section Steps
variable {seeded : List User} {lib : Library} {call next : DoorCall} {w : DoorWrite}

omit [DecidableEq ι] in
theorem Ruled.same (h : s.Ruled) (husers : s'.users.committed = s.users.committed)
    (hinvitations : s'.invitations.committed = s.invitations.committed) (hlog : s'.log = s.log)
    (hrequests : ∀ e ∈ s.log, s'.requests e.1 = s.requests e.1) : s'.Ruled := by
  have hin : ∀ t k, s.InTenant t k → s'.InTenant t k := fun t k ⟨u,hu,ht⟩ => ⟨u,husers ▸ hu,ht⟩
  have hset : ∀ k, ∀ e ∈ s.log, s'.setsPassword k e = s.setsPassword k e := by
    intro k e he
    simp only [setsPassword, hrequests e he]
  refine ⟨?_,?_,?_,?_,?_,?_,?_,?_,?_⟩
  · rw [hlog, hinvitations]
    exact h.logged
  · rw [hlog]
    exact h.once
  · rw [hlog]
    intro i m r hm ha
    obtain ⟨request,now,hreq,ht⟩ := h.inTime i m r hm ha
    exact ⟨request,now,(hrequests _ hm).trans hreq,ht⟩
  · rw [husers, hinvitations]
    exact h.password
  · rw [hinvitations]
    exact fun m r hr => hin _ _ (h.seated m r hr)
  · rw [hinvitations]
    exact h.lone
  · rw [hlog, husers, hinvitations]
    exact h.session
  · intro k
    rw [hlog, List.countP_congr fun e he => by rw [hset k e he]]
    exact h.setOnce k
  · rw [hlog]
    rintro i k u hm ⟨t,token,password,salt,now,hreq⟩
    exact h.setBySpender i k u hm ⟨t,token,password,salt,now,(hrequests _ hm).symm.trans hreq⟩

omit [DecidableEq ι] in
theorem lawful_nil (h : s.wrote i = []) : s.Lawful i := by
  refine ⟨by simp [h],?_,?_,?_,?_⟩
  · intro m r m' r' hm
    rw [h] at hm
    cases hm
  · intro m r hm
    rw [h] at hm
    cases hm
  · intro k u hk
    rw [h] at hk
    cases hk
  · intro l₁ l₂ n r he
    rw [h] at he
    simp at he

omit [DecidableEq ι] in
/-- One more write, lawful in itself. -/
theorem Lawful.snoc (h : s.Lawful i) (hwrote : s'.wrote i = s.wrote i ++ [w]) (hrequests : s'.requests i = s.requests i)
    (husers : s'.users.committed = s.users.committed) (hinvitations : s'.invitations.committed = s.invitations.committed)
    (hnew : w ∉ s.wrote i) (hlone : ∀ m r, w = .invitation m r → ∀ m' r', .invitation m' r' ∉ s.wrote i)
    (hinvitation : ∀ m r, w = .invitation m r → s'.InvitationWritten i m r)
    (huser : ∀ k u, w = .user k u → s'.UserWritten i k u)
    (hsession : ∀ n r, w = .refreshToken n r → ∃ k, r.userId = some k ∧ s.Cleared (s.wrote i) k) : s'.Lawful i := by
  have hcleared : ∀ l k, s.Cleared l k → s'.Cleared l k := by
    intro l k hc
    unfold Cleared
    rw [husers, hinvitations]
    exact hc
  have hmem : ∀ x, x ∈ s'.wrote i ↔ x ∈ s.wrote i ∨ x = w := by
    intro x
    rw [hwrote, List.mem_append, List.mem_singleton]
  refine ⟨?_,?_,?_,?_,?_⟩
  · rw [hwrote]
    exact List.Nodup.append h.nodup (List.nodup_singleton w) (by simpa using hnew)
  · intro m r m' r' hm hm'
    rcases (hmem _).mp hm with hm | hm <;> rcases (hmem _).mp hm' with hm' | hm'
    · exact h.lone m r m' r' hm hm'
    · exact absurd hm (hlone m' r' hm'.symm m r)
    · exact absurd hm' (hlone m r hm.symm m' r')
    · cases hm.trans hm'.symm
      rfl
  · intro m r hm
    rcases (hmem _).mp hm with hm | rfl
    · rcases h.invitation m r hm with ⟨⟨v,now,hi⟩,ha,hc,hu,u,hw,ht⟩ | ⟨request,now,r₀,hreq,hopens,hc,hrest⟩
      · exact .inl ⟨⟨v,now,hrequests.trans hi⟩,ha,by rw [hinvitations]; exact hc,by rw [husers]; exact hu,u,
          (hmem _).mpr (.inl hw),ht⟩
      · exact .inr ⟨request,now,r₀,hrequests.trans hreq,hopens,by rw [hinvitations]; exact hc,hrest⟩
    · exact hinvitation m r rfl
  · intro k u hk
    rcases (hmem _).mp hk with hk | rfl
    · rcases h.user k u hk with ⟨⟨v,now,hi⟩,hc,hp⟩ | ⟨u₀,hc,ht,⟨⟨t,token,password,salt,now,hi⟩,m,r,hm,ha,hu⟩ | ⟨⟨v,now,hi⟩,hp⟩⟩
      · exact .inl ⟨⟨v,now,hrequests.trans hi⟩,by rw [husers]; exact hc,hp⟩
      · exact .inr ⟨u₀,by rw [husers]; exact hc,ht,
          .inl ⟨⟨t,token,password,salt,now,hrequests.trans hi⟩,m,r,(hmem _).mpr (.inl hm),ha,hu⟩⟩
      · exact .inr ⟨u₀,by rw [husers]; exact hc,ht,.inr ⟨⟨v,now,hrequests.trans hi⟩,hp⟩⟩
    · exact huser k u rfl
  · intro l₁ l₂ n r he
    rw [hwrote] at he
    rcases List.eq_nil_or_concat l₂ with rfl | ⟨l₂',x,rfl⟩
    · obtain ⟨hws,hw⟩ := List.append_inj' he rfl
      obtain ⟨k,hk,hc⟩ := hsession n r (by simpa using hw)
      exact ⟨k,hk,hcleared _ k (hws ▸ hc)⟩
    · have hsplit : s.wrote i = l₁ ++ DoorWrite.refreshToken n r :: l₂' := by
        rw [List.concat_eq_append, ← List.cons_append, ← List.append_assoc] at he
        exact (List.append_inj' he rfl).1
      obtain ⟨k,hk,hc⟩ := h.session l₁ l₂' n r hsplit
      exact ⟨k,hk,hcleared _ k hc⟩

/-- A statement of call `i` that commits nothing. -/
theorem Kept.local (h : s.Kept seeded) (hcall : s.calls i = some call)
    (hcalls : s'.calls = Function.update s.calls i (some next)) (hrequests : s'.requests = s.requests)
    (hlog : s'.log = s.log) (hanswers : s'.answers = s.answers) (hwrote : ∀ j, j ≠ i → s'.wrote j = s.wrote j)
    (husers : s'.users.committed = s.users.committed) (hinvitations : s'.invitations.committed = s.invitations.committed)
    (hrefresh : s'.refreshTokens.committed = s.refreshTokens.committed)
    (htu : Tracks userColumn s'.users s'.wrote) (hti : Tracks invitationColumn s'.invitations s'.wrote)
    (htr : Tracks refreshTokenColumn s'.refreshTokens s'.wrote) (hlaw : s'.Lawful i) (hfits : s'.Fits i next) :
    s'.Kept seeded := by
  have hbeside : ∀ j, j ≠ i → Beside s s' j := fun j hj =>
    .same (hwrote j hj) (congrFun hrequests j) husers hinvitations
  have hother : ∀ j call', j ≠ i → s'.calls j = some call' → s.calls j = some call' := by
    intro j call' hj hc
    rw [hcalls, Function.update_of_ne hj] at hc
    exact hc
  have hclosed : ∀ j, s.calls j = none → s'.calls j = none ∧ j ≠ i := by
    intro j hj
    have hji : j ≠ i := by
      rintro rfl
      cases hj.symm.trans hcall
    rw [hcalls, Function.update_of_ne hji]
    exact ⟨hj,hji⟩
  refine ⟨htu,hti,htr,?_,?_,?_,?_,?_,?_,?_,?_,?_,?_,?_,?_⟩
  · intro k
    rw [husers, hlog]
    exact h.usersLogged k
  · intro k
    rw [hinvitations, hlog]
    exact h.invitationsLogged k
  · intro k
    rw [hrefresh, hlog]
    exact h.refreshTokensLogged k
  · intro j hj
    have hji : j ≠ i := by
      rintro rfl
      rw [hcalls, Function.update_self] at hj
      cases hj
    rw [hcalls, Function.update_of_ne hji] at hj
    rw [hwrote j hji]
    exact h.idle j hj
  · intro j call' hj
    rw [hrequests]
    by_cases hji : j = i
    · subst hji
      exact h.requested j call hcall
    · exact h.requested j call' (hother j call' hji hj)
  · intro j
    by_cases hji : j = i
    · subst hji
      exact hlaw
    · exact (hbeside j hji).lawful (h.lawful j)
  · intro j call' hj
    by_cases hji : j = i
    · subst hji
      rw [hcalls, Function.update_self] at hj
      cases hj
      exact hfits
    · exact (hbeside j hji).fits (h.fits j call' (hother j call' hji hj))
  · intro j w hw
    rw [hlog] at hw
    rw [hrequests]
    exact ⟨(hclosed j (h.ended j w hw).1).1,(h.ended j w hw).2⟩
  · intro j a ha
    rw [hanswers] at ha
    rw [hrequests]
    exact ⟨(hclosed j (h.answered j a ha).1).1,(h.answered j a ha).2⟩
  · intro j code message ha w
    rw [hanswers] at ha
    rw [hlog]
    exact h.refused j code message ha w
  · intro l₁ l₂ j k u he hj
    refine h.unchanged l₁ l₂ j k u (hlog ▸ he) fun ⟨t,token,password,salt,now,hreq⟩ => hj ?_
    exact ⟨t,token,password,salt,now,(congrFun hrequests j).trans hreq⟩
  · exact h.ruled.same husers hinvitations hlog fun _ _ => congrFun hrequests _

/-- A statement that only moves the call on. -/
theorem Kept.goto (h : s.Kept seeded) (hcall : s.calls i = some call) (hfits : s.Fits i next) : (s.goto i next).Kept seeded := by
  have hsame : Beside s (s.goto i next) i := .same rfl rfl rfl rfl
  exact h.local hcall rfl rfl rfl rfl (fun _ _ => rfl) rfl rfl rfl h.users h.invitations h.refreshTokens
    (hsame.lawful (h.lawful i)) (hsame.fits hfits)

theorem Kept.commit (h : s.Kept seeded) (hcall : s.calls i = some call) : (s.committed i).Kept seeded where
  users := h.users.commit i
  invitations := h.invitations.commit i
  refreshTokens := h.refreshTokens.commit i
  usersLogged := h.usersLogged.commit h.users i
  invitationsLogged := h.invitationsLogged.commit h.invitations i
  refreshTokensLogged := h.refreshTokensLogged.commit h.refreshTokens i
  idle j hj := by
    by_cases hji : j = i
    · subst hji
      exact Function.update_self ..
    · exact (Function.update_of_ne hji _ _).trans (h.idle j ((Function.update_of_ne hji _ _).symm.trans hj))
  requested j call' hj := by
    by_cases hji : j = i
    · subst hji
      exact h.requested j call hcall
    · exact h.requested j call' ((Function.update_of_ne hji _ _).symm.trans hj)
  lawful j := by
    by_cases hji : j = i
    · subst hji
      exact lawful_nil (Function.update_self ..)
    · exact (beside_commit h i hji).lawful (h.lawful j)
  fits j call' hj := by
    have hji : j ≠ i := by
      rintro rfl
      cases (Function.update_self ..).symm.trans hj
    exact (beside_commit h i hji).fits (h.fits j call' ((Function.update_of_ne hji _ _).symm.trans hj))
  ended j w hw := by
    rcases List.mem_append.mp (show (j, w) ∈ s.log ++ (s.wrote i).map (i, ·) from hw) with hw | hw
    · obtain ⟨hc,hr⟩ := h.ended j w hw
      have hji : j ≠ i := by
        rintro rfl
        cases hc.symm.trans hcall
      exact ⟨(Function.update_of_ne hji _ _).trans hc,hr⟩
    · obtain ⟨w',_,he⟩ := List.mem_map.mp hw
      cases he
      exact ⟨Function.update_self ..,h.requested _ call hcall⟩
  answered j a ha := by
    obtain ⟨hc,hr⟩ := h.answered j a ha
    have hji : j ≠ i := by
      rintro rfl
      cases hc.symm.trans hcall
    exact ⟨(Function.update_of_ne hji _ _).trans hc,hr⟩
  refused j code message ha w hw := by
    rcases List.mem_append.mp (show (j, w) ∈ s.log ++ (s.wrote i).map (i, ·) from hw) with hw | hw
    · exact h.refused j code message ha w hw
    · obtain ⟨w',_,he⟩ := List.mem_map.mp hw
      cases he
      cases (h.answered _ _ ha).1.symm.trans hcall
  unchanged l₁ l₂ j k u he hj := unchanged_commit h i he hj
  ruled := ruled_commit h i

theorem Kept.rollback (h : s.Kept seeded) (hcall : s.calls i = some call) : (s.rolledBack i).Kept seeded := by
  have hbeside : ∀ j, j ≠ i → Beside s (s.rolledBack i) j := fun j hj =>
    .same (Function.update_of_ne hj _ _) rfl rfl rfl
  have hne : ∀ j, s.calls j = none → j ≠ i := by
    rintro j hj rfl
    cases hj.symm.trans hcall
  refine ⟨h.users.rollback i,h.invitations.rollback i,h.refreshTokens.rollback i,h.usersLogged,h.invitationsLogged,
    h.refreshTokensLogged,?_,?_,?_,?_,?_,?_,h.refused,h.unchanged,h.ruled.same rfl rfl rfl fun _ _ => rfl⟩
  · intro j hj
    by_cases hji : j = i
    · subst hji
      exact Function.update_self ..
    · exact (Function.update_of_ne hji _ _).trans (h.idle j ((Function.update_of_ne hji _ _).symm.trans hj))
  · intro j call' hj
    by_cases hji : j = i
    · subst hji
      exact h.requested j call hcall
    · exact h.requested j call' ((Function.update_of_ne hji _ _).symm.trans hj)
  · intro j
    by_cases hji : j = i
    · subst hji
      exact lawful_nil (Function.update_self ..)
    · exact (hbeside j hji).lawful (h.lawful j)
  · intro j call' hj
    have hji : j ≠ i := by
      rintro rfl
      cases (Function.update_self ..).symm.trans hj
    exact (hbeside j hji).fits (h.fits j call' ((Function.update_of_ne hji _ _).symm.trans hj))
  · intro j w hw
    obtain ⟨hc,hr⟩ := h.ended j w hw
    exact ⟨(Function.update_of_ne (hne j hc) _ _).trans hc,hr⟩
  · intro j a ha
    obtain ⟨hc,hr⟩ := h.answered j a ha
    exact ⟨(Function.update_of_ne (hne j hc) _ _).trans hc,hr⟩

/-- A closed call answers. -/
theorem Kept.answer (h : s.Kept seeded) {answer : DoorAnswer} (hclosed : s.calls i = none) (hasked : s.requests i ≠ none)
    (hnone : ∀ code message, answer = .refused code message → ∀ w, (i, w) ∉ s.log) : (s.answered i answer).Kept seeded := by
  have hbeside : ∀ j, Beside s (s.answered i answer) j := fun j => .same rfl rfl rfl rfl
  refine ⟨h.users,h.invitations,h.refreshTokens,h.usersLogged,h.invitationsLogged,h.refreshTokensLogged,h.idle,h.requested,
    fun j => (hbeside j).lawful (h.lawful j),fun j call hj => (hbeside j).fits (h.fits j call hj),h.ended,?_,?_,
    h.unchanged,h.ruled.same rfl rfl rfl fun _ _ => rfl⟩
  · intro j a ha
    rcases List.mem_append.mp ha with ha | ha
    · exact h.answered j a ha
    · cases List.mem_singleton.mp ha
      exact ⟨hclosed,hasked⟩
  · intro j code message ha
    rcases List.mem_append.mp ha with ha | ha
    · exact h.refused j code message ha
    · cases List.mem_singleton.mp ha
      exact hnone code message rfl

private theorem Kept.writeUser (h : s.Kept seeded) (hcall : s.calls i = some call) {users : Table ι User} {u : User}
    (hcommitted : users.committed = s.users.committed) (htracks : Tracks userColumn users (s.noted i (.user k u)))
    (hown : s.users.own i k = none) (hlawful : (s.writeUser i users k u next).UserWritten i k u)
    (hfits : (s.writeUser i users k u next).Fits i next) : (s.writeUser i users k u next).Kept seeded := by
  have hnew : .user k u ∉ s.wrote i := fun hm => by cases hown.symm.trans ((own_user h i).mpr hm)
  refine h.local hcall rfl rfl rfl rfl (fun j hj => Function.update_of_ne hj _ _) hcommitted rfl rfl htracks
    (h.invitations.aside (fun _ _ he => by cases he) i) (h.refreshTokens.aside (fun _ _ he => by cases he) i) ?_ hfits
  refine (h.lawful i).snoc (Function.update_self ..) rfl hcommitted rfl hnew ?_ ?_ ?_ ?_
  · exact fun _ _ he => by cases he
  · exact fun _ _ he => by cases he
  · intro k' u' he
    cases he
    exact hlawful
  · exact fun _ _ he => by cases he

private theorem Kept.writeInvitation (h : s.Kept seeded) (hcall : s.calls i = some call)
    {invitations : Table ι StaffInvitation} {r : StaffInvitation} (hcommitted : invitations.committed = s.invitations.committed)
    (htracks : Tracks invitationColumn invitations (s.noted i (.invitation m r)))
    (hnone : ∀ m' r', .invitation m' r' ∉ s.wrote i)
    (hlawful : (s.writeInvitation i invitations m r next).InvitationWritten i m r)
    (hfits : (s.writeInvitation i invitations m r next).Fits i next) : (s.writeInvitation i invitations m r next).Kept seeded := by
  refine h.local hcall rfl rfl rfl rfl (fun j hj => Function.update_of_ne hj _ _) rfl hcommitted rfl
    (h.users.aside (fun _ _ he => by cases he) i) htracks (h.refreshTokens.aside (fun _ _ he => by cases he) i) ?_ hfits
  refine (h.lawful i).snoc (Function.update_self ..) rfl rfl hcommitted (hnone m r) ?_ ?_ ?_ ?_
  · exact fun _ _ _ => hnone
  · intro m' r' he
    cases he
    exact hlawful
  · exact fun _ _ he => by cases he
  · exact fun _ _ he => by cases he

private theorem Kept.writeRefreshToken (h : s.Kept seeded) (hcall : s.calls i = some call)
    {refreshTokens : Table ι RefreshToken} {r : RefreshToken} (hcommitted : refreshTokens.committed = s.refreshTokens.committed)
    (htracks : Tracks refreshTokenColumn refreshTokens (s.noted i (.refreshToken n r)))
    (hnone : .refreshToken n r ∉ s.wrote i) (hk : r.userId = some k) (hcleared : s.Cleared (s.wrote i) k)
    (hfits : (s.writeRefreshToken i refreshTokens n r next).Fits i next) :
    (s.writeRefreshToken i refreshTokens n r next).Kept seeded := by
  refine h.local hcall rfl rfl rfl rfl (fun j hj => Function.update_of_ne hj _ _) rfl rfl hcommitted
    (h.users.aside (fun _ _ he => by cases he) i) (h.invitations.aside (fun _ _ he => by cases he) i) htracks ?_ hfits
  refine (h.lawful i).snoc (Function.update_self ..) rfl rfl rfl hnone ?_ ?_ ?_ ?_
  · exact fun _ _ he => by cases he
  · exact fun _ _ he => by cases he
  · exact fun _ _ he => by cases he
  · intro n' r' he
    cases he
    exact ⟨k,hk,hcleared⟩

private theorem Kept.user_seen (h : s.Kept seeded) (hnone : ∀ u, .user k u ∉ s.wrote i) :
    s.users.own i k = none ∧ s.users.visible i k = s.users.committed k := by
  have hown : s.users.own i k = none := by
    cases ho : s.users.own i k with
    | none => rfl
    | some u => exact absurd ((own_user h i).mp ho) (hnone u)
  exact ⟨hown,Table.visible_of_no_own _ _ _ hown⟩

private theorem Kept.invitation_seen (h : s.Kept seeded) (hnone : ∀ r, .invitation m r ∉ s.wrote i) :
    s.invitations.own i m = none ∧ s.invitations.visible i m = s.invitations.committed m := by
  have hown : s.invitations.own i m = none := by
    cases ho : s.invitations.own i m with
    | none => rfl
    | some r => exact absurd ((own_invitation h i).mp ho) (hnone r)
  exact ⟨hown,Table.visible_of_no_own _ _ _ hown⟩

/-- The conditional `UPDATE` of either door, by a call that began in time and has written nothing. -/
private theorem Kept.spend (h : s.Kept seeded) (hcall : s.calls i = some call) {missed : DoorCall} {tenantId : Uuid} {now : Int}
    {request : DoorRequest} {invitation : StaffInvitation} (hreq : s.requests i = some (request, now)) (hopens : Opens request)
    (hwrote : s.wrote i = []) (hseen : s.Seen m invitation) (htime : now < invitation.expiresAt) (hmissed : s.Fits i missed)
    (hnext : ∀ (t : Doors ι) r, t.requests = s.requests → t.users.committed = s.users.committed →
      t.invitations.committed = s.invitations.committed → t.wrote i = [.invitation m r] → r.acceptedAt ≠ none →
      r.userId = invitation.userId → t.Fits i next)
    (hs : s.spendInvitation i tenantId m now next missed = some s') : s'.Kept seeded := by
  obtain ⟨o,ho,rfl⟩ := Option.map_eq_some_iff.mp hs
  cases o with
  | none => exact h.goto hcall hmissed
  | some p =>
    obtain ⟨t,r'⟩ := p
    have hnone : ∀ m' r', .invitation m' r' ∉ s.wrote i := fun _ _ hm => by rw [hwrote] at hm; cases hm
    obtain ⟨hown,hvis⟩ := h.invitation_seen (hnone m)
    obtain ⟨r,hfree,hv,hp,rfl,rfl⟩ := Table.updateById_some _ _ _ ho
    have hr : s.invitations.committed m = some r := hvis.symm.trans hv
    obtain ⟨r₀,hr₀,hu,he⟩ := hseen
    cases hr.symm.trans hr₀
    have hopen : r.acceptedAt = none := by
      rw [Bool.and_eq_true] at hp
      exact Option.isNone_iff_eq_none.mp hp.2
    refine h.writeInvitation hcall rfl (h.invitations.update hfree hv hp hown) hnone
      (.inr ⟨request,now,r,hreq,hopens,hr,hopen,rfl,by omega⟩) ?_
    refine hnext _ { r with acceptedAt := some now } rfl rfl rfl ?_ (by simp) hu
    show Function.update s.wrote i (s.wrote i ++ _) i = _
    rw [Function.update_self, hwrote]
    rfl

private theorem Kept.cleared_of_lone (h : s.Kept seeded) (hk : s.users.committed k ≠ none) {ws : List DoorWrite}
    {r : StaffInvitation} (hr : s.invitations.committed m = some r) (hu : r.userId = k)
    (ha : r.acceptedAt ≠ none ∨ ∃ r', .invitation m r' ∈ ws ∧ r'.acceptedAt ≠ none) : s.Cleared ws k := by
  refine ⟨hk,fun m' r' hr' hu' => ?_⟩
  cases h.ruled.lone m m' r r' hr hr' (hu.trans hu'.symm)
  cases hr.symm.trans hr'
  exact ha

private theorem Kept.createUser (h : s.Kept seeded) {v : Invitee} {now : Int} (hcall : s.calls i = some (.createUser v))
    (hs : s.advance lib i now (.createUser v) = some s') : s'.Kept seeded := by
  obtain ⟨hi,hwrote⟩ := h.fits i _ hcall
  simp only [advance] at hs
  split at hs
  · cases hs
    exact h.goto hcall trivial
  · split at hs
    · cases hs
    · cases hs
      have hfresh := s.users.committed_fresh s.users.size (Nat.le_refl _)
      refine h.writeUser hcall rfl (h.users.insert i _) ?_ (.inl ⟨hi,hfresh,rfl⟩)
        ⟨hi,⟨v.tenantId, v.email, v.name, v.role, none, none⟩,?_,rfl⟩
      · exact (h.user_seen fun u hm => by rw [hwrote] at hm; cases hm).1
      · show Function.update s.wrote i (s.wrote i ++ _) i = _
        rw [Function.update_self, hwrote]
        rfl

private theorem Kept.createInvitation (h : s.Kept seeded) {v : Invitee} {now : Int}
    (hcall : s.calls i = some (.createInvitation v k)) (hs : s.advance lib i now (.createInvitation v k) = some s') :
    s'.Kept seeded := by
  obtain ⟨hi,u,hwrote,ht⟩ := h.fits i _ hcall
  have hu : .user k u ∈ s.wrote i := by simp [hwrote]
  have hfree : s.users.committed k = none := by
    obtain ⟨v,now,hreq⟩ := hi
    rcases (h.lawful i).user k u hu with ⟨_,hc,_⟩ | ⟨_,_,_,⟨⟨_,_,_,_,_,ha⟩,_⟩ | ⟨⟨_,_,ha⟩,_⟩⟩
    · exact hc
    · cases hreq.symm.trans ha
    · cases hreq.symm.trans ha
  simp only [advance] at hs
  split at hs
  · cases hs
    exact h.goto hcall trivial
  · split at hs
    · cases hs
    · cases hs
      have hfresh := s.invitations.committed_fresh s.invitations.size (Nat.le_refl _)
      refine h.writeInvitation hcall rfl (h.invitations.insert i _) ?_ (.inl ⟨hi,rfl,hfresh,hfree,u,?_,ht⟩) ?_
      · intro m' r' hm
        simp [hwrote] at hm
      · show .user k u ∈ Function.update s.wrote i (s.wrote i ++ _) i
        rw [Function.update_self]
        exact List.mem_append_left _ hu
      · exact fun _ _ he => by cases he

private theorem Kept.setPassword (h : s.Kept seeded) {tenantId : Uuid} {passwordHash : String} {now : Int}
    (hcall : s.calls i = some (.setPassword tenantId k passwordHash))
    (hs : s.advance lib i now (.setPassword tenantId k passwordHash) = some s') : s'.Kept seeded := by
  obtain ⟨hi,m,r,hwrote,ha,hu⟩ := h.fits i _ hcall
  obtain ⟨o,ho,rfl⟩ := Option.map_eq_some_iff.mp hs
  cases o with
  | none => exact h.goto hcall trivial
  | some p =>
    obtain ⟨t,u'⟩ := p
    obtain ⟨hown,hvis⟩ := h.user_seen (k := k) (i := i) fun u hm => by simp [hwrote] at hm
    obtain ⟨u₀,hfree,hv,hp,rfl,rfl⟩ := Table.updateById_some _ _ _ ho
    refine h.writeUser hcall rfl (h.users.update hfree hv hp hown) hown
      (.inr ⟨u₀,hvis.symm.trans hv,rfl,.inl ⟨hi,m,r,?_,ha,hu⟩⟩) (fun _ _ he => by cases he)
    show .invitation m r ∈ Function.update s.wrote i (s.wrote i ++ _) i
    rw [Function.update_self, hwrote]
    simp

private theorem Kept.findByEmail (h : s.Kept seeded) {tenantId : Uuid} {email password : String} {now : Int}
    (hcall : s.calls i = some (.findByEmail tenantId email password))
    (hs : s.advance lib i now (.findByEmail tenantId email password) = some s') : s'.Kept seeded := by
  have hwrote : s.wrote i = [] := h.fits i _ hcall
  simp only [advance] at hs
  split at hs
  · cases hs
    exact h.goto hcall fun _ _ _ => hwrote
  · rename_i k u hfound
    split at hs
    · rename_i hvalid
      cases hs
      have hu : s.users.committed k = some u :=
        (h.user_seen fun u hm => by rw [hwrote] at hm; cases hm).2.symm.trans (Table.locate_some _ _ _ hfound).1
      refine h.goto hcall ⟨fun n r hm => ?_,?_,fun m r hr huser => .inl ?_⟩
      · rw [hwrote] at hm
        cases hm
      · rw [hu]
        simp
      · -- a password that verifies is there, so nothing is left to accept
        refine h.ruled.password k u m r hu (fun hp => ?_) hr huser
        simp [Library.verify, hp] at hvalid
    · cases hs
      exact h.goto hcall fun _ _ _ => hwrote

private theorem Kept.recognised (h : s.Kept seeded) {v : GoogleIdentity} {u : User} (hcall : s.calls i = some call)
    (hi : s.IsGoogle i) (hwrote : s.wrote i = []) (hv : s.users.visible i k = some u) (ht : u.tenantId = v.tenantId) :
    (s.recognised i v k u).Kept seeded := by
  unfold Doors.recognised
  split
  · exact h.goto hcall fun _ _ _ => hwrote
  · have hseen := (h.user_seen (k := k) (i := i) fun u hm => by rw [hwrote] at hm; cases hm).2
    exact h.goto hcall ⟨hi,hwrote,u,hseen.symm.trans hv,ht⟩

private theorem Kept.findInvitationOf (h : s.Kept seeded) {v : GoogleIdentity} {u : User} {now : Int} {request : DoorRequest}
    (hreq : s.requests i = some (request, now)) (hcall : s.calls i = some (.findInvitationOf v k u))
    (hs : s.advance lib i now (.findInvitationOf v k u) = some s') : s'.Kept seeded := by
  obtain ⟨hi,hwrote,u₀,hu₀,ht₀⟩ := h.fits i _ hcall
  have hk : s.users.committed k ≠ none := by simp [hu₀]
  have helse : NoneElse (s.wrote i) := fun w hw => by rw [hwrote] at hw; cases hw
  have hseen : ∀ m, s.invitations.visible i m = s.invitations.committed m := fun m =>
    (h.invitation_seen fun r hm => by rw [hwrote] at hm; cases hm).2
  simp only [advance] at hs
  split at hs
  · rename_i hnone
    cases hs
    refine h.goto hcall ⟨hi,helse,hk,fun m r hr huser => ?_⟩
    -- an invitation of the User would be the tenant's, and found
    obtain ⟨u₁,hu₁,ht₁⟩ := h.ruled.seated m r hr
    rw [huser, hu₀] at hu₁
    cases hu₁
    have hmiss := Table.locate_none _ _ _ hnone ((hseen m).trans hr)
    simp [huser, ← ht₁, ht₀] at hmiss
  · rename_i m r hfound
    obtain ⟨hv,hp⟩ := Table.locate_some _ _ _ hfound
    have hr : s.invitations.committed m = some r := (hseen m).symm.trans hv
    have huser : r.userId = k := of_decide_eq_true (Bool.and_eq_true _ _ ▸ hp).2
    split at hs
    · rename_i hacc
      cases hs
      exact h.goto hcall ⟨hi,helse,h.cleared_of_lone hk hr huser (.inl (Option.isSome_iff_ne_none.mp hacc))⟩
    · split at hs
      · cases hs
        exact h.goto hcall fun _ _ _ => hwrote
      · rename_i haccept
        cases hs
        refine h.goto hcall ⟨hi,hwrote,hk,r,⟨r,hr,rfl,rfl⟩,huser,fun request' now' hreq' => ?_⟩
        cases hreq.symm.trans hreq'
        exact (classify_accept_iff.mp haccept).2

private theorem Kept.link (h : s.Kept seeded) {v : GoogleIdentity} {u : User} {now : Int}
    (hcall : s.calls i = some (.link v k u)) (hs : s.advance lib i now (.link v k u) = some s') : s'.Kept seeded := by
  obtain ⟨hi,helse,hcleared⟩ := h.fits i _ hcall
  have hnouser : ∀ u', .user k u' ∉ s.wrote i := fun u' hm => by
    obtain ⟨_,_,he⟩ := helse _ hm
    cases he
  have hnotoken : ∀ n r, .refreshToken n r ∉ s.wrote i := fun n r hm => by
    obtain ⟨_,_,he⟩ := helse _ hm
    cases he
  simp only [advance] at hs
  split at hs
  · split at hs
    · cases hs
      exact h.goto hcall trivial
    · split at hs
      · cases hs
      · obtain ⟨o,ho,rfl⟩ := Option.map_eq_some_iff.mp hs
        cases o with
        | none => exact h.goto hcall trivial
        | some p =>
          obtain ⟨t,u'⟩ := p
          obtain ⟨hown,hvis⟩ := h.user_seen hnouser
          obtain ⟨u₀,hfree,hv,hp,rfl,rfl⟩ := Table.updateById_some _ _ _ ho
          refine h.writeUser hcall rfl (h.users.update hfree hv hp hown) hown
            (.inr ⟨u₀,hvis.symm.trans hv,rfl,.inr ⟨hi,rfl⟩⟩) ⟨fun n r hm => ?_,hcleared.1,fun m r hr huser => ?_⟩
          · have hm : .refreshToken n r ∈ Function.update s.wrote i (s.wrote i ++ _) i := hm
            rw [Function.update_self, List.mem_append, List.mem_singleton] at hm
            rcases hm with hm | hm
            · exact hnotoken n r hm
            · cases hm
          · rcases hcleared.2 m r hr huser with ha | ⟨r',hm,ha⟩
            · exact .inl ha
            · refine .inr ⟨r',?_,ha⟩
              show _ ∈ Function.update s.wrote i (s.wrote i ++ _) i
              rw [Function.update_self]
              exact List.mem_append_left _ hm
  · cases hs
    exact h.goto hcall ⟨hnotoken,hcleared⟩

/-- The step lemma: every statement of every call keeps the books. -/
theorem Kept.advance (h : s.Kept seeded) {now : Int} {request : DoorRequest} (hreq : s.requests i = some (request, now))
    (hcall : s.calls i = some call) (hs : s.advance lib i now call = some s') : s'.Kept seeded := by
  have hfits := h.fits i call hcall
  cases call with
  | createUser v => exact h.createUser hcall hs
  | createInvitation v k => exact h.createInvitation hcall hs
  | findInvitation tenantId token password salt =>
    obtain ⟨hi,hwrote⟩ := hfits
    simp only [Doors.advance] at hs
    split at hs
    · cases hs
      exact h.goto hcall trivial
    · rename_i m r hfound
      have hr : s.invitations.committed m = some r :=
        (h.invitation_seen fun r hm => by rw [hwrote] at hm; cases hm).2.symm.trans (Table.locate_some _ _ _ hfound).1
      split at hs
      · cases hs
        exact h.goto hcall trivial
      · rename_i haccept
        cases hs
        refine h.goto hcall ⟨hi,hwrote,⟨r,hr,rfl,rfl⟩,fun request' now' hreq' => ?_⟩
        cases hreq.symm.trans hreq'
        exact (classify_accept_iff.mp haccept).2
  | hashPassword tenantId m invitation password salt =>
    cases hs
    exact h.goto hcall hfits
  | spend tenantId m invitation passwordHash =>
    obtain ⟨hi,hwrote,hseen,htime⟩ := hfits
    obtain ⟨t,token,password,salt,now',hreq'⟩ := id hi
    cases hreq.symm.trans hreq'
    refine h.spend hcall hreq trivial hwrote hseen (htime _ _ hreq) (show s.Fits i (.rollback refuse) from trivial)
      (fun t' r ht _ _ hw ha hu => ?_) (hs : s.spendInvitation i tenantId m now _ _ = some s')
    exact ⟨⟨t,token,password,salt,now,(congrFun ht i).trans hreq⟩,m,r,hw,ha,hu⟩
  | setPassword tenantId k passwordHash => exact h.setPassword hcall hs
  | findByEmail tenantId email password => exact h.findByEmail hcall hs
  | findBySubject v =>
    obtain ⟨hi,hwrote⟩ := hfits
    simp only [Doors.advance] at hs
    split at hs
    · cases hs
      exact h.goto hcall ⟨hi,hwrote⟩
    · rename_i k u hfound
      cases hs
      obtain ⟨hv,hp⟩ := Table.locate_some _ _ _ hfound
      exact h.recognised hcall hi hwrote hv (of_decide_eq_true (Bool.and_eq_true _ _ ▸ hp).1)
  | findByGoogleEmail v =>
    obtain ⟨hi,hwrote⟩ := hfits
    simp only [Doors.advance] at hs
    split at hs
    · cases hs
      exact h.goto hcall fun _ _ _ => hwrote
    · rename_i k u hfound
      cases hs
      obtain ⟨hv,hp⟩ := Table.locate_some _ _ _ hfound
      exact h.recognised hcall hi hwrote hv (of_decide_eq_true (Bool.and_eq_true _ _ ▸ hp).1)
  | findInvitationOf v k u => exact h.findInvitationOf hreq hcall hs
  | spendByGoogle v k u m =>
    obtain ⟨hi,hwrote,hk,invitation,hseen,huser,htime⟩ := hfits
    obtain ⟨v',now',hreq'⟩ := id hi
    cases hreq.symm.trans hreq'
    refine h.spend hcall hreq trivial hwrote hseen (htime _ _ hreq)
      (show s.Fits i (.commit refuseAuthentication) from fun _ _ _ => hwrote) (fun t r ht hu hv hw ha huid => ?_)
      (hs : s.spendInvitation i v.tenantId m now _ _ = some s')
    obtain ⟨r₀,hr₀,huid₀,_⟩ := hseen
    refine ⟨⟨v',now,(congrFun ht i).trans hreq⟩,fun w hmem => ?_,?_⟩
    · rw [hw] at hmem
      exact ⟨m,r,List.mem_singleton.mp hmem⟩
    · have hc : s.Cleared (t.wrote i) k := h.cleared_of_lone hk hr₀ (huid₀.trans huser) (.inr ⟨r,by simp [hw],ha⟩)
      unfold Cleared
      rw [hu, hv]
      exact hc
  | link v k u => exact h.link hcall hs
  | issue tenantId k role =>
    obtain ⟨hnotoken,hcleared⟩ := hfits
    cases hs
    exact h.writeRefreshToken hcall rfl (h.refreshTokens.insert i _) (hnotoken _ _) rfl hcleared (fun _ _ he => by cases he)
  | commit answer =>
    cases hs
    refine (h.commit hcall).answer (Function.update_self ..) (h.requested i _ hcall) fun code message he w hw => ?_
    rcases List.mem_append.mp (show (i, w) ∈ s.log ++ (s.wrote i).map (i, ·) from hw) with hw | hw
    · cases (h.ended i w hw).1.symm.trans hcall
    · rw [hfits code message he] at hw
      cases hw
  | rollback answer =>
    cases hs
    refine (h.rollback hcall).answer (Function.update_self ..) (h.requested i _ hcall) fun code message he w hw => ?_
    cases (h.ended i w hw).1.symm.trans hcall

theorem kept_initial (seeded : List User) : (initial seeded : Doors ι).Kept seeded where
  users _ _ _ := by simp [initial, Table.own, Table.ofList]
  invitations _ _ _ := by simp [initial, Table.own, Table.empty]
  refreshTokens _ _ _ := by simp [initial, Table.own, Table.empty]
  usersLogged _ := rfl
  invitationsLogged _ := rfl
  refreshTokensLogged _ := rfl
  idle _ _ := rfl
  requested _ _ h := by cases h
  lawful _ := lawful_nil rfl
  fits _ _ h := by cases h
  ended _ _ h := by cases h
  answered _ _ h := by cases h
  refused _ _ _ h := by cases h
  unchanged l₁ _ _ _ _ h := by simp [initial] at h
  ruled := by
    refine ⟨fun _ _ _ h => (by cases h),fun _ => Nat.zero_le _,fun _ _ _ h => (by cases h),fun _ _ _ _ _ _ h => (by cases h),
      fun _ _ h => (by cases h),fun _ _ _ _ h => (by cases h),fun l₁ _ _ _ _ h => ?_,fun _ => Nat.zero_le _,
      fun _ _ _ h => (by cases h)⟩
    simp [initial] at h

private theorem Kept.begin (h : s.Kept seeded) {request : DoorRequest} (hfree : s.requests i = none) :
    Kept seeded { s.goto i request.start with requests := Function.update s.requests i (some (request, s.clock)) } := by
  have hidle : s.calls i = none := by
    cases hc : s.calls i with
    | none => rfl
    | some call => exact absurd hfree (h.requested i call hc)
  have hwrote := h.idle i hidle
  have hne : ∀ j, s.requests j ≠ none → j ≠ i := by
    rintro j hj rfl
    exact hj hfree
  have hbeside : ∀ j, j ≠ i →
      Beside s { s.goto i request.start with requests := Function.update s.requests i (some (request, s.clock)) } j :=
    fun j hj => .same rfl (Function.update_of_ne hj _ _) rfl rfl
  refine ⟨h.users,h.invitations,h.refreshTokens,h.usersLogged,h.invitationsLogged,h.refreshTokensLogged,?_,?_,?_,?_,?_,?_,
    h.refused,?_,h.ruled.same rfl rfl rfl fun e he => ?_⟩
  · intro j hj
    by_cases hji : j = i
    · subst hji
      exact hwrote
    · exact h.idle j ((Function.update_of_ne hji _ _).symm.trans hj)
  · intro j call hj
    by_cases hji : j = i
    · subst hji
      simp
    · simpa [hji] using h.requested j call ((Function.update_of_ne hji _ _).symm.trans hj)
  · intro j
    by_cases hji : j = i
    · subst hji
      exact lawful_nil hwrote
    · exact (hbeside j hji).lawful (h.lawful j)
  · intro j call hj
    by_cases hji : j = i
    · subst hji
      cases (Function.update_self ..).symm.trans hj
      cases request with
      | invite v => exact ⟨⟨v,s.clock,Function.update_self ..⟩,hwrote⟩
      | accept t token password salt => exact ⟨⟨t,token,password,salt,s.clock,Function.update_self ..⟩,hwrote⟩
      | signIn t email password => exact hwrote
      | signInWithGoogle v => exact ⟨⟨v,s.clock,Function.update_self ..⟩,hwrote⟩
    · exact (hbeside j hji).fits (h.fits j call ((Function.update_of_ne hji _ _).symm.trans hj))
  · intro j w hw
    obtain ⟨hc,hr⟩ := h.ended j w hw
    have hji := hne j hr
    exact ⟨(Function.update_of_ne hji _ _).trans hc,by simpa [hji] using hr⟩
  · intro j a ha
    obtain ⟨hc,hr⟩ := h.answered j a ha
    have hji := hne j hr
    exact ⟨(Function.update_of_ne hji _ _).trans hc,by simpa [hji] using hr⟩
  · intro l₁ l₂ j k u he hj
    have hlog : s.log = l₁ ++ (j, .user k u) :: l₂ := he
    have hji := hne j (h.ended j (.user k u) (by simp [hlog])).2
    exact h.unchanged l₁ l₂ j k u hlog fun ha => hj ((hbeside j hji).isAccept ha)
  · exact Function.update_of_ne (hne e.1 (h.ended e.1 e.2 he).2) _ _

theorem Kept.step (h : s.Kept seeded) {a : DoorAction ι} (hs : s.step lib a = some s') : s'.Kept seeded := by
  cases a with
  | tick now =>
    simp only [Doors.step] at hs
    split at hs
    · cases hs
      have hbeside : ∀ j, Beside s { s with clock := now } j := fun j => .same rfl rfl rfl rfl
      exact ⟨h.users,h.invitations,h.refreshTokens,h.usersLogged,h.invitationsLogged,h.refreshTokensLogged,h.idle,h.requested,
        fun j => (hbeside j).lawful (h.lawful j),fun j call hj => (hbeside j).fits (h.fits j call hj),h.ended,h.answered,
        h.refused,h.unchanged,h.ruled.same rfl rfl rfl fun _ _ => rfl⟩
    · cases hs
  | begin i request =>
    simp only [Doors.step] at hs
    split at hs
    · rename_i hfree
      cases hs
      exact h.begin hfree
    · cases hs
  | advance i =>
    obtain ⟨⟨request,now⟩,hreq,hs⟩ := Option.bind_eq_some_iff.mp hs
    obtain ⟨call,hcall,hs⟩ := Option.bind_eq_some_iff.mp hs
    exact h.advance hreq hcall hs
  | abort i =>
    obtain ⟨call,hcall,rfl⟩ := Option.map_eq_some_iff.mp hs
    exact (h.rollback hcall).answer (Function.update_self ..) (h.requested i _ hcall) fun _ _ he => by cases he
  | lose i =>
    simp only [Doors.step] at hs
    split at hs
    · rename_i answer hcall
      cases hs
      exact h.commit hcall
    · cases hs

end Steps

/-- The books of the doors. Each entry of the log is a committed write, with its call; the log is
all there is to the tables. -/
structure OneDoor (seeded : List User) (s : Doors ι) : Prop where
  /-- An invitation is spent at most once, -/
  spentOnce : ∀ m, s.log.countP (fun e => DoorWrite.spends m e.2) ≤ 1
  /-- by a call to one of the two doors that began before it expired. -/
  spentInTime : ∀ i m r, (i, .invitation m r) ∈ s.log → r.acceptedAt ≠ none →
    ∃ request began, s.requests i = some (request, began) ∧ Opens request ∧ began < r.expiresAt
  setOnce : ∀ k, s.log.countP (s.setsPassword k) ≤ 1
  setBySpender : ∀ i k u, (i, .user k u) ∈ s.log → s.IsAccept i →
    ∃ m r, (i, .invitation m r) ∈ s.log ∧ r.acceptedAt ≠ none ∧ r.userId = k
  /-- Nobody else touches a password. -/
  unchanged : ∀ l₁ l₂ i k u, s.log = l₁ ++ (i, .user k u) :: l₂ → ¬ s.IsAccept i →
    u.passwordHash = (lastUser seeded l₁ k).bind (·.passwordHash)
  /-- A session of an invited User comes after the spend of the invitation. -/
  session : ∀ l₁ l₂ i n r k, s.log = l₁ ++ (i, .refreshToken n r) :: l₂ → r.userId = some k →
    ∀ j m r', (j, .invitation m r') ∈ s.log → r'.userId = k → ∃ j' r'', (j', .invitation m r'') ∈ l₁ ∧ r''.acceptedAt ≠ none
  /-- A refused call has written nothing. -/
  refused : ∀ i code message, (i, .refused code message) ∈ s.answers → s.wrote i = [] ∧ ∀ w, (i, w) ∉ s.log
  users : Recorded userColumn (fun k => seeded[k]?) s.users s.log
  invitations : Recorded invitationColumn (fun _ => none) s.invitations s.log
  refreshTokens : Recorded refreshTokenColumn (fun _ => none) s.refreshTokens s.log

/-- An invitation is the only door and opens once, in every interleaving of invitations, acceptances
and sign-ins. -/
theorem oneDoor_of_run {lib : Library} {seeded : List User} {acts : List (DoorAction ι)}
    (hr : Run (step lib) Always (initial seeded) acts s) : s.OneDoor seeded := by
  have h : s.Kept seeded := hr.invariant (kept_initial seeded) fun _ _ _ h _ hs => h.step hs
  refine ⟨h.ruled.once,h.ruled.inTime,h.ruled.setOnce,h.ruled.setBySpender,h.unchanged,?_,?_,h.usersLogged,
    h.invitationsLogged,h.refreshTokensLogged⟩
  · intro l₁ l₂ i n r k he hk j m r' hm hu
    obtain ⟨k',hk',_,hall⟩ := h.ruled.session l₁ l₂ i n r he
    cases hk.symm.trans hk'
    obtain ⟨r₀,hr₀,hu₀,_⟩ := h.ruled.logged j m r' hm
    exact hall m r₀ hr₀ (hu₀.trans hu)
  · intro i code message ha
    exact ⟨h.idle i (h.answered i _ ha).1,h.refused i code message ha⟩

def plainLibrary : Library where
  argon2Hash password salt := password ++ toString salt
  argon2Verify hash password := password.toList.isPrefixOf hash.toList
  toLowerCase email := email

def newcomer : Invitee := ⟨7, 0, "new@acme.test", "New", .agent, 5⟩

def newcomerAtGoogle : GoogleIdentity := ⟨7, "g-1", "new@acme.test"⟩

/-- Two acceptances and a Google sign-in meet after their reads. One acceptance wins, and the password
it sets signs in. -/
def rush : List (DoorAction Nat) :=
  [.begin 0 (.invite newcomer), .advance 0, .advance 0, .advance 0,
   .begin 1 (.accept 7 5 "correct horse" 1), .begin 2 (.accept 7 5 "battery staple" 2), .advance 1, .advance 2,
   .begin 3 (.signInWithGoogle newcomerAtGoogle), .advance 3, .advance 3, .advance 3,
   .begin 4 (.signIn 7 "new@acme.test" "correct horse"), .advance 4, .advance 4,
   .advance 1, .advance 2, .advance 1, .advance 1, .advance 1, .advance 3, .advance 3, .advance 2, .advance 2,
   .begin 5 (.signIn 7 "new@acme.test" "correct horse"), .advance 5, .advance 5, .advance 5]

theorem oneDoor_of_rush :
    ∃ s, Run (step plainLibrary) Always (initial []) rush s ∧ s.OneDoor [] ∧
      s.answers = [(0, .issued 0 0 5), (4, refuseAuthentication), (1, .accepted), (3, refuseAuthentication), (2, refuse),
        (5, .session 0 .agent 0)] := by
  have hrun : (exec (step plainLibrary) Always (initial []) rush).any
      (fun s => s.answers = [(0, .issued 0 0 5), (4, refuseAuthentication), (1, .accepted), (3, refuseAuthentication),
        (2, refuse), (5, .session 0 .agent 0)]) = true := by decide +kernel
  obtain ⟨s,hs,ha⟩ := exec_any hrun
  exact ⟨s,hs,oneDoor_of_run hs,of_decide_eq_true ha⟩

end Nivara.Auth.Doors
