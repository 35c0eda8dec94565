import Nivara.Auth.OneDoor

/-! A Google account is linked to a User by an `UPDATE` that does not look at the row again. What was read
may be stale by then: the link stays as it is, unless another one was committed in between. -/
namespace Nivara.Auth.Doors
open Transactions

variable {ι : Type} [DecidableEq ι] {s s' : Doors ι} {i j : ι} {k m n : Uuid} {x : String}

/-! ## What is linked -/

omit [DecidableEq ι] in
def subjectOf (s : Doors ι) (k : Uuid) : Option String := (s.users.committed k).bind (·.googleSubject)

def subjectSeen (s : Doors ι) (i : ι) (k : Uuid) : Option String := (s.users.visible i k).bind (·.googleSubject)

omit [DecidableEq ι] in
def SignsIn (s : Doors ι) (i : ι) (v : GoogleIdentity) : Prop := ∃ now, s.requests i = some (.signInWithGoogle v, now)

def relinks (s : Doors ι) (i : ι) : DoorCall → Bool
  | .link v k user => user.googleSubject.all (· = "") &&
      (s.users.visible i k).any fun r => r.tenantId = v.tenantId && r.googleSubject.any (· ≠ v.subject)
  | _ => false

/-- No step writes a link over another one. -/
def linkOk (s : Doors ι) : DoorAction ι → Prop
  | .advance i => (s.calls i).all (fun call => !s.relinks i call) = true
  | _ => True

instance (s : Doors ι) (a : DoorAction ι) : Decidable (s.linkOk a) := by
  cases a <;> unfold linkOk <;> infer_instance

def SubjectsStay (t : Table ι User) : Prop :=
  ∀ i k r r' x, t.committed k = some r → r.googleSubject = some x → t.own i k = some r' → r'.googleSubject = some x

def ReadFor (s : Doors ι) (i : ι) (v : GoogleIdentity) (k : Uuid) (user : User) : Prop :=
  s.SignsIn i v ∧ ∀ x, user.googleSubject = some x → x = "" ∨ (x = v.subject ∧ s.subjectSeen i k = some v.subject)

def Linked (s : Doors ι) (i : ι) : DoorCall → Prop
  | .findByEmail _ _ _ => ∀ v, ¬ s.SignsIn i v
  | .findBySubject v => s.SignsIn i v
  | .findByGoogleEmail v => s.SignsIn i v
  | .findInvitationOf v k user => s.ReadFor i v k user
  | .spendByGoogle v k user _ => s.ReadFor i v k user
  | .link v k user => s.ReadFor i v k user
  | .issue _ k _ => ∀ v, s.SignsIn i v → s.subjectSeen i k = some v.subject
  | .commit answer => ∀ v k role token, s.SignsIn i v → answer = .session k role token → s.subjectSeen i k = some v.subject
  | .rollback answer => ∀ k role token, answer ≠ .session k role token
  | _ => True

/-- Every session of a Google sign-in, at any stage, is for a User with its link. -/
structure Bound (s : Doors ι) : Prop where
  stay : SubjectsStay s.users
  linked : ∀ i call, s.calls i = some call → s.Linked i call
  wrote : ∀ i v n r, s.SignsIn i v → .refreshToken n r ∈ s.wrote i →
    ∃ k, r.userId = some k ∧ s.subjectSeen i k = some v.subject
  logged : ∀ i v n r, s.SignsIn i v → (i, .refreshToken n r) ∈ s.log → ∃ k, r.userId = some k ∧ s.subjectOf k = some v.subject
  answered : ∀ i v k role token, s.SignsIn i v → (i, .session k role token) ∈ s.answers → s.subjectOf k = some v.subject

/-! ## What a step leaves of the links -/

def Onward (s s' : Doors ι) (j : ι) : Prop := ∀ k x, s.subjectSeen j k = some x → s'.subjectSeen j k = some x

theorem subjectSeen_some : s.subjectSeen i k = some x ↔ ∃ u, s.users.visible i k = some u ∧ u.googleSubject = some x :=
  Option.bind_eq_some_iff

omit [DecidableEq ι] in
theorem subjectOf_some : s.subjectOf k = some x ↔ ∃ u, s.users.committed k = some u ∧ u.googleSubject = some x :=
  Option.bind_eq_some_iff

/-- A call that has not written the User sees what is committed. -/
private theorem seen_of_no_own (h : s.users.own i k = none) : s.subjectSeen i k = s.subjectOf k := by
  unfold subjectSeen subjectOf
  rw [Table.visible_of_no_own _ _ _ h]

/-- Its own versions are left to the call, and no committed link goes away. -/
private theorem Onward.of_others (hown : ∀ k, s'.users.own j k = s.users.own j k)
    (hstay : ∀ k x, s.subjectOf k = some x → s'.subjectOf k = some x) : Onward s s' j := by
  intro k x hx
  cases ho : s.users.own j k with
  | none =>
    rw [seen_of_no_own ho] at hx
    rw [seen_of_no_own ((hown k).trans ho)]
    exact hstay k x hx
  | some u =>
    obtain ⟨u',hu',hx⟩ := subjectSeen_some.mp hx
    cases (Table.visible_of_own _ _ _ ho).symm.trans hu'
    exact subjectSeen_some.mpr ⟨u,Table.visible_of_own _ _ _ ((hown k).trans ho),hx⟩

private theorem Linked.onward {call : DoorCall} (hrequests : s'.requests i = s.requests i) (h : Onward s s' i)
    (hl : s.Linked i call) : s'.Linked i call := by
  have hsigns : ∀ v, s'.SignsIn i v ↔ s.SignsIn i v := by
    intro v
    unfold SignsIn
    rw [hrequests]
  have hread : ∀ v k user, s.ReadFor i v k user → s'.ReadFor i v k user := by
    rintro v k user ⟨hv,hu⟩
    exact ⟨(hsigns v).mpr hv,fun x hx => (hu x hx).imp_right fun ⟨hx,hs⟩ => ⟨hx,h k _ hs⟩⟩
  cases call with
  | findByEmail _ _ _ => exact fun v hv => hl v ((hsigns v).mp hv)
  | findBySubject v => exact (hsigns v).mpr hl
  | findByGoogleEmail v => exact (hsigns v).mpr hl
  | findInvitationOf v k user => exact hread v k user hl
  | spendByGoogle v k user _ => exact hread v k user hl
  | link v k user => exact hread v k user hl
  | issue _ k _ => exact fun v hv => h k _ (hl v ((hsigns v).mp hv))
  | commit answer => exact fun v k role token hv ha => h k _ (hl v k role token ((hsigns v).mp hv) ha)
  | rollback answer => exact hl
  | createUser _ => trivial
  | createInvitation _ _ => trivial
  | findInvitation _ _ _ _ => trivial
  | hashPassword _ _ _ _ _ => trivial
  | spend _ _ _ _ => trivial
  | setPassword _ _ _ => trivial

/-- A step after which the sessions are bound again, and that takes no committed link away. -/
structure Binds (s s' : Doors ι) : Prop where
  bound : s'.Bound
  stays : ∀ k x, s.subjectOf k = some x → s'.subjectOf k = some x

private theorem Bound.local (h : s.Bound) {next : DoorCall} (hcalls : s'.calls = Function.update s.calls i (some next))
    (hrequests : s'.requests = s.requests) (hlog : s'.log = s.log) (hanswers : s'.answers = s.answers)
    (hcommitted : s'.users.committed = s.users.committed) (hwrote : ∀ j, j ≠ i → s'.wrote j = s.wrote j)
    (hstay : SubjectsStay s'.users) (honward : ∀ j, Onward s s' j) (hnext : s'.Linked i next)
    (hnew : ∀ v n r, s.SignsIn i v → .refreshToken n r ∈ s'.wrote i →
      .refreshToken n r ∈ s.wrote i ∨ ∃ k, r.userId = some k ∧ s'.subjectSeen i k = some v.subject) : Binds s s' := by
  have hsigns : ∀ j v, s'.SignsIn j v → s.SignsIn j v := by
    intro j v hv
    unfold SignsIn at hv
    rwa [hrequests] at hv
  have hsubject : s'.subjectOf = s.subjectOf := by
    funext k
    unfold subjectOf
    rw [hcommitted]
  refine ⟨⟨hstay,?_,?_,?_,?_⟩,fun k x hx => by rw [hsubject, hx]⟩
  · intro j call hj
    by_cases hji : j = i
    · subst hji
      rw [hcalls, Function.update_self] at hj
      cases hj
      exact hnext
    · rw [hcalls, Function.update_of_ne hji] at hj
      exact (h.linked j call hj).onward (congrFun hrequests j) (honward j)
  · intro j v n r hv hm
    by_cases hji : j = i
    · subst hji
      rcases hnew v n r (hsigns j v hv) hm with hm | hk
      · obtain ⟨k,hk,hx⟩ := h.wrote j v n r (hsigns j v hv) hm
        exact ⟨k,hk,honward j k _ hx⟩
      · exact hk
    · rw [hwrote j hji] at hm
      obtain ⟨k,hk,hx⟩ := h.wrote j v n r (hsigns j v hv) hm
      exact ⟨k,hk,honward j k _ hx⟩
  · rw [hlog, hsubject]
    exact fun j v n r hv => h.logged j v n r (hsigns j v hv)
  · rw [hanswers, hsubject]
    exact fun j v k role token hv => h.answered j v k role token (hsigns j v hv)

private theorem Bound.goto (h : s.Bound) {next : DoorCall} (hnext : s.Linked i next) : Binds s (s.goto i next) :=
  h.local rfl rfl rfl rfl rfl (fun _ _ => rfl) h.stay (fun _ _ _ hx => hx)
    (show (s.goto i next).Linked i next from hnext.onward rfl fun _ _ hx => hx) fun _ _ _ _ hm => .inl hm

private theorem Bound.writeInvitation (h : s.Bound) {invitations : Table ι StaffInvitation} {r : StaffInvitation} {next : DoorCall}
    (hnext : s.Linked i next) : Binds s (s.writeInvitation i invitations m r next) := by
  refine h.local rfl rfl rfl rfl rfl (fun j hj => Function.update_of_ne hj _ _) h.stay (fun _ _ _ hx => hx)
    (show (s.writeInvitation i invitations m r next).Linked i next from hnext.onward rfl fun _ _ hx => hx) fun v n' r' _ hm => .inl ?_
  have hm : .refreshToken n' r' ∈ Function.update s.wrote i (s.wrote i ++ [.invitation m r]) i := hm
  rw [Function.update_self, List.mem_append, List.mem_singleton] at hm
  exact hm.resolve_right fun he => by cases he

private theorem Bound.spend (h : s.Bound) {tenantId : Uuid} {now : Int} {next missed : DoorCall} (hnext : s.Linked i next)
    (hmissed : s.Linked i missed) (hs : s.spendInvitation i tenantId m now next missed = some s') : Binds s s' := by
  obtain ⟨o,_,rfl⟩ := Option.map_eq_some_iff.mp hs
  cases o with
  | none => exact h.goto hmissed
  | some p => exact h.writeInvitation hnext

private theorem Bound.writeUser (h : s.Bound) {users : Table ι User} {row : User} {next : DoorCall}
    (hcommitted : users.committed = s.users.committed) (hstay : SubjectsStay users)
    (honward : ∀ j, Onward s (s.writeUser i users k row next) j) (hnext : (s.writeUser i users k row next).Linked i next) :
    Binds s (s.writeUser i users k row next) := by
  refine h.local rfl rfl rfl rfl hcommitted (fun j hj => Function.update_of_ne hj _ _) hstay honward hnext fun v n' r' _ hm => .inl ?_
  have hm : .refreshToken n' r' ∈ Function.update s.wrote i (s.wrote i ++ [.user k row]) i := hm
  rw [Function.update_self, List.mem_append, List.mem_singleton] at hm
  exact hm.resolve_right fun he => by cases he

private theorem Bound.updateUser (h : s.Bound) {p : User → Bool} {f : User → User} {users : Table ι User} {row : User}
    {next : DoorCall} (ho : s.users.updateById i k p f = some (some (users, row)))
    (hf : ∀ r x, s.users.visible i k = some r → p r = true → r.googleSubject = some x → (f r).googleSubject = some x)
    (hnext : (s.writeUser i users k row next).Linked i next) : Binds s (s.writeUser i users k row next) := by
  obtain ⟨r,hfree,hv,hp,rfl,rfl⟩ := Table.updateById_some _ _ _ ho
  have hcases : ∀ j k' r', (s.users.write i [k] p f).own j k' = some r' →
      (j = i ∧ k' = k ∧ r' = f r) ∨ s.users.own j k' = some r' := by
    intro j k' r' hr'
    by_cases hji : j = i
    · subst hji
      rcases Table.own_write_cases _ _ _ hr' with ⟨r₀,hk,hr₀,_,rfl⟩ | hr'
      · cases List.mem_singleton.mp hk
        cases hv.symm.trans hr₀
        exact .inl ⟨rfl,rfl,rfl⟩
      · exact .inr hr'
    · exact .inr ((Table.own_write_other _ _ _ _ hji hfree).symm.trans hr')
  refine h.writeUser rfl ?_ ?_ hnext
  · intro j k' r₀ r' x hr₀ hx hr'
    rcases hcases j k' r' hr' with ⟨rfl,rfl,rfl⟩ | hr'
    · refine hf r x hv hp ?_
      -- the version written upon is the committed one, or an earlier one of the same call
      rcases Table.visible_cases _ _ _ hv with hown | ⟨_,hc⟩
      · exact h.stay j k' r₀ r x hr₀ hx hown
      · cases hr₀.symm.trans hc
        exact hx
    · exact h.stay j k' r₀ r' x hr₀ hx hr'
  · intro j
    by_cases hji : j = i
    · subst hji
      intro k' x hx
      obtain ⟨u,hu,hx⟩ := subjectSeen_some.mp hx
      by_cases hk : k' = k
      · subst hk
        cases hv.symm.trans hu
        exact subjectSeen_some.mpr ⟨f r,Table.visible_of_own _ _ _
          (Table.own_write_picked _ _ _ (List.mem_singleton_self k') hv hp),hf r x hv hp hx⟩
      · have hsame : (s.users.write j [k] p f).visible j k' = s.users.visible j k' := by
          unfold Table.visible
          rw [Table.own_write_self, if_neg (by simpa using hk)]
          rfl
        exact subjectSeen_some.mpr ⟨u,hsame.trans hu,hx⟩
    · exact .of_others (fun k' => Table.own_write_other _ _ _ _ hji hfree) fun _ _ hx => hx

private theorem Bound.createUser (h : s.Bound) {row : User} {next : DoorCall}
    (hnext : (s.writeUser i (s.users.insert i row) s.users.size row next).Linked i next) :
    Binds s (s.writeUser i (s.users.insert i row) s.users.size row next) := by
  refine h.writeUser rfl ?_ ?_ hnext
  · intro j k r r' x hr hx hr'
    rcases Table.own_insert_cases _ _ _ _ hr' with ⟨rfl,_,_⟩ | hr'
    · have hfresh := s.users.committed_fresh s.users.size (Nat.le_refl _)
      cases hfresh.symm.trans hr
    · exact h.stay j k r r' x hr hx hr'
  · intro j k x hx
    obtain ⟨u,hu,hx⟩ := subjectSeen_some.mp hx
    refine subjectSeen_some.mpr ⟨u,?_,hx⟩
    have hne : k ≠ s.users.size := Nat.ne_of_lt (Table.lt_size_of_visible _ _ _ hu)
    show ((s.users.insert i row).own j k).or (s.users.committed k) = some u
    rw [Table.own_insert, if_neg hne]
    exact hu

/-- A commit takes no link away, and leaves the others their versions. -/
private theorem Bound.subjectOf_commit (h : s.Bound) (i : ι) (hx : s.subjectOf k = some x) : (s.committed i).subjectOf k = some x := by
  obtain ⟨u,hu,hx⟩ := subjectOf_some.mp hx
  cases ho : s.users.own i k with
  | none => exact subjectOf_some.mpr ⟨u,(Table.visible_of_no_own _ _ _ ho).trans hu,hx⟩
  | some u' => exact subjectOf_some.mpr ⟨u',Table.visible_of_own _ _ _ ho,h.stay i k u u' x hu hx ho⟩

private theorem Bound.commit (h : s.Bound) (i : ι) : (s.committed i).Bound := by
  have honward : ∀ j, j ≠ i → Onward s (s.committed i) j := fun j hj =>
    .of_others (fun k => Table.own_commit_other _ _ _ _ hj) fun k x hx => h.subjectOf_commit i hx
  refine ⟨?_,?_,?_,?_,?_⟩
  · intro j k r r' x hr hx hr'
    have hji : j ≠ i := by
      rintro rfl
      cases (Table.own_commit_self s.users j k).symm.trans hr'
    have hr' : s.users.own j k = some r' := (Table.own_commit_other _ _ _ _ hji).symm.trans hr'
    have hr : s.users.visible i k = some r := hr
    rw [Table.visible_of_no_own _ _ _ (Table.own_exclusive _ _ _ _ hr' (Ne.symm hji))] at hr
    exact h.stay j k r r' x hr hx hr'
  · intro j call hj
    have hji : j ≠ i := by
      rintro rfl
      cases (Function.update_self ..).symm.trans hj
    exact (h.linked j call ((Function.update_of_ne hji _ _).symm.trans hj)).onward (s := s) rfl (honward j hji)
  · intro j v n r hv hm
    have hm : .refreshToken n r ∈ Function.update s.wrote i [] j := hm
    have hji : j ≠ i := by
      rintro rfl
      rw [Function.update_self] at hm
      cases hm
    rw [Function.update_of_ne hji] at hm
    obtain ⟨k,hk,hx⟩ := h.wrote j v n r hv hm
    exact ⟨k,hk,honward j hji k _ hx⟩
  · intro j v n r hv hm
    rcases List.mem_append.mp (show (j, .refreshToken n r) ∈ s.log ++ (s.wrote i).map (i, ·) from hm) with hm | hm
    · obtain ⟨k,hk,hx⟩ := h.logged j v n r hv hm
      exact ⟨k,hk,h.subjectOf_commit i hx⟩
    · obtain ⟨w,hw,he⟩ := List.mem_map.mp hm
      cases he
      -- what the call saw is what is committed now
      exact h.wrote i v n r hv hw
  · intro j v k role token hv hm
    exact h.subjectOf_commit i (h.answered j v k role token hv hm)

private theorem Bound.rollback (h : s.Bound) (i : ι) : (s.rolledBack i).Bound := by
  have honward : ∀ j, j ≠ i → Onward s (s.rolledBack i) j := fun j hj =>
    .of_others (fun k => Table.own_rollback_other _ _ _ _ hj) fun _ _ hx => hx
  refine ⟨?_,?_,?_,h.logged,h.answered⟩
  · intro j k r r' x hr hx hr'
    have hji : j ≠ i := by
      rintro rfl
      cases (Table.own_rollback_self s.users j k).symm.trans hr'
    exact h.stay j k r r' x hr hx ((Table.own_rollback_other _ _ _ _ hji).symm.trans hr')
  · intro j call hj
    have hji : j ≠ i := by
      rintro rfl
      cases (Function.update_self ..).symm.trans hj
    exact (h.linked j call ((Function.update_of_ne hji _ _).symm.trans hj)).onward (s := s) rfl (honward j hji)
  · intro j v n r hv hm
    have hm : .refreshToken n r ∈ Function.update s.wrote i [] j := hm
    have hji : j ≠ i := by
      rintro rfl
      rw [Function.update_self] at hm
      cases hm
    rw [Function.update_of_ne hji] at hm
    obtain ⟨k,hk,hx⟩ := h.wrote j v n r hv hm
    exact ⟨k,hk,honward j hji k _ hx⟩

private theorem Bound.answer (h : s.Bound) {answer : DoorAnswer} (hlinked : ∀ v k role token, s.SignsIn i v →
    answer = .session k role token → s.subjectOf k = some v.subject) : (s.answered i answer).Bound := by
  refine ⟨h.stay,fun j call hj => (h.linked j call hj).onward rfl fun _ _ hx => hx,h.wrote,h.logged,?_⟩
  intro j v k role token hv hm
  rcases List.mem_append.mp hm with hm | hm
  · exact h.answered j v k role token hv hm
  · cases List.mem_singleton.mp hm
    exact hlinked v k role token hv rfl

/-! ## Every statement -/
section Statements
variable {lib : Library} {call : DoorCall}

private theorem linked_refused {code message : String} : s.Linked i (.commit (.refused code message)) :=
  fun _ _ _ _ _ ha => by cases ha

private theorem linked_rollback {answer : DoorAnswer} (h : ∀ k role token, answer ≠ .session k role token) :
    s.Linked i (.rollback answer) := h

private theorem Bound.recognised (h : s.Bound) {v : GoogleIdentity} {u : User} (hv : s.SignsIn i v)
    (hu : s.users.visible i k = some u) : Binds s (s.recognised i v k u) := by
  unfold Doors.recognised
  split
  · exact h.goto linked_refused
  · rename_i hother
    refine h.goto ⟨hv,fun x hx => ?_⟩
    by_cases hempty : x = ""
    · exact .inl hempty
    · have hsubject : x = v.subject := by
        by_contra hne
        simp [hx, hempty, hne] at hother
      exact .inr ⟨hsubject,subjectSeen_some.mpr ⟨u,hu,hsubject ▸ hx⟩⟩

private theorem Bound.findInvitationOf (h : s.Bound) {v : GoogleIdentity} {u : User} {now : Int}
    (hread : s.ReadFor i v k u) (hs : s.advance lib i now (.findInvitationOf v k u) = some s') : Binds s s' := by
  simp only [advance] at hs
  split at hs
  · cases hs
    exact h.goto (show s.Linked i (.link v k u) from hread)
  · split at hs
    · cases hs
      exact h.goto (show s.Linked i (.link v k u) from hread)
    · split at hs
      · cases hs
        exact h.goto linked_refused
      · cases hs
        exact h.goto (show s.Linked i (.spendByGoogle v k u _) from hread)

/-- The link: the User is not linked yet, or linked to the same account. -/
private theorem Bound.link (h : s.Bound) {v : GoogleIdentity} {u : User} {now : Int} (hread : s.ReadFor i v k u)
    (hok : s.relinks i (.link v k u) = false) (hs : s.advance lib i now (.link v k u) = some s') : Binds s s' := by
  have hsame : ∀ v', s.SignsIn i v' → v' = v := by
    rintro v' ⟨_,hv'⟩
    obtain ⟨_,hv⟩ := hread.1
    cases hv.symm.trans hv'
    rfl
  simp only [advance] at hs
  split at hs
  · rename_i hunlinked
    split at hs
    · cases hs
      exact h.goto (linked_rollback fun _ _ _ he => by cases he)
    · split at hs
      · cases hs
      · obtain ⟨o,ho,rfl⟩ := Option.map_eq_some_iff.mp hs
        cases o with
        | none => exact h.goto (linked_rollback fun _ _ _ he => by cases he)
        | some p =>
          obtain ⟨t,row⟩ := p
          refine h.updateUser ho (fun r x hr hp hx => ?_) fun v' hv' => ?_
          · by_contra hne
            have hne : x ≠ v.subject := fun he => hne (congrArg some he.symm)
            have hp : r.tenantId = v.tenantId := of_decide_eq_true hp
            simp [relinks, hunlinked, hr, hp, hx, hne] at hok
          · cases hsame v' hv'
            obtain ⟨r,_,hv,hp,rfl,rfl⟩ := Table.updateById_some _ _ _ ho
            exact subjectSeen_some.mpr ⟨_,Table.visible_of_own _ _ _
              (Table.own_write_picked _ _ _ (List.mem_singleton_self k) hv hp),rfl⟩
  · rename_i hlinked
    cases hs
    refine h.goto fun v' hv' => ?_
    cases hsame v' hv'
    cases hx : u.googleSubject with
    | none => simp [hx] at hlinked
    | some x =>
      rcases hread.2 x hx with rfl | ⟨_,hseen⟩
      · simp [hx] at hlinked
      · exact hseen

private theorem Bound.issue (h : s.Bound) {tenantId : Uuid} {role : UserRole} {now : Int}
    (hlinked : s.Linked i (.issue tenantId k role)) (hs : s.advance lib i now (.issue tenantId k role) = some s') : Binds s s' := by
  cases hs
  refine h.local rfl rfl rfl rfl rfl (fun j hj => Function.update_of_ne hj _ _) h.stay (fun _ _ _ hx => hx) ?_ ?_
  · intro v k' role' token hv ha
    cases ha
    exact hlinked v hv
  · intro v n r hv hm
    have hm : .refreshToken n r ∈ Function.update s.wrote i (s.wrote i ++ _) i := hm
    rw [Function.update_self, List.mem_append, List.mem_singleton] at hm
    rcases hm with hm | he
    · exact .inl hm
    · cases he
      exact .inr ⟨k,rfl,hlinked v hv⟩

/-- The step lemma: a statement that writes no link over another keeps the links. -/
private theorem Bound.advance (h : s.Bound) {now : Int} (hcall : s.calls i = some call) (hok : s.relinks i call = false)
    (hs : s.advance lib i now call = some s') : Binds s s' := by
  have hlinked := h.linked i call hcall
  cases call with
  | createUser v =>
    simp only [Doors.advance] at hs
    split at hs
    · cases hs
      exact h.goto (linked_rollback fun _ _ _ he => by cases he)
    · split at hs
      · cases hs
      · cases hs
        exact h.createUser trivial
  | createInvitation v k =>
    simp only [Doors.advance] at hs
    split at hs
    · cases hs
      exact h.goto (linked_rollback fun _ _ _ he => by cases he)
    · split at hs
      · cases hs
      · cases hs
        exact h.writeInvitation fun _ _ _ _ _ ha => by cases ha
  | findInvitation tenantId token password salt =>
    simp only [Doors.advance] at hs
    split at hs
    · cases hs
      exact h.goto (linked_rollback fun _ _ _ he => by cases he)
    · split at hs
      · cases hs
        exact h.goto (linked_rollback fun _ _ _ he => by cases he)
      · cases hs
        exact h.goto (show s.Linked i (.hashPassword tenantId _ _ password salt) from trivial)
  | hashPassword tenantId m invitation password salt =>
    cases hs
    exact h.goto (show s.Linked i (.spend tenantId m invitation _) from trivial)
  | spend tenantId m invitation passwordHash =>
    exact h.spend (show s.Linked i (.setPassword tenantId invitation.userId passwordHash) from trivial)
      (linked_rollback fun _ _ _ he => by cases he) hs
  | setPassword tenantId k passwordHash =>
    obtain ⟨o,ho,rfl⟩ := Option.map_eq_some_iff.mp hs
    cases o with
    | none => exact h.goto (linked_rollback fun _ _ _ he => by cases he)
    | some p => exact h.updateUser ho (fun _ _ _ _ hx => hx) fun _ _ _ _ _ ha => by cases ha
  | findByEmail tenantId email password =>
    simp only [Doors.advance] at hs
    split at hs
    · cases hs
      exact h.goto linked_refused
    · rename_i k u _
      split at hs
      · cases hs
        exact h.goto (show s.Linked i (.issue tenantId k u.role) from fun v hv => absurd hv (hlinked v))
      · cases hs
        exact h.goto linked_refused
  | findBySubject v =>
    simp only [Doors.advance] at hs
    split at hs
    · cases hs
      exact h.goto (show s.Linked i (.findByGoogleEmail v) from hlinked)
    · rename_i hfound
      cases hs
      exact h.recognised hlinked (Table.locate_some _ _ _ hfound).1
  | findByGoogleEmail v =>
    simp only [Doors.advance] at hs
    split at hs
    · cases hs
      exact h.goto linked_refused
    · rename_i hfound
      cases hs
      exact h.recognised hlinked (Table.locate_some _ _ _ hfound).1
  | findInvitationOf v k u => exact h.findInvitationOf hlinked hs
  | spendByGoogle v k u m => exact h.spend (show s.Linked i (.link v k u) from hlinked) linked_refused hs
  | link v k u => exact h.link hlinked hok hs
  | issue tenantId k role => exact h.issue hlinked hs
  | commit answer =>
    cases hs
    exact ⟨(h.commit i).answer hlinked,fun _ _ hx => h.subjectOf_commit i hx⟩
  | rollback answer =>
    cases hs
    exact ⟨(h.rollback i).answer fun v k role token _ ha => absurd ha (hlinked k role token),fun _ _ hx => hx⟩

end Statements

/-! ## Every run -/
section Runs
variable {lib : Library} {seeded : List User} {acts later : List (DoorAction ι)}

private theorem bound_initial (seeded : List User) : (initial seeded : Doors ι).Bound where
  stay _ _ _ _ _ _ _ h := by simp [initial, Table.own, Table.ofList] at h
  linked _ _ h := by cases h
  wrote _ _ _ _ _ h := by cases h
  logged _ _ _ _ _ h := by cases h
  answered _ _ _ _ _ _ h := by cases h

private theorem Bound.begin (h : s.Bound) (hkept : s.Kept seeded) {request : DoorRequest} (hfree : s.requests i = none) :
    Bound { s.goto i request.start with requests := Function.update s.requests i (some (request, s.clock)) } := by
  have hidle : s.calls i = none := by
    cases hc : s.calls i with
    | none => rfl
    | some call => exact absurd hfree (hkept.requested i call hc)
  have hsigns : ∀ j v, j ≠ i → SignsIn { s.goto i request.start with
      requests := Function.update s.requests i (some (request, s.clock)) } j v → s.SignsIn j v := by
    rintro j v hji ⟨now,hv⟩
    exact ⟨now,(Function.update_of_ne hji _ _).symm.trans hv⟩
  refine ⟨h.stay,?_,?_,?_,?_⟩
  · intro j call hj
    by_cases hji : j = i
    · subst hji
      cases (Function.update_self ..).symm.trans hj
      cases request with
      | invite v => trivial
      | accept t token password salt => trivial
      | signIn t email password =>
        rintro v ⟨now,hv⟩
        cases (Function.update_self ..).symm.trans hv
      | signInWithGoogle v => exact ⟨s.clock,Function.update_self ..⟩
    · exact (h.linked j call ((Function.update_of_ne hji _ _).symm.trans hj)).onward (Function.update_of_ne hji _ _)
        fun _ _ hx => hx
  · intro j v n r hv hm
    by_cases hji : j = i
    · subst hji
      have hm : .refreshToken n r ∈ s.wrote j := hm
      rw [hkept.idle j hidle] at hm
      cases hm
    · exact h.wrote j v n r (hsigns j v hji hv) hm
  · intro j v n r hv hm
    have hji : j ≠ i := by
      rintro rfl
      exact (hkept.ended j _ hm).2 hfree
    exact h.logged j v n r (hsigns j v hji hv) hm
  · intro j v k role token hv hm
    have hji : j ≠ i := by
      rintro rfl
      exact (hkept.answered j _ hm).2 hfree
    exact h.answered j v k role token (hsigns j v hji hv) hm

private theorem Bound.step (h : s.Bound) (hkept : s.Kept seeded) {a : DoorAction ι} (hok : s.linkOk a)
    (hs : s.step lib a = some s') : Binds s s' := by
  cases a with
  | tick now =>
    simp only [Doors.step] at hs
    split at hs
    · cases hs
      exact ⟨⟨h.stay,fun j call hj => (h.linked j call hj).onward rfl fun _ _ hx => hx,h.wrote,h.logged,h.answered⟩,
        fun _ _ hx => hx⟩
    · cases hs
  | begin i request =>
    simp only [Doors.step] at hs
    split at hs
    · rename_i hfree
      cases hs
      exact ⟨h.begin hkept hfree,fun _ _ hx => hx⟩
    · cases hs
  | advance i =>
    obtain ⟨⟨request,now⟩,_,hs⟩ := Option.bind_eq_some_iff.mp hs
    obtain ⟨call,hcall,hs⟩ := Option.bind_eq_some_iff.mp hs
    have hok : (s.calls i).all (fun call => !s.relinks i call) = true := hok
    rw [hcall, Option.all_some, Bool.not_eq_true'] at hok
    exact h.advance hcall hok hs
  | abort i =>
    obtain ⟨call,_,rfl⟩ := Option.map_eq_some_iff.mp hs
    exact ⟨(h.rollback i).answer fun _ _ _ _ _ ha => (by cases ha),fun _ _ hx => hx⟩
  | lose i =>
    simp only [Doors.step] at hs
    split at hs
    · cases hs
      exact ⟨h.commit i,fun _ _ hx => h.subjectOf_commit i hx⟩
    · cases hs

/-- In every run in which no link is written over another: a User's link stays as it is from any moment on, and
every session that a Google sign-in is issued is for a User linked to its account. -/
theorem linkedOnce_of_run (hr : Run (step lib) linkOk (initial seeded) acts s) :
    (∀ later s' k x, Run (step lib) linkOk s later s' → s.subjectOf k = some x → s'.subjectOf k = some x) ∧
    (∀ i v n r, s.SignsIn i v → (i, .refreshToken n r) ∈ s.log → ∃ k, r.userId = some k ∧ s.subjectOf k = some v.subject) ∧
    ∀ i v k role token, s.SignsIn i v → (i, .session k role token) ∈ s.answers → s.subjectOf k = some v.subject := by
  have hstep : ∀ (t : Doors ι) a t', t.Kept seeded ∧ t.Bound → t.linkOk a → t.step lib a = some t' →
      t'.Kept seeded ∧ t'.Bound :=
    fun t a t' ht hok hs => ⟨ht.1.step hs,(ht.2.step ht.1 hok hs).bound⟩
  have h : s.Kept seeded ∧ s.Bound := hr.invariant ⟨kept_initial seeded,bound_initial seeded⟩ hstep
  refine ⟨fun later s' k x hlater hx => ?_,h.2.logged,h.2.answered⟩
  exact (hlater.invariant (I := fun t => (t.Kept seeded ∧ t.Bound) ∧ t.subjectOf k = some x) ⟨h,hx⟩
    fun t a t' ht hok hs => ⟨hstep t a t' ht.1 hok hs,(ht.1.2.step ht.1.1 hok hs).stays k x ht.2⟩).2

private def seat : User := ⟨7, "ana@acme.test", "Ana", .agent, none, none⟩

private def first : GoogleIdentity := ⟨7, "g-1", "ana@acme.test"⟩
private def second : GoogleIdentity := ⟨7, "g-2", "ana@acme.test"⟩

/-- The second account comes after the first, and is refused. -/
theorem linkedOnce_of_seat : ∃ acts, ∃ s : Doors Nat, Run (step plainLibrary) linkOk (initial [seat]) acts s ∧
    s.answers = [(0, .session 0 .agent 0), (1, refuseAuthentication)] ∧ s.subjectOf 0 = some "g-1" := by
  have hrun : (exec (step plainLibrary) linkOk (initial [seat])
      (.begin 0 (.signInWithGoogle first) :: List.replicate 6 (.advance 0) ++
        .begin 1 (.signInWithGoogle second) :: List.replicate 3 (.advance 1))).any
      (fun s => s.requests 0 = some (.signInWithGoogle first, 0) ∧
        s.answers = [(0, .session 0 .agent 0), (1, refuseAuthentication)]) = true := by decide +kernel
  obtain ⟨s,hs,hp⟩ := exec_any hrun
  obtain ⟨hreq,ha⟩ := of_decide_eq_true hp
  exact ⟨_,s,hs,ha,(linkedOnce_of_run hs).2.2 0 first 0 .agent 0 ⟨0,hreq⟩ (by simp [ha])⟩

/-- Both accounts read the User before either is linked. The first is linked and signed in, then the second
takes its place. -/
theorem link_displaced : ∃ acts later, ∃ s s' : Doors Nat, Run (step plainLibrary) Always (initial [seat]) acts s ∧
    Run (step plainLibrary) Always s later s' ∧ s.answers = [(0, .session 0 .agent 0)] ∧ s.subjectOf 0 = some "g-1" ∧
    s'.answers = [(0, .session 0 .agent 0), (1, .session 0 .agent 1)] ∧ s'.subjectOf 0 = some "g-2" := by
  have hrun : (exec (step plainLibrary) Always (initial [seat])
      (.begin 0 (.signInWithGoogle first) :: .begin 1 (.signInWithGoogle second) :: List.replicate 3 (.advance 1) ++
        List.replicate 6 (.advance 0))).any
      (fun s => s.answers = [(0, .session 0 .agent 0)] ∧ s.subjectOf 0 = some "g-1" ∧
        (exec (step plainLibrary) Always s (List.replicate 3 (.advance 1))).any fun s' =>
          s'.answers = [(0, .session 0 .agent 0), (1, .session 0 .agent 1)] ∧ s'.subjectOf 0 = some "g-2") = true := by
    decide +kernel
  obtain ⟨s,hs,hp⟩ := exec_any hrun
  obtain ⟨ha,hx,hp⟩ := of_decide_eq_true hp
  obtain ⟨s',hs',hp⟩ := exec_any hp
  obtain ⟨ha',hx'⟩ := of_decide_eq_true hp
  exact ⟨_,_,s,s',hs,hs',ha,hx,ha',hx'⟩

end Runs
end Nivara.Auth.Doors
