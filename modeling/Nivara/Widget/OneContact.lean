import Nivara.Transactions.Run
import Nivara.Widget.SessionBooks

/-! A visitor becomes at most one Contact. Requests carry what a verification has read, which may be stale; the lock on
the session's row and the tests made under it decide. -/
namespace Nivara.Widget.Visitors
open Transactions

variable {ι : Type} [DecidableEq ι] {s s' : Visitors ι} {i j : ι} {k c : Uuid}

/-! ## The statements -/

/-- A statement of call `i` that commits nothing, and after which the call stands at `next`. -/
structure Statement (s s' : Visitors ι) (i : ι) (next : WidgetCall) : Prop where
  calls : s'.calls = Function.update s.calls i (some next)
  requests : s'.requests = s.requests
  answers : s'.answers = s.answers
  sessions : s'.sessions.committed = s.sessions.committed
  contacts : s'.contacts.committed = s.contacts.committed
  own : ∀ j, j ≠ i → ∀ k, s'.sessions.own j k = s.sessions.own j k
  ownContact : ∀ j, j ≠ i → ∀ c, s'.contacts.own j c = s.contacts.own j c
  inserted : ∀ c, c < s.contacts.size → s'.Inserted c → s.Inserted c
  size : s.contacts.size ≤ s'.contacts.size
  history : s'.history = s.history ∨ ∃ e, s'.history = s.history ++ [(i, e)] ∧ ¬ s.Revoked e.sessionId

namespace Statement
variable {next : WidgetCall}

private theorem contactOf_eq (h : Statement s s' i next) : s'.contactOf = s.contactOf := by
  funext k
  unfold contactOf
  rw [h.sessions]

private theorem mem_history (h : Statement s s' i next) {e : ι × WidgetEvent} (he : e ∈ s.history) : e ∈ s'.history := by
  rcases h.history with hs | ⟨_,hs,_⟩
  · rw [hs]
    exact he
  · rw [hs]
    exact List.mem_append_left _ he

private theorem of_mem_history (h : Statement s s' i next) {e : WidgetEvent} (hj : j ≠ i) (he : (j, e) ∈ s'.history) :
    (j, e) ∈ s.history := by
  rcases h.history with hs | ⟨_,hs,_⟩
  · exact hs ▸ he
  · rw [hs, List.mem_append, List.mem_singleton] at he
    exact he.resolve_right fun heq => hj (congrArg Prod.fst heq)

private theorem beside (h : Statement s s' i next) (hj : j ≠ i) : Beside s s' j where
  requests := congrFun h.requests j
  own := h.own j hj
  ownContact := h.ownContact j hj
  locked _ _ _ := by rw [h.sessions]
  lockedContact _ _ := by rw [h.contacts]
  contactOf _ _ hc := by rwa [h.contactOf_eq]
  contact _ hc := by rwa [h.contacts]
  inserted := h.inserted
  size := h.size
  history _ := ⟨h.of_mem_history hj,h.mem_history⟩

private theorem takes {call : WidgetCall} (h : Statement s s' i next) (hk : s.Kept) (hcall : s.calls i = some call)
    (hheld : s'.Held i) (hfits : s'.Fits i next) : Takes s s' := by
  have hother : ∀ j x, j ≠ i → s'.calls j = x → s.calls j = x := by
    intro j x hj hx
    rw [h.calls, Function.update_of_ne hj] at hx
    exact hx
  refine ⟨⟨?_,?_,?_,?_,?_,?_,?_⟩,?_,?_,?_⟩
  · intro j
    by_cases hj : j = i
    · subst hj
      exact hheld
    · exact (h.beside hj).held (hk.held j)
  · intro j call' hc
    by_cases hj : j = i
    · subst hj
      rw [h.calls, Function.update_self] at hc
      cases hc
      exact hfits
    · exact (h.beside hj).fits (hk.fits j call' (hother j _ hj hc))
  · intro j hc
    have hj : j ≠ i := by
      rintro rfl
      rw [h.calls, Function.update_self] at hc
      cases hc
    exact (h.beside hj).clean (hk.idle j (hother j _ hj hc))
  · intro k c hc
    rw [h.contactOf_eq] at hc
    obtain ⟨⟨j,hj⟩,hcom⟩ := hk.named k c hc
    rw [h.contacts]
    exact ⟨⟨j,h.mem_history hj⟩,hcom⟩
  · intro j a ha
    rw [h.answers] at ha
    obtain ⟨ht,hr⟩ := hk.told j a ha
    rw [h.requests]
    exact ⟨ht.mono (congrFun h.requests j) (fun k c hc => by rwa [h.contactOf_eq]) fun e he => h.mem_history he,hr⟩
  · intro j e he
    rw [h.requests]
    by_cases hj : j = i
    · subst hj
      exact hk.asked j call hcall
    · exact hk.past j e (h.of_mem_history hj he)
  · intro j call' hc
    rw [h.requests]
    by_cases hj : j = i
    · subst hj
      exact hk.asked j call hcall
    · exact hk.asked j call' (hother j _ hj hc)
  · intro k c hc
    rwa [h.contactOf_eq]
  · rintro k ⟨r,hr,hrev⟩
    exact ⟨r,by rwa [h.sessions],hrev⟩
  · exact h.history.imp_right fun ⟨e,he⟩ => ⟨i,e,he⟩

end Statement

private theorem statement_goto (s : Visitors ι) (i : ι) (next : WidgetCall) : Statement s (s.goto i next) i next where
  calls := rfl
  requests := rfl
  answers := rfl
  sessions := rfl
  contacts := rfl
  own _ _ _ := rfl
  ownContact _ _ _ := rfl
  inserted _ _ h := h
  size := Nat.le_refl _
  history := .inl rfl

section Statements
variable {lib : Library} {call next : WidgetCall}

private theorem Held.same (h : s.Held i) (hsessions : s'.sessions = s.sessions) (hcontacts : s'.contacts = s.contacts)
    (hhistory : ∀ k c, (i, .created k c) ∈ s'.history ↔ (i, .created k c) ∈ s.history) : s'.Held i := by
  have hcontactOf : s'.contactOf = s.contactOf := by
    funext k
    unfold contactOf
    rw [hsessions]
  refine ⟨?_,?_,?_,?_⟩
  · rw [hsessions]
    exact h.grows
  · intro k r c
    rw [hsessions, hcontactOf, hcontacts, hhistory]
    exact h.named k r c
  · intro k c
    unfold Inserted Placed
    rw [hsessions, hcontactOf, hcontacts, hhistory]
    exact h.created k c
  · intro k c k' c'
    rw [hhistory, hhistory]
    exact h.lone k c k' c'

private theorem Kept.goto (h : s.Kept) (hcall : s.calls i = some call) (hfits : (s.goto i next).Fits i next) :
    Takes s (s.goto i next) :=
  (statement_goto s i next).takes h hcall ((h.held i).same rfl rfl fun _ _ => .rfl) hfits

private theorem Kept.grows_seen (h : s.Kept) {r r' : WidgetSession} (hr : s.sessions.committed k = some r)
    (hv : s.sessions.visible i k = some r') : Grows r r' := by
  rcases Table.visible_cases _ _ _ hv with ho | ⟨_,hc⟩
  · exact (h.held i).grows k r r' hr ho
  · cases hr.symm.trans hc
    exact .refl r

private theorem Kept.not_revoked (h : s.Kept) {r : WidgetSession} (hv : s.sessions.visible i k = some r)
    (hlive : r.revokedAt = none) : ¬ s.Revoked k := by
  rintro ⟨r₀,hr₀,hrev⟩
  exact (h.grows_seen hr₀ hv).revokedAt hrev hlive

private theorem onSession_cases {tenantId : Uuid} {p : WidgetSession → Bool} {f : WidgetSession → WidgetSession}
    {after : WidgetSession → Visitors ι → Visitors ι} {missed : WidgetCall}
    (hs : s.onSession i tenantId k p f after missed = some s') :
    (s' = s.goto i missed ∧ ∀ r, s.sessions.visible i k = some r → r.tenantId = tenantId → p r = false) ∨
    ∃ r, s.sessions.free i [k] = true ∧ s.sessions.visible i k = some r ∧ r.tenantId = tenantId ∧ p r = true ∧
      s' = after (f r) { s with sessions := s.sessions.write i [k] (fun r => r.tenantId = tenantId && p r) f } := by
  obtain ⟨o,ho,rfl⟩ := Option.map_eq_some_iff.mp hs
  cases o with
  | none =>
    refine .inl ⟨rfl,fun r hv ht => ?_⟩
    unfold Table.updateById at ho
    split at ho
    · have hnone := Option.map_eq_none_iff.mp (Option.some.inj ho)
      rw [hv, Option.filter_eq_none_iff] at hnone
      simpa [ht] using hnone r rfl
    · cases ho
  | some q =>
    obtain ⟨t,row⟩ := q
    obtain ⟨r,hfree,hv,hp,rfl,rfl⟩ := Table.updateById_some _ _ _ ho
    rw [Bool.and_eq_true] at hp
    exact .inr ⟨r,hfree,hv,of_decide_eq_true hp.1,hp.2,rfl⟩

private theorem statement_write {p : WidgetSession → Bool} {f : WidgetSession → WidgetSession} (hfree : s.sessions.free i [k] = true)
    (hsessions : s'.sessions = s.sessions.write i [k] p f) (hcontacts : s'.contacts = s.contacts)
    (hcalls : s'.calls = Function.update s.calls i (some next)) (hrequests : s'.requests = s.requests)
    (hanswers : s'.answers = s.answers)
    (hhistory : s'.history = s.history ∨ ∃ e, s'.history = s.history ++ [(i, e)] ∧ ¬ s.Revoked e.sessionId) :
    Statement s s' i next where
  calls := hcalls
  requests := hrequests
  answers := hanswers
  sessions := by rw [hsessions]; rfl
  contacts := by rw [hcontacts]
  own j hj k' := by rw [hsessions]; exact Table.own_write_other _ _ _ _ hj hfree
  ownContact _ _ _ := by rw [hcontacts]
  inserted c _ hi := by
    unfold Inserted at hi ⊢
    rwa [hcontacts] at hi
  size := Nat.le_of_eq (by rw [hcontacts])
  history := hhistory

private theorem own_written {p : WidgetSession → Bool} {f : WidgetSession → WidgetSession} {r r' : WidgetSession} {k' : Uuid}
    (hv : s.sessions.visible i k = some r) (ho : (s.sessions.write i [k] p f).own i k' = some r') :
    (k' = k ∧ r' = f r) ∨ s.sessions.own i k' = some r' := by
  rcases Table.own_write_cases _ _ _ ho with ⟨r₀,hk,hr₀,_,rfl⟩ | ho
  · cases List.mem_singleton.mp hk
    cases hv.symm.trans hr₀
    exact .inl ⟨rfl,rfl⟩
  · exact .inr ho

/-- The row is written with the Contact it has, or with the one the call has inserted for it. -/
private theorem Kept.held_write (h : s.Kept) {p : WidgetSession → Bool} {f : WidgetSession → WidgetSession} {r : WidgetSession}
    (hv : s.sessions.visible i k = some r) (hp : p r = true) (hsessions : s'.sessions = s.sessions.write i [k] p f)
    (hcontacts : s'.contacts = s.contacts) (hhistory : ∀ k c, (i, .created k c) ∈ s'.history ↔ (i, .created k c) ∈ s.history)
    (hgrows : Grows r (f r)) (hname : ∀ c, (f r).contactId = some c →
      r.contactId = some c ∨ ((i, .created k c) ∈ s.history ∧ s.contacts.own i c ≠ none)) : s'.Held i := by
  have hcontactOf : s'.contactOf = s.contactOf := by
    funext k
    unfold contactOf
    rw [hsessions]
    rfl
  have hown : ∀ k' r', s'.sessions.own i k' = some r' → (k' = k ∧ r' = f r) ∨ s.sessions.own i k' = some r' := by
    intro k' r' ho
    rw [hsessions] at ho
    exact own_written hv ho
  have hnamed : ∀ c, r.contactId = some c → s.contactOf k = some c ∨ ((i, .created k c) ∈ s.history ∧ s.contacts.own i c ≠ none) := by
    intro c hc
    rcases Table.visible_cases _ _ _ hv with ho | ⟨_,hr⟩
    · exact (h.held i).named k r c ho hc
    · exact .inl (contactOf_some.mpr ⟨r,hr,hc⟩)
  refine ⟨?_,?_,?_,?_⟩
  · intro k' r₀ r' hr₀ ho
    rw [hsessions] at hr₀
    rcases hown k' r' ho with ⟨rfl,rfl⟩ | ho
    · exact (h.grows_seen hr₀ hv).trans hgrows
    · exact (h.held i).grows k' r₀ r' hr₀ ho
  · intro k' r' c ho hc
    rw [hcontactOf, hhistory, hcontacts]
    rcases hown k' r' ho with ⟨rfl,rfl⟩ | ho
    · rcases hname c hc with hc | hc
      · exact hnamed c hc
      · exact .inr hc
    · exact (h.held i).named k' r' c ho hc
  · intro k' c he
    rw [hhistory] at he
    obtain ⟨hlt,hplaced⟩ := (h.held i).created k' c he
    rw [hcontacts]
    refine ⟨hlt,fun hi => ?_⟩
    unfold Inserted at hi
    rw [hcontacts] at hi
    unfold Placed
    rw [hcontactOf, hcontacts]
    refine (hplaced hi).imp_right fun ⟨r',ho,hc,hnone,hr'⟩ => ?_
    by_cases hk : k' = k
    · subst hk
      have hv' := Table.visible_of_own _ _ _ ho
      cases hv.symm.trans hv'
      refine ⟨f r,by rw [hsessions]; exact Table.own_write_picked _ _ _ (List.mem_singleton_self k') hv hp,hc,hnone,fun c' hc' => ?_⟩
      rcases hname c' hc' with hc' | ⟨he',_⟩
      · exact hr' c' hc'
      · exact ((h.held i).lone k' c' k' c he' he).2
    · refine ⟨r',?_,hc,hnone,hr'⟩
      rw [hsessions, Table.own_write_self, if_neg (by simpa using hk)]
      exact ho
  · intro k c k' c' he he'
    rw [hhistory] at he he'
    exact (h.held i).lone k c k' c' he he'

private theorem Kept.createSession (h : s.Kept) {tenantId : Uuid} {expiresAt : Int}
    (hcall : s.calls i = some (.createSession tenantId expiresAt))
    (hs : s.advance lib i (.createSession tenantId expiresAt) = some s') : Takes s s' := by
  obtain ⟨hfresh,t,origin,hreq⟩ := h.fits i _ hcall
  cases hs
  have hst : Statement s { s.goto i (.commit (.grant s.sessions.size tenantId expiresAt)) with
      sessions := s.sessions.insert i ⟨tenantId, none, expiresAt, none⟩ } i (.commit (.grant s.sessions.size tenantId expiresAt)) :=
    ⟨rfl,rfl,rfl,rfl,rfl,fun j hj _ => Table.own_insert_other _ _ _ _ hj,fun _ _ _ => rfl,fun _ _ hi => hi,Nat.le_refl _,.inl rfl⟩
  refine hst.takes h hcall ⟨?_,?_,?_,(h.held i).lone⟩ ⟨?_,?_⟩
  · intro k r r' hr ho
    rcases Table.own_insert_cases _ _ _ _ ho with ⟨rfl,_,_⟩ | ho
    · have hfree := s.sessions.committed_fresh s.sessions.size (Nat.le_refl _)
      cases hfree.symm.trans hr
    · exact (h.held i).grows k r r' hr ho
  · intro k r c ho hc
    rcases Table.own_insert_cases _ _ _ _ ho with ⟨_,_,rfl⟩ | ho
    · cases hc
    · exact (h.held i).named k r c ho hc
  · exact fun k c he => absurd he (hfresh k c)
  · intro p origin' hp
    cases hreq.symm.trans hp
  · exact fun k c he => absurd he (hfresh k c)

private theorem Kept.findSession (h : s.Kept) {tenantId : Uuid} (hcall : s.calls i = some (.findSession tenantId k))
    (hs : s.advance lib i (.findSession tenantId k) = some s') : Takes s s' := by
  obtain ⟨hfresh,hclean⟩ := h.fits i _ hcall
  have hread : ∀ r, (s.sessions.visible i k).filter (fun r => r.tenantId = tenantId) = some r →
      s.sessions.visible i k = some r := fun r hr => (Option.filter_eq_some_iff.mp hr).1
  have hcontact : ∀ r c, s.sessions.visible i k = some r → r.contactId = some c → s.contactOf k = some c := by
    intro r c hv hc
    rw [Table.visible_of_no_own _ _ _ (hclean.1 k)] at hv
    exact contactOf_some.mpr ⟨r,hv,hc⟩
  simp only [advance] at hs
  split at hs
  · rename_i hlive
    cases hs
    obtain ⟨r₀,hr₀,hrev⟩ := (Option.any_eq_true _ _).mp hlive
    have hst : Statement s ((s.goto i (.inspect tenantId k
        ((s.sessions.visible i k).filter fun r => r.tenantId = tenantId))).happened i (.saw k)) i _ :=
      ⟨rfl,rfl,rfl,rfl,rfl,fun _ _ _ => rfl,fun _ _ _ => rfl,fun _ _ hi => hi,Nat.le_refl _,
        .inr ⟨.saw k,rfl,h.not_revoked (hread r₀ hr₀) (Option.isNone_iff_eq_none.mp hrev)⟩⟩
    have hcreated : ∀ k' c, (i, .created k' c) ∈ s.history ++ [(i, .saw k)] ↔ (i, .created k' c) ∈ s.history := by
      intro k' c
      simp
    refine hst.takes h hcall ((h.held i).same rfl rfl hcreated) ⟨fun k' c he => hfresh k' c ((hcreated k' c).mp he),hclean,?_⟩
    exact fun r hr => ⟨fun c hc => hcontact r c (hread r hr) hc,fun _ => List.mem_append_right _ (List.mem_singleton_self _)⟩
  · rename_i hdead
    cases hs
    refine h.goto hcall ⟨hfresh,hclean,fun r hr => ⟨fun c hc => hcontact r c (hread r hr) hc,fun hrev => ?_⟩⟩
    exact absurd ((Option.any_eq_true _ _).mpr ⟨r,hr,Option.isNone_iff_eq_none.mpr hrev⟩) hdead

private theorem Kept.inspect (h : s.Kept) {tenantId : Uuid} {session : Option WidgetSession}
    (hcall : s.calls i = some (.inspect tenantId k session))
    (hs : s.advance lib i (.inspect tenantId k session) = some s') : Takes s s' := by
  obtain ⟨hfresh,hclean,hread⟩ := h.fits i _ hcall
  have hnone : ∀ t, s.goto i (.reply (.verified none)) = t → Takes s t := by
    rintro t rfl
    exact h.goto hcall ⟨hfresh,hclean,trivial⟩
  simp only [advance] at hs
  split at hs
  · exact hnone _ (Option.some.inj hs)
  · rename_i r
    split at hs
    · exact hnone _ (Option.some.inj hs)
    · rename_i hlive
      split at hs
      · exact hnone _ (Option.some.inj hs)
      · cases hs
        obtain ⟨hcontact,hsaw⟩ := hread r rfl
        exact h.goto hcall ⟨hfresh,hclean,hcontact,hsaw (by simpa using hlive)⟩

private theorem Kept.extend (h : s.Kept) {p : WidgetPrincipal} {expiresAt : Int} (hcall : s.calls i = some (.extend p expiresAt))
    (hs : s.advance lib i (.extend p expiresAt) = some s') : Takes s s' := by
  obtain ⟨hfresh,origin,hreq⟩ := h.fits i _ hcall
  unfold advance at hs
  rcases onSession_cases hs with ⟨rfl,_⟩ | ⟨r,hfree,hv,ht,hp,rfl⟩
  · exact h.goto hcall ⟨trivial,fun k c he => absurd he (hfresh k c)⟩
  · have hcreated : ∀ k c, (i, .created k c) ∈ s.history ++ [(i, .renewed p.sessionId)] ↔ (i, .created k c) ∈ s.history := by
      intro k c
      simp
    refine Statement.takes (statement_write hfree rfl rfl rfl rfl rfl
      (.inr ⟨.renewed p.sessionId,rfl,h.not_revoked hv (Option.isNone_iff_eq_none.mp hp)⟩)) h hcall
      (h.held_write hv (by simp [ht, hp]) rfl rfl hcreated ⟨fun _ hc => hc,fun hr => hr⟩ fun _ hc => .inl hc) ⟨?_,?_⟩
    · intro p' origin' hp'
      cases hreq.symm.trans hp'
      exact List.mem_append_right _ (List.mem_singleton_self _)
    · exact fun k c he => absurd ((hcreated k c).mp he) (hfresh k c)

private theorem Kept.lockSession (h : s.Kept) {p : WidgetPrincipal} (hcall : s.calls i = some (.lockSession p))
    (hs : s.advance lib i (.lockSession p) = some s') : Takes s s' := by
  obtain ⟨hfresh,hreq⟩ := h.fits i _ hcall
  unfold advance at hs
  rcases onSession_cases hs with ⟨rfl,_⟩ | ⟨r,hfree,hv,ht,hp,rfl⟩
  · exact h.goto hcall ⟨trivial,fun k c he => absurd he (hfresh k c)⟩
  · have hlive : r.revokedAt = none := Option.isNone_iff_eq_none.mp hp
    have hmatch : (decide (r.tenantId = p.tenantId) && r.revokedAt.isNone) = true := by simp [ht, hlive]
    have hown : (s.sessions.write i [p.sessionId] (fun r => r.tenantId = p.tenantId && r.revokedAt.isNone) fun r => r).own i p.sessionId =
        some r := Table.own_write_picked _ _ _ (List.mem_singleton_self _) hv hmatch
    cases hc : r.contactId with
    | some c =>
      refine Statement.takes (statement_write hfree rfl rfl rfl rfl rfl (.inl rfl)) h hcall
        (h.held_write hv hmatch rfl rfl (fun _ _ => .rfl) (.refl r) fun _ hc => .inl hc) ⟨?_,?_⟩
      · exact ⟨p,hreq,r,Table.visible_of_own _ _ _ hown,hc⟩
      · exact fun k c he => absurd he (hfresh k c)
    | none =>
      refine Statement.takes (statement_write hfree rfl rfl rfl rfl rfl (.inl rfl)) h hcall
        (h.held_write hv hmatch rfl rfl (fun _ _ => .rfl) (.refl r) fun _ hc => .inl hc) ⟨hfresh,hreq,r,hown,ht,hc,hlive⟩

private theorem Kept.createContact (h : s.Kept) {p : WidgetPrincipal} (hcall : s.calls i = some (.createContact p))
    (hs : s.advance lib i (.createContact p) = some s') : Takes s s' := by
  obtain ⟨hfresh,hreq,r,ho,ht,hnone,hlive⟩ := h.fits i _ hcall
  cases hs
  have hcommitted := s.contacts.committed_fresh s.contacts.size (Nat.le_refl _)
  have hnew : (s.contacts.insert i ⟨p.tenantId⟩).own i s.contacts.size ≠ none := by
    rw [Table.own_insert_self]
    exact fun he => by cases he
  have hcreated : ∀ k c, (i, .created k c) ∈ s.history ++ [(i, .created p.sessionId s.contacts.size)] →
      k = p.sessionId ∧ c = s.contacts.size := by
    intro k c he
    rcases List.mem_append.mp he with he | he
    · exact absurd he (hfresh k c)
    · cases List.mem_singleton.mp he
      exact ⟨rfl,rfl⟩
  have hst : Statement s ({ s.goto i (.setContact p s.contacts.size) with contacts := s.contacts.insert i ⟨p.tenantId⟩ }.happened i
      (.created p.sessionId s.contacts.size)) i (.setContact p s.contacts.size) := by
    refine ⟨rfl,rfl,rfl,rfl,rfl,fun _ _ _ => rfl,fun j hj _ => Table.own_insert_other _ _ _ _ hj,?_,Nat.le_succ _,
      .inr ⟨_,rfl,h.not_revoked (Table.visible_of_own _ _ _ ho) hlive⟩⟩
    rintro c hlt ⟨x,hx⟩
    rcases Table.Version.of_insert hx with ⟨rfl,_⟩ | hx
    · exact absurd hlt (Nat.lt_irrefl _)
    · exact ⟨x,hx⟩
  refine hst.takes h hcall ⟨(h.held i).grows,?_,?_,?_⟩ ⟨⟨hreq,r,ho,ht,hnone,hlive⟩,
    List.mem_append_right _ (List.mem_singleton_self _),hnew⟩
  · intro k r' c ho' hc
    rcases (h.held i).named k r' c ho' hc with hk | ⟨he,_⟩
    · exact .inl hk
    · exact absurd he (hfresh k c)
  · intro k c he
    obtain ⟨rfl,rfl⟩ := hcreated k c he
    refine ⟨Nat.lt_succ_self _,fun _ => .inr ⟨r,ho,hnew,hcommitted,fun c' hc' => ?_⟩⟩
    cases hnone.symm.trans hc'
  · intro k c k' c' he he'
    obtain ⟨rfl,rfl⟩ := hcreated k c he
    obtain ⟨rfl,rfl⟩ := hcreated k' c' he'
    exact ⟨rfl,rfl⟩

private theorem Kept.setContact (h : s.Kept) {p : WidgetPrincipal} (hcall : s.calls i = some (.setContact p c))
    (hs : s.advance lib i (.setContact p c) = some s') : Takes s s' := by
  obtain ⟨⟨hreq,r,ho,ht,hnone,_⟩,he,hc⟩ := h.fits i _ hcall
  have hv := Table.visible_of_own _ _ _ ho
  unfold advance at hs
  rcases onSession_cases hs with ⟨rfl,hmiss⟩ | ⟨r',hfree,hv',_,_,rfl⟩
  · cases hmiss r hv ht
  · cases hv.symm.trans hv'
    have hmatch : (decide (r.tenantId = p.tenantId) && true) = true := by simp [ht]
    have hown : (s.sessions.write i [p.sessionId] (fun r => r.tenantId = p.tenantId && true)
        fun r => { r with contactId := some c }).own i p.sessionId = some { r with contactId := some c } :=
      Table.own_write_picked _ _ _ (List.mem_singleton_self _) hv hmatch
    refine Statement.takes (statement_write hfree rfl rfl rfl rfl rfl (.inl rfl)) h hcall
      (h.held_write hv hmatch rfl rfl (fun _ _ => .rfl) ⟨fun c' hc' => ?_,fun hr => hr⟩ fun c' hc' => ?_) ⟨?_,?_⟩
    · cases hnone.symm.trans hc'
    · cases hc'
      exact .inr ⟨he,hc⟩
    · exact ⟨p,hreq,_,Table.visible_of_own _ _ _ hown,rfl⟩
    · intro k' c' he'
      obtain ⟨rfl,rfl⟩ := (h.held i).lone _ c k' c' he he'
      exact ⟨_,hown,rfl⟩

private theorem Kept.kill (h : s.Kept) {tenantId : Uuid} (hcall : s.calls i = some (.kill tenantId k))
    (hs : s.advance lib i (.kill tenantId k) = some s') : Takes s s' := by
  have hfresh : s.Fresh i := h.fits i _ hcall
  unfold advance at hs
  rcases onSession_cases hs with ⟨rfl,_⟩ | ⟨r,hfree,hv,ht,hp,rfl⟩
  · exact h.goto hcall trivial
  · refine Statement.takes (statement_write hfree rfl rfl rfl rfl rfl (.inl rfl)) h hcall
      (h.held_write hv (by simp [ht]) rfl rfl (fun _ _ => .rfl) ⟨fun _ hc => hc,fun _ hr => by cases hr⟩ fun _ hc => .inl hc)
      ⟨trivial,fun k c he => absurd he (hfresh k c)⟩

end Statements

/-! ## The end of a call -/

private theorem Kept.close (h : s.Kept) (hcalls : s'.calls = Function.update s.calls i none) (hrequests : s'.requests = s.requests)
    (hanswers : s'.answers = s.answers) (hhistory : s'.history = s.history) (hbeside : ∀ j, j ≠ i → Beside s s' j)
    (hclean : s'.Clean i) (hcontact : ∀ k c, s.contactOf k = some c → s'.contactOf k = some c)
    (hcreated : ∀ k c, (i, .created k c) ∈ s.history → c < s'.contacts.size ∧ (s'.Inserted c → s'.Placed i k c))
    (hnamed : ∀ k c, s'.contactOf k = some c → (∃ j, (j, .created k c) ∈ s.history) ∧ s'.contacts.committed c ≠ none) : s'.Kept := by
  have hother : ∀ j x, j ≠ i → s'.calls j = x → s.calls j = x := by
    intro j x hj hx
    rw [hcalls, Function.update_of_ne hj] at hx
    exact hx
  have hopen : ∀ j call, s'.calls j = some call → j ≠ i := by
    rintro j call hc rfl
    rw [hcalls, Function.update_self] at hc
    cases hc
  refine ⟨?_,?_,?_,?_,?_,?_,?_⟩
  · intro j
    by_cases hj : j = i
    · subst hj
      refine ⟨?_,?_,?_,?_⟩
      · intro k r r' _ ho
        cases (hclean.1 k).symm.trans ho
      · intro k r c ho
        cases (hclean.1 k).symm.trans ho
      · rw [hhistory]
        exact hcreated
      · rw [hhistory]
        exact (h.held j).lone
    · exact (hbeside j hj).held (h.held j)
  · exact fun j call hc => (hbeside j (hopen j call hc)).fits (h.fits j call (hother j _ (hopen j call hc) hc))
  · intro j hc
    by_cases hj : j = i
    · subst hj
      exact hclean
    · exact (hbeside j hj).clean (h.idle j (hother j _ hj hc))
  · rw [hhistory]
    exact hnamed
  · intro j a ha
    rw [hanswers] at ha
    obtain ⟨ht,hr⟩ := h.told j a ha
    rw [hrequests]
    exact ⟨ht.mono (congrFun hrequests j) hcontact fun e he => hhistory ▸ he,hr⟩
  · rw [hhistory, hrequests]
    exact h.past
  · intro j call hc
    rw [hrequests]
    exact h.asked j call (hother j _ (hopen j call hc) hc)

private theorem Kept.contactOf_commit (h : s.Kept) (i : ι) (hc : s.contactOf k = some c) : (s.committed i).contactOf k = some c := by
  obtain ⟨r,hr,hc⟩ := contactOf_some.mp hc
  obtain ⟨r',hr'⟩ : ∃ r', s.sessions.visible i k = some r' := by
    cases ho : s.sessions.own i k with
    | none => exact ⟨r,(Table.visible_of_no_own _ _ _ ho).trans hr⟩
    | some r' => exact ⟨r',Table.visible_of_own _ _ _ ho⟩
  exact contactOf_some.mpr ⟨r',hr',(h.grows_seen hr hr').contactId c hc⟩

private theorem Kept.revoked_commit (h : s.Kept) (i : ι) (hk : s.Revoked k) : (s.committed i).Revoked k := by
  obtain ⟨r,hr,hrev⟩ := hk
  cases ho : s.sessions.own i k with
  | none => exact ⟨r,(Table.visible_of_no_own _ _ _ ho).trans hr,hrev⟩
  | some r' => exact ⟨r',Table.visible_of_own _ _ _ ho,((h.held i).grows k r r' hr ho).revokedAt hrev⟩

/-- A Contact of its own or a committed one is committed with the call. -/
private theorem contact_commit (h : s.contacts.own i c ≠ none ∨ s.contacts.committed c ≠ none) :
    (s.committed i).contacts.committed c ≠ none := by
  show (s.contacts.own i c).or (s.contacts.committed c) ≠ none
  cases ho : s.contacts.own i c with
  | some x => exact fun he => by cases he
  | none => exact h.resolve_left fun hne => hne ho

private theorem Kept.beside_commit (h : s.Kept) (i : ι) (hj : j ≠ i) : Beside s (s.committed i) j where
  requests := rfl
  own _ := Table.own_commit_other _ _ _ _ hj
  ownContact _ := Table.own_commit_other _ _ _ _ hj
  locked k r ho := Table.visible_of_no_own _ _ _ (Table.own_exclusive _ _ _ _ ho (Ne.symm hj))
  lockedContact c ho := by
    obtain ⟨x,hx⟩ := Option.ne_none_iff_exists'.mp ho
    exact Table.visible_of_no_own _ _ _ (Table.own_exclusive _ _ _ _ hx (Ne.symm hj))
  contactOf _ _ hc := h.contactOf_commit i hc
  contact _ hc := contact_commit (.inr hc)
  inserted _ _ hi := hi.imp fun _ hx => Table.Version.of_commit hx
  size := Nat.le_refl _
  history _ := .rfl

private theorem Kept.commit (h : s.Kept) {outcome : Outcome} (hcall : s.calls i = some (.commit outcome)) : Takes s (s.committed i) := by
  obtain ⟨_,hattached⟩ := h.fits i _ hcall
  refine ⟨?_,fun k c hc => h.contactOf_commit i hc,fun k hk => h.revoked_commit i hk,.inl rfl⟩
  refine h.close rfl rfl rfl rfl (fun j hj => h.beside_commit i hj)
    ⟨Table.own_commit_self _ _,Table.own_commit_self _ _⟩ (fun k c hc => h.contactOf_commit i hc) ?_ ?_
  · intro k c he
    obtain ⟨hlt,hplaced⟩ := (h.held i).created k c he
    refine ⟨hlt,fun hi => .inl ?_⟩
    rcases hplaced (hi.imp fun _ hx => Table.Version.of_commit hx) with ⟨hk,hc⟩ | ⟨_,_,hc,_⟩
    · exact ⟨h.contactOf_commit i hk,contact_commit (.inr hc)⟩
    · obtain ⟨r,ho,hr⟩ := hattached k c he
      exact ⟨contactOf_some.mpr ⟨r,Table.visible_of_own _ _ _ ho,hr⟩,contact_commit (.inl hc)⟩
  · intro k c hc
    obtain ⟨r,hr,hc⟩ := contactOf_some.mp hc
    have hr : s.sessions.visible i k = some r := hr
    have hsource : s.contactOf k = some c ∨ ((i, .created k c) ∈ s.history ∧ s.contacts.own i c ≠ none) := by
      rcases Table.visible_cases _ _ _ hr with ho | ⟨_,hr⟩
      · exact (h.held i).named k r c ho hc
      · exact .inl (contactOf_some.mpr ⟨r,hr,hc⟩)
    rcases hsource with hk | ⟨he,ho⟩
    · obtain ⟨hj,hcom⟩ := h.named k c hk
      exact ⟨hj,contact_commit (.inr hcom)⟩
    · exact ⟨⟨i,he⟩,contact_commit (.inl ho)⟩

private theorem Kept.rollback (h : s.Kept) (i : ι) : Takes s (s.rolledBack i) := by
  refine ⟨?_,fun _ _ hc => hc,fun _ hk => hk,.inl rfl⟩
  have hbeside : ∀ j, j ≠ i → Beside s (s.rolledBack i) j := fun j hj =>
    ⟨rfl,fun _ => Table.own_rollback_other _ _ _ _ hj,fun _ => Table.own_rollback_other _ _ _ _ hj,fun _ _ _ => rfl,
      fun _ _ => rfl,fun _ _ hc => hc,fun _ hc => hc,fun _ _ hi => hi.imp fun _ hx => Table.Version.of_rollback hx,
      Nat.le_refl _,fun _ => .rfl⟩
  refine h.close rfl rfl rfl rfl hbeside ⟨Table.own_rollback_self _ _,Table.own_rollback_self _ _⟩ (fun _ _ hc => hc) ?_ h.named
  intro k c he
  obtain ⟨hlt,hplaced⟩ := (h.held i).created k c he
  refine ⟨hlt,fun ⟨x,hx⟩ => .inl ?_⟩
  rcases hplaced ⟨x,Table.Version.of_rollback hx⟩ with hk | ⟨_,_,hown,hnone,_⟩
  · exact hk
  · -- a Contact that was the call's own is gone with it
    obtain ⟨y,hy⟩ := Option.ne_none_iff_exists'.mp hown
    rcases hx with hx | ⟨j,hx⟩
    · cases hnone.symm.trans hx
    · have hj : j ≠ i := by
        rintro rfl
        cases (Table.own_rollback_self s.contacts j c).symm.trans hx
      cases (Table.own_exclusive _ _ _ _ hy hj).symm.trans ((Table.own_rollback_other _ _ _ _ hj).symm.trans hx)

private theorem Kept.closed (h : s.Kept) (hclean : s.Clean i) : Takes s (s.closed i) := by
  refine ⟨?_,fun _ _ hc => hc,fun _ hk => hk,.inl rfl⟩
  refine h.close rfl rfl rfl rfl (fun j _ => ?_) hclean (fun _ _ hc => hc) (h.held i).created h.named
  exact ⟨rfl,fun _ => rfl,fun _ => rfl,fun _ _ _ => rfl,fun _ _ => rfl,fun _ _ hc => hc,fun _ hc => hc,fun _ _ hi => hi,
    Nat.le_refl _,fun _ => .rfl⟩

private theorem Takes.answered (h : Takes s s') {answer : WidgetAnswer} (ht : s'.Told i answer) (hr : s'.requests i ≠ none) :
    Takes s (s'.answered i answer) := by
  have hk := h.kept
  have hbeside : ∀ j, Beside s' (s'.answered i answer) j := fun j =>
    ⟨rfl,fun _ => rfl,fun _ => rfl,fun _ _ _ => rfl,fun _ _ => rfl,fun _ _ hc => hc,fun _ hc => hc,fun _ _ hi => hi,
      Nat.le_refl _,fun _ => .rfl⟩
  refine ⟨⟨fun j => (hbeside j).held (hk.held j),fun j call hc => (hbeside j).fits (hk.fits j call hc),
    fun j hc => (hbeside j).clean (hk.idle j hc),hk.named,?_,hk.past,hk.asked⟩,h.contacts,h.revoked,h.history⟩
  intro j a ha
  rcases List.mem_append.mp ha with ha | ha
  · obtain ⟨ht,hr⟩ := hk.told j a ha
    exact ⟨(hbeside j).told ht,hr⟩
  · cases List.mem_singleton.mp ha
    exact ⟨(hbeside i).told ht,hr⟩

/-! ## Every step -/
section Steps
variable {lib : Library} {call : WidgetCall}

private theorem Kept.advance (h : s.Kept) (hcall : s.calls i = some call) (hs : s.advance lib i call = some s') : Takes s s' := by
  have hfits := h.fits i call hcall
  cases call with
  | bootstrapOrigin tenantId origin expiresAt =>
    simp only [Visitors.advance] at hs
    split at hs
    · cases hs
      exact h.goto hcall hfits
    · cases hs
      exact h.goto hcall ⟨trivial,fun k c he => absurd he (hfits.1 k c)⟩
  | createSession tenantId expiresAt => exact h.createSession hcall hs
  | findSession tenantId k => exact h.findSession hcall hs
  | inspect tenantId k session => exact h.inspect hcall hs
  | renewOrigin p origin expiresAt =>
    simp only [Visitors.advance] at hs
    split at hs
    · cases hs
      exact h.goto hcall hfits
    · cases hs
      exact h.goto hcall ⟨trivial,fun k c he => absurd he (hfits.1 k c)⟩
  | extend p expiresAt => exact h.extend hcall hs
  | lockSession p => exact h.lockSession hcall hs
  | createContact p => exact h.createContact hcall hs
  | setContact p c => exact h.setContact hcall hs
  | kill tenantId k => exact h.kill hcall hs
  | commit outcome =>
    cases hs
    refine (h.commit hcall).answered ?_ (h.asked i _ hcall)
    cases outcome with
    | grant k t expiresAt => exact hfits.1
    | requester t contactId =>
      cases contactId with
      | none => trivial
      | some c =>
        obtain ⟨p,hp,r,hr,hc⟩ := hfits.1
        exact ⟨p,hp,contactOf_some.mpr ⟨r,hr,hc⟩⟩
    | originRefused => trivial
    | sessionDead => trivial
    | revoked => trivial
  | rollback =>
    cases hs
    exact (h.rollback i).answered trivial (h.asked i _ hcall)
  | reply answer =>
    obtain ⟨_,hclean,ht⟩ := hfits
    cases hs
    exact (h.closed hclean).answered (ht.mono rfl (fun _ _ hc => hc) fun _ he => he) (h.asked i _ hcall)

/-- A principal that a request carries has the Contact of its session, if it has one. -/
private theorem Kept.contactOf_issued (h : s.Kept) {p : WidgetPrincipal} (hp : s.issued p = true) (hc : p.contactId = some c) :
    s.contactOf p.sessionId = some c := by
  obtain ⟨⟨j,a⟩,ha,he⟩ := List.any_eq_true.mp hp
  cases of_decide_eq_true he
  exact (h.told j _ ha).1.1 c hc

private theorem Kept.begin (h : s.Kept) {request : WidgetRequest} (hfree : s.requests i = none) (hcarried : s.carried request = true) :
    Takes s { s.goto i (request.start lib s.clock) with requests := Function.update s.requests i (some request) } := by
  have hclean : s.Clean i := by
    refine h.idle i ?_
    cases hc : s.calls i with
    | none => rfl
    | some call => exact absurd hfree (h.asked i call hc)
  have hfresh : s.Fresh i := fun k c he => h.past i _ he hfree
  have hne : ∀ j, s.requests j ≠ none → j ≠ i := by
    rintro j hj rfl
    exact hj hfree
  have hbeside : ∀ j, j ≠ i → Beside s
      { s.goto i (request.start lib s.clock) with requests := Function.update s.requests i (some request) } j := fun j hj =>
    ⟨Function.update_of_ne hj _ _,fun _ => rfl,fun _ => rfl,fun _ _ _ => rfl,fun _ _ => rfl,fun _ _ hc => hc,fun _ hc => hc,
      fun _ _ hi => hi,Nat.le_refl _,fun _ => .rfl⟩
  have hasked : ∀ j, s.requests j ≠ none → Function.update s.requests i (some request) j ≠ none := by
    intro j hj
    rwa [Function.update_of_ne (hne j hj)]
  refine ⟨⟨?_,?_,?_,h.named,?_,fun j e he => hasked j (h.past j e he),?_⟩,fun _ _ hc => hc,fun _ hk => hk,.inl rfl⟩
  · exact fun j => (h.held j).same rfl rfl fun _ _ => .rfl
  · intro j call hc
    by_cases hj : j = i
    · subst hj
      cases (Function.update_self ..).symm.trans hc
      cases request with
      | bootstrap t origin => exact ⟨hfresh,t,origin,Function.update_self ..⟩
      | verify raw =>
        simp only [WidgetRequest.start]
        split
        · exact ⟨hfresh,hclean,trivial⟩
        · split
          · exact ⟨hfresh,hclean⟩
          · exact ⟨hfresh,hclean,trivial⟩
      | renew p origin => exact ⟨hfresh,origin,Function.update_self ..⟩
      | contactPrincipalFor p =>
        simp only [WidgetRequest.start]
        split
        · rename_i c hc
          exact ⟨hfresh,hclean,p,Function.update_self ..,h.contactOf_issued hcarried hc⟩
        · exact ⟨hfresh,Function.update_self ..⟩
      | revoke t k => exact hfresh
    · exact (hbeside j hj).fits (h.fits j call ((Function.update_of_ne hj _ _).symm.trans hc))
  · intro j hc
    have hj : j ≠ i := by
      rintro rfl
      cases (Function.update_self ..).symm.trans hc
    exact (hbeside j hj).clean (h.idle j ((Function.update_of_ne hj _ _).symm.trans hc))
  · intro j a ha
    obtain ⟨ht,hr⟩ := h.told j a ha
    exact ⟨(hbeside j (hne j hr)).told ht,hasked j hr⟩
  · intro j call hc
    by_cases hj : j = i
    · subst hj
      show Function.update s.requests j (some request) j ≠ none
      rw [Function.update_self]
      exact fun he => by cases he
    · exact hasked j (h.asked j call ((Function.update_of_ne hj _ _).symm.trans hc))

private theorem Kept.aside (h : s.Kept) {clock : Int} {tenants : Uuid → Option (List String)} :
    Takes s { s with clock := clock, tenants := tenants } := by
  have hbeside : ∀ j, Beside s { s with clock := clock, tenants := tenants } j := fun j =>
    ⟨rfl,fun _ => rfl,fun _ => rfl,fun _ _ _ => rfl,fun _ _ => rfl,fun _ _ hc => hc,fun _ hc => hc,fun _ _ hi => hi,
      Nat.le_refl _,fun _ => .rfl⟩
  exact ⟨⟨fun j => (hbeside j).held (h.held j),fun j call hc => (hbeside j).fits (h.fits j call hc),
    fun j hc => (hbeside j).clean (h.idle j hc),h.named,fun j a ha => ⟨(hbeside j).told (h.told j a ha).1,(h.told j a ha).2⟩,
    h.past,h.asked⟩,fun _ _ hc => hc,fun _ hk => hk,.inl rfl⟩

/-- The step lemma. -/
theorem Kept.step (h : s.Kept) {a : WidgetAction ι} (hs : s.step lib a = some s') : Takes s s' := by
  cases a with
  | tick now =>
    simp only [Visitors.step] at hs
    split at hs
    · cases hs
      exact h.aside
    · cases hs
  | configure tenantId widgetOrigins =>
    cases hs
    exact h.aside
  | begin i request =>
    simp only [Visitors.step] at hs
    split at hs
    · rename_i hfree
      split at hs
      · rename_i hcarried
        cases hs
        exact h.begin hfree hcarried
      · cases hs
    · cases hs
  | advance i =>
    obtain ⟨call,hcall,hs⟩ := Option.bind_eq_some_iff.mp hs
    exact h.advance hcall hs
  | abort i =>
    obtain ⟨call,hcall,rfl⟩ := Option.map_eq_some_iff.mp hs
    exact (h.rollback i).answered trivial (h.asked i _ hcall)
  | lose i =>
    simp only [Visitors.step] at hs
    split at hs
    · rename_i outcome hcall
      cases hs
      exact h.commit hcall
    · cases hs

end Steps

/-! ## Every run -/

/-- What a visitor's session comes to. `history` has every statement that read it unrevoked, renewed it or inserted a
Contact for it. -/
structure OneContact (s : Visitors ι) : Prop where
  /-- At most one Contact is inserted for a session, but for those that are rolled back. -/
  once : ∀ k i c j c', (i, .created k c) ∈ s.history → (j, .created k c') ∈ s.history → s.Inserted c → s.Inserted c' → c = c'
  /-- The session's Contact is the one that was inserted for it, -/
  its : ∀ k c, s.contactOf k = some c → (∃ i, (i, .created k c) ∈ s.history) ∧ s.contacts.committed c ≠ none
  /-- and it is what every call that succeeds returns. -/
  returned : ∀ i t c, (i, .contact t c) ∈ s.answers →
    ∃ p, s.requests i = some (.contactPrincipalFor p) ∧ s.contactOf p.sessionId = some c
  /-- A call that verifies or renews a session has a statement that did. -/
  verified : ∀ i p, (i, .verified (some p)) ∈ s.answers → (i, .saw p.sessionId) ∈ s.history
  renewed : ∀ i p origin token n, s.requests i = some (.renew p origin) → (i, .granted token n) ∈ s.answers →
    (i, .renewed p.sessionId) ∈ s.history

private theorem Kept.once (h : s.Kept) {c' : Uuid} (hc : (i, .created k c) ∈ s.history) (hc' : (j, .created k c') ∈ s.history)
    (hi : s.Inserted c) (hi' : s.Inserted c') : c = c' := by
  have hopen : ∀ j c c', s.contactOf k = some c → s.Placed j k c' → c = c' := by
    rintro j c c' hk (⟨hk',_⟩ | ⟨r,ho,_,_,hr⟩)
    · exact Option.some.inj (hk.symm.trans hk')
    · -- the version that the open call holds has the committed Contact
      obtain ⟨r₀,hr₀,hc⟩ := contactOf_some.mp hk
      exact hr c (((h.held j).grows k r₀ r hr₀ ho).contactId c hc)
  have hp := ((h.held i).created k c hc).2 hi
  have hp' := ((h.held j).created k c' hc').2 hi'
  rcases id hp with ⟨hk,_⟩ | ⟨r,ho,_⟩
  · exact hopen j c c' hk hp'
  · rcases id hp' with ⟨hk',_⟩ | ⟨r',ho',_⟩
    · exact (hopen i c' c hk' hp).symm
    · have hij : i = j := by
        by_contra hne
        cases (Table.own_exclusive _ _ _ _ ho (Ne.symm hne)).symm.trans ho'
      subst hij
      exact ((h.held i).lone k c k c' hc hc').2

private theorem kept_initial : (initial : Visitors ι).Kept where
  held _ := ⟨fun _ _ _ h => (by cases h),fun _ _ _ h => (by cases h),fun _ _ h => (by cases h),fun _ _ _ _ h => (by cases h)⟩
  fits _ _ h := by cases h
  idle _ _ := ⟨fun _ => rfl,fun _ => rfl⟩
  named _ _ h := by cases h
  told _ _ h := by cases h
  past _ _ h := by cases h
  asked _ _ h := by cases h

variable {lib : Library} {acts : List (WidgetAction ι)}

/-- A visitor becomes at most one Contact, in every interleaving of the calls on any sessions. From any moment on, a
session's Contact stays what it is, and once its revocation is committed no statement verifies the session, renews it or
inserts a Contact for it. -/
theorem oneContact_of_run (hr : Run (step lib) Always initial acts s) :
    s.OneContact ∧
    (∀ later s' k c, Run (step lib) Always s later s' → s.contactOf k = some c → s'.contactOf k = some c) ∧
    ∀ later s' k, Run (step lib) Always s later s' → s.Revoked k →
      s'.history.filter (fun e => e.2.sessionId = k) = s.history.filter fun e => e.2.sessionId = k := by
  have h : s.Kept := hr.invariant kept_initial fun _ _ _ h _ hs => (h.step hs).kept
  refine ⟨⟨fun k i c j c' => h.once,h.named,?_,?_,?_⟩,?_,?_⟩
  · exact fun i t c ha => (h.told i _ ha).1
  · exact fun i p ha => (h.told i _ ha).1.2
  · exact fun i p origin token n hp ha => (h.told i _ ha).1 p origin hp
  · intro later s' k c hlater hc
    exact (hlater.invariant (I := fun t => t.Kept ∧ t.contactOf k = some c) ⟨h,hc⟩
      fun _ _ _ ht _ hs => ⟨(ht.1.step hs).kept,(ht.1.step hs).contacts k c ht.2⟩).2
  · intro later s' k hlater hk
    refine (hlater.invariant (I := fun t => t.Kept ∧ t.Revoked k ∧
      t.history.filter (fun e => e.2.sessionId = k) = s.history.filter fun e => e.2.sessionId = k) ⟨h,hk,rfl⟩ ?_).2.2
    rintro t a t' ⟨ht,hkt,he⟩ _ hs
    have htakes := ht.step hs
    refine ⟨htakes.kept,htakes.revoked k hkt,?_⟩
    rcases htakes.history with hsame | ⟨i,e,hnew,hlive⟩
    · rw [hsame]
      exact he
    · have hne : e.sessionId ≠ k := by
        rintro rfl
        exact hlive hkt
      rw [hnew, List.filter_append, he, List.filter_singleton]
      simp [hne]

private def plainLibrary : Library where
  verifyAsync token _ :=
    match token.toList with
    | [sub, '.', tenantId] => some (some fun key =>
        if key = "kind" then some (.text "widget")
        else if key = "sub" then some (.text (.ofList [sub]))
        else if key = "tenantId" then some (.text (.ofList [tenantId]))
        else none)
    | _ => none
  signAsync sessionId tenantId _ := .ofList [Char.ofNat (48 + sessionId), '.', Char.ofNat (48 + tenantId)]
  uuid text :=
    match text.toList with
    | [digit] => some (digit.toNat - 48)
    | _ => none
  toLowerCase text := text

private def visitor : WidgetPrincipal := ⟨1, 0, none⟩

/-- Two requests of one visitor meet, then the session is revoked, and a third comes with what was verified before. -/
private def meeting : List (WidgetAction Nat) :=
  [.configure 1 ["https://acme.test"], .begin 0 (.bootstrap 1 (some "https://acme.test/")), .advance 0, .advance 0, .advance 0,
   .begin 1 (.verify "nvw_0.1"), .advance 1, .advance 1, .advance 1,
   .begin 2 (.contactPrincipalFor visitor), .begin 3 (.contactPrincipalFor visitor), .begin 4 (.revoke 1 0),
   .advance 2, .advance 2, .advance 2, .advance 2, .advance 3, .advance 3, .advance 4, .advance 4,
   .begin 5 (.contactPrincipalFor visitor), .advance 5, .advance 5]

theorem oneContact_of_meeting : ∃ s, Run (step plainLibrary) Always initial meeting s ∧
    s.answers = [(0, .granted "nvw_0.1" 1800), (1, .verified (some visitor)), (2, .contact 1 0), (3, .contact 1 0), (4, .revoked),
      (5, .refused "unauthenticated" "This widget session is no longer valid.")] ∧
    (s.OneContact ∧ s.contactOf 0 = some 0) ∧
    ∀ later s', Run (step plainLibrary) Always s later s' → s'.contactOf 0 = some 0 ∧
      s'.history.filter (fun e => e.2.sessionId = 0) = s.history.filter fun e => e.2.sessionId = 0 := by
  have hrun : (exec (step plainLibrary) Always initial meeting).any (fun s =>
      s.answers = [(0, .granted "nvw_0.1" 1800), (1, .verified (some visitor)), (2, .contact 1 0), (3, .contact 1 0), (4, .revoked),
        (5, .refused "unauthenticated" "This widget session is no longer valid.")] ∧ s.contactOf 0 = some 0 ∧
        (s.sessions.committed 0).any fun r => r.revokedAt.isSome) = true := by
    decide +kernel
  obtain ⟨s,hs,hp⟩ := exec_any hrun
  obtain ⟨ha,hc,hrev⟩ := of_decide_eq_true hp
  obtain ⟨r,hr,hrev⟩ := (Option.any_eq_true _ _).mp hrev
  obtain ⟨hone,hstays,hfrozen⟩ := oneContact_of_run hs
  exact ⟨s,hs,ha,⟨hone,hc⟩,fun later s' hlater => ⟨hstays later s' 0 0 hlater hc,
    hfrozen later s' 0 hlater ⟨r,hr,Option.isSome_iff_ne_none.mp hrev⟩⟩⟩

end Nivara.Widget.Visitors
