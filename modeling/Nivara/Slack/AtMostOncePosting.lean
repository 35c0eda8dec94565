import Mathlib.Data.Fintype.Basic
import Mathlib.Data.List.Nodup
import Nivara.Slack.Delivery

/-! How often a reply is posted. Between Slack's acceptance and the record's commit the
`pending` row does not know of the post; the handler that made it does. The pair is posted
once as long as that handler gets to its record and is alone with its delivery. -/
namespace Nivara.Slack
open Transactions Scheduler

def CourierAction.starts {ι : Type} : CourierAction ι → Option ι
  | .drain (.start i) => some i
  | _ => none

def Stage.isPosted : Stage → Bool
  | .posted _ _ => true
  | _ => false

def Stage.isUnposted : Stage → Bool
  | .claimed _ => true
  | .composed _ _ => true
  | _ => false

def Stage.row : Stage → Option Nat
  | .claimed k => some k
  | .composed k _ => some k
  | .posted k _ => some k
  | .caught k _ => some k
  | _ => none

/-! The table of deliveries. -/
section Rows
variable {ι : Type} [DecidableEq ι]

/-- One row a pair, each as its check allows; what an open transaction writes is a giving up on
a row that is not delivered. -/
structure Rows (t : Table ι OutboundDelivery) : Prop where
  unique : ∀ k k' r r', t.committed k = some r → t.committed k' = some r' → r.key = r'.key → k = k'
  checked : ∀ k r, t.committed k = some r → r.checks = true
  written : ∀ i k v, t.own i k = some v → v.status = .dead ∧ v.deliveredAt = none ∧
    ∃ r, t.committed k = some r ∧ v.key = r.key ∧ r.deliveredAt = none

def Grows (t t' : Table ι OutboundDelivery) : Prop :=
  ∀ k r, t.committed k = some r → ∃ r', t'.committed k = some r' ∧ r'.key = r.key ∧
    (r.status = .delivered → r'.status = .delivered)

omit [DecidableEq ι] in
theorem Grows.of_eq {t t' : Table ι OutboundDelivery} (h : t'.committed = t.committed) : Grows t t' :=
  fun k r hr => ⟨r,by rw [h, hr],rfl,id⟩

theorem rows_empty : Rows (Table.empty : Table ι OutboundDelivery) where
  unique k k' r r' h := by cases h
  checked k r h := by cases h
  written i k v h := by cases h

theorem OutboundDelivery.delivered_iff {r : OutboundDelivery} (h : r.checks = true) :
    r.status = .delivered ↔ r.deliveredAt ≠ none := by
  have h' := of_decide_eq_true h
  rw [← Option.isSome_iff_ne_none, ← h', decide_eq_true_eq]

variable {t : Table ι OutboundDelivery}

theorem Rows.append (h : Rows t) {r : OutboundDelivery} (hc : r.checks = true)
    (hnew : ∀ k s, t.committed k = some s → s.key ≠ r.key) : Rows (t.append r) where
  unique k k' s s' hk hk' hkey := by
    rw [Table.append_committed] at hk hk'
    split at hk <;> split at hk'
    · omega
    · cases hk
      exact absurd hkey.symm (hnew k' s' hk')
    · cases hk'
      exact absurd hkey (hnew k s hk)
    · exact h.unique k k' s s' hk hk' hkey
  checked k s hk := by
    rw [Table.append_committed] at hk
    split at hk
    · cases hk
      exact hc
    · exact h.checked k s hk
  written i k v hown := by
    obtain ⟨hdead,hnone,s,hs,hrest⟩ := h.written i k v hown
    exact ⟨hdead,hnone,s,Table.append_committed_of_committed _ _ hs,hrest⟩

omit [DecidableEq ι] in
theorem Grows.append (r : OutboundDelivery) : Grows t (t.append r) :=
  fun _ s hs => ⟨s,Table.append_committed_of_committed _ _ hs,rfl,id⟩

/-- An update that commits at once, of a row nobody has locked. -/
theorem Rows.amend (h : Rows t) {k : Nat} {f : OutboundDelivery → OutboundDelivery} (hkey : ∀ r, (f r).key = r.key)
    (hc : ∀ r, t.committed k = some r → (f r).checks = true) (hfree : t.pending k = none) : Rows (t.amend k f) where
  unique j j' s s' hj hj' hs := by
    have hback : ∀ m v, (t.amend k f).committed m = some v → ∃ w, t.committed m = some w ∧ v.key = w.key := by
      intro m v hm
      rw [Table.amend_committed] at hm
      split at hm
      · rename_i hmk
        obtain ⟨w,hw,rfl⟩ := Option.map_eq_some_iff.mp hm
        exact ⟨w,hmk ▸ hw,hkey w⟩
      · exact ⟨v,hm,rfl⟩
    obtain ⟨w,hw,he⟩ := hback j s hj
    obtain ⟨w',hw',he'⟩ := hback j' s' hj'
    exact h.unique j j' w w' hw hw' (by rw [← he, ← he', hs])
  checked j s hj := by
    rw [Table.amend_committed] at hj
    split at hj
    · obtain ⟨w,hw,rfl⟩ := Option.map_eq_some_iff.mp hj
      exact hc w hw
    · exact h.checked j s hj
  written i j v hown := by
    obtain ⟨hdead,hnone,s,hs,hrest⟩ := h.written i j v hown
    refine ⟨hdead,hnone,s,?_,hrest⟩
    rw [Table.amend_committed, if_neg, hs]
    rintro rfl
    cases hfree.symm.trans ((Table.own_eq_some_iff _ _ _).mp hown)

omit [DecidableEq ι] in
theorem Grows.amend {k : Nat} {f : OutboundDelivery → OutboundDelivery} (hkey : ∀ r, (f r).key = r.key)
    (hkeep : ∀ r, t.committed k = some r → r.status = .delivered → (f r).status = .delivered) :
    Grows t (t.amend k f) := by
  intro j s hs
  rw [Table.amend_committed]
  split
  · rename_i hjk
    subst hjk
    exact ⟨f s,by rw [hs]; rfl,hkey s,hkeep s hs⟩
  · exact ⟨s,hs,rfl,id⟩

/-- The handler's transaction gives up on a row that is not delivered. -/
theorem Rows.write (h : Rows t) {i : ι} {k : Nat} {error : String}
    (hopen : ∀ r, t.committed k = some r → r.deliveredAt = none) (hfree : t.free i [k] = true) :
    Rows (t.write i [k] (fun _ => true) (OutboundDelivery.settled .dead error)) where
  unique := h.unique
  checked := h.checked
  written j m v hown := by
    by_cases hji : j = i
    · subst hji
      rcases Table.own_write_cases _ _ _ hown with ⟨s,hm,hvis,_,rfl⟩ | hold
      · have hmk := List.mem_singleton.mp hm
        subst hmk
        rcases Table.visible_cases _ _ _ hvis with hs | ⟨_,hs⟩
        · obtain ⟨_,hnone,r,hr,hkey,hrnone⟩ := h.written j m s hs
          exact ⟨rfl,hnone,r,hr,hkey,hrnone⟩
        · exact ⟨rfl,hopen s hs,s,hs,rfl,hopen s hs⟩
      · exact h.written j m v hold
    · rw [Table.own_write_other _ _ _ _ hji hfree] at hown
      exact h.written j m v hown

theorem Rows.rollback (h : Rows t) (i : ι) : Rows (t.rollback i) where
  unique := h.unique
  checked := h.checked
  written j k v hown := by
    by_cases hji : j = i
    · subst hji
      simp at hown
    · rw [Table.own_rollback_other _ _ _ _ hji] at hown
      exact h.written j k v hown

private theorem Rows.visible_key (h : Rows t) {i : ι} {k : Nat} {v : OutboundDelivery} (hv : t.visible i k = some v) :
    v.checks = true ∧ ∃ r, t.committed k = some r ∧ v.key = r.key := by
  rcases Table.visible_cases _ _ _ hv with hown | ⟨_,hr⟩
  · obtain ⟨hdead,hnone,r,hr,hkey,_⟩ := h.written i k v hown
    exact ⟨by simp [OutboundDelivery.checks, hdead, hnone],r,hr,hkey⟩
  · exact ⟨h.checked k v hr,v,hr,rfl⟩

theorem Rows.commit (h : Rows t) (i : ι) : Rows (t.commit i) where
  unique k k' r r' hk hk' hkey := by
    obtain ⟨_,s,hs,he⟩ := h.visible_key hk
    obtain ⟨_,s',hs',he'⟩ := h.visible_key hk'
    exact h.unique k k' s s' hs hs' (by rw [← he, ← he', hkey])
  checked k r hk := (h.visible_key hk).1
  written j k v hown := by
    have hji : j ≠ i := by
      rintro rfl
      simp at hown
    rw [Table.own_commit_other _ _ _ _ hji] at hown
    obtain ⟨hdead,hnone,r,hr,hrest⟩ := h.written j k v hown
    refine ⟨hdead,hnone,r,?_,hrest⟩
    rw [Table.commit_committed, Table.visible_of_no_own _ _ _ (Table.own_exclusive _ _ _ _ hown (Ne.symm hji)), hr]

theorem Grows.commit (h : Rows t) (i : ι) : Grows t (t.commit i) := by
  intro k r hr
  cases hown : t.own i k with
  | none => exact ⟨r,(Table.visible_of_no_own _ _ _ hown).trans hr,rfl,id⟩
  | some v =>
    obtain ⟨_,_,s,hs,hkey,hnone⟩ := h.written i k v hown
    cases hr.symm.trans hs
    refine ⟨v,Table.visible_of_own _ _ _ hown,hkey,fun hd => ?_⟩
    exact absurd hnone ((OutboundDelivery.delivered_iff (h.checked k r hr)).mp hd)

end Rows

namespace Courier
variable {ι : Type} [DecidableEq ι]

section Updates
variable {c c' : Courier ι} {i : ι} {k : Nat} {f : OutboundDelivery → OutboundDelivery}

omit [DecidableEq ι] in
private theorem row_of_updates (h : c.updates k f = true) :
    ∃ r, c.deliveries.committed k = some r ∧ c.alive r.messageId = true ∧ (f r).checks = true := by
  obtain ⟨r,hr,hok⟩ := (Option.any_eq_true _ _).mp h
  exact ⟨r,hr,Bool.and_eq_true_iff.mp hok⟩

omit [DecidableEq ι] in
theorem inOwnTransaction_some (hs : c.inOwnTransaction k f = some c') :
    c' = { c with deliveries := c.deliveries.amend k f } ∧ c.deliveries.pending k = none ∧
      ∃ r, c.deliveries.committed k = some r ∧ c.alive r.messageId = true ∧ (f r).checks = true := by
  simp only [inOwnTransaction] at hs
  split at hs
  · rename_i hok
    exact ⟨(Option.some.inj hs).symm,Option.isNone_iff_eq_none.mp hok.2,row_of_updates hok.1⟩
  · cases hs

theorem inTransaction_some (hs : c.inTransaction i k f = some c') :
    c' = { c with deliveries := c.deliveries.write i [k] (fun _ => true) f } ∧ c.deliveries.free i [k] = true ∧
      ∃ r, c.deliveries.committed k = some r ∧ c.alive r.messageId = true ∧ (f r).checks = true := by
  simp only [inTransaction] at hs
  split at hs
  · rename_i hok
    exact ⟨(Option.some.inj hs).symm,hok.2,row_of_updates hok.1⟩
  · cases hs

end Updates

/-- A Message that is deleted stays deleted. -/
theorem getElem?_set_none {messages : List (Option Message)} {m m' : Uuid} (h : messages[m]? = some none) :
    (messages.set m' none)[m]? = some none := by
  have hlt : m < messages.length := (List.getElem?_eq_some_iff.mp h).1
  rw [List.getElem?_set]
  split
  · rename_i hm
    rw [if_pos (hm ▸ hlt)]
  · exact h

/-- No other handler runs for the pair whose handler begins. -/
def handlesAlone (c : Courier ι) (a : CourierAction ι) : Prop :=
  ∀ i ∈ a.starts, ∀ y ∈ c.handling i, ∀ j, ∀ x ∈ c.handlers j, x.key ≠ y.key

instance [Fintype ι] (c : Courier ι) (a : CourierAction ι) : Decidable (c.handlesAlone a) :=
  inferInstanceAs (Decidable (∀ i ∈ a.starts, ∀ y ∈ c.handling i, ∀ j, ∀ x ∈ c.handlers j, x.key ≠ y.key))

/-- Slack's acceptance reaches the handler, and from then on neither a crash nor a failed
statement comes before the record, unless the message is deleted. -/
def recordsPost (c : Courier ι) : CourierAction ι → Bool
  | .drain (.crash i) => (c.handlers i).all (!·.stage.isPosted)
  | .fail i _ => (c.handlers i).all fun x => !x.stage.isPosted || c.isGone x.messageId
  | .post _ accepts answer => !accepts || (postMessage answer).isOk
  | _ => true

/-- Where an accepted post is known: in a delivered row, with the handler that made it, or
nowhere when the message is deleted and its deliveries with it. -/
def Known (c : Courier ι) (key : Uuid × String) : Prop :=
  (∃ k r, c.deliveries.committed k = some r ∧ r.key = key ∧ r.status = .delivered) ∨
  (∃ i x, c.handlers i = some x ∧ x.key = key ∧ x.stage.isPosted = true) ∨ c.isGone key.1 = true

structure Traced (c : Courier ι) : Prop where
  rows : Rows c.deliveries
  apart : ∀ i j x y, c.handlers i = some x → c.handlers j = some y → x.key = y.key → i = j
  row : ∀ i x, c.handlers i = some x → ∀ k, x.stage.row = some k →
    ∃ r, c.deliveries.committed k = some r ∧ r.key = x.key
  unposted : ∀ i x, c.handlers i = some x → x.stage.isUnposted = true → x.key ∉ c.accepted
  known : ∀ key ∈ c.accepted, c.Known key
  once : c.accepted.Nodup

theorem traced_initial : (initial : Courier ι).Traced where
  rows := rows_empty
  apart i j x y h := by cases h
  row i x h := by cases h
  unposted i x h := by cases h
  known key h := by cases h
  once := List.nodup_nil

namespace Traced
variable {c c' : Courier ι}

/-- Nothing happens to the handlers. -/
theorem quiet (h : c.Traced) (hrows : Rows c'.deliveries) (hgrows : Grows c.deliveries c'.deliveries)
    (hgone : ∀ m, c.isGone m = true → c'.isGone m = true) (hhandlers : c'.handlers = c.handlers)
    (haccepted : c'.accepted = c.accepted) : c'.Traced where
  rows := hrows
  apart := by
    rw [hhandlers]
    exact h.apart
  row i x hx k hk := by
    rw [hhandlers] at hx
    obtain ⟨r,hr,hkey⟩ := h.row i x hx k hk
    obtain ⟨r',hr',hkey',_⟩ := hgrows k r hr
    exact ⟨r',hr',hkey'.trans hkey⟩
  unposted := by
    rw [hhandlers, haccepted]
    exact h.unposted
  known key hkey := by
    rw [haccepted] at hkey
    rcases h.known key hkey with ⟨k,r,hr,hk,hd⟩ | ⟨i,x,hx,hrest⟩ | hg
    · obtain ⟨r',hr',hkey',hd'⟩ := hgrows k r hr
      exact .inl ⟨k,r',hr',hkey'.trans hk,hd' hd⟩
    · exact .inr (.inl ⟨i,x,by rw [hhandlers, hx],hrest⟩)
    · exact .inr (.inr (hgone _ hg))
  once := by
    rw [haccepted]
    exact h.once

/-- The handler of `i` begins, moves on or ends. If it had posted, the post is known elsewhere
or it still stands before its record. -/
theorem change (h : c.Traced) (i : ι) (x : Option Handling) (hrows : Rows c'.deliveries)
    (hgrows : Grows c.deliveries c'.deliveries) (hmessages : c'.messages = c.messages)
    (hhandlers : c'.handlers = Function.update c.handlers i x) (haccepted : c'.accepted = c.accepted)
    (halone : ∀ y ∈ x, ∀ j z, j ≠ i → c.handlers j = some z → z.key ≠ y.key)
    (hrow : ∀ y ∈ x, ∀ k, y.stage.row = some k → ∃ r, c'.deliveries.committed k = some r ∧ r.key = y.key)
    (hunposted : ∀ y ∈ x, y.stage.isUnposted = true → y.key ∉ c.accepted)
    (hposted : ∀ y, c.handlers i = some y → y.stage.isPosted = true → c'.Known y.key) : c'.Traced where
  rows := hrows
  apart j j' y z hy hz hkey := by
    rw [hhandlers, Function.update_apply] at hy hz
    split at hy <;> split at hz
    · rename_i hj hj'
      rw [hj, hj']
    · rename_i hj hj'
      exact absurd hkey.symm (halone y hy j' z hj' hz)
    · rename_i hj hj'
      exact absurd hkey (halone z hz j y hj hy)
    · exact h.apart j j' y z hy hz hkey
  row j y hy k hk := by
    rw [hhandlers, Function.update_apply] at hy
    split at hy
    · exact hrow y hy k hk
    · obtain ⟨r,hr,hkey⟩ := h.row j y hy k hk
      obtain ⟨r',hr',hkey',_⟩ := hgrows k r hr
      exact ⟨r',hr',hkey'.trans hkey⟩
  unposted j y hy hu := by
    rw [haccepted]
    rw [hhandlers, Function.update_apply] at hy
    split at hy
    · exact hunposted y hy hu
    · exact h.unposted j y hy hu
  known key hkey := by
    rw [haccepted] at hkey
    rcases h.known key hkey with ⟨k,r,hr,hk,hd⟩ | ⟨j,y,hy,rfl,hp⟩ | hg
    · obtain ⟨r',hr',hkey',hd'⟩ := hgrows k r hr
      exact .inl ⟨k,r',hr',hkey'.trans hk,hd' hd⟩
    · by_cases hji : j = i
      · subst hji
        exact hposted y hy hp
      · exact .inr (.inl ⟨j,y,by rw [hhandlers, Function.update_of_ne hji, hy],rfl,hp⟩)
    · exact .inr (.inr (by rw [isGone, hmessages]; exact hg))
  once := by
    rw [haccepted]
    exact h.once

/-- The handler of `i` moves on, with what it wrote in `deliveries`. -/
theorem move (h : c.Traced) {i : ι} {x : Handling} (hx : c.handlers i = some x) {t : Table ι OutboundDelivery}
    (hrows : Rows t) (hgrows : Grows c.deliveries t) (stage : Stage)
    (hrow : ∀ k, stage.row = some k → x.stage.row = some k ∨ ∃ r, t.committed k = some r ∧ r.key = x.key)
    (hunposted : stage.isUnposted = true → x.key ∉ c.accepted)
    (hposted : x.stage.isPosted = true → Known ({ c with deliveries := t }.goto i x stage) x.key) :
    ({ c with deliveries := t }.goto i x stage).Traced := by
  refine h.change i (some { x with stage := stage }) hrows hgrows rfl rfl rfl ?_ ?_ ?_ ?_
  · rintro _ ⟨⟩ j z hj hz hkey
    exact hj (h.apart j i z x hz hx hkey)
  · rintro _ ⟨⟩ k hk
    rcases hrow k hk with hold | hnew
    · obtain ⟨r,hr,hkey⟩ := h.row i x hx k hold
      obtain ⟨r',hr',hkey',_⟩ := hgrows k r hr
      exact ⟨r',hr',hkey'.trans hkey⟩
    · exact hnew
  · rintro _ ⟨⟩ hu
    exact hunposted hu
  · intro y hy hp
    cases hx.symm.trans hy
    exact hposted hp

private theorem amended (h : c.Traced) {k : Nat} {f : OutboundDelivery → OutboundDelivery}
    (hs : c.inOwnTransaction k f = some c') (hkey : ∀ r, (f r).key = r.key)
    (hkeep : ∀ r, (f r).checks = true → r.checks = true → r.status = .delivered → (f r).status = .delivered) :
    c' = { c with deliveries := c.deliveries.amend k f } ∧ Rows c'.deliveries ∧ Grows c.deliveries c'.deliveries := by
  obtain ⟨rfl,hfree,r,hr,_,hc⟩ := inOwnTransaction_some hs
  refine ⟨rfl,h.rows.amend hkey (fun s hs => ?_) hfree,Grows.amend hkey fun s hs hd => ?_⟩
  · cases hr.symm.trans hs
    exact hc
  · cases hr.symm.trans hs
    exact hkeep r hc (h.rows.checked k r hr) hd

private theorem abandoned (h : c.Traced) {i : ι} {x : Handling} (hx : c.handlers i = some x) {k : Nat} {error : String}
    (hp : x.stage.isPosted = false) (hs : c.abandon i x k error = some c') : c'.Traced := by
  obtain ⟨c₁,h₁,rfl⟩ := Option.map_eq_some_iff.mp hs
  obtain ⟨rfl,hfree,r,hr,_,hc⟩ := inTransaction_some h₁
  have hopen : ∀ s, c.deliveries.committed k = some s → s.deliveredAt = none := by
    intro s hs
    cases hr.symm.trans hs
    simpa [OutboundDelivery.checks, OutboundDelivery.settled] using hc
  exact h.move hx (h.rows.write hopen hfree) (.of_eq rfl) _ (by rintro _ ⟨⟩) (by rintro ⟨⟩) fun hp' => by simp [hp] at hp'

/-- The claim finds a row of its pair that no accepted post belongs to. -/
private theorem owed_some (h : c.Traced) {i : ι} {x : Handling} (hx : c.handlers i = some x)
    (hp : x.stage.isPosted = false) {k : Nat} (hk : c.owed x = some k) :
    (∃ r, c.deliveries.committed k = some r ∧ r.key = x.key) ∧ x.key ∉ c.accepted := by
  have hany := List.find?_some hk
  obtain ⟨r,hr,howed⟩ := (Option.any_eq_true _ _).mp hany
  obtain ⟨_,hkey,hpending,halive⟩ := of_decide_eq_true howed
  refine ⟨⟨r,hr,hkey⟩,fun hacc => ?_⟩
  rcases h.known x.key hacc with ⟨k',r',hr',hkey',hd⟩ | ⟨j,y,hy,hkey',hposted⟩ | hgone
  · cases h.rows.unique k k' r r' hr hr' (hkey.trans hkey'.symm)
    cases hr.symm.trans hr'
    rw [hpending] at hd
    cases hd
  · cases h.apart j i y x hy hx hkey'
    cases hx.symm.trans hy
    rw [hp] at hposted
    cases hposted
  · have hm : r.messageId = x.key.1 := congrArg Prod.fst hkey
    rw [hm, alive, of_decide_eq_true hgone] at halive
    cases halive

private theorem claim (h : c.Traced) {i : ι} {x : Handling} (hx : c.handlers i = some x)
    (hstage : x.stage = .claiming) (hs : c.claim i x = some c') : c'.Traced := by
  have hp : x.stage.isPosted = false := by rw [hstage]; rfl
  simp only [Courier.claim] at hs
  split at hs
  · cases hs
    exact h.move hx h.rows (.of_eq rfl) .returning (by rintro _ ⟨⟩) (by rintro ⟨⟩) fun hp' => by simp [hp] at hp'
  · rename_i k hk
    obtain ⟨c₁,h₁,rfl⟩ := Option.map_eq_some_iff.mp hs
    obtain ⟨rfl,hrows,hgrows⟩ := h.amended h₁ (fun _ => rfl) fun _ _ _ hd => hd
    obtain ⟨⟨r,hr,hkey⟩,hfresh⟩ := h.owed_some hx hp hk
    refine h.move hx hrows hgrows (.claimed k) ?_ (fun _ => hfresh) fun hp' => by simp [hp] at hp'
    rintro _ ⟨⟩
    exact .inr ⟨r.attempted,by simp [Table.amend_committed, hr],hkey⟩

private theorem record (h : c.Traced) {i : ι} {x : Handling} (hx : c.handlers i = some x) {k : Nat} {ts : String}
    (hstage : x.stage = .posted k ts) {c₁ : Courier ι} {now : Int}
    (hs : c.inOwnTransaction k (OutboundDelivery.recorded ts now) = some c₁) : (c₁.goto i x .returning).Traced := by
  obtain ⟨rfl,hrows,hgrows⟩ := h.amended hs (fun _ => rfl) fun _ _ _ _ => rfl
  obtain ⟨r,hr,hkey⟩ := h.row i x hx k (by rw [hstage]; rfl)
  refine h.move hx hrows hgrows .returning (by rintro _ ⟨⟩) (by rintro ⟨⟩) fun _ => .inl ⟨k,r.recorded ts now,?_,hkey,rfl⟩
  simp [goto, Table.amend_committed, hr]

private theorem leave (h : c.Traced) {i : ι} {x : Handling} (hx : c.handlers i = some x) (hp : x.stage.isPosted = false)
    {t : Table ι OutboundDelivery} (hrows : Rows t) (hgrows : Grows c.deliveries t) {error : Option String}
    (hs : c.leave i t error = some c') : c'.Traced := by
  obtain ⟨d,_,rfl⟩ := Option.map_eq_some_iff.mp hs
  refine h.change i none hrows hgrows rfl rfl rfl (by rintro _ ⟨⟩) (by rintro _ ⟨⟩) (by rintro _ ⟨⟩) fun y hy hposted => ?_
  cases hx.symm.trans hy
  rw [hp] at hposted
  cases hposted

/-- Every statement of the handler, and the end of its transaction. -/
private theorem advance (h : c.Traced) {i : ι} {x : Handling} (hx : c.handlers i = some x)
    (hs : c.advance i x = some c') : c'.Traced := by
  cases hstage : x.stage with
  | claiming =>
    simp only [Courier.advance, hstage] at hs
    exact h.claim hx hstage hs
  | claimed k =>
    have hp : x.stage.isPosted = false := by rw [hstage]; rfl
    simp only [Courier.advance, hstage] at hs
    split at hs
    · exact h.abandoned hx hp hs
    · split at hs
      · exact h.abandoned hx hp hs
      · cases hs
        refine h.move hx h.rows (.of_eq rfl) _ ?_ (fun _ => ?_) fun hp' => by simp [hp] at hp'
        · rintro _ ⟨⟩
          exact .inl (by rw [hstage]; rfl)
        · exact h.unposted i x hx (by rw [hstage]; rfl)
  | composed k text =>
    simp only [Courier.advance, hstage] at hs
    cases hs
  | posted k ts =>
    simp only [Courier.advance, hstage] at hs
    obtain ⟨c₁,h₁,rfl⟩ := Option.map_eq_some_iff.mp hs
    exact h.record hx hstage h₁
  | caught k error =>
    have hp : x.stage.isPosted = false := by rw [hstage]; rfl
    simp only [Courier.advance, hstage] at hs
    split at hs
    · exact h.abandoned hx hp hs
    · obtain ⟨c₁,h₁,rfl⟩ := Option.map_eq_some_iff.mp hs
      -- the check refuses to take a delivered row back
      obtain ⟨rfl,hrows,hgrows⟩ := h.amended h₁ (fun _ => rfl) fun r hc hr hd => by
        have hsome := (OutboundDelivery.delivered_iff hr).mp hd
        simp [OutboundDelivery.checks, OutboundDelivery.settled] at hc
        exact absurd hc hsome
      exact h.move hx hrows hgrows _ (by rintro _ ⟨⟩) (by rintro ⟨⟩) fun hp' => by simp [hp] at hp'
  | returning =>
    simp only [Courier.advance, hstage] at hs
    exact h.leave hx (by rw [hstage]; rfl) (h.rows.commit i) (Grows.commit h.rows i) hs
  | thrown message =>
    simp only [Courier.advance, hstage] at hs
    exact h.leave hx (by rw [hstage]; rfl) (h.rows.rollback i) (.of_eq rfl) hs

private theorem failed (h : c.Traced) {i : ι} {x : Handling} (hx : c.handlers i = some x) {message : String}
    (hkeep : c.recordsPost (.fail i message) = true) (hs : c.failed i x message = some c') : c'.Traced := by
  have hgone : x.stage.isPosted = true → c.isGone x.messageId = true := by
    intro hp
    simpa [recordsPost, hx, hp] using hkeep
  simp only [Courier.failed] at hs
  split at hs
  · rename_i k text hstage
    cases hs
    refine h.move hx h.rows (.of_eq rfl) _ ?_ (by rintro ⟨⟩) fun hp => .inr (.inr (hgone hp))
    rintro _ ⟨⟩
    exact .inl (by rw [hstage]; rfl)
  · rename_i k ts hstage
    cases hs
    refine h.move hx h.rows (.of_eq rfl) _ ?_ (by rintro ⟨⟩) fun hp => .inr (.inr (hgone hp))
    rintro _ ⟨⟩
    exact .inl (by rw [hstage]; rfl)
  · cases hs
  · cases hs
    exact h.move hx h.rows (.of_eq rfl) _ (by rintro _ ⟨⟩) (by rintro ⟨⟩) fun hp => .inr (.inr (hgone hp))

/-- Slack accepts a post, and its handler stands before the record. -/
private theorem accept (h : c.Traced) {i : ι} {x : Handling} (hx : c.handlers i = some x) {k : Nat} {text ts : String}
    (hstage : x.stage = .composed k text) :
    ({ c.goto i x (.posted k ts) with accepted := c.accepted ++ [x.key] } : Courier ι).Traced := by
  have hnew : x.key ∉ c.accepted := h.unposted i x hx (by rw [hstage]; rfl)
  have hmoved : (c.goto i x (.posted k ts)).Traced := by
    refine h.move hx h.rows (.of_eq rfl) _ ?_ (by rintro ⟨⟩) fun hp => by simp [hstage, Stage.isPosted] at hp
    rintro _ ⟨⟩
    exact .inl (by rw [hstage]; rfl)
  have hself : (c.goto i x (.posted k ts)).handlers i = some { x with stage := .posted k ts } := by simp [goto]
  refine ⟨hmoved.rows,hmoved.apart,hmoved.row,?_,?_,?_⟩
  · intro j y hy hu hacc
    rcases List.mem_append.mp hacc with hold | hkey
    · exact hmoved.unposted j y hy hu hold
    · -- the handlers of one pair are one, and this one has posted
      cases hmoved.apart j i y _ hy hself (List.mem_singleton.mp hkey)
      cases hself.symm.trans hy
      cases hu
  · intro key hacc
    rcases List.mem_append.mp hacc with hold | hkey
    · exact hmoved.known key hold
    · cases List.mem_singleton.mp hkey
      exact .inr (.inl ⟨i,_,hself,rfl,rfl⟩)
  · refine List.nodup_append.mpr ⟨h.once,List.nodup_singleton _,fun a ha b hb => ?_⟩
    cases List.mem_singleton.mp hb
    rintro rfl
    exact hnew ha

private theorem post (h : c.Traced) {i : ι} {x : Handling} (hx : c.handlers i = some x) {accepts : Bool}
    {answer : Answer} (hkeep : c.recordsPost (.post i accepts answer) = true)
    (hs : c.post i x accepts answer = some c') : c'.Traced := by
  simp only [Courier.post] at hs
  split at hs
  · rename_i k text hstage
    split at hs
    · cases hs
      cases accepts with
      | true =>
        cases hpost : postMessage answer with
        | ok ts => exact h.accept hx hstage
        | error error => simp [recordsPost, hpost, Except.isOk, Except.toBool] at hkeep
      | false =>
        have hno : x.stage.isPosted = false := by rw [hstage]; rfl
        cases hpost : postMessage answer with
        | ok ts =>
          -- an answer that names the message is one of an accepted call
          cases answer <;> simp_all [postMessage, Answer.agrees]
        | error error =>
          refine h.move hx h.rows (.of_eq rfl) _ ?_ (by rintro ⟨⟩) fun hp => by simp [hno] at hp
          rintro _ ⟨⟩
          exact .inl (by rw [hstage]; rfl)
    · cases hs
  · cases hs

private theorem schedule (h : c.Traced) {message : Message} {messageId : Uuid} {target : String}
    (hs : c.schedule message messageId target = some c') : c'.Traced := by
  simp only [Courier.schedule] at hs
  split at hs
  · cases hs
    exact h
  · rename_i hnew
    obtain ⟨d,_,rfl⟩ := Option.map_eq_some_iff.mp hs
    refine h.quiet (h.rows.append rfl fun k r hr hkey => hnew ?_) (.append _) (fun _ hg => hg) rfl rfl
    refine List.any_eq_true.mpr ⟨k,List.mem_range.mpr (c.deliveries.lt_size_of_committed k hr),?_⟩
    rw [hr]
    exact decide_eq_true hkey

private theorem dispatchIn (h : c.Traced) {messageId : Uuid} {slackChannelId slackThreadTs : Option String}
    (hs : c.dispatchIn messageId slackChannelId slackThreadTs = some c') : c'.Traced := by
  obtain ⟨message,_,hs⟩ := Option.bind_eq_some_iff.mp hs
  split at hs
  · cases hs
    exact h
  · split at hs
    · cases hs
      exact h
    · exact h.schedule hs

private theorem drain (h : c.Traced) {a : DrainAction ι JobPayload} (hkeep : c.recordsPost (.drain a) = true)
    (halone : c.handlesAlone (.drain a)) (hs : c.drain a = some c') : c'.Traced := by
  have hplain : ∀ d, ({ c with drainage := d } : Courier ι).Traced := fun d =>
    h.quiet h.rows (.of_eq rfl) (fun _ hg => hg) rfl rfl
  cases a with
  | enqueue tenantId input =>
    simp only [Courier.drain] at hs
    split at hs
    · cases hs
    · obtain ⟨d,_,rfl⟩ := Option.map_eq_some_iff.mp hs
      exact hplain d
  | start i =>
    simp only [Courier.drain] at hs
    split at hs
    · rename_i hnone
      obtain ⟨d,_,rfl⟩ := Option.map_eq_some_iff.mp hs
      have hfirst : ∀ y ∈ c.handling i, y.stage = .claiming := by
        intro y hy
        obtain ⟨hand,_,hy⟩ := Option.bind_eq_some_iff.mp hy
        split at hy
        · split at hy
          · cases hy
            rfl
          · cases hy
        · cases hy
      refine h.change i (c.handling i) h.rows (.of_eq rfl) rfl rfl rfl ?_ ?_ ?_ ?_
      · exact fun y hy j z _ hz => halone i rfl y hy j z hz
      · intro y hy k hk
        rw [hfirst y hy] at hk
        cases hk
      · intro y hy hu
        rw [hfirst y hy] at hu
        cases hu
      · intro y hy
        rw [hy] at hnone
        cases hnone
    · cases hs
  | finish i error =>
    simp only [Courier.drain] at hs
    split at hs
    · obtain ⟨d,_,rfl⟩ := Option.map_eq_some_iff.mp hs
      exact hplain d
    · cases hs
  | crash i =>
    simp only [Courier.drain] at hs
    obtain ⟨d,_,rfl⟩ := Option.map_eq_some_iff.mp hs
    refine h.change i none (h.rows.rollback i) (.of_eq rfl) rfl rfl rfl (by rintro _ ⟨⟩) (by rintro _ ⟨⟩) (by rintro _ ⟨⟩) fun y hy hp => ?_
    simp [recordsPost, hy, hp] at hkeep
  | _ =>
    simp only [Courier.drain] at hs
    obtain ⟨d,_,rfl⟩ := Option.map_eq_some_iff.mp hs
    exact hplain d

theorem step (h : c.Traced) {a : CourierAction ι} (hkeep : c.recordsPost a = true) (halone : c.handlesAlone a)
    (hs : c.step a = some c') : c'.Traced := by
  cases a with
  | create message =>
    cases hs
    refine h.quiet h.rows (.of_eq rfl) (fun m hg => ?_) rfl rfl
    have hg' := of_decide_eq_true hg
    have hlt : m < c.messages.length := (List.getElem?_eq_some_iff.mp hg').1
    exact decide_eq_true ((List.getElem?_append_left hlt).trans hg')
  | delete messageId =>
    simp only [Courier.step] at hs
    split at hs
    · cases hs
      exact h.quiet h.rows (.of_eq rfl) (fun m hg => decide_eq_true (getElem?_set_none (of_decide_eq_true hg))) rfl rfl
    · cases hs
  | dispatch messageId slackChannelId slackThreadTs => exact h.dispatchIn hs
  | drain a => exact h.drain hkeep halone hs
  | advance i =>
    obtain ⟨x,hx,hs⟩ := Option.bind_eq_some_iff.mp hs
    exact h.advance hx hs
  | fail i message =>
    obtain ⟨x,hx,hs⟩ := Option.bind_eq_some_iff.mp hs
    exact h.failed hx hkeep hs
  | post i accepts answer =>
    obtain ⟨x,hx,hs⟩ := Option.bind_eq_some_iff.mp hs
    exact h.post hx hkeep hs

end Traced

/-- Slack accepts each pair of a message and a target at most once, in every run in which an
accepted post gets to its record and the handlers of one delivery do not overlap. -/
theorem postedOnce_of_recordsPost {acts : List (CourierAction ι)} {c : Courier ι}
    (hr : Run step (fun c a => c.recordsPost a = true ∧ c.handlesAlone a) initial acts c) : c.accepted.Nodup :=
  (hr.invariant traced_initial fun _ _ _ h ha hs => h.step ha.1 ha.2 hs).once

def replyClaimed : List (CourierAction Bool) :=
  [.create ⟨7, .user, "Done, please retry."⟩, .dispatch 0 (some "C1") (some "17.5"),
   .drain (.claim false (.finite 20) [0]), .drain (.commit false)]

/-- Slack is down at first. The second attempt is posted and recorded, then its drainer is
killed, and the third finds the delivery done. -/
def postedThenKilled : List (CourierAction Bool) := replyClaimed ++
  [CourierAction.drain (.start false), .advance false, .advance false, .post false false (.http 503), .advance false, .advance false,
   .drain (.settle false 0), .drain (.elapse 4000), .drain (.claim true (.finite 20) [0]), .drain (.commit true),
   .drain (.start true), .advance true, .advance true, .post true true (.ok (some "18.2")), .advance true,
   .drain (.crash true), .drain (.elapse 304001), .drain (.claim false (.finite 20) [0]), .drain (.commit false),
   .drain (.start false), .advance false, .advance false, .drain (.settle false 0)]

theorem postedOnce_of_postedThenKilled : ∃ c : Courier Bool,
    Run step (fun c a => c.recordsPost a = true ∧ c.handlesAlone a) initial postedThenKilled c ∧
    c.accepted.Nodup ∧ c.accepted = [(0, "C1/17.5")] ∧
    (c.drainage.queue.table.committed 0).map (fun job => (job.status, job.attempts)) = some (.done, 3) := by
  have hexec : (exec step (fun c a => c.recordsPost a = true ∧ c.handlesAlone a) initial postedThenKilled).any fun c =>
      c.accepted = [(0, "C1/17.5")] ∧
      (c.drainage.queue.table.committed 0).map (fun job => (job.status, job.attempts)) = some (.done, 3) := by
    decide +kernel
  obtain ⟨c,hc,hend⟩ := exec_any hexec
  exact ⟨c,hc,postedOnce_of_recordsPost hc,of_decide_eq_true hend⟩

def killedUnrecorded : List (CourierAction Bool) := replyClaimed ++
  [CourierAction.drain (.start false), .advance false, .advance false, .post false true (.ok (some "18.1")), .drain (.crash false),
   .drain (.elapse 300001), .drain (.claim true (.finite 20) [0]), .drain (.commit true), .drain (.start true),
   .advance true, .advance true, .post true true (.ok (some "18.2"))]

/-- The record's transaction fails after Slack accepted the post; the error goes the way of a
failed post, and the retry posts again. -/
def recordFailed : List (CourierAction Bool) := replyClaimed ++
  [CourierAction.drain (.start false), .advance false, .advance false, .post false true (.ok (some "18.1")), .fail false "timeout",
   .advance false, .advance false, .drain (.settle false 0), .drain (.elapse 4000),
   .drain (.claim true (.finite 20) [0]), .drain (.commit true), .drain (.start true), .advance true, .advance true,
   .post true true (.ok (some "18.2"))]

/-- Either way the customer reads the reply twice. -/
theorem unrecordedPost_repeats : (∃ c : Courier Bool, Run step Always initial killedUnrecorded c ∧
      c.accepted = [(0, "C1/17.5"), (0, "C1/17.5")] ∧ ¬ c.accepted.Nodup) ∧
    ∃ c : Courier Bool, Run step Always initial recordFailed c ∧
      c.accepted = [(0, "C1/17.5"), (0, "C1/17.5")] ∧ ¬ c.accepted.Nodup := by
  have hkilled : (exec step Always initial killedUnrecorded).any
      (·.accepted = [(0, "C1/17.5"), (0, "C1/17.5")]) := by decide +kernel
  have hfailed : (exec step Always initial recordFailed).any
      (·.accepted = [(0, "C1/17.5"), (0, "C1/17.5")]) := by decide +kernel
  obtain ⟨c,hc,hacc⟩ := exec_any hkilled
  obtain ⟨c',hc',hacc'⟩ := exec_any hfailed
  refine ⟨⟨c,hc,of_decide_eq_true hacc,?_⟩,⟨c',hc',of_decide_eq_true hacc',?_⟩⟩
  · rw [of_decide_eq_true hacc]
    simp
  · rw [of_decide_eq_true hacc']
    simp

end Courier
end Nivara.Slack
