import Nivara.Limiter.Budgets
import Nivara.Limiter.ClientIp

/-! The two ceilings in front of the route that Slack calls, from `rate-limit/slack-rate-limit.middleware.ts`, under any number
of requests at a time. -/
namespace Nivara.Limiter
open Text Idempotency Transactions

inductive Stage where
  | perIp
  | global
  /-- `refuse` has thrown. -/
  | refused (decision : RateLimitDecision)
  /-- `next` has been called. -/
  | next
  deriving DecidableEq, Repr

structure Passage where
  ip : Str
  stage : Stage
  own : Option Call
  shared : Option Call

structure Floodgate where
  traffic : Traffic
  requests : List Passage

inductive FloodAction where
  | arrive (request : IncomingMessage)
  /-- The check that the request waits for is made. -/
  | advance (n : ℕ) (outcome : Outcome)
  /-- Anything else that goes on in Redis. -/
  | elsewhere (move : Move)

section Steps
variable (limits : RateLimits)

def Traffic.made (t : Traffic) (b : KeyBuilder) (outcome : Outcome) : Call :=
  ⟨t.now, outcome, (limits.for b).decide (hitReply b (limits.for b) t.redis t.now outcome) t.now⟩

def Passage.afterOwn (r : Passage) (c : Call) : Passage :=
  { r with own := some c, stage := if c.decision = .allowed then .global else .refused c.decision }

def Passage.afterShared (r : Passage) (c : Call) : Passage :=
  { r with shared := some c, stage := if c.decision = .allowed then .next else .refused c.decision }

/-- `use`: the address is charged first, and only who gets past that is charged to all. -/
def Floodgate.step (f : Floodgate) : FloodAction → Option Floodgate
  | .arrive request => some { f with requests := f.requests ++ [⟨clientIp request, .perIp, none, none⟩] }
  | .advance n outcome =>
    f.requests[n]?.bind fun r =>
      match r.stage with
      | .perIp => some ⟨f.traffic.check limits (.slackIp r.ip) outcome,
          f.requests.set n (r.afterOwn (f.traffic.made limits (.slackIp r.ip) outcome))⟩
      | .global => some ⟨f.traffic.check limits .slackGlobal outcome,
          f.requests.set n (r.afterShared (f.traffic.made limits .slackGlobal outcome))⟩
      | _ => none
  | .elsewhere move => (f.traffic.step limits move).map fun traffic => { f with traffic }

/-- Nothing else writes under the limiter's keys, and nobody else charges Slack's budgets. -/
def Floodgate.Alone (f : Floodgate) : FloodAction → Prop
  | .elsewhere (.check b _) => ∃ principal, b = .authenticated principal
  | .elsewhere move => f.traffic.Apart limits move
  | _ => True

end Steps

section Runs
variable {limits : RateLimits} {f g : Floodgate} {r : Passage} {c : Call}

inductive Passage.Sound : Passage → Prop
  | waiting (ip : Str) : Sound ⟨ip, .perIp, none, none⟩
  | own (ip : Str) {c : Call} (h : c.decision ≠ .allowed) : Sound ⟨ip, .refused c.decision, some c, none⟩
  | admitted (ip : Str) {c : Call} (h : c.decision = .allowed) : Sound ⟨ip, .global, some c, none⟩
  | shared (ip : Str) {c d : Call} (h : c.decision = .allowed) (h' : d.decision ≠ .allowed) :
      Sound ⟨ip, .refused d.decision, some c, some d⟩
  | through (ip : Str) {c d : Call} (h : c.decision = .allowed) (h' : d.decision = .allowed) :
      Sound ⟨ip, .next, some c, some d⟩

def ownCalls (requests : List Passage) (ip : Str) : List Call := requests.filterMap fun r => if r.ip = ip then r.own else none

def sharedCalls (requests : List Passage) : List Call := requests.filterMap Passage.shared

/-- The budgets of Slack are charged by the requests, each once at most. -/
structure Floodgate.Tallied (f : Floodgate) : Prop where
  sound : ∀ r ∈ f.requests, r.Sound
  own : ∀ ip, (f.traffic.of (.slackIp ip)).calls.Perm (ownCalls f.requests ip)
  shared : (f.traffic.of .slackGlobal).calls.Perm (sharedCalls f.requests)

private theorem filterMap_set {α β : Type} {k : α → Option β} {l : List α} {n : ℕ} {x y : α} (hx : l[n]? = some x) :
    (k x = none → ∀ c, k y = some c → ((l.set n y).filterMap k).Perm (l.filterMap k ++ [c])) ∧
      (k x = k y → (l.set n y).filterMap k = l.filterMap k) := by
  induction l generalizing n with
  | nil => cases hx
  | cons z l ih =>
    cases n with
    | zero =>
      cases hx
      refine ⟨fun hnone c hc => ?_,fun heq => ?_⟩
      · simp only [List.set_cons_zero, List.filterMap_cons, hnone, hc]
        exact (List.perm_append_singleton c _).symm
      · simp only [List.set_cons_zero, List.filterMap_cons, heq]
    | succ n =>
      obtain ⟨hnew,hsame⟩ := ih hx
      refine ⟨fun hnone c hc => ?_,fun heq => ?_⟩
      · simp only [List.set_cons_succ, List.filterMap_cons]
        cases k z with
        | none => exact hnew hnone c hc
        | some d => exact (hnew hnone c hc).cons d
      · simp only [List.set_cons_succ, List.filterMap_cons, hsame heq]

private theorem sharedCalls_set {requests : List Passage} {n : ℕ} (hr : requests[n]? = some r) (r' : Passage) :
    (r.shared = none → ∀ c, r'.shared = some c → (sharedCalls (requests.set n r')).Perm (sharedCalls requests ++ [c])) ∧
      (r.shared = r'.shared → sharedCalls (requests.set n r') = sharedCalls requests) :=
  filterMap_set hr

private theorem ownCalls_set {requests : List Passage} {n : ℕ} (hr : requests[n]? = some r) (r' : Passage) (ip : Str) :
    ((if r.ip = ip then r.own else none) = none → ∀ c, (if r'.ip = ip then r'.own else none) = some c →
      (ownCalls (requests.set n r') ip).Perm (ownCalls requests ip ++ [c])) ∧
      ((if r.ip = ip then r.own else none) = (if r'.ip = ip then r'.own else none) →
        ownCalls (requests.set n r') ip = ownCalls requests ip) :=
  filterMap_set (k := fun r => if r.ip = ip then r.own else none) hr

private theorem calls_own (t : Traffic) (b : KeyBuilder) (o : Outcome) :
    ((t.check limits b o).of b).calls = (t.of b).calls ++ [t.made limits b o] := by
  rw [of_check_own rfl]
  rfl

private theorem calls_other {t : Traffic} {b c : KeyBuilder} (h : c.budget ≠ b.budget) (o : Outcome) :
    ((t.check limits c o).of b).calls = (t.of b).calls := by
  rw [of_check_other h]

private theorem calls_elsewhere {move : Move} {t : Traffic} {b : KeyBuilder} (hb : ∀ principal, b ≠ .authenticated principal)
    (happ : f.Alone limits (.elsewhere move)) (hs : f.traffic.step limits move = some t) : (t.of b).calls = (f.traffic.of b).calls := by
  cases move with
  | pass now =>
    obtain ⟨_,⟨⟩⟩ := Option.ite_none_right_eq_some.mp hs
    rfl
  | forget key =>
    simp only [Traffic.step] at hs
    split at hs
    · obtain ⟨_,⟨⟩⟩ := Option.ite_none_right_eq_some.mp hs
      rfl
    · cases hs
  | foreign key value =>
    cases hs
    rfl
  | check c o =>
    cases hs
    obtain ⟨principal,rfl⟩ := happ
    refine calls_other ?_ o
    cases b with
    | authenticated q => exact absurd rfl (hb q)
    | slackIp _ =>
      intro hbudget
      cases hbudget
    | slackGlobal =>
      intro hbudget
      cases hbudget

private theorem sound_set {n : ℕ} (h : f.Tallied) (hr : r.Sound) : ∀ x ∈ f.requests.set n r, x.Sound := by
  intro x hx
  rcases List.mem_or_eq_of_mem_set hx with hx | rfl
  · exact h.sound x hx
  · exact hr

private theorem ip_ne_global (ip : Str) : (KeyBuilder.slackIp ip).budget ≠ KeyBuilder.slackGlobal.budget := by
  intro h
  cases h

private theorem tallied_own {n : ℕ} {o : Outcome} (h : f.Tallied) (hr : f.requests[n]? = some r) (hstage : r.stage = .perIp) :
    (⟨f.traffic.check limits (.slackIp r.ip) o,
      f.requests.set n (r.afterOwn (f.traffic.made limits (.slackIp r.ip) o))⟩ : Floodgate).Tallied := by
  obtain ⟨ip,hip⟩ : ∃ ip, r = ⟨ip, .perIp, none, none⟩ := by
    have hs := h.sound r (List.mem_of_getElem? hr)
    cases hs <;> first | exact ⟨_,rfl⟩ | cases hstage
  subst hip
  have hown := ownCalls_set hr (Passage.afterOwn ⟨ip, .perIp, none, none⟩ (f.traffic.made limits (.slackIp ip) o))
  have hshared := sharedCalls_set hr (Passage.afterOwn ⟨ip, .perIp, none, none⟩ (f.traffic.made limits (.slackIp ip) o))
  refine ⟨sound_set h ?_,fun ip' => ?_,?_⟩
  · by_cases hd : (f.traffic.made limits (.slackIp ip) o).decision = .allowed
    · rw [Passage.afterOwn, if_pos hd]
      exact .admitted ip hd
    · rw [Passage.afterOwn, if_neg hd]
      exact .own ip hd
  · by_cases heq : ip = ip'
    · subst heq
      rw [calls_own]
      exact ((h.own ip).append_right _).trans ((hown ip).1 (if_pos rfl) _ (if_pos rfl)).symm
    · have hne : (KeyBuilder.slackIp ip).budget ≠ (KeyBuilder.slackIp ip').budget := fun hb => heq (Budget.slackIp.inj hb)
      rw [calls_other hne]
      exact (h.own ip').trans (.of_eq ((hown ip').2 ((if_neg heq).trans (if_neg heq).symm)).symm)
  · rw [calls_other (ip_ne_global ip)]
    exact h.shared.trans (.of_eq (hshared.2 rfl).symm)

private theorem tallied_shared {n : ℕ} {o : Outcome} (h : f.Tallied) (hr : f.requests[n]? = some r) (hstage : r.stage = .global) :
    (⟨f.traffic.check limits .slackGlobal o,
      f.requests.set n (r.afterShared (f.traffic.made limits .slackGlobal o))⟩ : Floodgate).Tallied := by
  obtain ⟨ip,c,hc,hip⟩ : ∃ ip c, c.decision = .allowed ∧ r = ⟨ip, .global, some c, none⟩ := by
    have hs := h.sound r (List.mem_of_getElem? hr)
    cases hs with
    | admitted ip hc => exact ⟨ip,_,hc,rfl⟩
    | _ => cases hstage
  subst hip
  have hown := ownCalls_set hr (Passage.afterShared ⟨ip, .global, some c, none⟩ (f.traffic.made limits .slackGlobal o))
  have hshared := sharedCalls_set hr (Passage.afterShared ⟨ip, .global, some c, none⟩ (f.traffic.made limits .slackGlobal o))
  refine ⟨sound_set h ?_,fun ip' => ?_,?_⟩
  · by_cases hd : (f.traffic.made limits .slackGlobal o).decision = .allowed
    · rw [Passage.afterShared, if_pos hd]
      exact .through ip hc hd
    · rw [Passage.afterShared, if_neg hd]
      exact .shared ip hc hd
  · rw [calls_other (ip_ne_global ip').symm]
    exact (h.own ip').trans (.of_eq ((hown ip').2 rfl).symm)
  · rw [calls_own]
    exact (h.shared.append_right _).trans (hshared.1 rfl _ rfl).symm

private theorem tallied_step {a : FloodAction} (h : f.Tallied) (happ : f.Alone limits a) (hs : f.step limits a = some g) :
    g.Tallied := by
  cases a with
  | arrive request =>
    cases hs
    refine ⟨fun x hx => ?_,fun ip' => ?_,?_⟩
    · rcases List.mem_append.mp hx with hx | hx
      · exact h.sound x hx
      · rw [List.mem_singleton.mp hx]
        exact .waiting _
    · have hsame : ownCalls (f.requests ++ [⟨clientIp request, .perIp, none, none⟩]) ip' = ownCalls f.requests ip' := by
        simp [ownCalls]
      exact hsame ▸ h.own ip'
    · have hsame : sharedCalls (f.requests ++ [⟨clientIp request, .perIp, none, none⟩]) = sharedCalls f.requests := by
        simp [sharedCalls]
      exact hsame ▸ h.shared
  | advance n o =>
    obtain ⟨r,hr,hs⟩ := Option.bind_eq_some_iff.mp hs
    cases hstage : r.stage with
    | perIp =>
      rw [hstage] at hs
      cases hs
      exact tallied_own h hr hstage
    | global =>
      rw [hstage] at hs
      cases hs
      exact tallied_shared h hr hstage
    | refused d =>
      rw [hstage] at hs
      cases hs
    | next =>
      rw [hstage] at hs
      cases hs
  | elsewhere move =>
    obtain ⟨t,ht,rfl⟩ := Option.map_eq_some_iff.mp hs
    refine ⟨h.sound,fun ip => ?_,?_⟩
    · rw [calls_elsewhere (fun _ hb => by cases hb) happ ht]
      exact h.own ip
    · rw [calls_elsewhere (fun _ hb => by cases hb) happ ht]
      exact h.shared

private theorem run_traffic {acts : List FloodAction} (h : Run (Floodgate.step limits) (Floodgate.Alone limits) f acts g) :
    ∃ moves, Run (Traffic.step limits) (Traffic.Apart limits) f.traffic moves g.traffic := by
  induction h with
  | nil => exact ⟨[],.nil⟩
  | @snoc _ a t u _ happ hstep ih =>
    obtain ⟨moves,hrun⟩ := ih
    have hfree (b : KeyBuilder) (o : Outcome) : t.traffic.Apart limits (.check b o) := trivial
    cases a with
    | arrive request =>
      cases hstep
      exact ⟨moves,hrun⟩
    | advance n o =>
      obtain ⟨r,_,hs⟩ := Option.bind_eq_some_iff.mp hstep
      cases hstage : r.stage with
      | perIp =>
        rw [hstage] at hs
        cases hs
        exact ⟨moves ++ [.check (.slackIp r.ip) o],.snoc hrun (hfree (.slackIp r.ip) o) rfl⟩
      | global =>
        rw [hstage] at hs
        cases hs
        exact ⟨moves ++ [.check .slackGlobal o],.snoc hrun (hfree .slackGlobal o) rfl⟩
      | refused d =>
        rw [hstage] at hs
        cases hs
      | next =>
        rw [hstage] at hs
        cases hs
    | elsewhere move =>
      obtain ⟨v,hv,rfl⟩ := Option.map_eq_some_iff.mp hstep
      have hmove : t.traffic.Apart limits move := by
        cases move with
        | foreign key value => exact happ
        | _ => trivial
      exact ⟨moves ++ [move],.snoc hrun hmove hv⟩

/-- A budget that admits its first calls only admits no more than its limit. -/
private theorem countP_le {α : Type} {p : α → Bool} {l : List α} {n : ℕ} (h : ∀ i x, l[i]? = some x → p x = true → i < n) :
    l.countP p ≤ n := by
  rw [← List.take_append_drop n l, List.countP_append]
  have hrest : (l.drop n).countP p = 0 := by
    refine List.countP_eq_zero.mpr fun x hx hp => ?_
    obtain ⟨i,hi⟩ := List.mem_iff_getElem?.mp hx
    rw [List.getElem?_drop] at hi
    exact absurd (h _ x hi hp) (by omega)
  rw [hrest, Nat.add_zero]
  exact List.countP_le_length.trans (List.length_take_le n l)

def Call.counts (l : RateLimit) (window : ℤ) (c : Call) : Bool := l.window c.nowMs = window ∧ c.outcome ≠ .failed

def Call.admits (l : RateLimit) (window : ℤ) (c : Call) : Bool :=
  l.window c.nowMs = window ∧ c.outcome = .answered ∧ c.decision = .allowed

private theorem admits_le {t u : Traffic} {b : KeyBuilder} (h : OfItsOwn limits t u b) (window : ℤ) :
    (u.of b).calls.countP (Call.admits (limits.for b) window) ≤ (limits.for b).limit := by
  have hsame : (u.of b).calls.countP (Call.admits (limits.for b) window) =
      ((u.of b).increments (limits.for b) window).countP (Call.admits (limits.for b) window) := by
    rw [Estate.increments, List.countP_filter]
    refine List.countP_congr fun c _ => ?_
    simp only [Call.admits, decide_eq_true_eq, Bool.and_eq_true]
    constructor
    · rintro ⟨hw,ho,hd⟩
      exact ⟨⟨hw,ho,hd⟩,hw,by simp [ho]⟩
    · exact And.left
  rw [hsame]
  refine countP_le fun i c hc hp => ?_
  obtain ⟨_,ho,hd⟩ := of_decide_eq_true hp
  exact ((h.counted window i c hc).mp hd).resolve_right (not_not.mpr ho)

private theorem answered_of_denied {t u : Traffic} {b : KeyBuilder} (h : OfItsOwn limits t u b) (hc : c ∈ (u.of b).calls)
    (hd : c.decision ≠ .allowed) : c.outcome = .answered := by
  by_contra ho
  exact hd (h.unanswered c hc ho)

private theorem counts_of_denied {t u : Traffic} {b : KeyBuilder} (h : OfItsOwn limits t u b) (hc : c ∈ (u.of b).calls)
    (hd : c.decision ≠ .allowed) : (limits.for b).limit <
      (u.of b).calls.countP (Call.counts (limits.for b) ((limits.for b).window c.nowMs)) := by
  have ho := answered_of_denied h hc hd
  have hmem : c ∈ (u.of b).increments (limits.for b) ((limits.for b).window c.nowMs) := List.mem_filter.mpr ⟨hc,by simp [ho]⟩
  obtain ⟨i,hi⟩ := List.mem_iff_getElem?.mp hmem
  have hlimit : ¬ (i < (limits.for b).limit ∨ c.outcome ≠ .answered) := fun hor => hd ((h.counted _ i c hi).mpr hor)
  obtain ⟨hlt,_⟩ := List.getElem?_eq_some_iff.mp hi
  have hlength : (u.of b).calls.countP (Call.counts (limits.for b) ((limits.for b).window c.nowMs)) =
      ((u.of b).increments (limits.for b) ((limits.for b).window c.nowMs)).length := by
    rw [List.countP_eq_length_filter]
    rfl
  omega

private theorem countP_own (requests : List Passage) (ip : Str) (p : Call → Bool) :
    (ownCalls requests ip).countP p = requests.countP fun r => r.ip = ip ∧ r.own.any p := by
  rw [ownCalls, List.countP_filterMap]
  refine List.countP_congr fun r _ => ?_
  by_cases h : r.ip = ip <;> cases r.own <;> simp [h]

private theorem countP_shared (requests : List Passage) (p : Call → Bool) :
    (sharedCalls requests).countP p = requests.countP fun r => r.shared.any p := by
  rw [sharedCalls, List.countP_filterMap]
  refine List.countP_congr fun r _ => ?_
  cases r.shared <;> simp

/-- What is true of the two ceilings. A request goes on only by leave of both. One that is refused on its own address costs the
shared budget nothing, so that of the requests an address sends in a window no more than its limit are charged to all;
and no more than the shared limit go on. Who is refused has been told so by a count that was over the limit. -/
structure Guarded (limits : RateLimits) (f : Floodgate) : Prop where
  next : ∀ r ∈ f.requests, r.stage = .next →
    ∃ c d, r.own = some c ∧ c.decision = .allowed ∧ r.shared = some d ∧ d.decision = .allowed
  spared : ∀ r ∈ f.requests, ∀ c, r.own = some c → c.decision ≠ .allowed → r.stage = .refused c.decision ∧ r.shared = none
  perIp : ∀ ip window, (f.requests.countP fun r => r.ip = ip ∧ r.shared.isSome ∧
    r.own.any fun c => limits.slackPerIp.window c.nowMs = window ∧ c.outcome = .answered) ≤ limits.slackPerIp.limit
  global : ∀ window, (f.requests.countP fun r => r.stage = .next ∧
    r.shared.any fun c => limits.slackGlobal.window c.nowMs = window ∧ c.outcome = .answered) ≤ limits.slackGlobal.limit
  blamed : ∀ r ∈ f.requests, ∀ d, r.stage = .refused d →
    (∃ c, r.own = some c ∧ c.decision = d ∧ c.outcome = .answered ∧ limits.slackPerIp.limit < f.requests.countP fun r' =>
      r'.ip = r.ip ∧ r'.own.any (Call.counts limits.slackPerIp (limits.slackPerIp.window c.nowMs))) ∨
    ∃ c, r.shared = some c ∧ c.decision = d ∧ c.outcome = .answered ∧ limits.slackGlobal.limit < f.requests.countP fun r' =>
      r'.shared.any (Call.counts limits.slackGlobal (limits.slackGlobal.window c.nowMs))

private theorem own_of_shared (h : r.Sound) (hs : r.shared.isSome) : ∃ c, r.own = some c ∧ c.decision = .allowed := by
  cases h with
  | shared ip hc _ => exact ⟨_,rfl,hc⟩
  | through ip hc _ => exact ⟨_,rfl,hc⟩
  | _ => cases hs

private theorem shared_of_next (h : r.Sound) (hs : r.stage = .next) :
    ∃ c d, r.own = some c ∧ c.decision = .allowed ∧ r.shared = some d ∧ d.decision = .allowed := by
  cases h with
  | through ip hc hd => exact ⟨_,_,rfl,hc,rfl,hd⟩
  | _ => cases hs

/-- A refusal was said by the budget of the address or by that of all. -/
private theorem of_refused {d : RateLimitDecision} (h : r.Sound) (hs : r.stage = .refused d) :
    d ≠ .allowed ∧ ((∃ c, r.own = some c ∧ c.decision = d) ∨ ∃ c, r.shared = some c ∧ c.decision = d) := by
  cases h with
  | own ip hc =>
    cases hs
    exact ⟨hc,.inl ⟨_,rfl,rfl⟩⟩
  | shared ip _ hd =>
    cases hs
    exact ⟨hd,.inr ⟨_,rfl,rfl⟩⟩
  | _ => cases hs

/-- Whatever requests come, and however they and the rest of the Redis are interleaved, the two ceilings hold. -/
theorem ceilings_of_run {acts : List FloodAction} (hfresh : f.traffic.Fresh limits) (hnone : f.requests = [])
    (h : Run (Floodgate.step limits) (Floodgate.Alone limits) f acts g) : Guarded limits g := by
  have hstart : f.Tallied := by
    refine ⟨?_,fun ip => ?_,?_⟩
    · simp [hnone]
    · simp [Traffic.of, hfresh.silent, ownCalls, hnone]
    · simp [Traffic.of, hfresh.silent, sharedCalls, hnone]
  have htallied : g.Tallied := h.invariant hstart fun _ _ _ ht happ hs => tallied_step ht happ hs
  obtain ⟨moves,hrun⟩ := run_traffic h
  have hbudget (b : KeyBuilder) : OfItsOwn limits f.traffic g.traffic b := ofItsOwn_of_run hfresh hrun b
  refine ⟨fun r hr => shared_of_next (htallied.sound r hr),fun r hr c hc hd => ?_,fun ip window => ?_,fun window => ?_,
    fun r hr d hd => ?_⟩
  · have hsound := htallied.sound r hr
    cases hsound with
    | own ip _ => cases hc; exact ⟨rfl,rfl⟩
    | admitted ip h => cases hc; exact absurd h hd
    | shared ip h _ => cases hc; exact absurd h hd
    | through ip h _ => cases hc; exact absurd h hd
    | waiting ip => cases hc
  · have hle := admits_le (hbudget (.slackIp ip)) window
    rw [(htallied.own ip).countP_eq, countP_own] at hle
    refine le_trans (List.countP_mono_left fun r hr hp => ?_) hle
    obtain ⟨hip,hs,hany⟩ := of_decide_eq_true hp
    obtain ⟨c,hc,hd⟩ := own_of_shared (htallied.sound r hr) hs
    rw [hc, Option.any_some] at hany
    obtain ⟨hw,ho⟩ := of_decide_eq_true hany
    exact decide_eq_true ⟨hip,by rw [hc]; exact decide_eq_true ⟨hw,ho,hd⟩⟩
  · have hle := admits_le (hbudget .slackGlobal) window
    rw [htallied.shared.countP_eq, countP_shared] at hle
    refine le_trans (List.countP_mono_left fun r hr hp => ?_) hle
    obtain ⟨hs,hany⟩ := of_decide_eq_true hp
    obtain ⟨_,c,_,_,hc,hd⟩ := shared_of_next (htallied.sound r hr) hs
    rw [hc, Option.any_some] at hany
    obtain ⟨hw,ho⟩ := of_decide_eq_true hany
    rw [hc]
    exact decide_eq_true ⟨hw,ho,hd⟩
  · obtain ⟨hne,⟨c,hc,rfl⟩ | ⟨c,hc,rfl⟩⟩ := of_refused (htallied.sound r hr) hd
    · have hmem : c ∈ (g.traffic.of (.slackIp r.ip)).calls :=
        (htallied.own r.ip).mem_iff.mpr (List.mem_filterMap.mpr ⟨r,hr,by rw [if_pos rfl, hc]⟩)
      have hlt := counts_of_denied (hbudget _) hmem hne
      rw [(htallied.own r.ip).countP_eq, countP_own] at hlt
      exact .inl ⟨c,hc,rfl,answered_of_denied (hbudget _) hmem hne,hlt⟩
    · have hmem : c ∈ (g.traffic.of .slackGlobal).calls := htallied.shared.mem_iff.mpr (List.mem_filterMap.mpr ⟨r,hr,hc⟩)
      have hlt := counts_of_denied (hbudget _) hmem hne
      rw [htallied.shared.countP_eq, countP_shared] at hlt
      exact .inr ⟨c,hc,rfl,answered_of_denied (hbudget _) hmem hne,hlt⟩

end Runs

section Example

private theorem timeClip_start : timeClip 0 = some 0 := by decide

private def gate : Floodgate := ⟨⟨⟨0, timeClip_start⟩, fun _ => none, []⟩, []⟩

private def strict : RateLimits := ⟨overAMinute 1, overAMinute 1, overAMinute 1⟩

private def sentFrom (address : String) : IncomingMessage := ⟨none, some (units address)⟩

/-- Two requests of one address, of which the second comes while the first is charged to all. -/
private def flood : List FloodAction :=
  [.arrive (sentFrom "1.2.3.4"), .advance 0 .answered, .arrive (sentFrom "1.2.3.4"), .advance 1 .answered, .advance 0 .answered]

theorem ceilings_of_flood : ∃ g, Run (Floodgate.step strict) (Floodgate.Alone strict) gate flood g ∧
    g.requests.map Passage.stage = [.next, .refused (.denied 1 60)] ∧ Guarded strict g := by
  have hrun : Run (Floodgate.step strict) (Floodgate.Alone strict) gate
      ([] ++ [.arrive (sentFrom "1.2.3.4")] ++ [.advance 0 .answered] ++ [.arrive (sentFrom "1.2.3.4")] ++ [.advance 1 .answered] ++
        [.advance 0 .answered]) _ :=
    .snoc (.snoc (.snoc (.snoc (.snoc .nil trivial rfl) trivial rfl) trivial rfl) trivial rfl) trivial rfl
  exact ⟨_,hrun,by decide +kernel,ceilings_of_run ⟨rfl,fun _ _ => rfl⟩ rfl hrun⟩

end Example
end Nivara.Limiter
