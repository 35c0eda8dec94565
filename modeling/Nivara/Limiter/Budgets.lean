import Nivara.Cache.CacheKeys
import Nivara.Limiter.RateLimitService

/-! The budgets of all callers in one Redis. A key is of one budget only, so each budget is counted as if the others were
not there: what a caller does costs nobody else a request. -/
namespace Nivara.Limiter
open Text Idempotency Transactions

structure RateLimits where
  authenticated : RateLimit
  slackPerIp : RateLimit
  slackGlobal : RateLimit

def RateLimits.for (limits : RateLimits) : KeyBuilder → RateLimit
  | .authenticated _ => limits.authenticated
  | .slackIp _ => limits.slackPerIp
  | .slackGlobal => limits.slackGlobal

/-- Whose requests are counted together: those of one subject of one tenant, of one address, or all of Slack's. -/
inductive Budget where
  | authenticated (tenantId : Id) (kind : PrincipalKind) (subject : Id)
  | slackIp (ip : Str)
  | slackGlobal
  deriving DecidableEq

def KeyBuilder.budget : KeyBuilder → Budget
  | .authenticated principal => .authenticated principal.tenantId principal.kind principal.subject
  | .slackIp ip => .slackIp ip
  | .slackGlobal => .slackGlobal

section Keys
variable {b c : KeyBuilder}

def colon : CodeUnit := unit ':'

private theorem colon_not_mem_digits (ds : List ℕ) : colon ∉ ds.map digit := by
  intro h
  obtain ⟨n,_,hn⟩ := List.mem_map.mp h
  exact digit_ne_unit (c := ':') (by decide) n hn

private theorem colon_not_mem_numeral (s : ℕ) (e : ℤ) : colon ∉ numeral s e := by
  have hpoint : colon ≠ unit '.' := by decide
  have hexponent : colon ≠ unit 'e' := by decide
  have hsign (n : ℤ) : colon ≠ unit (if n - 1 < 0 then '-' else '+') := by
    split <;> decide
  have hdigit (n : ℕ) : colon ≠ digit n := (digit_ne_unit (c := ':') (by decide) n).symm
  have hcons {d : CodeUnit} {t : Str} (hd : colon ≠ d) (ht : colon ∉ t) : colon ∉ d :: t := List.not_mem_cons_of_ne_of_not_mem hd ht
  unfold numeral
  simp only
  split
  · exact colon_not_mem_digits _
  · split
    · exact List.not_mem_append (colon_not_mem_digits _) (hcons hpoint (colon_not_mem_digits _))
    · split
      · exact hcons (hdigit 0) (hcons hpoint (colon_not_mem_digits _))
      · refine List.not_mem_append (colon_not_mem_digits _)
          (List.not_mem_append ?_ (hcons hexponent (hcons (hsign _) (colon_not_mem_digits _))))
        split
        · exact List.not_mem_nil
        · exact hcons hpoint (colon_not_mem_digits _)

private theorem colon_not_mem_numberText (q : ℚ) : colon ∉ numberText q := by
  have hsign : colon ≠ unit '-' := by decide
  have hzero : colon ≠ digit 0 := by decide
  unfold numberText
  cases toNumber q with
  | finite x =>
    unfold Double.toString positiveToString
    dsimp only
    split
    · simp [hzero]
    · split
      · simp [hsign, colon_not_mem_numeral]
      · exact colon_not_mem_numeral _ _
  | infinity negative => cases negative <;> decide

/-- What precedes the last colon is found again, and so is what follows it. -/
private theorem split_right {s s' t t' : Str} (h : s ++ colon :: t = s' ++ colon :: t') (ht : colon ∉ t) (ht' : colon ∉ t') :
    s = s' ∧ t = t' := by
  have hreverse : t.reverse ++ colon :: s.reverse = t'.reverse ++ colon :: s'.reverse := by
    simpa using congrArg List.reverse h
  obtain ⟨htt,hss⟩ := split_left hreverse (by simpa using ht) (by simpa using ht')
  exact ⟨List.reverse_inj.mp hss,List.reverse_inj.mp htt⟩

private theorem units_append (s t : String) : units (s ++ t) = units s ++ units t := by
  simp [units, String.toList_append]

private theorem ref_inj {p q : RequestPrincipal} (h : units (principalRef p) = units (principalRef q)) :
    p.kind = q.kind ∧ p.subject = q.subject := by
  have hother {x y : CodeUnit} {s t : Str} (hne : x ≠ y) : x :: s ≠ y :: t := fun heq => hne (List.cons.inj heq).1
  cases p <;> cases q <;> simp only [principalRef, units_append] at h <;>
    first | exact absurd h (hother (by decide)) | exact ⟨rfl,Cache.units_text_inj (List.append_cancel_left h)⟩

private theorem budget_of_authenticated {p q : RequestPrincipal} {m n : ℚ} (h : authenticatedKey p m = authenticatedKey q n) :
    (KeyBuilder.authenticated p).budget = (KeyBuilder.authenticated q).budget := by
  have hform (p : RequestPrincipal) (m : ℚ) : authenticatedKey p m =
      (units "rl:auth:" ++ (units p.tenantId.text ++ colon :: units (principalRef p))) ++ colon :: numberText m := by
    simp only [authenticatedKey, List.append_assoc]
    rfl
  rw [hform, hform] at h
  obtain ⟨hsubject,_⟩ := split_right h (colon_not_mem_numberText _) (colon_not_mem_numberText _)
  obtain ⟨htenant,href⟩ := split_left (List.append_cancel_left hsubject) (Cache.no_colon_units _) (Cache.no_colon_units _)
  obtain ⟨hk,hs⟩ := ref_inj href
  rw [KeyBuilder.budget, KeyBuilder.budget, Cache.units_text_inj htenant, hk, hs]

private theorem ip_of_slackIpKey {ip ip' : Str} {m n : ℚ} (h : slackIpKey ip m = slackIpKey ip' n) : ip = ip' := by
  have hform (ip : Str) (m : ℚ) : slackIpKey ip m = (units "rl:slack:ip:" ++ ip) ++ colon :: numberText m := by
    simp only [slackIpKey, List.append_assoc]
    rfl
  rw [hform, hform] at h
  exact List.append_cancel_left (split_right h (colon_not_mem_numberText _) (colon_not_mem_numberText _)).1

/-- A key is of one budget. -/
theorem budget_of_key {m n : ℚ} (h : b.key m = c.key n) : b.budget = c.budget := by
  have hauth (p : RequestPrincipal) (m : ℚ) : (authenticatedKey p m)[3]? = some (unit 'a') := rfl
  have hip (ip : Str) (m : ℚ) : (slackIpKey ip m)[3]? = some (unit 's') := rfl
  have hglobal (m : ℚ) : (slackGlobalKey m)[3]? = some (unit 's') := rfl
  have hip9 (ip : Str) (m : ℚ) : (slackIpKey ip m)[9]? = some (unit 'i') := rfl
  have hglobal9 (m : ℚ) : (slackGlobalKey m)[9]? = some (unit 'g') := rfl
  have hother {s t : Str} {i : ℕ} {x y : CodeUnit} (hs : s[i]? = some x) (ht : t[i]? = some y) (hne : x ≠ y) : s ≠ t := by
    rintro rfl
    exact hne (Option.some.inj (hs.symm.trans ht))
  cases b with
  | authenticated p =>
    cases c with
    | authenticated q => exact budget_of_authenticated h
    | slackIp ip => exact absurd h (hother (hauth p m) (hip ip n) (by decide))
    | slackGlobal => exact absurd h (hother (hauth p m) (hglobal n) (by decide))
  | slackIp ip =>
    cases c with
    | authenticated q => exact absurd h (hother (hip ip m) (hauth q n) (by decide))
    | slackIp ip' => exact congrArg Budget.slackIp (ip_of_slackIpKey h)
    | slackGlobal => exact absurd h (hother (hip9 ip m) (hglobal9 n) (by decide))
  | slackGlobal =>
    cases c with
    | authenticated q => exact absurd h (hother (hglobal m) (hauth q n) (by decide))
    | slackIp ip => exact absurd h (hother (hglobal9 m) (hip9 ip n) (by decide))
    | slackGlobal => rfl

/-- A budget has one key at a time. -/
theorem key_of_budget (h : b.budget = c.budget) : b.key = c.key := by
  cases b with
  | authenticated p =>
    cases c with
    | authenticated q =>
      obtain ⟨ht,hk,hs⟩ := Budget.authenticated.inj h
      have href : principalRef p = principalRef q := principalRef_inj.mpr ⟨hk,hs⟩
      funext bucket
      simp only [KeyBuilder.key, authenticatedKey, ht, href]
    | slackIp _ => cases h
    | slackGlobal => cases h
  | slackIp ip =>
    cases c with
    | slackIp ip' => cases h; rfl
    | authenticated _ => cases h
    | slackGlobal => cases h
  | slackGlobal =>
    cases c with
    | slackGlobal => rfl
    | authenticated _ => cases h
    | slackIp _ => cases h

theorem for_of_budget (limits : RateLimits) (h : b.budget = c.budget) : limits.for b = limits.for c := by
  cases b <;> cases c <;> first | rfl | cases h

end Keys

/-- The Redis of all callers, and every call that has been made, by whom. -/
structure Traffic where
  now : Instant
  redis : Redis
  calls : List (KeyBuilder × Call)

inductive Move where
  | pass (now : Instant)
  | forget (key : Str)
  | foreign (key : Str) (value : Option Counter)
  | check (b : KeyBuilder) (outcome : Outcome)

namespace Traffic
variable (limits : RateLimits)

def of (t : Traffic) (b : KeyBuilder) : Estate :=
  ⟨t.now, t.redis, (t.calls.filter fun c => c.1.budget = b.budget).map Prod.snd⟩

def check (t : Traffic) (b : KeyBuilder) (outcome : Outcome) : Traffic where
  now := t.now
  redis := hitEffect b (limits.for b) t.redis t.now outcome
  calls := t.calls ++
    [(b, ⟨t.now, outcome, (limits.for b).decide (hitReply b (limits.for b) t.redis t.now outcome) t.now⟩)]

def step (t : Traffic) : Move → Option Traffic
  | .pass now => if t.now.1 ≤ now.1 then some { t with now } else none
  | .forget key =>
    match t.redis key with
    | some v => if v.expiresAt ≤ t.now.1 then some { t with redis := Function.update t.redis key none } else none
    | none => none
  | .foreign key value => some { t with redis := Function.update t.redis key value }
  | .check b outcome => some (t.check limits b outcome)

/-- Nobody else writes under a key of the limiter's. -/
def Apart (_ : Traffic) : Move → Prop
  | .foreign key _ => ∀ (b : KeyBuilder) (t : Instant), key ≠ b.key (windowBucket t (limits.for b).windowSeconds)
  | _ => True

structure Fresh (t : Traffic) : Prop where
  silent : t.calls = []
  clear : ∀ (b : KeyBuilder) (at' : Instant), t.redis (b.key (windowBucket at' (limits.for b).windowSeconds)) = none

end Traffic

section Runs
variable {limits : RateLimits} {s t u : Traffic} {moves : List Move}

theorem of_check_own {b c : KeyBuilder} (h : c.budget = b.budget) (o : Outcome) :
    (t.check limits c o).of b = (t.of b).check b (limits.for b) o := by
  have hkey := key_of_budget h
  have hlimit := for_of_budget limits h
  have hmine : decide (c.budget = b.budget) = true := decide_eq_true h
  simp only [Traffic.of, Traffic.check, Estate.check, List.filter_append, List.filter_cons, hmine, if_true, List.filter_nil,
    List.map_append, List.map_cons, List.map_nil, hlimit]
  cases o <;> simp only [hitEffect, hitReply, hkey]

theorem of_check_other {b c : KeyBuilder} (h : c.budget ≠ b.budget) (o : Outcome) :
    (t.check limits c o).of b = { t.of b with redis := hitEffect c (limits.for c) t.redis t.now o } := by
  have hother : decide (c.budget = b.budget) = false := decide_eq_false h
  simp only [Traffic.of, Traffic.check, List.filter_append, List.filter_cons, hother, Bool.false_eq_true, if_false,
    List.filter_nil, List.append_nil]

/-- To a budget, the calls on the others are writes of somebody else's. -/
private theorem step_of_step (b : KeyBuilder) {a : Move} (happ : t.Apart limits a) (hs : t.step limits a = some u) :
    ∃ e, Limiter.Apart b (limits.for b) (t.of b) e ∧ Limiter.step b (limits.for b) (t.of b) e = some (u.of b) := by
  cases a with
  | pass now =>
    obtain ⟨hle,⟨⟩⟩ := Option.ite_none_right_eq_some.mp hs
    exact ⟨.pass now,trivial,if_pos hle⟩
  | forget key =>
    refine ⟨.forget key,trivial,?_⟩
    rw [Traffic.step] at hs
    cases hv : t.redis key with
    | none =>
      rw [hv] at hs
      cases hs
    | some v =>
      rw [hv] at hs
      obtain ⟨hle,⟨⟩⟩ := Option.ite_none_right_eq_some.mp hs
      simp only [Limiter.step, Traffic.of, hv]
      exact if_pos hle
  | foreign key value =>
    cases hs
    exact ⟨.foreign key value,happ b,rfl⟩
  | check c o =>
    cases hs
    by_cases h : c.budget = b.budget
    · exact ⟨.check o,trivial,congrArg some (of_check_own h o).symm⟩
    · rw [of_check_other h]
      let key := c.key (windowBucket t.now (limits.for c).windowSeconds)
      have hhit : ∃ e, Limiter.Apart b (limits.for b) (t.of b) e ∧ Limiter.step b (limits.for b) (t.of b) e =
          some { t.of b with redis := t.redis.hit key (limits.for c).windowSeconds t.now } :=
        ⟨.foreign _ _,fun at' hkey => h (budget_of_key hkey),rfl⟩
      cases o with
      | failed => exact ⟨.pass t.now,trivial,if_pos le_rfl⟩
      | answered => exact hhit
      | lost => exact hhit

private theorem run_of_run (b : KeyBuilder) (h : Run (Traffic.step limits) (Traffic.Apart limits) s moves u) :
    ∃ events, Run (Limiter.step b (limits.for b)) (Limiter.Apart b (limits.for b)) (s.of b) events (u.of b) := by
  induction h with
  | nil => exact ⟨[],.nil⟩
  | snoc _ happ hstep ih =>
    obtain ⟨events,hrun⟩ := ih
    obtain ⟨e,hev,hs⟩ := step_of_step b happ hstep
    exact ⟨events ++ [e],.snoc hrun hev hs⟩

/-- What is true of a budget: it has a run of its own, in which nobody else calls; the calls that Redis has counted in a window
are allowed up to the limit and refused beyond it, unless the reply was lost; and a call without an answer is allowed. -/
structure OfItsOwn (limits : RateLimits) (s u : Traffic) (b : KeyBuilder) : Prop where
  alone : ∃ events, Run (Limiter.step b (limits.for b)) (Limiter.Apart b (limits.for b)) (s.of b) events (u.of b)
  counted : ∀ window i c, ((u.of b).increments (limits.for b) window)[i]? = some c →
    (c.decision = .allowed ↔ i < (limits.for b).limit ∨ c.outcome ≠ .answered)
  unanswered : ∀ c ∈ (u.of b).calls, c.outcome ≠ .answered → c.decision = .allowed

private theorem counted_of_run (hs : s.Fresh limits) (h : Run (Traffic.step limits) (Traffic.Apart limits) s moves u) (b : KeyBuilder) :
    Counted b (limits.for b) (u.of b) := by
  obtain ⟨_,hrun⟩ := run_of_run b h
  exact counted_run ⟨by simp [Traffic.of, hs.silent],hs.clear b⟩ hrun

theorem ofItsOwn_of_run (hs : s.Fresh limits) (h : Run (Traffic.step limits) (Traffic.Apart limits) s moves u) (b : KeyBuilder) :
    OfItsOwn limits s u b := by
  obtain ⟨events,hrun⟩ := run_of_run b h
  have hcounted := counted_of_run hs h b
  have hplaced (i : ℕ) (c : Call) (hc : c.decision = (limits.for b).decide (c.given (i + 1)) c.nowMs) :
      c.decision = .allowed ↔ i < (limits.for b).limit ∨ c.outcome ≠ .answered := by
    rw [hc, decide_eq_allowed]
    constructor
    · intro hle
      by_cases ho : c.outcome = .answered
      · exact .inl (hle (i + 1) (if_pos ho))
      · exact .inr ho
    · rintro hor n hn
      obtain ⟨ho,rfl⟩ := given_eq_some hn
      exact hor.resolve_right (not_not.mpr ho)
  refine ⟨⟨events,hrun⟩,fun window i c hc => hplaced i c (hcounted.placed window i c hc),fun c hc ho => ?_⟩
  by_cases hfailed : c.outcome = .failed
  · exact hcounted.unanswered c hc hfailed
  · have hmem : c ∈ (u.of b).increments (limits.for b) ((limits.for b).window c.nowMs) :=
      List.mem_filter.mpr ⟨hc,by simp [hfailed]⟩
    obtain ⟨i,hi⟩ := List.mem_iff_getElem?.mp hmem
    exact (hplaced i c (hcounted.placed _ i c hi)).mpr (.inr ho)

/-- When a call was made, and what became of it on the way: what the caller and the network bring to it. -/
def Call.asked (c : Call) : Instant × Outcome := (c.nowMs,c.outcome)

private theorem getElem?_filter {α : Type} {p : α → Bool} {l : List α} {k : ℕ} {x : α} (h : l[k]? = some x) (hp : p x = true) :
    (l.filter p)[(l.take k).countP p]? = some x := by
  induction l generalizing k with
  | nil => cases h
  | cons y l ih =>
    cases k with
    | zero =>
      cases h
      simp [hp]
    | succ k =>
      have hrest := ih h
      by_cases hy : p y = true
      · simpa [List.filter_cons, hy] using hrest
      · simpa [List.filter_cons, hy] using hrest

/-- A counted call is decided by its place, and its place by the calls before it. -/
private theorem decision_of_counted {b : KeyBuilder} {l : RateLimit} {e : Estate} {k : ℕ} {c : Call} (h : Counted b l e)
    (hc : e.calls[k]? = some c) (ho : c.outcome ≠ .failed) :
    c.decision = l.decide (c.given (((e.calls.map Call.asked).take k).countP
      (fun x => l.window x.1 = l.window c.nowMs ∧ x.2 ≠ .failed) + 1)) c.nowMs := by
  have hplace : (e.increments l (l.window c.nowMs))[_]? = some c := getElem?_filter hc (by simp [ho])
  rw [← List.map_take, List.countP_map]
  exact h.placed _ _ c hplace

private theorem calls_of_asked {b : KeyBuilder} {l : RateLimit} {d e : Estate} (hd : Counted b l d) (he : Counted b l e)
    (h : d.calls.map Call.asked = e.calls.map Call.asked) : d.calls = e.calls := by
  have htold {k : ℕ} {c c' : Call} (hc : d.calls[k]? = some c) (hc' : e.calls[k]? = some c') : c = c' := by
    have hasked : c.asked = c'.asked := by
      have hk := congrArg (fun xs => xs[k]?) h
      simpa [List.getElem?_map, hc, hc'] using hk
    obtain ⟨hnow,hout⟩ := Prod.mk.inj hasked
    have hdecision : c.decision = c'.decision := by
      by_cases ho : c.outcome = .failed
      · rw [hd.unanswered c (List.mem_of_getElem? hc) ho, he.unanswered c' (List.mem_of_getElem? hc') (hout ▸ ho)]
      · rw [decision_of_counted hd hc ho, decision_of_counted he hc' (hout ▸ ho), h, Call.given, Call.given, hnow, hout]
    cases c
    cases c'
    cases hnow
    cases hout
    cases hdecision
    rfl
  have hlength : d.calls.length = e.calls.length := by simpa using congrArg List.length h
  refine List.ext_getElem? fun k => ?_
  by_cases hk : k < d.calls.length
  · rw [List.getElem?_eq_getElem hk, List.getElem?_eq_getElem (hlength ▸ hk)]
    exact congrArg some (htold (List.getElem?_eq_getElem hk) (List.getElem?_eq_getElem (hlength ▸ hk)))
  · rw [List.getElem?_eq_none (not_lt.mp hk), List.getElem?_eq_none (hlength ▸ not_lt.mp hk)]

/-- Whatever all the callers do, a call on one budget fares as the calls on that budget alone make it fare: had everybody else
done something different, and these calls come at the same times, each would have been told the same. -/
theorem undisturbed_of_run (hs : s.Fresh limits) (h : Run (Traffic.step limits) (Traffic.Apart limits) s moves u) (b : KeyBuilder) :
    OfItsOwn limits s u b ∧ ∀ s' moves' u', s'.Fresh limits → Run (Traffic.step limits) (Traffic.Apart limits) s' moves' u' →
      (u'.of b).calls.map Call.asked = (u.of b).calls.map Call.asked → (u'.of b).calls = (u.of b).calls := by
  refine ⟨ofItsOwn_of_run hs h b,fun s' moves' u' hs' h' hasked => ?_⟩
  exact calls_of_asked (counted_of_run hs' h' b) (counted_of_run hs h b) hasked

/-- The cache keeps its rows in the same Redis. -/
theorem key_ne_cacheKey {tenantId : Id} {ns id k : Str} (h : Cache.cacheKey tenantId ns id = .ok k) (b : KeyBuilder) (m : ℚ) :
    k ≠ b.key m := by
  obtain ⟨p,hp,_,rfl⟩ := Cache.cacheKey_eq_ok.mp h
  obtain ⟨rest,rfl⟩ := Cache.cachePrefix_of_namespacePrefix hp
  intro heq
  have hfirst := congrArg List.head? heq
  have hmine : (b.key m).head? = some (unit 'r') := by cases b <;> rfl
  rw [hmine] at hfirst
  have hne : unit 'c' = unit 'r' := Option.some.inj hfirst
  revert hne
  decide

end Runs

section Example

private def tight : RateLimits := ⟨overAMinute 1, overAMinute 1, overAMinute 3⟩

private def quiet : Traffic := ⟨⟨0, by decide⟩, fun _ => none, []⟩

private def house : Id := ⟨"00000000-0000-0000-0000-000000000001", by decide⟩

private def report : Str := Cache.cachePrefix ++ units ":" ++ units house.text ++ units ":analytics:1"

private def flooding : List Move :=
  [.check (.slackIp (units "1.2.3.4")) .answered, .check (.slackIp (units "1.2.3.4")) .answered, .foreign report (some ⟨1, 60000⟩),
    .check (.slackIp (units "1.2.3.4:5")) .answered]

theorem undisturbed_of_flooding : ∃ u v, Run (Traffic.step tight) (Traffic.Apart tight) quiet flooding u ∧
    u.calls.map (·.2.decision) = [.allowed, .denied 1 60, .allowed] ∧ OfItsOwn tight quiet u (.slackIp (units "1.2.3.4:5")) ∧
    Run (Traffic.step tight) (Traffic.Apart tight) quiet [.check (.slackIp (units "1.2.3.4:5")) .answered] v ∧
    (v.of (.slackIp (units "1.2.3.4:5"))).calls = (u.of (.slackIp (units "1.2.3.4:5"))).calls := by
  have hreport : Cache.cacheKey house (units "analytics") (units "1") = .ok report := by decide +kernel
  have hfresh : quiet.Fresh tight := ⟨rfl,fun _ _ => rfl⟩
  have hrun : Run (Traffic.step tight) (Traffic.Apart tight) quiet
      ([] ++ [.check (.slackIp (units "1.2.3.4")) .answered] ++ [.check (.slackIp (units "1.2.3.4")) .answered] ++
        [.foreign report (some ⟨1, 60000⟩)] ++ [.check (.slackIp (units "1.2.3.4:5")) .answered]) _ :=
    .snoc (.snoc (.snoc (.snoc .nil trivial rfl) trivial rfl) (fun b t => key_ne_cacheKey hreport b _) rfl) trivial rfl
  have halone : Run (Traffic.step tight) (Traffic.Apart tight) quiet ([] ++ [.check (.slackIp (units "1.2.3.4:5")) .answered]) _ :=
    .snoc .nil trivial rfl
  obtain ⟨hown,hsame⟩ := undisturbed_of_run hfresh hrun (.slackIp (units "1.2.3.4:5"))
  exact ⟨_,_,hrun,by decide +kernel,hown,halone,hsame _ _ _ hfresh halone (by decide +kernel)⟩

end Example
end Nivara.Limiter
