import Nivara.Idempotency.Scope
import Nivara.Limiter.FixedWindow
import Nivara.Text.Numeral
import Nivara.Transactions.Run

/-! The counters of the limiter, from `rate-limit/rate-limit.service.ts` and `rate-limit/rate-limit-keys.ts`,
over the whole life of a Redis that any number of processes share: which hits of a window are let through. -/
namespace Nivara.Limiter
open Text Idempotency Transactions

def numberText (q : ℚ) : Str :=
  match toNumber q with
  | .finite x => x.toString
  | .infinity negative => if negative then units "-Infinity" else units "Infinity"

def rateLimitPrefix : Str := units "rl"

def authenticatedKey (principal : RequestPrincipal) (bucket : ℚ) : Str :=
  rateLimitPrefix ++ units ":auth:" ++ units principal.tenantId.text ++ units ":" ++ units (principalRef principal) ++
    units ":" ++ numberText bucket

def slackIpKey (ip : Str) (bucket : ℚ) : Str :=
  rateLimitPrefix ++ units ":slack:ip:" ++ ip ++ units ":" ++ numberText bucket

def slackGlobalKey (bucket : ℚ) : Str := rateLimitPrefix ++ units ":slack:global:" ++ numberText bucket

inductive KeyBuilder where
  | authenticated (principal : RequestPrincipal)
  | slackIp (ip : Str)
  | slackGlobal

def KeyBuilder.key : KeyBuilder → ℚ → Str
  | .authenticated principal => authenticatedKey principal
  | .slackIp ip => slackIpKey ip
  | .slackGlobal => slackGlobalKey

structure Counter where
  count : ℕ
  expiresAt : ℤ

abbrev Redis := Str → Option Counter

def Redis.next (redis : Redis) (key : Str) : ℕ := (redis key).elim 0 Counter.count + 1

/-- `INCR` and `EXPIRE` of the key, in one `MULTI`. -/
def Redis.hit (redis : Redis) (key : Str) (windowSeconds : ℕ) (now : Instant) : Redis :=
  Function.update redis key (some ⟨redis.next key, now.1 + 1000 * windowSeconds⟩)

inductive Outcome where
  | answered
  /-- Executed, and the reply is lost. -/
  | lost
  /-- Not executed: Redis is not configured, not reachable or answers with an error. -/
  | failed
  deriving DecidableEq

structure Call where
  nowMs : Instant
  outcome : Outcome
  decision : RateLimitDecision

structure Estate where
  now : Instant
  redis : Redis
  calls : List Call

inductive Event where
  | pass (now : Instant)
  /-- Redis lets go of a key that has expired. -/
  | forget (key : Str)
  /-- Whoever else shares the Redis, under a key of their own. -/
  | foreign (key : Str) (value : Option Counter)
  | check (outcome : Outcome)

section Checks
variable (b : KeyBuilder) (l : RateLimit)

def hitReply (redis : Redis) (now : Instant) : Outcome → Option ℕ
  | .answered => some (redis.next (b.key (windowBucket now l.windowSeconds)))
  | .lost => none
  | .failed => none

def hitEffect (redis : Redis) (now : Instant) : Outcome → Redis
  | .failed => redis
  | _ => redis.hit (b.key (windowBucket now l.windowSeconds)) l.windowSeconds now

def Estate.check (s : Estate) (outcome : Outcome) : Estate where
  now := s.now
  redis := hitEffect b l s.redis s.now outcome
  calls := s.calls ++ [⟨s.now, outcome, l.decide (hitReply b l s.redis s.now outcome) s.now⟩]

def step (s : Estate) : Event → Option Estate
  | .pass now => if s.now.1 ≤ now.1 then some { s with now } else none
  | .forget key =>
    match s.redis key with
    | some v => if v.expiresAt ≤ s.now.1 then some { s with redis := Function.update s.redis key none } else none
    | none => none
  | .foreign key value => some { s with redis := Function.update s.redis key value }
  | .check outcome => some (s.check b l outcome)

/-- Nobody else writes under the keys that are counted. -/
def Apart (_ : Estate) : Event → Prop
  | .foreign key _ => ∀ t : Instant, key ≠ b.key (windowBucket t l.windowSeconds)
  | _ => True

structure Fresh (s : Estate) : Prop where
  silent : s.calls = []
  clear (t : Instant) : s.redis (b.key (windowBucket t l.windowSeconds)) = none

def RateLimit.window (t : Instant) : ℤ := t.1 / (1000 * l.windowSeconds)

def Estate.increments (s : Estate) (window : ℤ) : List Call :=
  s.calls.filter fun c => l.window c.nowMs = window ∧ c.outcome ≠ .failed

end Checks

section Keys
variable {m n : ℤ}

private theorem toNumber_intCast (hm : |m| ≤ 2 ^ 53) : ∃ x : Double, toNumber m = .finite x ∧ x.val = m := by
  obtain ⟨hlow,hhigh⟩ := abs_le.mp hm
  have hlarge : (2 : ℚ) ^ 53 < tooLarge := by
    rw [tooLarge]
    exact pow_lt_pow_right₀ (by norm_num) (by norm_num)
  have hqlow : -(2 : ℚ) ^ 53 ≤ m := by exact_mod_cast hlow
  have hqhigh : (m : ℚ) ≤ 2 ^ 53 := by exact_mod_cast hhigh
  have hnear : nearestDouble m = some (m : ℚ) := by
    rw [nearestDouble, isDouble_intCast hm, if_pos ⟨by linarith,by linarith⟩]
  exact ⟨⟨m,hnear⟩,toNumber_of_nearest hnear,rfl⟩

private theorem numberText_inj (hm : |m| ≤ 2 ^ 53) (hn : |n| ≤ 2 ^ 53) (h : numberText m = numberText n) : m = n := by
  obtain ⟨x,hx,hxm⟩ := toNumber_intCast hm
  obtain ⟨y,hy,hyn⟩ := toNumber_intCast hn
  have hends : Ends [] := by
    intro c rest hc
    cases hc
  obtain ⟨q,hq,hqx⟩ := readLiteral_toString x hends
  obtain ⟨r,hr,hry⟩ := readLiteral_toString y hends
  rw [numberText, numberText, hx, hy] at h
  dsimp only at h
  rw [h, hr] at hq
  cases hq
  rw [hqx] at hry
  cases hry
  exact_mod_cast hxm.symm.trans hyn

private theorem key_inj (b : KeyBuilder) (hm : |m| ≤ 2 ^ 53) (hn : |n| ≤ 2 ^ 53) (h : b.key m = b.key n) : m = n := by
  apply numberText_inj hm hn
  cases b with
  | authenticated p => exact List.append_cancel_left h
  | slackIp ip => exact List.append_cancel_left h
  | slackGlobal => exact List.append_cancel_left h

end Keys

section Windows
variable {b : KeyBuilder} {l : RateLimit} {s t : Instant}

private theorem window_bounds (l : RateLimit) (t : Instant) :
    1000 * l.windowSeconds * l.window t ≤ t.1 ∧ t.1 < 1000 * l.windowSeconds * l.window t + 1000 * l.windowSeconds := by
  have hpos : (0 : ℤ) < 1000 * l.windowSeconds := by
    have := l.positive
    omega
  exact ⟨Int.mul_ediv_self_le hpos.ne',Int.lt_mul_ediv_self_add hpos⟩

private theorem window_mono (h : s.1 ≤ t.1) : l.window s ≤ l.window t :=
  Int.ediv_le_ediv (by have := l.positive; omega) h

/-- An instant is before the end of its own window, and of every later one. -/
private theorem lt_end (h : l.window s ≤ l.window t) : s.1 < 1000 * l.windowSeconds * l.window t + 1000 * l.windowSeconds := by
  have hend := (window_bounds l s).2
  have hmono : 1000 * l.windowSeconds * l.window s ≤ 1000 * l.windowSeconds * l.window t :=
    mul_le_mul_of_nonneg_left h (by positivity)
  omega

private theorem window_lt_of_end (h : 1000 * l.windowSeconds * l.window s + 1000 * l.windowSeconds ≤ t.1) :
    l.window s < l.window t := by
  by_contra hle
  have := lt_end (not_lt.mp hle)
  omega

private theorem key_eq_iff :
    b.key (windowBucket s l.windowSeconds) = b.key (windowBucket t l.windowSeconds) ↔ l.window s = l.window t := by
  have hbound (t : Instant) : |l.window t * l.windowSeconds| ≤ 2 ^ 53 := by
    obtain ⟨hlow,hhigh⟩ := window_bounds l t
    have hrange := Instant.bounds t
    have hw : (l.windowSeconds : ℤ) ≤ 8640000000000 := by exact_mod_cast l.bounded
    have heq : 1000 * (l.windowSeconds : ℤ) * l.window t = 1000 * (l.window t * l.windowSeconds) := by ring
    rw [abs_le]
    constructor <;> omega
  rw [windowBucket_eq, windowBucket_eq]
  constructor
  · intro h
    have hmul := key_inj b (hbound s) (hbound t) h
    have hpos : (l.windowSeconds : ℤ) ≠ 0 := by
      have := l.positive
      omega
    exact mul_right_cancel₀ hpos hmul
  · intro h
    rw [RateLimit.window, RateLimit.window] at h
    rw [h]

end Windows

section Runs
variable {b : KeyBuilder} {l : RateLimit} {s u : Estate} {acts : List Event}

/-- The count that a call was given: its place among the increments, unless the reply was lost. -/
def Call.given (c : Call) (place : ℕ) : Option ℕ := if c.outcome = .answered then some place else none

/-- The counters of the windows that are not over count their increments, and outlive them. -/
structure Counted (b : KeyBuilder) (l : RateLimit) (s : Estate) : Prop where
  past : ∀ c ∈ s.calls, c.nowMs.1 ≤ s.now.1
  counts (t : Instant) (h : l.window s.now ≤ l.window t) :
    s.redis.next (b.key (windowBucket t l.windowSeconds)) = (s.increments l (l.window t)).length + 1
  lives (t : Instant) (h : l.window s.now ≤ l.window t) : ∀ v ∈ s.redis (b.key (windowBucket t l.windowSeconds)),
    1000 * l.windowSeconds * l.window t + 1000 * l.windowSeconds ≤ v.expiresAt
  placed (window : ℤ) (i : ℕ) (c : Call) (h : (s.increments l window)[i]? = some c) :
    c.decision = l.decide (c.given (i + 1)) c.nowMs
  unanswered : ∀ c ∈ s.calls, c.outcome = .failed → c.decision = .allowed

private theorem counted_fresh (h : Fresh b l s) : Counted b l s := by
  have hnone (window : ℤ) : s.increments l window = [] := by rw [Estate.increments, h.silent, List.filter_nil]
  refine ⟨?_,?_,?_,?_,?_⟩
  · simp [h.silent]
  · intro t _
    rw [Redis.next, h.clear, hnone]
    rfl
  · simp [h.clear]
  · simp [hnone]
  · simp [h.silent]

private theorem counted_update (h : Counted b l s) {key : Str} {value : Option Counter}
    (hkey : ∀ t : Instant, l.window s.now ≤ l.window t → key ≠ b.key (windowBucket t l.windowSeconds)) :
    Counted b l { s with redis := Function.update s.redis key value } := by
  have hsame (t : Instant) (ht : l.window s.now ≤ l.window t) :
      Function.update s.redis key value (b.key (windowBucket t l.windowSeconds)) =
        s.redis (b.key (windowBucket t l.windowSeconds)) :=
    Function.update_of_ne (hkey t ht).symm _ _
  refine ⟨h.past,?_,?_,h.placed,h.unanswered⟩
  · intro t ht
    rw [Redis.next]
    dsimp only
    rw [hsame t ht]
    exact h.counts t ht
  · intro t ht v hv
    dsimp only at hv
    rw [hsame t ht] at hv
    exact h.lives t ht v hv

private theorem increments_check (window : ℤ) (o : Outcome) : (s.check b l o).increments l window =
    s.increments l window ++ if l.window s.now = window ∧ o ≠ .failed then
      [⟨s.now, o, l.decide (hitReply b l s.redis s.now o) s.now⟩] else [] := by
  simp only [Estate.increments, Estate.check, List.filter_append, List.filter_cons, List.filter_nil, decide_eq_true_eq]

private theorem counted_failed (h : Counted b l s) : Counted b l (s.check b l .failed) := by
  have hsame (window : ℤ) : (s.check b l .failed).increments l window = s.increments l window := by
    rw [increments_check, if_neg (by simp), List.append_nil]
  refine ⟨?_,?_,h.lives,?_,?_⟩
  · simp only [Estate.check, List.mem_append, List.mem_singleton]
    rintro c (hc | rfl)
    · exact h.past c hc
    · exact le_rfl
  · intro t ht
    rw [hsame]
    exact h.counts t ht
  · intro window i c hc
    rw [hsame] at hc
    exact h.placed window i c hc
  · simp only [Estate.check, List.mem_append, List.mem_singleton]
    rintro c (hc | rfl) ho
    · exact h.unanswered c hc ho
    · rfl

private theorem redis_check {o : Outcome} (ho : o ≠ .failed) : (s.check b l o).redis =
    s.redis.hit (b.key (windowBucket s.now l.windowSeconds)) l.windowSeconds s.now := by
  cases o with
  | answered => rfl
  | lost => rfl
  | failed => exact absurd rfl ho

private theorem counted_hit (h : Counted b l s) {o : Outcome} (ho : o ≠ .failed) : Counted b l (s.check b l o) := by
  refine ⟨?_,?_,?_,?_,?_⟩
  · simp only [Estate.check, List.mem_append, List.mem_singleton]
    rintro c (hc | rfl)
    · exact h.past c hc
    · exact le_rfl
  · intro t ht
    rw [redis_check ho, increments_check, Redis.hit, Redis.next]
    by_cases heq : l.window s.now = l.window t
    · rw [key_eq_iff.mpr heq, Function.update_self, if_pos ⟨heq,ho⟩, List.length_append]
      exact congrArg (· + 1) (h.counts t ht)
    · rw [Function.update_of_ne (fun hkey => heq (key_eq_iff.mp hkey).symm), if_neg (fun hc => heq hc.1), List.append_nil]
      exact h.counts t ht
  · intro t ht v hv
    rw [redis_check ho, Redis.hit] at hv
    by_cases heq : l.window s.now = l.window t
    · rw [key_eq_iff.mpr heq, Function.update_self] at hv
      cases hv
      have hstart := (window_bounds l s.now).1
      rw [heq] at hstart
      dsimp only
      omega
    · rw [Function.update_of_ne (fun hkey => heq (key_eq_iff.mp hkey).symm)] at hv
      exact h.lives t ht v hv
  · intro window i c hc
    rw [increments_check, List.getElem?_append] at hc
    split at hc
    · exact h.placed window i c hc
    · rename_i hi
      split at hc
      · rename_i hwindow
        rw [List.getElem?_singleton] at hc
        obtain ⟨hzero,⟨⟩⟩ := Option.ite_none_right_eq_some.mp hc
        have hplace : i = (s.increments l window).length := by omega
        have hcount := h.counts s.now le_rfl
        rw [hwindow.1, ← hplace] at hcount
        cases o with
        | answered => simp only [hitReply, Call.given, if_pos, hcount]
        | lost => rfl
        | failed => exact absurd rfl ho
      · cases hc
  · simp only [Estate.check, List.mem_append, List.mem_singleton]
    rintro c (hc | rfl) hfailed
    · exact h.unanswered c hc hfailed
    · exact absurd hfailed ho

private theorem counted_step (h : Counted b l s) {e : Event} (happ : Apart b l s e) (hstep : step b l s e = some u) :
    Counted b l u := by
  cases e with
  | pass now =>
    obtain ⟨hle,⟨⟩⟩ := Option.ite_none_right_eq_some.mp hstep
    have hmono := window_mono (l := l) hle
    exact ⟨fun c hc => (h.past c hc).trans hle,fun t ht => h.counts t (hmono.trans ht),
      fun t ht => h.lives t (hmono.trans ht),h.placed,h.unanswered⟩
  | forget key =>
    rw [step] at hstep
    split at hstep
    · rename_i v hv
      obtain ⟨hle,⟨⟩⟩ := Option.ite_none_right_eq_some.mp hstep
      apply counted_update h
      rintro t ht rfl
      -- the counter of an open window has not expired
      have hlives := h.lives t ht v hv
      have hend := lt_end ht
      omega
    · cases hstep
  | foreign key value =>
    cases hstep
    exact counted_update h fun t _ => happ t
  | check o =>
    cases hstep
    by_cases ho : o = .failed
    · rw [ho]
      exact counted_failed h
    · exact counted_hit h ho

theorem counted_run (hs : Fresh b l s) (h : Run (step b l) (Apart b l) s acts u) : Counted b l u :=
  h.invariant (counted_fresh hs) fun _ _ _ hi happ hstep => counted_step hi happ hstep

theorem given_eq_some {c : Call} {place n : ℕ} (h : c.given place = some n) : c.outcome = .answered ∧ n = place := by
  obtain ⟨ho,hn⟩ := Option.ite_none_right_eq_some.mp h
  exact ⟨ho,(Option.some.inj hn).symm⟩

theorem decide_eq_allowed {count : Option ℕ} {t : Instant} :
    l.decide count t = .allowed ↔ ∀ n, count = some n → n ≤ l.limit := by
  cases count with
  | none => simp [RateLimit.decide]
  | some n => simp [RateLimit.decide]

/-- The wait takes a caller past the end of the window, and no further than the second after it. -/
private theorem denied_wait {count : Option ℕ} {t : Instant} {limit : ℕ} {wait : ℤ}
    (h : l.decide count t = .denied limit wait) : 1 ≤ wait ∧
    1000 * l.windowSeconds * l.window t + 1000 * l.windowSeconds ≤ t.1 + 1000 * wait ∧
    1000 * wait < 1000 * l.windowSeconds * l.window t + 1000 * l.windowSeconds - t.1 + 1000 := by
  have hwait : wait = max 1 (l.window t * l.windowSeconds + l.windowSeconds - t.1 / 1000) := by
    cases count with
    | none => cases h
    | some n =>
      rw [RateLimit.decide] at h
      split at h
      · cases h
      · cases h
        rw [retryAfter_eq]
        rfl
  have heq : 1000 * (l.windowSeconds : ℤ) * l.window t = 1000 * (l.window t * l.windowSeconds) := by ring
  obtain ⟨_,hend⟩ := window_bounds l t
  rw [heq] at hend ⊢
  omega

/-- In every run on one key builder: of the increments of a window the first ones up to the limit are
allowed and the later ones refused, unless the reply was lost; a refusal tells how long to wait for a later
window, in whole seconds and by less than a second too many; and a hit without an answer is allowed. -/
theorem check_exact (hs : Fresh b l s) (h : Run (step b l) (Apart b l) s acts u) :
    (∀ window i c, (u.increments l window)[i]? = some c → (c.decision = .allowed ↔ i < l.limit ∨ c.outcome ≠ .answered)) ∧
    (∀ c ∈ u.calls, ∀ limit wait, c.decision = .denied limit wait → 1 ≤ wait ∧
      (∀ t : Instant, c.nowMs.1 + 1000 * wait ≤ t.1 → l.window c.nowMs < l.window t) ∧
      (1000 * wait < 1000 * l.windowSeconds * (l.window c.nowMs + 1) - c.nowMs.1 + 1000 ∨ wait = 1)) ∧
    ∀ c ∈ u.calls, c.outcome ≠ .answered → c.decision = .allowed := by
  have hcounted := counted_run hs h
  -- a call is a failed one or one of the increments of its window
  have hplace (c : Call) (hc : c ∈ u.calls) (ho : c.outcome ≠ .failed) :
      ∃ i : ℕ, c.decision = l.decide (c.given (i + 1)) c.nowMs := by
    have hmem : c ∈ u.increments l (l.window c.nowMs) := List.mem_filter.mpr ⟨hc,by simp [ho]⟩
    obtain ⟨i,hi⟩ := List.mem_iff_getElem?.mp hmem
    exact ⟨i,hcounted.placed _ i c hi⟩
  refine ⟨?_,?_,?_⟩
  · intro window i c hc
    rw [hcounted.placed window i c hc, decide_eq_allowed]
    constructor
    · intro hle
      by_cases ho : c.outcome = .answered
      · exact .inl (hle (i + 1) (if_pos ho))
      · exact .inr ho
    · rintro hor n hn
      obtain ⟨ho,rfl⟩ := given_eq_some hn
      exact hor.resolve_right (not_not.mpr ho)
  · intro c hc limit wait hdenied
    have ho : c.outcome ≠ .failed := by
      intro hfailed
      rw [hcounted.unanswered c hc hfailed] at hdenied
      cases hdenied
    obtain ⟨i,hi⟩ := hplace c hc ho
    obtain ⟨hone,hend,hless⟩ := denied_wait (hi.symm.trans hdenied)
    refine ⟨hone,fun t ht => window_lt_of_end (hend.trans ht),.inl ?_⟩
    rw [mul_add, mul_one]
    exact hless
  · intro c hc ho
    by_cases hfailed : c.outcome = .failed
    · exact hcounted.unanswered c hc hfailed
    · obtain ⟨i,hi⟩ := hplace c hc hfailed
      rw [hi, decide_eq_allowed]
      intro n hn
      exact absurd (given_eq_some hn).1 ho

end Runs

/-- Two calls at the epoch under a ceiling of one a minute. -/
theorem check_exact_second_of_two : ∃ (u : Estate) (c : Call),
    Run (step .slackGlobal (overAMinute 1)) (Apart .slackGlobal (overAMinute 1)) ⟨⟨0,by decide⟩,fun _ => none,[]⟩
      [.check .answered, .check .answered] u ∧
    (u.increments (overAMinute 1) 0)[1]? = some c ∧ c.decision ≠ .allowed := by
  have hfirst : Run (step .slackGlobal (overAMinute 1)) (Apart .slackGlobal (overAMinute 1))
      ⟨⟨0,by decide⟩,fun _ => none,[]⟩ [.check .answered] _ := .snoc .nil trivial rfl
  have hrun : Run (step .slackGlobal (overAMinute 1)) (Apart .slackGlobal (overAMinute 1))
      ⟨⟨0,by decide⟩,fun _ => none,[]⟩ ([.check .answered] ++ [.check .answered]) _ := .snoc hfirst trivial rfl
  refine ⟨_,_,hrun,rfl,?_⟩
  have hexact := (check_exact ⟨rfl,fun _ => rfl⟩ hrun).1 0 1 _ rfl
  rw [Ne, hexact]
  decide

end Nivara.Limiter
