import Nivara.Cache.CacheKeys

/-! The cache as a tenant's handle sees it, from `cache/cache.service.ts`, over a Redis whose every command may
fail and whose keys other clients change between any two of ours. -/
namespace Nivara.Cache
open Text Idempotency

structure CacheEntryKey where
  ns : Str
  id : Str
  deriving DecidableEq

structure Failure where
  message : Str
  deriving DecidableEq

/-- What a method rejects with; `raised` is what the loader or the serialisation of its value throws. -/
inductive Rejection (ε : Type) where
  | invalidSegment (error : InvalidCacheSegmentError)
  | redis (failure : Failure)
  | raised (error : ε)

structure Change where
  removed : Finset Str
  added : Finset Str

def Change.apply (c : Change) (keys : Finset Str) : Finset Str := (keys \ c.removed) ∪ c.added

inductive UnlinkReply where
  | answered
  /-- Executed, and the reply is lost. -/
  | lost (failure : Failure)
  | failed (failure : Failure)

/-- One turn of the loop: the reply to its `SCAN`, and how its `UNLINK` fares if there is one. -/
structure Round where
  before : Change
  reply : Except Failure (Str × List Str)
  between : Change
  unlink : UnlinkReply

structure ScanCommand where
  cursor : Str
  pattern : Str
  count : ℕ

def scanCount : ℕ := 250

/-- How a bust went on: the scans sent, the keys sent to `UNLINK`, the keys left and, once it is over,
whether a command failed it. -/
structure Sweep where
  scans : List ScanCommand
  unlinked : List Str
  keys : Finset Str
  ended : Option (Except Failure Unit)

def sweep (pattern cursor : Str) (keys : Finset Str) : List Round → Sweep
  | [] => ⟨[⟨cursor, pattern, scanCount⟩], [], keys, none⟩
  | r :: rounds =>
    match r.reply with
    | .error failure => ⟨[⟨cursor, pattern, scanCount⟩], [], r.before.apply keys, some (.error failure)⟩
    | .ok (next, page) =>
      let found := r.between.apply (r.before.apply keys)
      let rest : Finset Str → Sweep := fun left =>
        if next ≠ units "0" then
          let s := sweep pattern next left rounds
          ⟨⟨cursor, pattern, scanCount⟩ :: s.scans, page ++ s.unlinked, s.keys, s.ended⟩
        else ⟨[⟨cursor, pattern, scanCount⟩], page, left, some (.ok ())⟩
      if 0 < page.length then
        match r.unlink with
        | .answered => rest (found \ page.toFinset)
        | .lost failure => ⟨[⟨cursor, pattern, scanCount⟩], page, found \ page.toFinset, some (.error failure)⟩
        | .failed failure => ⟨[⟨cursor, pattern, scanCount⟩], page, found, some (.error failure)⟩
      else rest found

def bust (tenantId : Id) (ns : Str) (keys : Finset Str) (rounds : List Round) : Except InvalidCacheSegmentError Sweep := do
  let p ← namespacePrefix tenantId ns
  return sweep (p ++ units "*") (units "0") keys rounds

structure Client where
  get : Str → Except Failure (Option Str)
  set : Str → Str → ℕ → Except Failure Unit
  unlink : Str → Except Failure Unit
  keys : Finset Str
  rounds : List Round

section Service
variable {α ε : Type} (parse : Str → Option α) (stringify : α → Except ε (Option Str)) (client : Option Client)

def read (key : Str) : Except (Rejection ε) (Option α) :=
  match client with
  | none => return none
  | some client =>
    try
      let raw ← (client.get key).mapError .redis
      return raw.bind parse
    catch _ => return none

def write (key : Str) (value : α) (ttlSeconds : ℕ) : Except (Rejection ε) Unit :=
  match client with
  | none => return ()
  | some client => do
    -- not inside the `try`: what cannot be serialised is the caller's error
    let serialised ← (stringify value).mapError .raised
    match serialised with
    | none => return ()
    | some serialised =>
      try (client.set key serialised ttlSeconds).mapError .redis
      catch _ => return ()

def getOrLoad (tenantId : Id) (key : CacheEntryKey) (ttlSeconds : ℕ) (loader : Except ε α) : Except (Rejection ε) α := do
  let key ← (cacheKey tenantId key.ns key.id).mapError .invalidSegment
  let cached ← read parse client key
  match cached with
  | some value => return value
  | none =>
    let loaded ← loader.mapError .raised
    write stringify client key loaded ttlSeconds
    return loaded

def del (tenantId : Id) (key : CacheEntryKey) : Except (Rejection ε) Unit :=
  match client with
  | none => return ()
  | some client =>
    try
      let key ← (cacheKey tenantId key.ns key.id).mapError .invalidSegment
      (client.unlink key).mapError .redis
    catch _ => return ()

/-- `none` while the loop goes on. -/
def delByPrefix (tenantId : Id) (ns : Str) : Option (Except (Rejection ε) Unit) :=
  match client with
  | none => some (return ())
  | some client =>
    match bust tenantId ns client.keys client.rounds with
    | .error e => some (.error (.invalidSegment e))
    | .ok s => s.ended.map fun outcome =>
      try outcome.mapError .redis catch _ => return ()

inductive TenantCall (α ε : Type) where
  | getOrLoad (key : CacheEntryKey) (ttlSeconds : ℕ) (loader : Except ε α)
  | del (key : CacheEntryKey)
  | delByPrefix (ns : Str)

def TenantCall.settle (tenantId : Id) : TenantCall α ε → Option (Except (Rejection ε) (Option α))
  | .getOrLoad key ttlSeconds loader => some (some <$> Cache.getOrLoad parse stringify client tenantId key ttlSeconds loader)
  | .del key => some ((fun _ => none) <$> Cache.del client tenantId key)
  | .delByPrefix ns => (Cache.delByPrefix client tenantId ns).map fun outcome => (fun _ => none) <$> outcome

def TenantCall.WellFormed : TenantCall α ε → Prop
  | .getOrLoad key _ _ => Segment key.ns ∧ Segment key.id
  | .del key => Segment key.ns ∧ Segment key.id
  | .delByPrefix ns => Segment ns

/-- A malformed segment is surfaced, and what Redis fails at is not. -/
structure Surfaces (tenantId : Id) (call : TenantCall α ε) : Prop where
  malformed (h : ¬ call.WellFormed) : ∃ e, call.settle parse stringify client tenantId = some (.error (.invalidSegment e))
  wellFormed (h : call.WellFormed) (e : Rejection ε) (he : call.settle parse stringify client tenantId = some (.error e)) :
    ∃ x, e = .raised x

def TenantCall.Checks : TenantCall α ε → Prop
  | .getOrLoad _ _ _ => True
  | .del _ => False
  | .delByPrefix _ => client.isSome = true

end Service

section Outcomes
variable {α ε : Type} {parse : Str → Option α} {stringify : α → Except ε (Option Str)} {client : Option Client}
  {tenantId : Id} {key : CacheEntryKey} {ns k : Str}

private theorem cacheKey_of_malformed (tenantId : Id) (h : ¬ (Segment key.ns ∧ Segment key.id)) :
    ∃ e, cacheKey tenantId key.ns key.id = .error e := by
  by_cases hns : Segment key.ns
  · exact ⟨_,by rw [cacheKey, checkSegment_of_segment hns, checkSegment_of_not_segment fun hid => h ⟨hns,hid⟩]; rfl⟩
  · exact ⟨_,by rw [cacheKey, checkSegment_of_not_segment hns]; rfl⟩

private theorem cacheKey_of_wellFormed (tenantId : Id) (h : Segment key.ns ∧ Segment key.id) : ∃ k, cacheKey tenantId key.ns key.id = .ok k := by
  rw [cacheKey, checkSegment_of_segment h.1, checkSegment_of_segment h.2]
  exact ⟨_,rfl⟩

private theorem read_eq_ok (k : Str) : ∃ cached, read (ε := ε) parse client k = .ok cached := by
  unfold read
  cases client with
  | none => exact ⟨none,rfl⟩
  | some client =>
    dsimp only
    cases client.get k with
    | error f => exact ⟨none,rfl⟩
    | ok raw => exact ⟨raw.bind parse,rfl⟩

private theorem write_eq_error {value : α} {ttl : ℕ} {e : Rejection ε} (h : write stringify client k value ttl = .error e) :
    ∃ x, e = .raised x := by
  unfold write at h
  cases client with
  | none => cases h
  | some client =>
    dsimp only at h
    cases hs : stringify value with
    | error x =>
      rw [hs] at h
      cases h
      exact ⟨x,rfl⟩
    | ok serialised =>
      rw [hs] at h
      cases serialised with
      | none => cases h
      | some text =>
        dsimp only [Except.mapError, bind, Except.bind] at h
        cases hset : client.set k text ttl with
        | error f =>
          rw [hset] at h
          cases h
        | ok u =>
          rw [hset] at h
          cases h

private theorem getOrLoad_eq_error {ttl : ℕ} {loader : Except ε α} {e : Rejection ε}
    (hk : cacheKey tenantId key.ns key.id = .ok k) (h : getOrLoad parse stringify client tenantId key ttl loader = .error e) :
    ∃ x, e = .raised x := by
  obtain ⟨cached,hread⟩ : ∃ cached, read (ε := ε) parse client k = .ok cached := read_eq_ok k
  unfold getOrLoad at h
  rw [hk] at h
  change (read parse client k >>= _) = _ at h
  rw [hread] at h
  cases cached with
  | some value => cases h
  | none =>
    cases loader with
    | error x =>
      cases h
      exact ⟨x,rfl⟩
    | ok loaded =>
      change (write stringify client k loaded ttl >>= _) = _ at h
      cases hw : write stringify client k loaded ttl with
      | error x =>
        rw [hw] at h
        cases h
        exact write_eq_error hw
      | ok u =>
        rw [hw] at h
        cases h

private theorem del_eq_ok : del (ε := ε) client tenantId key = .ok () := by
  unfold del
  cases client with
  | none => rfl
  | some client =>
    dsimp only
    cases cacheKey tenantId key.ns key.id with
    | error e => rfl
    | ok k =>
      dsimp only [Except.mapError, bind, Except.bind]
      cases client.unlink k with
      | error f => rfl
      | ok u => rfl

private theorem delByPrefix_of_segment (h : Segment ns) (outcome : Except (Rejection ε) Unit)
    (hsettled : delByPrefix client tenantId ns = some outcome) : outcome = .ok () := by
  unfold delByPrefix at hsettled
  cases client with
  | none =>
    cases hsettled
    rfl
  | some client =>
    dsimp only at hsettled
    rw [bust, namespacePrefix, checkSegment_of_segment h] at hsettled
    obtain ⟨x,_,rfl⟩ := Option.map_eq_some_iff.mp hsettled
    cases x with
    | error f => rfl
    | ok u => rfl

private theorem delByPrefix_of_not_segment (c : Client) (h : ¬ Segment ns) :
    delByPrefix (ε := ε) (some c) tenantId ns = some (.error (.invalidSegment ⟨"namespace",ns⟩)) := by
  rw [delByPrefix, bust, namespacePrefix, checkSegment_of_not_segment h]
  rfl

private theorem settle_of_malformed {call : TenantCall α ε} (hbad : ¬ call.WellFormed) (h : call.Checks client) :
    ∃ e, call.settle parse stringify client tenantId = some (.error (.invalidSegment e)) := by
  cases call with
  | getOrLoad key ttl loader =>
    obtain ⟨e,he⟩ := cacheKey_of_malformed tenantId hbad
    refine ⟨e,?_⟩
    rw [TenantCall.settle, getOrLoad, he]
    rfl
  | del key => exact h.elim
  | delByPrefix ns =>
    cases client with
    | none => cases h
    | some c =>
      rw [TenantCall.settle, delByPrefix_of_not_segment c hbad]
      exact ⟨_,rfl⟩

private theorem raised_of_wellFormed {call : TenantCall α ε} (hgood : call.WellFormed) {e : Rejection ε}
    (he : call.settle parse stringify client tenantId = some (.error e)) : ∃ x, e = .raised x := by
  cases call with
  | getOrLoad key ttl loader =>
    obtain ⟨k,hk⟩ := cacheKey_of_wellFormed tenantId hgood
    rw [TenantCall.settle] at he
    cases hload : getOrLoad parse stringify client tenantId key ttl loader with
    | error x =>
      rw [hload] at he
      cases he
      exact getOrLoad_eq_error hk hload
    | ok v =>
      rw [hload] at he
      cases he
  | del key =>
    rw [TenantCall.settle, del_eq_ok] at he
    cases he
  | delByPrefix ns =>
    obtain ⟨outcome,hout,heq⟩ := Option.map_eq_some_iff.mp he
    rw [delByPrefix_of_segment hgood outcome hout] at heq
    cases heq

/-- A method keeps to the contract exactly when its segments are well formed or nothing catches them: a bust
of an entry catches them, and no bust of a namespace looks at them without a client. -/
theorem surfaces_iff (call : TenantCall α ε) :
    Surfaces parse stringify client tenantId call ↔ call.WellFormed ∨ call.Checks client := by
  constructor
  · intro h
    by_contra hnot
    obtain ⟨hbad,hunchecked⟩ := not_or.mp hnot
    obtain ⟨e,he⟩ := h.malformed hbad
    cases call with
    | getOrLoad key ttl loader => exact hunchecked trivial
    | del key =>
      rw [TenantCall.settle, del_eq_ok] at he
      cases he
    | delByPrefix ns =>
      cases client with
      | none => cases he
      | some c => exact hunchecked rfl
  · intro h
    refine ⟨fun hbad => ?_,fun hgood e he => ?_⟩
    · exact settle_of_malformed hbad (h.resolve_left hbad)
    · exact raised_of_wellFormed hgood he

/-- A healthy Redis, and the bust of an entry whose namespace has a colon in it. -/
theorem del_swallows_colon : ¬ Surfaces (α := Unit) (ε := Empty) (fun _ => some ()) (fun _ => .ok (some (units "null")))
    (some ⟨fun _ => .ok none,fun _ _ _ => .ok (),fun _ => .ok (),∅,[]⟩)
    ⟨"00000000-0000-0000-0000-000000000000",by decide⟩ (.del ⟨units "origins:eu",units "1"⟩) := by
  intro h
  obtain ⟨e,he⟩ := h.malformed (by rw [TenantCall.WellFormed]; decide)
  cases he

end Outcomes
end Nivara.Cache
