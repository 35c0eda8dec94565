import Nivara.Auth.LedgerOutline

/-! A refresh-token family is a linear chain, whatever the interleaving. The conditional
spend is the only arbiter: a successor is written only under the lock of the one token of
its family that is still unspent. -/
namespace Nivara.Auth
open Transactions

def rotationsOf (hash : Digest) (answers : List Answer) : List Token :=
  answers.filterMap fun
    | .refreshed _ token _ (some successor) => if hashToken token = hash then some successor else none
    | _ => none

def SuccessorRow (d : Ledger) (r : RefreshToken) (rotatedAt : Int) (successor : Token) : Prop :=
  ∃ k r', d.table.committed k = some r' ∧ r'.tokenHash = hashToken successor ∧
    r'.familyId = r.familyId ∧ r'.expiresAt = slidingExpiryFor rotatedAt

structure Settled (d : Ledger) : Prop where
  /-- A token is rotated at most once, and then has exactly one successor, in its family. -/
  successor : ∀ k r, d.table.committed k = some r →
    (r.rotatedAt = none → rotationsOf r.tokenHash d.answers = []) ∧
    ∀ at', r.rotatedAt = some at' → ∃ successor, rotationsOf r.tokenHash d.answers = [successor] ∧
      SuccessorRow d r at' successor
  /-- At most one token of a family is unspent. -/
  unspent : ∀ k k' r r', d.table.committed k = some r → d.table.committed k' = some r' →
    r.familyId = r'.familyId → r.rotatedAt = none → r'.rotatedAt = none → k = k'
  /-- Tenant, subject and ceiling are those of a sign-in whose token is in the family; the
  ceiling is that sign-in's instant plus the absolute lifetime. -/
  origin : ∀ k r, d.table.committed k = some r → ∃ subject now token,
    Answer.signedIn r.tenantId subject now token ∈ d.answers ∧ (r.userId, r.contactId) = columnsFor subject ∧
    r.familyExpiresAt = familyExpiryFor now ∧
    ∃ k₀ r₀, d.table.committed k₀ = some r₀ ∧ r₀.tokenHash = hashToken token ∧ r₀.familyId = r.familyId
  /-- A refresh that yielded a token was asked for before the ceiling of the token's family. -/
  ceiling : ∀ tenantId token now successor, Answer.refreshed tenantId token now (some successor) ∈ d.answers →
    ∃ k r, d.table.committed k = some r ∧ r.tenantId = tenantId ∧ r.tokenHash = hashToken token ∧
      now < r.familyExpiresAt

structure LinearChain (d : Ledger) : Prop extends Settled d where
  /-- A token has one row. -/
  token : ∀ k k' r r', d.table.committed k = some r → d.table.committed k' = some r' →
    r.tokenHash = r'.tokenHash → k = k'
  /-- The tokens of a family agree on tenant, subject and ceiling. -/
  session : ∀ k k' r r', d.table.committed k = some r → d.table.committed k' = some r' →
    r.familyId = r'.familyId → SameSession r r'

/-- An uncommitted new row: its family is new too, or the transaction holds the lock of the
family's unspent token. -/
def Licensed (d : Ledger) (i : Nat) (r : RefreshToken) : Prop :=
  (∀ k r', d.table.committed k = some r' → r'.familyId ≠ r.familyId) ∨
  ∃ k r₀, d.table.committed k = some r₀ ∧ r₀.familyId = r.familyId ∧ r₀.rotatedAt = none ∧
    d.table.own i k ≠ none

/-- The uncommitted new rows: each is licensed, and no family has two. -/
structure Reserved (d : Ledger) : Prop where
  licensed : ∀ i m r, d.table.own i m = some r → d.table.committed m = none → Licensed d i r
  newborn : ∀ i j m m' r r', d.table.own i m = some r → d.table.committed m = none →
    d.table.own j m' = some r' → d.table.committed m' = none → r.familyId = r'.familyId → m = m'

structure Chain (d : Ledger) : Prop extends Settled d, Reserved d

theorem rotationsOf_append (hash : Digest) (xs ys : List Answer) :
    rotationsOf hash (xs ++ ys) = rotationsOf hash xs ++ rotationsOf hash ys := List.filterMap_append ..

theorem mem_rotationsOf {hash : Digest} {answers : List Answer} {t : Token}
    (h : t ∈ rotationsOf hash answers) :
    ∃ tenantId token now, Answer.refreshed tenantId token now (some t) ∈ answers ∧ hashToken token = hash := by
  obtain ⟨a,ha,he⟩ := List.mem_filterMap.mp h
  split at he
  · split at he
    · cases he
      exact ⟨_,_,_,ha,by assumption⟩
    · cases he
  · cases he

theorem rotationsOf_empty {hash : Digest} {as : List Answer} (h : ∀ a ∈ as, a.Empty) :
    rotationsOf hash as = [] := by
  refine List.filterMap_eq_nil_iff.mpr fun a ha => ?_
  rcases h a ha with rfl | ⟨_,_,_,rfl⟩ <;> rfl

def standing (r : RefreshToken) : RefreshToken × Option Int := (r.fixed, r.rotatedAt)

section Standing
variable {r r' : RefreshToken} (h : standing r = standing r')
include h

private theorem standing_rotatedAt : r.rotatedAt = r'.rotatedAt := congrArg Prod.snd h
private theorem standing_tenantId : r.tenantId = r'.tenantId := congrArg (·.1.tenantId) h
private theorem standing_tokenHash : r.tokenHash = r'.tokenHash := congrArg (·.1.tokenHash) h
private theorem standing_familyId : r.familyId = r'.familyId := congrArg (·.1.familyId) h
private theorem standing_expiresAt : r.expiresAt = r'.expiresAt := congrArg (·.1.expiresAt) h
private theorem standing_familyExpiresAt : r.familyExpiresAt = r'.familyExpiresAt :=
  congrArg (·.1.familyExpiresAt) h
private theorem standing_columns : (r.userId, r.contactId) = (r'.userId, r'.contactId) :=
  congrArg (fun x => (x.1.userId, x.1.contactId)) h

end Standing

private theorem standing_back {o o' : Option RefreshToken} (h : o'.map standing = o.map standing)
    {r' : RefreshToken} (hr : o' = some r') : ∃ r, o = some r ∧ standing r' = standing r := by
  subst hr
  obtain ⟨r,hr,he⟩ := Option.map_eq_some_iff.mp h.symm
  exact ⟨r,hr,he.symm⟩

/-- Steps that move no row along its chain keep what is settled: no standing changes, and
nothing but empty answers is added. -/
private theorem settled_frame {d d' : Ledger} (h : Settled d)
    (hc : ∀ k, (d'.table.committed k).map standing = (d.table.committed k).map standing)
    (hans : ∃ as, d'.answers = d.answers ++ as ∧ ∀ a ∈ as, a.Empty) : Settled d' := by
  obtain ⟨as,hans,hempty⟩ := hans
  have hrot : ∀ hash, rotationsOf hash d'.answers = rotationsOf hash d.answers := by
    intro hash
    rw [hans, rotationsOf_append, rotationsOf_empty hempty, List.append_nil]
  constructor
  · intro k r hr
    obtain ⟨s,hs,he⟩ := standing_back (hc k) hr
    obtain ⟨h1,h2⟩ := h.successor k s hs
    rw [hrot, standing_rotatedAt he, standing_tokenHash he]
    refine ⟨h1,fun at' hat => ?_⟩
    obtain ⟨t,ht,k',s',hk',hh,hf,hx⟩ := h2 at' hat
    obtain ⟨r',hr',he'⟩ := standing_back (hc k').symm hk'
    exact ⟨t,ht,k',r',hr',(standing_tokenHash he').symm.trans hh,
      (standing_familyId he').symm.trans (hf.trans (standing_familyId he).symm),(standing_expiresAt he').symm.trans hx⟩
  · intro k k' r r' hr hr' hf hn hn'
    obtain ⟨s,hs,he⟩ := standing_back (hc k) hr
    obtain ⟨s',hs',he'⟩ := standing_back (hc k') hr'
    exact h.unspent k k' s s' hs hs' ((standing_familyId he).symm.trans (hf.trans (standing_familyId he')))
      ((standing_rotatedAt he).symm.trans hn) ((standing_rotatedAt he').symm.trans hn')
  · intro k r hr
    obtain ⟨s,hs,he⟩ := standing_back (hc k) hr
    obtain ⟨subject,now,token,ha,hcol,hx,k₀,s₀,hk₀,hh,hf⟩ := h.origin k s hs
    obtain ⟨r₀,hr₀,he₀⟩ := standing_back (hc k₀).symm hk₀
    refine ⟨subject,now,token,?_,(standing_columns he).trans hcol,
      (standing_familyExpiresAt he).trans hx,k₀,r₀,hr₀,(standing_tokenHash he₀).symm.trans hh,
      (standing_familyId he₀).symm.trans (hf.trans (standing_familyId he).symm)⟩
    rw [standing_tenantId he, hans]
    exact List.mem_append_left _ ha
  · intro tenantId token now t ha
    rw [hans, List.mem_append] at ha
    rcases ha with ha | ha
    · obtain ⟨k,s,hs,ht,hh,hn⟩ := h.ceiling tenantId token now t ha
      obtain ⟨r,hr,he⟩ := standing_back (hc k).symm hs
      exact ⟨k,r,hr,(standing_tenantId he).symm.trans ht,(standing_tokenHash he).symm.trans hh,
        standing_familyExpiresAt he ▸ hn⟩
    · rcases hempty _ ha with he | ⟨_,_,_,he⟩ <;> cases he

/-- The new rows stay licensed when none appears, no standing changes and no lock is lost by
a transaction that still has one. -/
private theorem reserved_frame {d d' : Ledger} (h : Reserved d)
    (hc : ∀ k, (d'.table.committed k).map standing = (d.table.committed k).map standing)
    (hnew : ∀ i m r, d'.table.own i m = some r → d'.table.committed m = none →
      d.table.own i m = some r ∧ ∀ k, d.table.own i k ≠ none → d'.table.own i k ≠ none) : Reserved d' := by
  have hnone : ∀ k, d'.table.committed k = none → d.table.committed k = none := by
    intro k hk
    simpa [hk] using (hc k).symm
  constructor
  · intro i m r ho hm
    obtain ⟨ho,hkeep⟩ := hnew i m r ho hm
    rcases h.licensed i m r ho (hnone m hm) with hfree | ⟨k,r₀,hk,hf,hn,hl⟩
    · refine .inl fun k r' hr' => ?_
      obtain ⟨s,hs,he⟩ := standing_back (hc k) hr'
      exact standing_familyId he ▸ hfree k s hs
    · obtain ⟨s,hs,he⟩ := standing_back (hc k).symm hk
      exact .inr ⟨k,s,hs,(standing_familyId he).symm.trans hf,(standing_rotatedAt he).symm.trans hn,hkeep k hl⟩
  · intro i j m m' r r' ho hm ho' hm' hf
    exact h.newborn i j m m' r r' (hnew i m r ho hm).1 (hnone m hm) (hnew j m' r' ho' hm').1 (hnone m' hm') hf

section Steps
variable {d : Ledger} {i : Nat} {tenantId : Uuid} {token : Token} {familyId : Uuid} {now : Int}

private theorem chain_rollback (h : Chain d) : Chain (d.rollback i) := by
  refine ⟨settled_frame h.toSettled (fun _ => rfl) ⟨[],by simp [Db.rollback],by simp⟩,
    reserved_frame h.toReserved (fun _ => rfl) ?_⟩
  intro j m r ho _
  have hji : j ≠ i := by
    rintro rfl
    simp [Db.rollback] at ho
  have hown : ∀ k, (d.rollback i).table.own j k = d.table.own j k :=
    fun k => Table.own_rollback_other _ _ _ _ hji
  exact ⟨(hown m).symm.trans ho,fun k hk => (hown k).symm ▸ hk⟩

private theorem chain_write (h : Chain d) (hu : Untouched i d) {u : Update} {ks : List Nat}
    (hfree : d.table.free i ks = true) : Chain (d.write updates i u ks) := by
  refine ⟨settled_frame h.toSettled (fun _ => rfl) ⟨[],by simp [Db.write],by simp⟩,
    reserved_frame h.toReserved (fun _ => rfl) ?_⟩
  intro j m r ho hm
  by_cases hji : j = i
  · subst hji
    rcases Table.own_write_cases _ _ _ ho with ⟨s,_,hs,_⟩ | ho
    · rw [Table.visible_of_no_own _ _ _ (hu m)] at hs
      cases hs.symm.trans hm
    · cases (hu m).symm.trans ho
  · have hown : ∀ k, (d.write updates i u ks).table.own j k = d.table.own j k :=
      fun k => Table.own_write_other _ _ _ _ hji hfree
    exact ⟨(hown m).symm.trans ho,fun k hk => (hown k).symm ▸ hk⟩

/-- A commit with an empty answer whose versions all keep their standing. -/
private theorem chain_commit (h : Chain d) {a : Answer} (ha : a.Empty)
    (hown : ∀ k r', d.table.own i k = some r' → ∃ r, d.table.committed k = some r ∧ standing r' = standing r) :
    Chain (d.commit i a) := by
  have hc : ∀ k, ((d.commit i a).table.committed k).map standing = (d.table.committed k).map standing := by
    intro k
    change (d.table.visible i k).map standing = _
    cases ho : d.table.own i k with
    | none => rw [Table.visible_of_no_own _ _ _ ho]
    | some r' =>
      obtain ⟨r,hr,he⟩ := hown k r' ho
      rw [Table.visible_of_own _ _ _ ho, hr]
      exact congrArg some he
  refine ⟨settled_frame h.toSettled hc ⟨[a],rfl,by simpa using ha⟩,reserved_frame h.toReserved hc ?_⟩
  intro j m r ho _
  have hji : j ≠ i := by
    rintro rfl
    simp [Db.commit] at ho
  have hown : ∀ k, (d.commit i a).table.own j k = d.table.own j k :=
    fun k => Table.own_commit_other _ _ _ _ hji
  exact ⟨(hown m).symm.trans ho,fun k hk => (hown k).symm ▸ hk⟩

private theorem unrotated (hd : Sound d) (h : Settled d) {m : Nat} {r : RefreshToken}
    (ho : d.table.own i m = some r) (hm : d.table.committed m = none) :
    rotationsOf r.tokenHash d.answers = [] := by
  refine List.eq_nil_iff_forall_not_mem.mpr fun t ht => ?_
  obtain ⟨tenantId,token,now,ha,hh⟩ := mem_rotationsOf ht
  obtain ⟨k,r',hk,_,hh',_⟩ := h.ceiling tenantId token now t ha
  have hkm : k = m := hd.1.unique k m r' r (.inl hk) (.inr ⟨i,ho⟩) (hh'.trans hh)
  subst hkm
  cases hk.symm.trans hm

/-- The committed rows after a commit, seen from the rows before it. -/
private theorem commit_grows (hd : Sound d) (a : Answer) {k : Nat} {r : RefreshToken}
    (hk : d.table.committed k = some r) : ∃ r', (d.commit i a).table.committed k = some r' ∧ Evolves r r' :=
  (rely_commit (i := i + 1) Evolves.refl hd.2 (by omega) a).grows k r hk

private theorem successorRow_grows (hd : Sound d) (a : Answer) {r r' : RefreshToken} {at' : Int}
    {successor : Token} (he : r'.familyId = r.familyId) (h : SuccessorRow d r at' successor) :
    SuccessorRow (d.commit i a) r' at' successor := by
  obtain ⟨k,s,hk,hh,hf,hx⟩ := h
  obtain ⟨s',hk',hev⟩ := commit_grows hd a hk
  have hx' : s'.expiresAt = s.expiresAt := congrArg (·.expiresAt) hev.fixed
  exact ⟨k,s',hk',hev.tokenHash.trans hh,(hev.familyId.trans hf).trans he.symm,hx'.trans hx⟩

private theorem ceiling_grows (hd : Sound d) (h : Settled d) (a : Answer) {successor : Token}
    (ha : Answer.refreshed tenantId token now (some successor) ∈ d.answers) :
    ∃ k r, (d.commit i a).table.committed k = some r ∧ r.tenantId = tenantId ∧
      r.tokenHash = hashToken token ∧ now < r.familyExpiresAt := by
  obtain ⟨k,r,hk,ht,hh,hn⟩ := h.ceiling tenantId token now successor ha
  obtain ⟨r',hk',he⟩ := commit_grows hd a hk
  exact ⟨k,r',hk',he.tenantId.trans ht,he.tokenHash.trans hh,he.familyExpiresAt ▸ hn⟩

/-- A row with the session columns and the family of a committed row has its origin. -/
private theorem origin_grows (hd : Sound d) (h : Settled d) (a : Answer) {k : Nat} {r r' : RefreshToken}
    (hk : d.table.committed k = some r) (hs : SameSession r' r) (hf : r'.familyId = r.familyId) :
    ∃ subject now token, Answer.signedIn r'.tenantId subject now token ∈ (d.commit i a).answers ∧
      (r'.userId, r'.contactId) = columnsFor subject ∧ r'.familyExpiresAt = familyExpiryFor now ∧
      ∃ k₀ r₀, (d.commit i a).table.committed k₀ = some r₀ ∧ r₀.tokenHash = hashToken token ∧
        r₀.familyId = r'.familyId := by
  obtain ⟨subject,now,token,ha,hcol,hx,k₀,r₀,hk₀,hh₀,hf₀⟩ := h.origin k r hk
  obtain ⟨r₀',hk₀',he⟩ := commit_grows hd a hk₀
  obtain ⟨h1,h2,h3,h4⟩ := hs
  refine ⟨subject,now,token,?_,by rw [h2, h3, hcol],h4.trans hx,k₀,r₀',hk₀',he.tokenHash.trans hh₀,?_⟩
  · rw [h1]
    exact List.mem_append_left _ ha
  · rw [he.familyId, hf₀, hf]

/-- A new row is kept when it is licensed and no other new row is in its family. -/
private theorem chain_insert (h : Chain d) {row : Nat → RefreshToken}
    (hlic : Licensed (d.insert i row) i (row d.supply))
    (hfam : ∀ j m r, d.table.own j m = some r → d.table.committed m = none →
      r.familyId ≠ (row d.supply).familyId) : Chain (d.insert i row) := by
  refine ⟨⟨h.successor,h.unspent,h.origin,h.ceiling⟩,?_,?_⟩
  · intro j m r ho hm
    rcases Table.own_insert_cases _ _ _ _ ho with ⟨_,rfl,rfl⟩ | ho
    · exact hlic
    · rcases h.licensed j m r ho hm with hfree | ⟨k,r₀,hk,hf,hn,hl⟩
      · exact .inl hfree
      · obtain ⟨s,hs⟩ := Option.ne_none_iff_exists'.mp hl
        refine .inr ⟨k,r₀,hk,hf,hn,?_⟩
        rw [show (d.insert i row).table.own j k = _ from Table.own_insert_of_own _ _ _ _ hs]
        exact Option.some_ne_none s
  · intro j j' m m' r r' ho hm ho' hm' hf
    rcases Table.own_insert_cases _ _ _ _ ho with ⟨rfl,_,rfl⟩ | ho <;>
      rcases Table.own_insert_cases _ _ _ _ ho' with ⟨rfl,_,rfl⟩ | ho'
    · rfl
    · exact absurd hf.symm (hfam j' m' r' ho' hm')
    · exact absurd hf (hfam j m r ho hm)
    · exact h.newborn j j' m m' r r' ho hm ho' hm' hf

/-- The other transactions' new rows after a commit: enough that each stays licensed. -/
private theorem reserved_commit (h : Chain d) {a : Answer}
    (hlic : ∀ j m r, j ≠ i → d.table.own j m = some r → d.table.committed m = none →
      (∀ k r', (d.commit i a).table.committed k = some r' → r'.familyId ≠ r.familyId) ∨
      ∃ k r₀, (d.commit i a).table.committed k = some r₀ ∧ r₀.familyId = r.familyId ∧ r₀.rotatedAt = none ∧
        d.table.own j k ≠ none) : Reserved (d.commit i a) := by
  have hback : ∀ j m r, (d.commit i a).table.own j m = some r → (d.commit i a).table.committed m = none →
      j ≠ i ∧ d.table.own j m = some r ∧ d.table.committed m = none := by
    intro j m r ho hm
    have hji : j ≠ i := by
      rintro rfl
      simp [Db.commit] at ho
    have ho' := (Table.own_commit_other _ _ _ _ hji).symm.trans ho
    have hi := Table.own_exclusive _ _ _ _ ho' (Ne.symm hji)
    exact ⟨hji,ho',(Table.visible_of_no_own _ _ _ hi).symm.trans hm⟩
  constructor
  · intro j m r ho hm
    obtain ⟨hji,ho,hm⟩ := hback j m r ho hm
    rcases hlic j m r hji ho hm with hfree | ⟨k,r₀,hk,hf,hn,hl⟩
    · exact .inl hfree
    · refine .inr ⟨k,r₀,hk,hf,hn,?_⟩
      rwa [show (d.commit i a).table.own j k = _ from Table.own_commit_other _ _ _ _ hji]
  · intro j j' m m' r r' ho hm ho' hm' hf
    obtain ⟨_,ho,hm⟩ := hback j m r ho hm
    obtain ⟨_,ho',hm'⟩ := hback j' m' r' ho' hm'
    exact h.newborn j j' m m' r r' ho hm ho' hm' hf

end Steps

section Refresh
variable {d : Ledger} {i : Nat} {tenantId : Uuid} {token : Token} {now : Int} {k m : Nat}
  {r : RefreshToken} {subject : SessionSubject} {seed : Token}

/-- The spender holds the lock of the only unspent token, so nobody else has a new row in the family. -/
private theorem spent_alone (h : Chain d) (hs : Spent i tenantId token now d k r) {j m' : Nat}
    {r' : RefreshToken} (ho : d.table.own j m' = some r') (hm : d.table.committed m' = none)
    (hf : r'.familyId = r.familyId) : j = i := by
  obtain ⟨hk,hok,hn,_⟩ := hs
  rcases h.licensed j m' r' ho hm with hfree | ⟨k₀,r₀,hk₀,hf₀,hn₀,hl⟩
  · exact absurd hf.symm (hfree k r hk)
  · have hkk : k₀ = k := h.unspent k₀ k r₀ r hk₀ hk (hf₀.trans hf) hn₀ hn
    subst hkk
    by_contra hji
    exact hl (Table.own_exclusive _ _ _ _ hok hji)

private theorem chain_successor_insert (h : Chain d) (hs : Spent i tenantId token now d k r)
    (hother : ∀ k', k' ≠ k → d.table.own i k' = none) :
    Chain (d.insert i (newRow r.tenantId subject now r.familyId r.familyExpiresAt)) := by
  refine chain_insert h (.inr ⟨k,r,hs.1,rfl,hs.2.2.1,?_⟩) ?_
  · rw [show (d.insert i _).table.own i k = _ from Table.own_insert_of_own _ _ _ _ hs.2.1]
    exact Option.some_ne_none _
  · intro j m' r' ho hm hf
    have hji := spent_alone h hs ho hm hf
    subst hji
    have hmk : m' ≠ k := by
      rintro rfl
      cases hs.1.symm.trans hm
    cases (hother m' hmk).symm.trans ho

/-- The rows a successful refresh commits: the spent token, its successor, and the old ones. -/
private theorem succeeded_rows (hs : Succeeded i tenantId token now d k r subject m seed) (a : Answer)
    {k' : Nat} {r' : RefreshToken} (h : (d.commit i a).table.committed k' = some r') :
    (k' = k ∧ r' = { r with rotatedAt := some now }) ∨
    (k' = m ∧ r' = newRow r.tenantId subject now r.familyId r.familyExpiresAt seed) ∨
    (k' ≠ k ∧ k' ≠ m ∧ d.table.committed k' = some r') := by
  obtain ⟨⟨_,hok,_⟩,_,_,hom,hother⟩ := hs
  have h' : d.table.visible i k' = some r' := h
  by_cases hk : k' = k
  · subst hk
    rw [Table.visible_of_own _ _ _ hok] at h'
    exact .inl ⟨rfl,(Option.some.inj h').symm⟩
  · by_cases hm : k' = m
    · subst hm
      rw [Table.visible_of_own _ _ _ hom] at h'
      exact .inr (.inl ⟨rfl,(Option.some.inj h').symm⟩)
    · rw [Table.visible_of_no_own _ _ _ (hother k' hk hm)] at h'
      exact .inr (.inr ⟨hk,hm,h'⟩)

private theorem rotationsOf_refreshed (hash : Digest) (answers : List Answer) :
    rotationsOf hash (answers ++ [.refreshed tenantId token now (some seed)]) =
      rotationsOf hash answers ++ if hashToken token = hash then [seed] else [] := by
  rw [rotationsOf_append]
  by_cases he : hashToken token = hash <;> simp [rotationsOf, he]

/-- The spent token gets its one successor; the successor and every other token keep theirs. -/
private theorem successor_committed (hd : Sound d) (h : Chain d)
    (hs : Succeeded i tenantId token now d k r subject m seed) {d' : Ledger}
    (hd' : d' = d.commit i (.refreshed tenantId token now (some seed))) {k' : Nat} {r' : RefreshToken}
    (hk' : d'.table.committed k' = some r') :
    (r'.rotatedAt = none → rotationsOf r'.tokenHash d'.answers = []) ∧
    ∀ at', r'.rotatedAt = some at' → ∃ successor, rotationsOf r'.tokenHash d'.answers = [successor] ∧
      SuccessorRow d' r' at' successor := by
  obtain ⟨⟨hk,hok,hn,_,hh,_⟩,_,hm,hom,_⟩ := id hs
  have hans : d'.answers = d.answers ++ [.refreshed tenantId token now (some seed)] := by
    rw [hd']
    rfl
  rw [hans, rotationsOf_refreshed]
  subst hd'
  rcases succeeded_rows hs _ hk' with ⟨rfl,rfl⟩ | ⟨rfl,rfl⟩ | ⟨hne,_,hold⟩
  · refine ⟨fun hnone => (by cases hnone),fun at' hat => ⟨seed,?_,m,_,Table.visible_of_own _ _ _ hom,rfl,rfl,?_⟩⟩
    · rw [if_pos hh.symm, (h.successor k' r hk).1 hn]
      rfl
    · cases hat
      rfl
  · refine ⟨fun _ => ?_,fun at' hat => (by cases hat)⟩
    have hne : hashToken token ≠ hashToken seed := by
      intro he
      have hkk := hd.1.unique k k' r _ (.inl hk) (.inr ⟨i,hom⟩) (hh.trans he)
      subst hkk
      cases hk.symm.trans hm
    change rotationsOf (hashToken seed) d.answers ++ (if hashToken token = hashToken seed then [seed] else []) = []
    rw [if_neg hne, List.append_nil]
    exact unrotated hd h.toSettled hom hm
  · have hne' : hashToken token ≠ r'.tokenHash := by
      intro he
      exact hne (hd.1.unique k' k r' r (.inl hold) (.inl hk) (he.symm.trans hh.symm))
    obtain ⟨h1,h2⟩ := h.successor k' r' hold
    rw [if_neg hne', List.append_nil]
    refine ⟨h1,fun at' hat => ?_⟩
    obtain ⟨t,ht,hrow⟩ := h2 at' hat
    exact ⟨t,ht,successorRow_grows hd _ rfl hrow⟩

/-- The successor takes the place of the spent token as the one that is unspent. -/
private theorem unspent_committed (h : Chain d) (hs : Succeeded i tenantId token now d k r subject m seed)
    (a : Answer) {k₁ k₂ : Nat} {r₁ r₂ : RefreshToken} (hk₁ : (d.commit i a).table.committed k₁ = some r₁)
    (hk₂ : (d.commit i a).table.committed k₂ = some r₂) (hf : r₁.familyId = r₂.familyId)
    (hn₁ : r₁.rotatedAt = none) (hn₂ : r₂.rotatedAt = none) : k₁ = k₂ := by
  obtain ⟨⟨hk,_,hn,_⟩,_⟩ := id hs
  rcases succeeded_rows hs a hk₁ with ⟨_,rfl⟩ | ⟨rfl,rfl⟩ | ⟨hne₁,_,hold₁⟩
  · cases hn₁
  · rcases succeeded_rows hs a hk₂ with ⟨_,rfl⟩ | ⟨rfl,_⟩ | ⟨hne₂,_,hold₂⟩
    · cases hn₂
    · rfl
    · exact absurd (h.unspent k₂ k r₂ r hold₂ hk hf.symm hn₂ hn) hne₂
  · rcases succeeded_rows hs a hk₂ with ⟨_,rfl⟩ | ⟨rfl,rfl⟩ | ⟨hne₂,_,hold₂⟩
    · cases hn₂
    · exact absurd (h.unspent k₁ k r₁ r hold₁ hk hf hn₁ hn) hne₁
    · exact h.unspent k₁ k₂ r₁ r₂ hold₁ hold₂ hf hn₁ hn₂

private theorem settled_successor_commit (hd : Sound d) (h : Chain d)
    (hs : Succeeded i tenantId token now d k r subject m seed) :
    Settled (d.commit i (.refreshed tenantId token now (some seed))) := by
  obtain ⟨⟨hk,hok,_,ht,hh,hnow,_⟩,harc,_,_⟩ := id hs
  refine ⟨fun k' r' hk' => successor_committed hd h hs rfl hk',
    fun k₁ k₂ r₁ r₂ hk₁ hk₂ => unspent_committed h hs _ hk₁ hk₂,?_,?_⟩
  · intro k' r' hk'
    rcases succeeded_rows hs _ hk' with ⟨rfl,rfl⟩ | ⟨rfl,rfl⟩ | ⟨_,_,hold⟩
    · exact origin_grows hd h.toSettled _ hk ⟨rfl,rfl,rfl,rfl⟩ rfl
    · exact origin_grows hd h.toSettled _ hk
        ⟨rfl,congrArg Prod.fst harc.symm,congrArg Prod.snd harc.symm,rfl⟩ rfl
    · exact origin_grows hd h.toSettled _ hold ⟨rfl,rfl,rfl,rfl⟩ rfl
  · intro tenantId' token' now' t ha
    rcases List.mem_append.mp ha with ha | ha
    · exact ceiling_grows hd h.toSettled _ ha
    · cases List.mem_singleton.mp ha
      exact ⟨k,_,Table.visible_of_own _ _ _ hok,ht,hh,hnow⟩

private theorem chain_successor_commit (hd : Sound d) (h : Chain d)
    (hs : Succeeded i tenantId token now d k r subject m seed) :
    Chain (d.commit i (.refreshed tenantId token now (some seed))) := by
  obtain ⟨⟨hk,hok,_⟩,_,hm,_⟩ := id hs
  refine ⟨settled_successor_commit hd h hs,reserved_commit h ?_⟩
  intro j m' r' hji ho hm'
  rcases h.licensed j m' r' ho hm' with hfree | ⟨k₀,r₀,hk₀,hf₀,hn₀,hl⟩
  · refine .inl fun k' s hk' => ?_
    rcases succeeded_rows hs _ hk' with ⟨_,rfl⟩ | ⟨_,rfl⟩ | ⟨_,_,hold⟩
    · exact hfree k r hk
    · exact hfree k r hk
    · exact hfree k' s hold
  · refine .inr ⟨k₀,r₀,?_,hf₀,hn₀,hl⟩
    -- the lock that licenses the other row is not one of this transaction's
    obtain ⟨s,hs₀⟩ := Option.ne_none_iff_exists'.mp hl
    exact (Table.visible_of_no_own _ _ _ (Table.own_exclusive _ _ _ _ hs₀ hji.symm)).trans hk₀

end Refresh

section SignIn
variable {d : Ledger} {i : Nat} {tenantId : Uuid} {now : Int} {m : Nat} {subject : SessionSubject} {seed : Token}

private theorem chain_origin_insert (hd : Sound d) (h : Chain d) :
    Chain (d.insert i fun seed => newRow tenantId subject now seed (familyExpiryFor now) seed) := by
  refine chain_insert h (.inl fun k r hk => ?_) fun j m r ho _ => ?_
  · exact Nat.ne_of_lt (hd.1.family_drawn k r (.inl hk))
  · exact Nat.ne_of_lt (hd.1.family_drawn m r (.inr ⟨j,ho⟩))

private theorem issued_rows (hs : Issued i tenantId now d subject m seed) (a : Answer) {k : Nat}
    {r : RefreshToken} (h : (d.commit i a).table.committed k = some r) :
    (k = m ∧ r = newRow tenantId subject now seed (familyExpiryFor now) seed) ∨
    (k ≠ m ∧ d.table.committed k = some r) := by
  obtain ⟨_,_,hom,hother⟩ := hs
  have h' : d.table.visible i k = some r := h
  by_cases hm : k = m
  · subst hm
    rw [Table.visible_of_own _ _ _ hom] at h'
    exact .inl ⟨rfl,(Option.some.inj h').symm⟩
  · rw [Table.visible_of_no_own _ _ _ (hother k hm)] at h'
    exact .inr ⟨hm,h'⟩

private theorem issued_new (h : Chain d) (hs : Issued i tenantId now d subject m seed) {k : Nat}
    {r : RefreshToken} (hk : d.table.committed k = some r) : r.familyId ≠ seed := by
  obtain ⟨hm,_,hom,hother⟩ := hs
  rcases h.licensed i m _ hom hm with hfree | ⟨k₀,r₀,hk₀,_,_,hl⟩
  · exact hfree k r hk
  · have hne : k₀ ≠ m := by
      rintro rfl
      cases hk₀.symm.trans hm
    exact absurd (hother k₀ hne) hl

private theorem settled_origin_commit (hd : Sound d) (h : Chain d)
    (hs : Issued i tenantId now d subject m seed) :
    Settled (d.commit i (.signedIn tenantId subject now seed)) := by
  obtain ⟨hm,_,hom,_⟩ := id hs
  have hrot : ∀ hash, rotationsOf hash (d.answers ++ [.signedIn tenantId subject now seed]) =
      rotationsOf hash d.answers := by
    intro hash
    rw [rotationsOf_append]
    exact List.append_nil _
  constructor
  · intro k r hk
    simp only [Db.commit, hrot]
    rcases issued_rows hs _ hk with ⟨rfl,rfl⟩ | ⟨_,hold⟩
    · exact ⟨fun _ => unrotated hd h.toSettled hom hm,fun at' hat => (by cases hat)⟩
    · obtain ⟨h1,h2⟩ := h.successor k r hold
      refine ⟨h1,fun at' hat => ?_⟩
      obtain ⟨t,ht,hrow⟩ := h2 at' hat
      exact ⟨t,ht,successorRow_grows hd _ rfl hrow⟩
  · intro k k' r r' hk hk' hf hn hn'
    rcases issued_rows hs _ hk with ⟨rfl,rfl⟩ | ⟨_,hold⟩ <;>
      rcases issued_rows hs _ hk' with ⟨rfl,rfl⟩ | ⟨_,hold'⟩
    · rfl
    · exact absurd hf.symm (issued_new h hs hold')
    · exact absurd hf (issued_new h hs hold)
    · exact h.unspent k k' r r' hold hold' hf hn hn'
  · intro k r hk
    rcases issued_rows hs _ hk with ⟨rfl,rfl⟩ | ⟨_,hold⟩
    · exact ⟨subject,now,seed,List.mem_append_right _ (by simp [newRow]),by cases subject <;> rfl,rfl,
        k,_,hk,rfl,rfl⟩
    · exact origin_grows hd h.toSettled _ hold ⟨rfl,rfl,rfl,rfl⟩ rfl
  · intro tenantId' token' now' t ha
    rcases List.mem_append.mp ha with ha | ha
    · exact ceiling_grows hd h.toSettled _ ha
    · cases List.mem_singleton.mp ha

private theorem chain_origin_commit (hd : Sound d) (h : Chain d)
    (hs : Issued i tenantId now d subject m seed) :
    Chain (d.commit i (.signedIn tenantId subject now seed)) := by
  obtain ⟨hm,_,hom,_⟩ := id hs
  refine ⟨settled_origin_commit hd h hs,reserved_commit h ?_⟩
  intro j m' r' hji ho hm'
  rcases h.licensed j m' r' ho hm' with hfree | ⟨k₀,r₀,hk₀,hf₀,hn₀,hl⟩
  · refine .inl fun k s hk => ?_
    rcases issued_rows hs _ hk with ⟨_,rfl⟩ | ⟨_,hold⟩
    · intro hf
      have hmm := h.newborn i j m m' _ r' hom hm ho hm' hf
      subst hmm
      cases (Table.own_exclusive _ _ _ _ hom hji).symm.trans ho
    · exact hfree k s hold
  · obtain ⟨s,hs₀⟩ := Option.ne_none_iff_exists'.mp hl
    exact .inr ⟨k₀,r₀,(Table.visible_of_no_own _ _ _ (Table.own_exclusive _ _ _ _ hs₀ hji.symm)).trans hk₀,
      hf₀,hn₀,hl⟩

end SignIn

private theorem chain_outline : Outline Chain Timing.any where
  rollback _ h := chain_rollback h
  empty_commit _ h hu _ ha := chain_commit h ha fun k r' ho => (by cases (hu k).symm.trans ho)
  evict_snapshot _ h _ _ _ _ := ⟨⟨h.successor,h.unspent,h.origin,h.ceiling⟩,⟨h.licensed,h.newborn⟩⟩
  evict_write _ h hu _ _ _ hfree _ := chain_write h hu hfree
  evict_commit _ h he ha := by
    refine chain_commit h ha fun k r' ho => ?_
    obtain ⟨r,hr,rfl⟩ := he.1 k r' ho
    exact ⟨r,hr,rfl⟩
  spend_snapshot _ h _ _ _ _ := ⟨⟨h.successor,h.unspent,h.origin,h.ceiling⟩,⟨h.licensed,h.newborn⟩⟩
  spend_write _ h hu _ _ _ hfree _ := chain_write h hu hfree
  successor_insert _ h hs hother _ := chain_successor_insert h hs hother
  successor_commit hd h hs := chain_successor_commit hd h hs
  origin_insert hd h _ := chain_origin_insert hd h
  origin_commit hd h hs := chain_origin_commit hd h hs

private theorem chain_empty : Chain Db.empty := by
  refine ⟨⟨?_,?_,?_,?_⟩,?_,?_⟩
  · exact fun _ _ h => (by cases h)
  · exact fun _ _ _ _ h => (by cases h)
  · exact fun _ _ h => (by cases h)
  · exact fun _ _ _ _ h => (by cases h)
  · exact fun _ _ _ h => (by cases h)
  · exact fun _ _ _ _ _ _ h => (by cases h)

/-- Every family is a linear chain in every ledger that sign-ins, refreshes and sign-outs can
reach, interleaved statement by statement and rolled back at any point. -/
theorem linearChain_of_run {P : Type} {acts : List (Action Nat (Request P))} {s : LedgerSystem}
    (hr : Run (step updates transaction) Always System.initial acts s) : LinearChain s.db := by
  have hadmits : ∀ (t : LedgerSystem) (a : Action Nat (Request P)), Always t a → Timing.any.Admits t a := by
    rintro t (⟨i,req⟩ | i | i) _
    · trivial
    · exact fun _ _ _ => ⟨fun _ => trivial,fun _ => trivial⟩
    · trivial
  obtain ⟨hd,h⟩ := chain_outline.holds chain_empty (hr.mono hadmits)
  exact ⟨h.toSettled,fun k k' r r' hk hk' => hd.1.unique k k' r r' (.inl hk) (.inl hk'),
    fun k k' r r' hk hk' => hd.1.coherent k k' r r' (.inl hk) (.inl hk')⟩

def racingRefreshes : List (Action Nat (Request Unit)) :=
  [.begin 0 (.signIn 7 (.user 1) 0), .advance 0, .advance 0,
   .begin 1 (.refresh 7 0 1000 .user fun _ => some ()), .begin 2 (.refresh 7 0 2000 .user fun _ => some ()),
   .advance 1, .advance 2, .advance 1, .advance 2, .advance 1, .advance 1, .advance 1, .advance 1,
   .advance 2, .advance 2]

/-- Only one of the two gets a successor, and the chain stays linear. -/
theorem linearChain_of_racingRefreshes :
    ∃ s, Run (step updates transaction) Always System.initial racingRefreshes s ∧ LinearChain s.db ∧
      s.db.answers = [.signedIn 7 (.user 1) 0 0, .refreshed 7 0 1000 (some 1), .refreshed 7 0 2000 none] := by
  have hrun : ∃ s, exec (step updates transaction) Always System.initial racingRefreshes = some s ∧
      s.db.answers = [.signedIn 7 (.user 1) 0 0, .refreshed 7 0 1000 (some 1), .refreshed 7 0 2000 none] :=
    ⟨_,rfl,by decide⟩
  obtain ⟨s,hs,ha⟩ := hrun
  exact ⟨s,Run.of_exec hs,linearChain_of_run (Run.of_exec hs),ha⟩

end Nivara.Auth
