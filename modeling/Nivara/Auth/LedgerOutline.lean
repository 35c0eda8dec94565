import Nivara.Auth.RefreshToken

/-! Proof outlines of the ledger's transactions: what each of them holds at every point
between two statements, against any interleaving of the others. -/
namespace Nivara.Auth
open Transactions

def RefreshToken.fixed (r : RefreshToken) : RefreshToken := { r with rotatedAt := none, revokedAt := none }

/-- How a row may change: its two marks are set at most once, and nothing else moves. -/
structure Evolves (r r' : RefreshToken) : Prop where
  fixed : r'.fixed = r.fixed
  rotated : r.rotatedAt ≠ none → r'.rotatedAt = r.rotatedAt
  revoked : r.revokedAt ≠ none → r'.revokedAt = r.revokedAt

namespace Evolves

theorem refl (r : RefreshToken) : Evolves r r := ⟨rfl,fun _ => rfl,fun _ => rfl⟩

theorem trans (r s t : RefreshToken) (h : Evolves r s) (h' : Evolves s t) : Evolves r t := by
  refine ⟨h'.fixed.trans h.fixed,?_,?_⟩
  · intro hr
    rw [h'.rotated (by rwa [h.rotated hr]), h.rotated hr]
  · intro hr
    rw [h'.revoked (by rwa [h.revoked hr]), h.revoked hr]

variable {r r' : RefreshToken} (h : Evolves r r')
include h

theorem tenantId : r'.tenantId = r.tenantId := congrArg (·.tenantId) h.fixed
theorem tokenHash : r'.tokenHash = r.tokenHash := congrArg (·.tokenHash) h.fixed
theorem familyId : r'.familyId = r.familyId := congrArg (·.familyId) h.fixed
theorem familyExpiresAt : r'.familyExpiresAt = r.familyExpiresAt := congrArg (·.familyExpiresAt) h.fixed

end Evolves

theorem apply_fixed (u : Update) (r : RefreshToken) : (updates.apply u r).fixed = r.fixed := by
  cases u <;> rfl

/-- Both `UPDATE` statements set a mark that their `WHERE` clause found unset. -/
theorem apply_evolves (u : Update) (r : RefreshToken) (h : updates.targets u r = true) :
    Evolves r (updates.apply u r) := by
  refine ⟨apply_fixed u r,?_,?_⟩ <;> intro hr <;> cases u <;> simp_all [updates]

def SameSession (r r' : RefreshToken) : Prop :=
  r.tenantId = r'.tenantId ∧ r.userId = r'.userId ∧ r.contactId = r'.contactId ∧
    r.familyExpiresAt = r'.familyExpiresAt

/-- Names are unique and families coherent, over committed and uncommitted versions alike. -/
structure Idents (d : Ledger) : Prop where
  token_drawn : ∀ k r, d.table.Version k r → ∃ t < d.supply, r.tokenHash = hashToken t
  family_drawn : ∀ k r, d.table.Version k r → r.familyId < d.supply
  unique : ∀ k k' r r', d.table.Version k r → d.table.Version k' r' → r.tokenHash = r'.tokenHash → k = k'
  arc : ∀ k r, d.table.Version k r → ∃ subject, (r.userId, r.contactId) = columnsFor subject
  coherent : ∀ k k' r r', d.table.Version k r → d.table.Version k' r' → r.familyId = r'.familyId →
    SameSession r r'

namespace Idents
variable {d d' : Ledger} {i : Nat}

/-- No new names: enough that every version has the fixed columns of an earlier one in its place. -/
private theorem mono (h : Idents d) (hs : d.supply ≤ d'.supply)
    (hv : ∀ k r, d'.table.Version k r → ∃ s, d.table.Version k s ∧ s.fixed = r.fixed) : Idents d' := by
  constructor
  · intro k r hr
    obtain ⟨s,hs',he⟩ := hv k r hr
    obtain ⟨t,ht,hh⟩ := h.token_drawn k s hs'
    exact ⟨t,by omega,(congrArg (·.tokenHash) he).symm.trans hh⟩
  · intro k r hr
    obtain ⟨s,hs',he⟩ := hv k r hr
    have hf : s.familyId = r.familyId := congrArg (·.familyId) he
    exact hf ▸ Nat.lt_of_lt_of_le (h.family_drawn k s hs') hs
  · intro k k' r r' hr hr' hh
    obtain ⟨s,hs',he⟩ := hv k r hr
    obtain ⟨s',hs'',he'⟩ := hv k' r' hr'
    exact h.unique k k' s s' hs' hs''
      ((congrArg (·.tokenHash) he).trans (hh.trans (congrArg (·.tokenHash) he').symm))
  · intro k r hr
    obtain ⟨s,hs',he⟩ := hv k r hr
    obtain ⟨subject,hsub⟩ := h.arc k s hs'
    exact ⟨subject,(congrArg (fun x => (x.userId, x.contactId)) he).symm.trans hsub⟩
  · intro k k' r r' hr hr' hh
    obtain ⟨s,hs',he⟩ := hv k r hr
    obtain ⟨s',hs'',he'⟩ := hv k' r' hr'
    obtain ⟨h1,h2,h3,h4⟩ := h.coherent k k' s s' hs' hs''
      ((congrArg (·.familyId) he).trans (hh.trans (congrArg (·.familyId) he').symm))
    exact ⟨(congrArg (·.tenantId) he).symm.trans (h1.trans (congrArg (·.tenantId) he')),
      (congrArg (·.userId) he).symm.trans (h2.trans (congrArg (·.userId) he')),
      (congrArg (·.contactId) he).symm.trans (h3.trans (congrArg (·.contactId) he')),
      (congrArg (·.familyExpiresAt) he).symm.trans (h4.trans (congrArg (·.familyExpiresAt) he'))⟩

theorem empty : Idents Db.empty := by
  have hv : ∀ k r, ¬ (Db.empty : Ledger).table.Version k r := by
    rintro k r (h | ⟨j,h⟩) <;> cases h
  constructor
  · exact fun k r h => absurd h (hv k r)
  · exact fun k r h => absurd h (hv k r)
  · exact fun k k' r r' h => absurd h (hv k r)
  · exact fun k r h => absurd h (hv k r)
  · exact fun k k' r r' h => absurd h (hv k r)

theorem snapshot (h : Idents d) (u : Update) : Idents (d.snapshot updates i u) :=
  h.mono (Nat.le_refl _) fun _ r hr => ⟨r,hr,rfl⟩

theorem write (h : Idents d) {u : Update} {ks : List Nat} (hf : d.table.free i ks = true) :
    Idents (d.write updates i u ks) := by
  refine h.mono (Nat.le_refl _) fun k r hr => ?_
  rcases Table.Version.of_write hf hr with hr | ⟨s,hs,_,rfl⟩
  · exact ⟨r,hr,rfl⟩
  · exact ⟨s,hs,(apply_fixed u s).symm⟩

theorem commit (h : Idents d) (a : Answer) : Idents (d.commit i a) :=
  h.mono (Nat.le_refl _) fun _ r hr => ⟨r,hr.of_commit,rfl⟩

theorem rollback (h : Idents d) : Idents (d.rollback i) :=
  h.mono (Nat.le_refl _) fun _ r hr => ⟨r,hr.of_rollback,rfl⟩

/-- A new row keeps the names unique when it carries the seed, and keeps families coherent
when it begins its own or copies the session columns of a row of the family. -/
theorem insert (h : Idents d) {row : Nat → RefreshToken} (subject : SessionSubject)
    (htoken : ∀ n, (row n).tokenHash = hashToken n)
    (harc : ((row d.supply).userId, (row d.supply).contactId) = columnsFor subject)
    (hfamily : (row d.supply).familyId = d.supply ∨
      ∃ k r, d.table.Version k r ∧ (row d.supply).familyId = r.familyId ∧ SameSession (row d.supply) r) :
    Idents (d.insert i row) := by
  -- a version of the family that is not the new row: then the row copied one, and they agree
  have hsame : ∀ k r, d.table.Version k r → (row d.supply).familyId = r.familyId →
      SameSession (row d.supply) r := by
    intro k r hr hf
    rcases hfamily with hnew | ⟨k',r',hr',hf',h1,h2,h3,h4⟩
    · exact absurd (hnew.symm.trans hf) (Nat.ne_of_gt (h.family_drawn k r hr))
    · obtain ⟨g1,g2,g3,g4⟩ := h.coherent k' k r' r hr' hr (hf'.symm.trans hf)
      exact ⟨h1.trans g1,h2.trans g2,h3.trans g3,h4.trans g4⟩
  have hnot : ∀ k r, d.table.Version k r → r.tokenHash ≠ hashToken d.supply := by
    intro k r hr he
    obtain ⟨t,ht,hh⟩ := h.token_drawn k r hr
    cases hh.symm.trans he
    omega
  constructor
  · intro k r hr
    rcases hr.of_insert with ⟨_,rfl⟩ | hr
    · exact ⟨d.supply,Nat.lt_succ_self _,htoken _⟩
    · obtain ⟨t,ht,hh⟩ := h.token_drawn k r hr
      exact ⟨t,Nat.lt_succ_of_lt ht,hh⟩
  · intro k r hr
    rcases hr.of_insert with ⟨_,rfl⟩ | hr
    · rcases hfamily with hnew | ⟨k',r',hr',hf',_⟩
      · exact Nat.lt_succ_of_le (Nat.le_of_eq hnew)
      · exact hf' ▸ Nat.lt_succ_of_lt (h.family_drawn k' r' hr')
    · exact Nat.lt_succ_of_lt (h.family_drawn k r hr)
  · intro k k' r r' hr hr' hh
    rcases hr.of_insert with ⟨rfl,rfl⟩ | hr <;> rcases hr'.of_insert with ⟨rfl,rfl⟩ | hr'
    · rfl
    · exact absurd (hh.symm.trans (htoken _)) (hnot k' r' hr')
    · exact absurd (hh.trans (htoken _)) (hnot k r hr)
    · exact h.unique k k' r r' hr hr' hh
  · intro k r hr
    rcases hr.of_insert with ⟨_,rfl⟩ | hr
    · exact ⟨subject,harc⟩
    · exact h.arc k r hr
  · intro k k' r r' hr hr' hh
    rcases hr.of_insert with ⟨rfl,rfl⟩ | hr <;> rcases hr'.of_insert with ⟨rfl,rfl⟩ | hr'
    · exact ⟨rfl,rfl,rfl,rfl⟩
    · exact hsame k' r' hr' hh
    · obtain ⟨h1,h2,h3,h4⟩ := hsame k r hr hh.symm
      exact ⟨h1.symm,h2.symm,h3.symm,h4.symm⟩
    · exact h.coherent k k' r r' hr hr' hh

end Idents

/-- The part of every ledger invariant that does not depend on the property at hand. -/
def Sound (d : Ledger) : Prop := Idents d ∧ Ordered Evolves d

section Assertions
variable (i : Nat) (tenantId : Uuid) (token : Token) (familyId : Uuid) (now : Int) (d : Ledger)

def Untouched : Prop := ∀ k, d.table.own i k = none

def Quiet : Prop := Untouched i d ∧ d.applied i = []

def Presented : Prop :=
  ∃ k r, d.table.committed k = some r ∧ r.tenantId = tenantId ∧ r.tokenHash = hashToken token ∧
    now < r.familyExpiresAt

def FamilyKnown : Prop :=
  ∃ k r, d.table.committed k = some r ∧ r.tenantId = tenantId ∧ r.familyId = familyId

def Evicted : Prop :=
  (∀ k r', d.table.own i k = some r' → ∃ r, d.table.committed k = some r ∧ r' = { r with revokedAt := some now }) ∧
    d.applied i = [.revokeFamily tenantId familyId now] ∧ FamilyKnown tenantId familyId d

def Spent (k : Nat) (r : RefreshToken) : Prop :=
  d.table.committed k = some r ∧ d.table.own i k = some { r with rotatedAt := some now } ∧
    r.rotatedAt = none ∧ r.tenantId = tenantId ∧ r.tokenHash = hashToken token ∧
    now < r.familyExpiresAt ∧ d.applied i = [.spend tenantId (hashToken token) now]

def Succeeded (k : Nat) (r : RefreshToken) (subject : SessionSubject) (m : Nat) (seed : Token) : Prop :=
  Spent i tenantId token now d k r ∧ (r.userId, r.contactId) = columnsFor subject ∧
    d.table.committed m = none ∧
    d.table.own i m = some (newRow r.tenantId subject now r.familyId r.familyExpiresAt seed) ∧
    ∀ k', k' ≠ k → k' ≠ m → d.table.own i k' = none

def Issued (subject : SessionSubject) (m : Nat) (seed : Token) : Prop :=
  d.table.committed m = none ∧ d.applied i = [] ∧
    d.table.own i m = some (newRow tenantId subject now seed (familyExpiryFor now) seed) ∧
    ∀ k', k' ≠ m → d.table.own i k' = none

end Assertions

def Answer.Empty (a : Answer) : Prop :=
  a = .signedOut ∨ ∃ tenantId token now, a = .refreshed tenantId token now none

/-- What a property `X` of the ledger needs from each statement of the three transactions,
under the timing `T`. The assertions are those that hold where the statement stands. -/
structure Outline (X : Ledger → Prop) (T : Timing Nat Update RefreshToken Answer) : Prop where
  rollback : ∀ {d i}, Sound d → X d → X (d.rollback i)
  empty_commit : ∀ {d i a}, Sound d → X d → Untouched i d →
    (∀ u ∈ d.applied i, ∃ tenantId tokenHash now, u = .spend tenantId tokenHash now) →
    a.Empty → X (d.commit i a)
  evict_snapshot : ∀ {d i tenantId familyId now}, Sound d → X d → Untouched i d → d.applied i = [] →
    FamilyKnown tenantId familyId d → T.snapshot d i (.revokeFamily tenantId familyId now) →
    X (d.snapshot updates i (.revokeFamily tenantId familyId now))
  evict_write : ∀ {d i tenantId familyId now ks}, Sound d → X d → Untouched i d → d.applied i = [] →
    FamilyKnown tenantId familyId d → d.waiting i = some (.revokeFamily tenantId familyId now, ks) →
    d.table.free i ks = true → T.write d i (.revokeFamily tenantId familyId now) →
    X (d.write updates i (.revokeFamily tenantId familyId now) ks)
  evict_commit : ∀ {d i tenantId familyId now a}, Sound d → X d → Evicted i tenantId familyId now d →
    a.Empty → X (d.commit i a)
  spend_snapshot : ∀ {d i tenantId token now}, Sound d → X d → Untouched i d → d.applied i = [] →
    Presented tenantId token now d → T.snapshot d i (.spend tenantId (hashToken token) now) →
    X (d.snapshot updates i (.spend tenantId (hashToken token) now))
  spend_write : ∀ {d i tenantId token now ks}, Sound d → X d → Untouched i d → d.applied i = [] →
    Presented tenantId token now d → d.waiting i = some (.spend tenantId (hashToken token) now, ks) →
    d.table.free i ks = true → T.write d i (.spend tenantId (hashToken token) now) →
    X (d.write updates i (.spend tenantId (hashToken token) now) ks)
  successor_insert : ∀ {d i tenantId token now k r subject}, Sound d → X d →
    Spent i tenantId token now d k r → (∀ k', k' ≠ k → d.table.own i k' = none) →
    (r.userId, r.contactId) = columnsFor subject →
    X (d.insert i (newRow r.tenantId subject now r.familyId r.familyExpiresAt))
  successor_commit : ∀ {d i tenantId token now k r subject m seed}, Sound d → X d →
    Succeeded i tenantId token now d k r subject m seed →
    X (d.commit i (.refreshed tenantId token now (some seed)))
  origin_insert : ∀ {d i tenantId subject now}, Sound d → X d → d.Idle i →
    X (d.insert i fun seed => newRow tenantId subject now seed (familyExpiryFor now) seed)
  origin_commit : ∀ {d i tenantId subject now m seed}, Sound d → X d →
    Issued i tenantId now d subject m seed → X (d.commit i (.signedIn tenantId subject now seed))

def Outline.discipline {X : Ledger → Prop} {T : Timing Nat Update RefreshToken Answer}
    (hX : Outline X T) : Discipline Nat Answer updates where
  le := Evolves
  refl := Evolves.refl
  trans := Evolves.trans
  apply_le := apply_evolves
  inv d := Idents d ∧ X d
  timing := T
  inv_rollback _ _ h hord := ⟨h.1.rollback,hX.rollback ⟨h.1,hord⟩ h.2⟩

namespace Outline
variable {X : Ledger → Prop} {T : Timing Nat Update RefreshToken Answer} (hX : Outline X T)
  {i : Nat} {tenantId : Uuid} {token : Token} {familyId : Uuid} {now : Int} {d : Ledger}

private theorem good_sound (h : hX.discipline.Good d) : Sound d := ⟨h.1.1,h.2⟩

private theorem stable_quiet : hX.discipline.Stable i (Quiet i) := by
  rintro d d' _ _ hr ⟨h,ha⟩
  exact ⟨fun k => (hr.own k).trans (h k),hr.applied.trans ha⟩

private theorem stable_missed {u : Update} :
    hX.discipline.Stable i fun d => Untouched i d ∧ d.applied i = [u] := by
  rintro d d' _ _ hr ⟨h,ha⟩
  exact ⟨fun k => (hr.own k).trans (h k),hr.applied.trans ha⟩

private theorem stable_presented : hX.discipline.Stable i (Presented tenantId token now) := by
  rintro d d' _ _ hr ⟨k,r,hk,ht,hh,hn⟩
  obtain ⟨r',hk',he⟩ := hr.grows k r hk
  exact ⟨k,r',hk',he.tenantId.trans ht,he.tokenHash.trans hh,he.familyExpiresAt ▸ hn⟩

private theorem stable_familyKnown : hX.discipline.Stable i (FamilyKnown tenantId familyId) := by
  rintro d d' _ _ hr ⟨k,r,hk,ht,hf⟩
  obtain ⟨r',hk',he⟩ := hr.grows k r hk
  exact ⟨k,r',hk',he.tenantId.trans ht,he.familyId.trans hf⟩

private theorem stable_evicted : hX.discipline.Stable i (Evicted i tenantId familyId now) := by
  rintro d d' hd hd' hr ⟨h,ha,hf⟩
  refine ⟨?_,hr.applied.trans ha,hX.stable_familyKnown d d' hd hd' hr hf⟩
  intro k r' hk
  rw [hr.own] at hk
  rw [hr.locked k r' hk]
  exact h k r' hk

private theorem stable_spent {k : Nat} {r : RefreshToken} : hX.discipline.Stable i fun d =>
    Spent i tenantId token now d k r ∧ ∀ k', k' ≠ k → d.table.own i k' = none := by
  rintro d d' _ _ hr ⟨⟨hk,ho,hrot,ht,hh,hn,ha⟩,h⟩
  exact ⟨⟨(hr.locked k _ ho).trans hk,(hr.own k).trans ho,hrot,ht,hh,hn,hr.applied.trans ha⟩,
    fun k' hk' => (hr.own k').trans (h k' hk')⟩

private theorem stable_succeeded {k m : Nat} {r : RefreshToken} {subject : SessionSubject} {seed : Token} :
    hX.discipline.Stable i fun d => Succeeded i tenantId token now d k r subject m seed := by
  rintro d d' _ _ hr ⟨⟨hk,ho,hrot,ht,hh,hn,ha⟩,hs,hm,hom,h⟩
  exact ⟨⟨(hr.locked k _ ho).trans hk,(hr.own k).trans ho,hrot,ht,hh,hn,hr.applied.trans ha⟩,hs,
    (hr.locked m _ hom).trans hm,(hr.own m).trans hom,
    fun k' hk' hkm => (hr.own k').trans (h k' hk' hkm)⟩

private theorem stable_issued {m : Nat} {subject : SessionSubject} {seed : Token} :
    hX.discipline.Stable i fun d => Issued i tenantId now d subject m seed := by
  rintro d d' _ _ hr ⟨hm,ha,hom,h⟩
  exact ⟨(hr.locked m _ hom).trans hm,hr.applied.trans ha,(hr.own m).trans hom,
    fun k' hk' => (hr.own k').trans (h k' hk')⟩

/-- A transaction that has written nothing and has nothing more to say. -/
private theorem safe_done {a : Answer} (ha : a.Empty) : hX.discipline.Safe i (.done a) (Quiet i) := by
  rintro d hd ⟨hu,happ⟩
  exact ⟨hd.1.1.commit a,hX.empty_commit (hX.good_sound hd) hd.1.2 hu (by simp [happ]) ha⟩

private theorem safe_revokeFamily {a : Answer} (ha : a.Empty) :
    hX.discipline.Safe i (.update (.revokeFamily tenantId familyId now) fun _ => .done a)
      fun d => Quiet i d ∧ FamilyKnown tenantId familyId d := by
  refine ⟨fun d => Quiet i d ∧ FamilyKnown tenantId familyId d,
    hX.discipline.stable_and hX.stable_quiet hX.stable_familyKnown,?_,?_⟩
  · rintro d hd ⟨⟨hu,happ⟩,hf⟩ ht
    exact ⟨⟨hd.1.1.snapshot _,hX.evict_snapshot (hX.good_sound hd) hd.1.2 hu happ hf ht⟩,⟨hu,happ⟩,hf⟩
  · rintro d ks hd ⟨⟨hu,happ⟩,hf⟩ hw hfree ht
    refine ⟨⟨hd.1.1.write hfree,hX.evict_write (hX.good_sound hd) hd.1.2 hu happ hf hw hfree ht⟩,
      Evicted i tenantId familyId now,hX.stable_evicted,⟨?_,by simp [Db.write, happ],hf⟩,?_⟩
    · intro k r' hk
      rcases Table.own_write_cases _ _ _ hk with ⟨r,_,hr,_,rfl⟩ | hk
      · rw [Table.visible_of_no_own _ _ _ (hu k)] at hr
        exact ⟨r,hr,rfl⟩
      · rw [hu k] at hk
        cases hk
    · intro d hd he
      exact ⟨hd.1.1.commit a,hX.evict_commit (hX.good_sound hd) hd.1.2 he ha⟩

/-- The statement that spends a presented token writes one row, or none. -/
private theorem spend_written {ks : List Nat} (hd : Sound d) (hq : Quiet i d)
    (hp : Presented tenantId token now d)
    (hn : d.table.written i ks (updates.targets (.spend tenantId (hashToken token) now)) ≠ 0) :
    ∃ k r, Spent i tenantId token now (d.write updates i (.spend tenantId (hashToken token) now) ks) k r ∧
      ∀ k', k' ≠ k → (d.write updates i (.spend tenantId (hashToken token) now) ks).table.own i k' = none := by
  obtain ⟨k,hk,hv⟩ := List.countP_pos_iff.mp (Nat.pos_of_ne_zero hn)
  obtain ⟨r,hr,htgt⟩ := (Option.any_eq_true ..).mp hv
  have hrc : d.table.committed k = some r := (Table.visible_of_no_own _ _ _ (hq.1 k)).symm.trans hr
  obtain ⟨ht,hh,hrot⟩ : r.tenantId = tenantId ∧ r.tokenHash = hashToken token ∧ r.rotatedAt = none := by
    simpa [updates] using htgt
  -- the presented row is this one: hashes are unique
  obtain ⟨k₀,r₀,hk₀,_,hh₀,hn₀⟩ := hp
  have hkk : k₀ = k := hd.1.unique k₀ k r₀ r (.inl hk₀) (.inl hrc) (hh₀.trans hh.symm)
  subst hkk
  cases hk₀.symm.trans hrc
  refine ⟨k₀,r,⟨hrc,Table.own_write_picked _ _ _ hk hr htgt,hrot,ht,hh,hn₀,by simp [Db.write, hq.2]⟩,?_⟩
  intro k' hk'
  cases ho : (d.write updates i (.spend tenantId (hashToken token) now) ks).table.own i k' with
  | none => rfl
  | some s =>
    rcases Table.own_write_cases _ _ _ ho with ⟨s',_,hs',hts',_⟩ | ho
    · have hsh : s'.tokenHash = hashToken token := by
        have : s'.tenantId = tenantId ∧ s'.tokenHash = hashToken token ∧ s'.rotatedAt = none := by
          simpa [updates] using hts'
        exact this.2.1
      exact absurd (hd.1.unique k' k₀ s' r (.of_visible hs') (.inl hrc) (hsh.trans hh.symm)) hk'
    · rw [hq.1 k'] at ho
      cases ho

private theorem spend_missed {u : Update} {ks : List Nat} (hq : Quiet i d)
    (hn : d.table.written i ks (updates.targets u) = 0) : Untouched i (d.write updates i u ks) := by
  intro k
  cases ho : (d.write updates i u ks).table.own i k with
  | none => rfl
  | some s =>
    rcases Table.own_write_cases _ _ _ ho with ⟨s',hk,hs',hts',_⟩ | ho
    · have := List.countP_eq_zero.mp hn k hk
      simp [hs', hts'] at this
    · rw [hq.1 k] at ho
      cases ho

private theorem spent_find {k : Nat} {r : RefreshToken} (hd : Sound d)
    (hs : Spent i tenantId token now d k r) :
    d.table.find i (byHash tenantId token) = some { r with rotatedAt := some now } := by
  obtain ⟨_,ho,_,ht,hh,_,_⟩ := hs
  have hv := Table.visible_of_own _ _ _ ho
  cases hf : d.table.find i (byHash tenantId token) with
  | none =>
    have := Table.find_none _ _ _ hf hv
    simp [byHash, ht, hh] at this
  | some p =>
    obtain ⟨k',hk',hp⟩ := Table.find_some _ _ hf
    have hph : p.tenantId = tenantId ∧ p.tokenHash = hashToken token := by simpa [byHash] using hp
    have hkk : k' = k := hd.1.unique k' k p _ (.of_visible hk') (.of_visible hv) (hph.2.trans hh.symm)
    subst hkk
    exact hk'.symm.trans hv

/-- A row of the ledger has a subject, so `subjectOf` never answers `null`. -/
private theorem subjectOf_of_arc {r : RefreshToken} {subject : SessionSubject}
    (h : (r.userId, r.contactId) = columnsFor subject) : subjectOf r = some subject := by
  cases subject <;> simp [columnsFor] at h <;> simp [subjectOf, h]

private theorem succeeded_insert {k : Nat} {r : RefreshToken} {subject : SessionSubject}
    (hs : Spent i tenantId token now d k r) (hother : ∀ k', k' ≠ k → d.table.own i k' = none)
    (harc : (r.userId, r.contactId) = columnsFor subject) :
    Succeeded i tenantId token now
      (d.insert i (newRow r.tenantId subject now r.familyId r.familyExpiresAt)) k r subject d.table.size d.supply := by
  obtain ⟨hc,ho,hrest⟩ := hs
  have hk : k ≠ d.table.size := Nat.ne_of_lt (Table.lt_size_of_committed _ _ hc)
  refine ⟨⟨hc,?_,hrest⟩,harc,d.table.committed_fresh _ (Nat.le_refl _),Table.own_insert_self _ _ _,?_⟩
  · simpa [Db.insert, Table.own_insert, hk] using ho
  · intro k' hk' hm
    simpa [Db.insert, Table.own_insert, hm] using hother k' hk'

/-- `rotate`, called last in its transaction; the rest is what the callers make of its answer. -/
private theorem safe_rotate {P : Type} (principal : P) :
    hX.discipline.Safe i
      (((rotate tenantId token now).bind fun rotated =>
        match rotated with
        | none => .done none
        | some refreshToken => .done (some (principal, refreshToken))).bind
        fun session => .done (.refreshed tenantId token now (session.map Prod.snd)))
      fun d => Quiet i d ∧ Presented tenantId token now d := by
  have hempty : Answer.Empty (.refreshed tenantId token now none) := .inr ⟨_,_,_,rfl⟩
  refine ⟨fun d => Quiet i d ∧ Presented tenantId token now d,
    hX.discipline.stable_and hX.stable_quiet hX.stable_presented,?_,?_⟩
  · rintro d hd ⟨⟨hu,happ⟩,hp⟩ ht
    exact ⟨⟨hd.1.1.snapshot _,hX.spend_snapshot (hX.good_sound hd) hd.1.2 hu happ hp ht⟩,⟨hu,happ⟩,hp⟩
  · rintro d ks hd ⟨hq,hp⟩ hw hfree ht
    have hinv := hX.spend_write (hX.good_sound hd) hd.1.2 hq.1 hq.2 hp hw hfree ht
    refine ⟨⟨hd.1.1.write hfree,hinv⟩,?_⟩
    cases hn : d.table.written i ks (updates.targets (.spend tenantId (hashToken token) now)) with
    | zero =>
      -- the race is lost: no row was written, and the answer is empty
      refine ⟨fun d => Untouched i d ∧ d.applied i = [.spend tenantId (hashToken token) now],
        hX.stable_missed,⟨spend_missed hq hn,by simp [Db.write, hq.2]⟩,?_⟩
      rintro d hd ⟨hu,happ⟩
      exact ⟨hd.1.1.commit _,hX.empty_commit (hX.good_sound hd) hd.1.2 hu (by simp [happ]) hempty⟩
    | succ n =>
      have hne : d.table.written i ks (updates.targets (.spend tenantId (hashToken token) now)) ≠ 0 := by
        rw [hn]
        exact Nat.succ_ne_zero n
      obtain ⟨k,r,hs,hother⟩ := spend_written (hX.good_sound hd) hq hp hne
      refine ⟨_,hX.stable_spent,⟨hs,hother⟩,?_⟩
      rintro d hd ⟨hs,hother⟩
      rw [spent_find (hX.good_sound hd) hs]
      obtain ⟨subject,harc⟩ := hd.1.1.arc k r (.inl hs.1)
      have hsub : subjectOf { r with rotatedAt := some now } = some subject := subjectOf_of_arc harc
      refine ⟨_,hX.stable_spent,⟨hs,hother⟩,?_⟩
      simp only [Prog.bind, hsub]
      rintro d hd ⟨hs,hother⟩
      refine ⟨⟨?_,hX.successor_insert (hX.good_sound hd) hd.1.2 hs hother harc⟩,
        fun d' => Succeeded i tenantId token now d' k r subject d.table.size d.supply,
        hX.stable_succeeded,?_,?_⟩
      · exact hd.1.1.insert subject (fun _ => rfl) (by cases subject <;> rfl)
          (.inr ⟨k,r,.inl hs.1,rfl,rfl,congrArg Prod.fst harc.symm,congrArg Prod.snd harc.symm,rfl⟩)
      · exact succeeded_insert hs hother harc
      · intro d hd hs
        exact ⟨hd.1.1.commit _,hX.successor_commit (hX.good_sound hd) hd.1.2 hs⟩

/-- What a transaction that has written nothing yet finds: a committed row, with its subject. -/
private theorem find_committed (hd : Sound d) (hq : Quiet i d) {row : RefreshToken}
    (hf : d.table.find i (byHash tenantId token) = some row) :
    ∃ k subject, d.table.committed k = some row ∧ row.tenantId = tenantId ∧
      row.tokenHash = hashToken token ∧ subjectOf row = some subject := by
  obtain ⟨k,hk,hp⟩ := Table.find_some _ _ hf
  rw [Table.visible_of_no_own _ _ _ (hq.1 k)] at hk
  obtain ⟨ht,hh⟩ : row.tenantId = tenantId ∧ row.tokenHash = hashToken token := by simpa [byHash] using hp
  obtain ⟨subject,harc⟩ := hd.1.arc k row (.inl hk)
  exact ⟨k,subject,hk,ht,hh,subjectOf_of_arc harc⟩

/-- The outline of a refresh: classify, then evict, refuse or rotate. -/
private theorem safe_refresh {P : Type} (expect : SubjectKind) (resolve : Uuid → Option P) :
    hX.discipline.Safe i (transaction (.refresh tenantId token now expect resolve)) (Db.Idle i) := by
  have hempty : Answer.Empty (.refreshed tenantId token now none) := .inr ⟨_,_,_,rfl⟩
  rintro d hd ⟨hu,_,happ⟩
  have hq : Quiet i d := ⟨hu,happ⟩
  cases hrow : d.table.find i (byHash tenantId token) with
  | none => exact ⟨Quiet i,hX.stable_quiet,hq,hX.safe_done hempty⟩
  | some row =>
    obtain ⟨k,subject,hk,ht,hh,hsub⟩ := find_committed (hX.good_sound hd) hq hrow
    by_cases hkind : subject.kind = expect
    · cases hv : classifyPresentedToken row.toPresentedToken now with
      | replay =>
        refine ⟨fun d => Quiet i d ∧ FamilyKnown tenantId row.familyId d,
          hX.discipline.stable_and hX.stable_quiet hX.stable_familyKnown,⟨hq,k,row,hk,ht,rfl⟩,?_⟩
        simpa [hsub, hkind, hv, revokeFamily, Prog.updateMany] using hX.safe_revokeFamily hempty
      | reject reason =>
        refine ⟨Quiet i,hX.stable_quiet,hq,?_⟩
        simpa [hsub, hkind, hv] using hX.safe_done hempty
      | rotate =>
        cases hres : resolve subject.id with
        | none =>
          refine ⟨Quiet i,hX.stable_quiet,hq,?_⟩
          simpa [hsub, hkind, hv, hres] using hX.safe_done hempty
        | some principal =>
          have hnow := (classify_rotate_iff.mp hv).2.2.1
          refine ⟨fun d => Quiet i d ∧ Presented tenantId token now d,
            hX.discipline.stable_and hX.stable_quiet hX.stable_presented,⟨hq,k,row,hk,ht,hh,hnow⟩,?_⟩
          simp only [Prog.bind_def, Prog.pure_def, Prog.done_bind, hsub, hkind, hv, hres, ne_eq,
            not_true_eq_false, if_false]
          exact hX.safe_rotate principal
    · refine ⟨Quiet i,hX.stable_quiet,hq,?_⟩
      simpa [hsub, hkind] using hX.safe_done hempty

private theorem safe_signOut {P : Type} :
    hX.discipline.Safe i (transaction (.signOut tenantId token now : Request P)) (Db.Idle i) := by
  have hempty : Answer.Empty .signedOut := .inl rfl
  rintro d hd ⟨hu,_,happ⟩
  have hq : Quiet i d := ⟨hu,happ⟩
  cases hrow : d.table.find i (byHash tenantId token) with
  | none => exact ⟨Quiet i,hX.stable_quiet,hq,hX.safe_done hempty⟩
  | some row =>
    obtain ⟨k,subject,hk,ht,hh,hsub⟩ := find_committed (hX.good_sound hd) hq hrow
    refine ⟨fun d => Quiet i d ∧ FamilyKnown tenantId row.familyId d,
      hX.discipline.stable_and hX.stable_quiet hX.stable_familyKnown,⟨hq,k,row,hk,ht,rfl⟩,?_⟩
    simpa [hsub, revokeFamily, Prog.updateMany] using hX.safe_revokeFamily hempty

private theorem safe_signIn {P : Type} {subject : SessionSubject} :
    hX.discipline.Safe i (transaction (.signIn tenantId subject now : Request P)) (Db.Idle i) := by
  rintro d hd hidle
  refine ⟨⟨?_,hX.origin_insert (hX.good_sound hd) hd.1.2 hidle⟩,
    fun d' => Issued i tenantId now d' subject d.table.size d.supply,hX.stable_issued,?_,?_⟩
  · exact hd.1.1.insert subject (fun _ => rfl) (by cases subject <;> rfl) (.inl rfl)
  · refine ⟨d.table.committed_fresh _ (Nat.le_refl _),hidle.2.2,Table.own_insert_self _ _ _,?_⟩
    intro k' hk'
    simpa [Db.insert, write, Table.own_insert, hk'] using hidle.1 k'
  · intro d hd hs
    exact ⟨hd.1.1.commit _,hX.origin_commit (hX.good_sound hd) hd.1.2 hs⟩

include hX in
/-- A property that passes the outline holds of the ledger in every interleaving of sign-ins,
refreshes and sign-outs that respects the timing. -/
theorem holds {P : Type} (hinit : X Db.empty) {acts : List (Action Nat (Request P))} {s : LedgerSystem}
    (hr : Run (step updates transaction) T.Admits System.initial acts s) : Sound s.db ∧ X s.db := by
  have hsafe : ∀ i (req : Request P), hX.discipline.Safe i (transaction req) (Db.Idle i) := by
    intro i req
    cases req with
    | signIn tenantId subject now => exact hX.safe_signIn
    | refresh tenantId token now expect resolve => exact hX.safe_refresh expect resolve
    | signOut tenantId token now => exact hX.safe_signOut
  have hgood := hX.discipline.sound hsafe ⟨Idents.empty,hinit⟩ hr
  exact ⟨hX.good_sound hgood,hgood.1.2⟩

end Outline
end Nivara.Auth
