import Nivara.Auth.LedgerOutline

/-! Eviction of a family against concurrent refreshes. The spend is conditional on
`rotatedAt` alone and its successor is inserted un-revoked, so an eviction is complete only
when no refresh of the family is in flight around it. -/
namespace Nivara.Auth
open Transactions

/-- Once an eviction of a family has committed, no token of the family is ready to rotate,
at any instant. -/
def EvictionComplete (d : Ledger) : Prop :=
  ∀ tenantId familyId at', Update.revokeFamily tenantId familyId at' ∈ d.log →
    ∀ k r now, d.table.committed k = some r → r.familyId = familyId →
      classifyPresentedToken r.toPresentedToken now ≠ .rotate

/-- An eviction takes its snapshot while no other transaction holds a live version of the
family's rows. A spend writes while its token is not revoked and no eviction of its family
has started. -/
def evictionTiming : Timing Nat Update RefreshToken Answer where
  snapshot d i
    | .revokeFamily _ familyId _ => ∀ j k r, j ≠ i → d.table.own j k = some r → r.familyId = familyId →
        r.revokedAt ≠ none
    | .spend _ _ _ => True
  write d _
    | .spend tenantId tokenHash _ => ∀ k r, d.table.committed k = some r → r.tenantId = tenantId →
        r.tokenHash = tokenHash → r.rotatedAt = none →
        r.revokedAt = none ∧ ∀ j t at' ks, d.waiting j ≠ some (.revokeFamily t r.familyId at', ks)
    | .revokeFamily _ _ _ => True

def Doomed (familyId : Uuid) (d : Ledger) : Prop :=
  (∃ j t at' ks, d.waiting j = some (.revokeFamily t familyId at', ks)) ∨
  (∃ j t at', .revokeFamily t familyId at' ∈ d.applied j) ∨
  ∃ t at', .revokeFamily t familyId at' ∈ d.log

structure Evicting (d : Ledger) : Prop where
  known : ∀ f, Doomed f d → f < d.supply
  /-- No uncommitted version of a doomed family is live. -/
  closed : ∀ f i k r, Doomed f d → d.table.own i k = some r → r.familyId = f → r.revokedAt ≠ none
  started : ∀ j t f at' ks, d.waiting j = some (.revokeFamily t f at', ks) →
    ∀ k r, d.table.committed k = some r → r.familyId = f → r.revokedAt = none → k ∈ ks
  written : ∀ j t f at', .revokeFamily t f at' ∈ d.applied j →
    ∀ k r, d.table.committed k = some r → r.familyId = f → r.revokedAt = none → d.table.own j k ≠ none
  logged : ∀ t f at', .revokeFamily t f at' ∈ d.log →
    ∀ k r, d.table.committed k = some r → r.familyId = f → r.revokedAt ≠ none
  /-- A version that spends its row is live. -/
  spending : ∀ i k r r', d.table.committed k = some r → d.table.own i k = some r' → r.rotatedAt = none →
    r'.rotatedAt ≠ none → r'.revokedAt = none

section Steps
variable {d : Ledger} {i : Nat} {tenantId : Uuid} {token : Token} {familyId : Uuid} {now : Int} {ks : List Nat}

private theorem evicting_empty : Evicting Db.empty := by
  constructor
  · rintro f (⟨_,_,_,_,h⟩ | ⟨_,_,_,h⟩ | ⟨_,_,h⟩) <;> cases h
  · exact fun _ _ _ _ _ h => (by cases h)
  · exact fun _ _ _ _ _ h => (by cases h)
  · exact fun _ _ _ _ h => (by cases h)
  · exact fun _ _ _ h => (by cases h)
  · exact fun _ _ _ _ h => (by cases h)

/-- A transaction that ends leaves the others' versions and statements as they are. -/
private theorem own_of_rollback {j k : Nat} {r : RefreshToken}
    (ho : (d.rollback i).table.own j k = some r) : j ≠ i ∧ d.table.own j k = some r := by
  have hji : j ≠ i := by
    rintro rfl
    simp [Db.rollback] at ho
  exact ⟨hji,(Table.own_rollback_other _ _ _ _ hji).symm.trans ho⟩

private theorem own_of_commit {a : Answer} {j k : Nat} {r : RefreshToken}
    (ho : (d.commit i a).table.own j k = some r) : j ≠ i ∧ d.table.own j k = some r := by
  have hji : j ≠ i := by
    rintro rfl
    simp [Db.commit] at ho
  exact ⟨hji,(Table.own_commit_other _ _ _ _ hji).symm.trans ho⟩

private theorem mem_update_nil {f : Nat → List Update} {j : Nat} {u : Update}
    (h : u ∈ Function.update f i [] j) : j ≠ i ∧ u ∈ f j := by
  have hji : j ≠ i := by
    rintro rfl
    simp at h
  exact ⟨hji,by simpa [hji] using h⟩

private theorem update_none_eq_some {f : Nat → Option (Update × List Nat)} {j : Nat} {w : Update × List Nat}
    (h : Function.update f i none j = some w) : f j = some w := by
  have hji : j ≠ i := by
    rintro rfl
    simp at h
  simpa [hji] using h

private theorem evicting_rollback (h : Evicting d) : Evicting (d.rollback i) := by
  have hdoomed : ∀ f, Doomed f (d.rollback i) → Doomed f d := by
    rintro f (⟨j,t,at',ks,hj⟩ | ⟨j,t,at',hj⟩ | hl)
    · exact .inl ⟨j,t,at',ks,update_none_eq_some hj⟩
    · exact .inr (.inl ⟨j,t,at',(mem_update_nil hj).2⟩)
    · exact .inr (.inr hl)
  constructor
  · exact fun f hf => h.known f (hdoomed f hf)
  · exact fun f j k r hf ho => h.closed f j k r (hdoomed f hf) (own_of_rollback ho).2
  · exact fun j t f at' ks hj => h.started j t f at' ks (update_none_eq_some hj)
  · intro j t f at' hj k r hk hf hn
    obtain ⟨hji,hj⟩ := mem_update_nil hj
    rw [show (d.rollback i).table.own j k = _ from Table.own_rollback_other _ _ _ _ hji]
    exact h.written j t f at' hj k r hk hf hn
  · exact h.logged
  · exact fun j k r r' hk ho => h.spending j k r r' hk (own_of_rollback ho).2

/-- A commit publishes only versions that the evictions under way allow: a live one is not
in a doomed family. -/
private theorem evicting_commit (h : Evicting d) (a : Answer) : Evicting (d.commit i a) := by
  have hdoomed : ∀ f, Doomed f (d.commit i a) → Doomed f d := by
    rintro f (hw | ⟨j,t,at',hj⟩ | ⟨t,at',hl⟩)
    · exact .inl hw
    · exact .inr (.inl ⟨j,t,at',(mem_update_nil hj).2⟩)
    · rcases List.mem_append.mp hl with hl | hl
      · exact .inr (.inr ⟨t,at',hl⟩)
      · exact .inr (.inl ⟨i,t,at',hl⟩)
  -- a live committed row of a doomed family was committed, and not touched by this transaction
  have hold : ∀ f k r, Doomed f d → (d.commit i a).table.committed k = some r → r.familyId = f →
      r.revokedAt = none → d.table.own i k = none ∧ d.table.committed k = some r := by
    intro f k r hf hk hfam hn
    rcases Table.visible_cases _ _ _ hk with ho | hc
    · exact absurd hn (h.closed f i k r hf ho hfam)
    · exact hc
  constructor
  · exact fun f hf => h.known f (hdoomed f hf)
  · exact fun f j k r hf ho => h.closed f j k r (hdoomed f hf) (own_of_commit ho).2
  · intro j t f at' ks hj k r hk hf hn
    exact h.started j t f at' ks hj k r (hold f k r (.inl ⟨j,t,at',ks,hj⟩) hk hf hn).2 hf hn
  · intro j t f at' hj k r hk hf hn
    obtain ⟨hji,hj⟩ := mem_update_nil hj
    rw [show (d.commit i a).table.own j k = _ from Table.own_commit_other _ _ _ _ hji]
    exact h.written j t f at' hj k r (hold f k r (.inr (.inl ⟨j,t,at',hj⟩)) hk hf hn).2 hf hn
  · intro t f at' hl k r hk hf hn
    rcases List.mem_append.mp hl with hl | hl
    · exact h.logged t f at' hl k r (hold f k r (.inr (.inr ⟨t,at',hl⟩)) hk hf hn).2 hf hn
    · obtain ⟨ho,hc⟩ := hold f k r (.inr (.inl ⟨i,t,at',hl⟩)) hk hf hn
      exact h.written i t f at' hl k r hc hf hn ho
  · intro j k r r' hk ho
    obtain ⟨hji,ho⟩ := own_of_commit ho
    have hi := Table.own_exclusive _ _ _ _ ho (Ne.symm hji)
    exact h.spending j k r r' ((Table.visible_of_no_own _ _ _ hi).symm.trans hk) ho

private theorem evicting_insert (h : Evicting d) {row : Nat → RefreshToken}
    (hnew : ∀ f, Doomed f d → (row d.supply).familyId ≠ f) : Evicting (d.insert i row) := by
  constructor
  · exact fun f hf => Nat.lt_succ_of_lt (h.known f hf)
  · intro f j k r hf ho hfam
    rcases Table.own_insert_cases _ _ _ _ ho with ⟨_,_,rfl⟩ | ho
    · exact absurd hfam (hnew f hf)
    · exact h.closed f j k r hf ho hfam
  · exact h.started
  · intro j t f at' hj k r hk hf hn
    obtain ⟨s,hs⟩ := Option.ne_none_iff_exists'.mp (h.written j t f at' hj k r hk hf hn)
    rw [show (d.insert i row).table.own j k = _ from Table.own_insert_of_own _ _ _ _ hs]
    exact Option.some_ne_none s
  · exact h.logged
  · intro j k r r' hk ho
    rcases Table.own_insert_cases _ _ _ _ ho with ⟨rfl,_,_⟩ | ho
    · cases hk.symm.trans (d.table.committed_fresh _ (Nat.le_refl _))
    · exact h.spending j k r r' hk ho

/-- A version with the mark of its spend is live, so its family is not doomed. -/
private theorem spent_not_doomed (h : Evicting d) {k : Nat} {r : RefreshToken}
    (hs : Spent i tenantId token now d k r) : ∀ f, Doomed f d → r.familyId ≠ f := by
  intro f hf hfam
  obtain ⟨hk,ho,hn,_⟩ := hs
  have hlive := h.spending i k r _ hk ho hn (Option.some_ne_none now)
  exact h.closed f i k _ hf ho hfam hlive

private theorem evicting_evict_snapshot (hd : Sound d) (h : Evicting d) (hu : Untouched i d)
    (hknown : FamilyKnown tenantId familyId d)
    (ht : evictionTiming.snapshot d i (.revokeFamily tenantId familyId now)) :
    Evicting (d.snapshot updates i (.revokeFamily tenantId familyId now)) := by
  obtain ⟨k₀,r₀,hk₀,ht₀,hf₀⟩ := hknown
  have hwait : ∀ j t f at' ks, (d.snapshot updates i (.revokeFamily tenantId familyId now)).waiting j =
      some (.revokeFamily t f at', ks) → d.waiting j = some (.revokeFamily t f at', ks) ∨
      (f = familyId ∧ ks = d.table.matching i (updates.targets (.revokeFamily tenantId familyId now))) := by
    intro j t f at' ks hj
    by_cases hji : j = i
    · subst hji
      simp only [Db.snapshot, Function.update_self] at hj
      cases hj
      exact .inr ⟨rfl,rfl⟩
    · exact .inl (by simpa [Db.snapshot, hji] using hj)
  have hdoomed : ∀ f, Doomed f (d.snapshot updates i (.revokeFamily tenantId familyId now)) →
      Doomed f d ∨ f = familyId := by
    rintro f (⟨j,t,at',ks,hj⟩ | hrest)
    · rcases hwait j t f at' ks hj with hj | ⟨hf,_⟩
      · exact .inl (.inl ⟨j,t,at',ks,hj⟩)
      · exact .inr hf
    · exact .inl (.inr hrest)
  constructor
  · intro f hf
    rcases hdoomed f hf with hf | rfl
    · exact h.known f hf
    · exact hf₀ ▸ hd.1.family_drawn k₀ r₀ (.inl hk₀)
  · intro f j k r hf ho hfam
    rcases hdoomed f hf with hf | rfl
    · exact h.closed f j k r hf ho hfam
    · by_cases hji : j = i
      · subst hji
        cases (hu k).symm.trans ho
      · exact ht j k r hji ho hfam
  · intro j t f at' ks hj k r hk hf hn
    rcases hwait j t f at' ks hj with hj | ⟨rfl,rfl⟩
    · exact h.started j t f at' ks hj k r hk hf hn
    · -- the snapshot shows every live row of the family: they are all of this tenant
      have htenant : r.tenantId = tenantId :=
        (hd.1.coherent k k₀ r r₀ (.inl hk) (.inl hk₀) (hf.trans hf₀.symm)).1.trans ht₀
      refine (Table.mem_matching _ _ _).mpr ⟨r,(Table.visible_of_no_own _ _ _ (hu k)).trans hk,?_⟩
      simp [updates, htenant, hf, hn]
  · exact h.written
  · exact h.logged
  · exact h.spending

private theorem evicting_evict_write (hd : Sound d) (h : Evicting d) (hu : Untouched i d)
    (hknown : FamilyKnown tenantId familyId d)
    (hw : d.waiting i = some (.revokeFamily tenantId familyId now, ks)) (hfree : d.table.free i ks = true) :
    Evicting (d.write updates i (.revokeFamily tenantId familyId now) ks) := by
  obtain ⟨k₀,r₀,hk₀,ht₀,hf₀⟩ := hknown
  have happ : ∀ j t f at', .revokeFamily t f at' ∈
      (d.write updates i (.revokeFamily tenantId familyId now) ks).applied j →
      .revokeFamily t f at' ∈ d.applied j ∨ (j = i ∧ t = tenantId ∧ f = familyId ∧ at' = now) := by
    intro j t f at' hj
    by_cases hji : j = i
    · subst hji
      simpa [Db.write] using hj
    · exact .inl (by simpa [Db.write, hji] using hj)
  have hdoomed : ∀ f, Doomed f (d.write updates i (.revokeFamily tenantId familyId now) ks) → Doomed f d := by
    rintro f (⟨j,t,at',ks',hj⟩ | ⟨j,t,at',hj⟩ | hl)
    · exact .inl ⟨j,t,at',ks',update_none_eq_some hj⟩
    · rcases happ j t f at' hj with hj | ⟨rfl,rfl,rfl,rfl⟩
      · exact .inr (.inl ⟨j,t,at',hj⟩)
      · exact .inl ⟨j,t,at',ks,hw⟩
    · exact .inr (.inr hl)
  -- the versions written are the committed rows, revoked
  have hown : ∀ j k r, (d.write updates i (.revokeFamily tenantId familyId now) ks).table.own j k = some r →
      (∃ s, d.table.committed k = some s ∧ r = { s with revokedAt := some now }) ∨ d.table.own j k = some r := by
    intro j k r ho
    by_cases hji : j = i
    · subst hji
      rcases Table.own_write_cases _ _ _ ho with ⟨s,_,hs,_,rfl⟩ | ho
      · exact .inl ⟨s,(Table.visible_of_no_own _ _ _ (hu k)).symm.trans hs,rfl⟩
      · exact .inr ho
    · exact .inr ((Table.own_write_other _ _ _ _ hji hfree).symm.trans ho)
  constructor
  · exact fun f hf => h.known f (hdoomed f hf)
  · intro f j k r hf ho hfam
    rcases hown j k r ho with ⟨s,_,rfl⟩ | ho
    · exact Option.some_ne_none now
    · exact h.closed f j k r (hdoomed f hf) ho hfam
  · exact fun j t f at' ks' hj => h.started j t f at' ks' (update_none_eq_some hj)
  · intro j t f at' hj k r hk hf hn
    by_cases hji : j = i
    · subst hji
      rcases happ j t f at' hj with hj | ⟨_,rfl,rfl,rfl⟩
      · exact absurd (hu k) (h.written j t f at' hj k r hk hf hn)
      · have htenant : r.tenantId = t :=
          (hd.1.coherent k k₀ r r₀ (.inl hk) (.inl hk₀) (hf.trans hf₀.symm)).1.trans ht₀
        rw [show (d.write updates j _ ks).table.own j k = _ from
          Table.own_write_picked _ _ _ (h.started j t f at' ks hw k r hk hf hn)
            ((Table.visible_of_no_own _ _ _ (hu k)).trans hk) (by simp [updates, htenant, hf, hn])]
        exact Option.some_ne_none _
    · rcases happ j t f at' hj with hj | ⟨hj,_⟩
      · rw [show (d.write updates i _ ks).table.own j k = _ from Table.own_write_other _ _ _ _ hji hfree]
        exact h.written j t f at' hj k r hk hf hn
      · exact absurd hj hji
  · exact h.logged
  · intro j k r r' hk ho hn hn'
    rcases hown j k r' ho with ⟨s,hs,rfl⟩ | ho
    · cases hk.symm.trans hs
      exact absurd hn hn'
    · exact h.spending j k r r' hk ho hn hn'

private theorem evicting_spend_snapshot (h : Evicting d) {hash : Digest} :
    Evicting (d.snapshot updates i (.spend tenantId hash now)) := by
  have hwait : ∀ j t f at' ks, (d.snapshot updates i (.spend tenantId hash now)).waiting j =
      some (.revokeFamily t f at', ks) → d.waiting j = some (.revokeFamily t f at', ks) := by
    intro j t f at' ks hj
    have hji : j ≠ i := by
      rintro rfl
      simp [Db.snapshot] at hj
    simpa [Db.snapshot, hji] using hj
  have hdoomed : ∀ f, Doomed f (d.snapshot updates i (.spend tenantId hash now)) → Doomed f d := by
    rintro f (⟨j,t,at',ks,hj⟩ | hrest)
    · exact .inl ⟨j,t,at',ks,hwait j t f at' ks hj⟩
    · exact .inr hrest
  exact ⟨fun f hf => h.known f (hdoomed f hf),fun f j k r hf => h.closed f j k r (hdoomed f hf),
    fun j t f at' ks hj => h.started j t f at' ks (hwait j t f at' ks hj),h.written,h.logged,h.spending⟩

private theorem evicting_spend_write (h : Evicting d) (hu : Untouched i d) (happ : d.applied i = [])
    (hfree : d.table.free i ks = true)
    (ht : evictionTiming.write d i (.spend tenantId (hashToken token) now)) :
    Evicting (d.write updates i (.spend tenantId (hashToken token) now) ks) := by
  have happ' : ∀ j t f at', .revokeFamily t f at' ∈
      (d.write updates i (.spend tenantId (hashToken token) now) ks).applied j →
      j ≠ i ∧ .revokeFamily t f at' ∈ d.applied j := by
    intro j t f at' hj
    by_cases hji : j = i
    · subst hji
      simp [Db.write, happ] at hj
    · exact ⟨hji,by simpa [Db.write, hji] using hj⟩
  have hdoomed : ∀ f, Doomed f (d.write updates i (.spend tenantId (hashToken token) now) ks) → Doomed f d := by
    rintro f (⟨j,t,at',ks',hj⟩ | ⟨j,t,at',hj⟩ | hl)
    · exact .inl ⟨j,t,at',ks',update_none_eq_some hj⟩
    · exact .inr (.inl ⟨j,t,at',(happ' j t f at' hj).2⟩)
    · exact .inr (.inr hl)
  -- the version written spends a committed row that is live, and whose family is not doomed
  have hown : ∀ j k r, (d.write updates i (.spend tenantId (hashToken token) now) ks).table.own j k = some r →
      d.table.own j k = some r ∨ (r.revokedAt = none ∧ ∀ f, Doomed f d → r.familyId ≠ f) := by
    intro j k r ho
    by_cases hji : j = i
    · subst hji
      rcases Table.own_write_cases _ _ _ ho with ⟨s,hks,hs,hp,rfl⟩ | ho
      · have hc := (Table.visible_of_no_own _ _ _ (hu k)).symm.trans hs
        obtain ⟨hst,hsh,hsn⟩ : s.tenantId = tenantId ∧ s.tokenHash = hashToken token ∧ s.rotatedAt = none := by
          simpa [updates] using hp
        obtain ⟨hlive,hnone⟩ := ht k s hc hst hsh hsn
        refine .inr ⟨hlive,?_⟩
        rintro f (⟨j',t,at',ks',hj'⟩ | ⟨j',t,at',hj'⟩ | ⟨t,at',hl⟩) (rfl : s.familyId = f)
        · exact hnone j' t at' ks' hj'
        · -- an eviction that has written holds the lock of this row
          obtain ⟨v,hv⟩ := Option.ne_none_iff_exists'.mp (h.written j' t _ at' hj' k s hc rfl hlive)
          have hj := (Table.free_iff _ _ _).mp hfree k hks j' v ((Table.own_eq_some_iff _ _ _).mp hv)
          subst hj
          simp [happ] at hj'
        · exact h.logged t _ at' hl k s hc rfl hlive
      · exact .inl ho
    · exact .inl ((Table.own_write_other _ _ _ _ hji hfree).symm.trans ho)
  constructor
  · exact fun f hf => h.known f (hdoomed f hf)
  · intro f j k r hf ho hfam
    rcases hown j k r ho with ho | ⟨_,hne⟩
    · exact h.closed f j k r (hdoomed f hf) ho hfam
    · exact absurd hfam (hne f (hdoomed f hf))
  · exact fun j t f at' ks' hj => h.started j t f at' ks' (update_none_eq_some hj)
  · intro j t f at' hj k r hk hf hn
    obtain ⟨hji,hj⟩ := happ' j t f at' hj
    rw [show (d.write updates i _ ks).table.own j k = _ from Table.own_write_other _ _ _ _ hji hfree]
    exact h.written j t f at' hj k r hk hf hn
  · exact h.logged
  · intro j k r r' hk ho hn hn'
    rcases hown j k r' ho with ho | ⟨hlive,_⟩
    · exact h.spending j k r r' hk ho hn hn'
    · exact hlive

end Steps

private theorem evicting_outline : Outline Evicting evictionTiming where
  rollback _ h := evicting_rollback h
  empty_commit _ h _ _ _ := evicting_commit h _
  evict_snapshot hd h hu _ hknown ht := evicting_evict_snapshot hd h hu hknown ht
  evict_write hd h hu _ hknown hw hfree _ := evicting_evict_write hd h hu hknown hw hfree
  evict_commit _ h _ _ := evicting_commit h _
  spend_snapshot _ h _ _ _ _ := evicting_spend_snapshot h
  spend_write _ h hu happ _ _ hfree ht := evicting_spend_write h hu happ hfree ht
  successor_insert _ h hs _ _ := evicting_insert h fun f hf => spent_not_doomed h hs f hf
  successor_commit _ h _ := evicting_commit h _
  origin_insert _ h _ := evicting_insert h fun f hf => Nat.ne_of_gt (h.known f hf)
  origin_commit _ h _ := evicting_commit h _

/-- In every interleaving whose evictions and spends keep to `evictionTiming`, every eviction
is complete in every state from its commit on. -/
theorem evictionComplete_of_timing {P : Type} {acts : List (Action Nat (Request P))} {s : LedgerSystem}
    (hr : Run (step updates transaction) evictionTiming.Admits System.initial acts s) :
    EvictionComplete s.db := by
  obtain ⟨_,h⟩ := evicting_outline.holds evicting_empty hr
  intro tenantId familyId at' hl k r now hk hf hrotate
  exact h.logged tenantId familyId at' hl k r hk hf (classify_rotate_iff.mp hrotate).1

/-- A session signs in, refreshes once and signs out, with nobody else around. -/
theorem evictionComplete_after_signOut :
    ∃ s, Run (step updates (transaction (P := Unit))) evictionTiming.Admits System.initial
        [.begin 0 (.signIn 7 (.user 1) 0), .advance 0, .advance 0,
         .begin 0 (.refresh 7 0 1000 .user fun _ => some ()), .advance 0, .advance 0, .advance 0, .advance 0,
         .advance 0, .advance 0, .begin 0 (.signOut 7 1 2000), .advance 0, .advance 0, .advance 0, .advance 0] s ∧
      EvictionComplete s.db ∧ s.db.log = [.spend 7 (hashToken 0) 1000, .revokeFamily 7 0 2000] := by
  have h0 : Run (step updates (transaction (P := Unit))) evictionTiming.Admits System.initial [] System.initial :=
    .nil
  have h3 := ((h0.snoc (a := .begin 0 (.signIn 7 (.user 1) 0)) (Timing.admits_begin _ _) rfl).snoc
    (a := .advance 0) (Timing.admits_read rfl (by rintro _ _ ⟨⟩)) rfl).snoc (a := .advance 0) (Timing.admits_read rfl (by rintro _ _ ⟨⟩)) rfl
  have h5 := (h3.snoc (a := .begin 0 (.refresh 7 0 1000 .user fun _ => some ())) (Timing.admits_begin _ _) rfl).snoc
    (a := .advance 0) (Timing.admits_read rfl (by rintro _ _ ⟨⟩)) rfl
  have h6 := h5.snoc (a := .advance 0) (Timing.admits_snapshot rfl rfl trivial) rfl
  have h7 := h6.snoc (a := .advance 0) (Timing.admits_write rfl (Option.some_ne_none _) (by
    rintro (_ | k) r hk _ _ _
    · cases hk
      refine ⟨rfl,fun j t at' ks hj => ?_⟩
      by_cases hj0 : j = 0
      · subst hj0
        cases hj
      · simp [Db.snapshot, Db.commit, Db.insert, Db.empty, System.initial, hj0] at hj
    · cases hk)) rfl
  have h10 := ((h7.snoc (a := .advance 0) (Timing.admits_read rfl (by rintro _ _ ⟨⟩)) rfl).snoc
    (a := .advance 0) (Timing.admits_read rfl (by rintro _ _ ⟨⟩)) rfl).snoc (a := .advance 0) (Timing.admits_read rfl (by rintro _ _ ⟨⟩)) rfl
  have h12 := (h10.snoc (a := .begin 0 (.signOut 7 1 2000)) (Timing.admits_begin _ _) rfl).snoc
    (a := .advance 0) (Timing.admits_read rfl (by rintro _ _ ⟨⟩)) rfl
  have h13 := h12.snoc (a := .advance 0) (Timing.admits_snapshot rfl rfl (by
    intro j k r hj ho
    -- back through the refresh and the sign-in: none of their statements was another transaction's
    have h1 := (Table.own_commit_other _ _ _ _ hj).symm.trans ho
    have h2 := (Table.own_insert_other _ _ _ _ hj).symm.trans h1
    have h3 := (Table.own_write_other _ _ _ _ hj rfl).symm.trans h2
    have h4 := (Table.own_commit_other _ _ _ _ hj).symm.trans h3
    cases (Table.own_insert_other _ _ _ _ hj).symm.trans h4)) rfl
  have h14 := h13.snoc (a := .advance 0) (Timing.admits_write rfl (Option.some_ne_none _) trivial) rfl
  have h15 := h14.snoc (a := .advance 0) (Timing.admits_read rfl (by rintro _ _ ⟨⟩)) rfl
  exact ⟨_,h15,evictionComplete_of_timing h15,rfl⟩

/-- A refresh finds its token live, a sign-out evicts the family, and the refresh goes on. -/
def lateSpend : List (Action Nat (Request Unit)) :=
  [.begin 0 (.signIn 7 (.user 1) 0), .advance 0, .advance 0,
   .begin 1 (.refresh 7 0 1000 .user fun _ => some ()), .advance 1,
   .begin 2 (.signOut 7 0 2000), .advance 2, .advance 2, .advance 2, .advance 2,
   .advance 1, .advance 1, .advance 1, .advance 1, .advance 1]

/-- The successor survives the eviction of its family. -/
theorem lateSpend_survives_eviction :
    ∃ s, Run (step updates transaction) Always System.initial lateSpend s ∧ ¬ EvictionComplete s.db := by
  have hrun : ∃ s, exec (step updates transaction) Always System.initial lateSpend = some s ∧
      .revokeFamily 7 0 2000 ∈ s.db.log ∧ ∃ r, s.db.table.committed 1 = some r ∧ r.familyId = 0 ∧
        classifyPresentedToken r.toPresentedToken 3000 = .rotate :=
    ⟨_,rfl,by decide,_,rfl,rfl,by decide⟩
  obtain ⟨s,hs,hl,r,hr,hf,hv⟩ := hrun
  exact ⟨s,Run.of_exec hs,fun h => h 7 0 2000 hl 1 r 3000 hr hf hv⟩

end Nivara.Auth
