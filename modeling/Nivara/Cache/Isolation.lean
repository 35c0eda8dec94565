import Nivara.Cache.CacheService

/-! What a bust of a namespace deletes, whatever other clients do to the keys meanwhile: all of the namespace
that is there throughout, and nothing of any other. -/
namespace Nivara.Cache
open Text Idempotency

def Round.page (r : Round) : List Str :=
  match r.reply with
  | .ok reply => reply.2
  | .error _ => []

/-- Both commands of the turn are answered, and the cursor is the one given. -/
structure Round.Answers (r : Round) (next : Str) : Prop where
  reply : r.reply = .ok (next, r.page)
  unlink : r.unlink = .answered

def Undisturbed (k : Str) (rounds : List Round) : Prop := ∀ r ∈ rounds, k ∉ r.before.removed ∧ k ∉ r.between.removed

def Unwritten (k : Str) (rounds : List Round) : Prop := ∀ r ∈ rounds, k ∉ r.before.added ∧ k ∉ r.between.added

/-- A scan from its first cursor to the last, as Redis promises it. -/
structure FullScan (pattern : Str) (keys : Finset Str) (rounds : List Round) (last : Round) : Prop where
  more : ∀ r ∈ rounds, ∃ next, r.Answers next ∧ next ≠ units "0"
  ended : last.Answers (units "0")
  matching : ∀ r ∈ rounds ++ [last], ∀ k ∈ r.page, globMatch pattern k = true
  covers : ∀ k ∈ keys, globMatch pattern k = true → Undisturbed k (rounds ++ [last]) → ∃ r ∈ rounds ++ [last], k ∈ r.page

section Turns
variable {pattern cursor k : Str} {keys : Finset Str} {rounds later : List Round} {r last : Round} {next : Str}

def Round.leaves (r : Round) (keys : Finset Str) : Finset Str := r.between.apply (r.before.apply keys) \ r.page.toFinset

private theorem sweep_more (h : r.Answers next) (hnext : next ≠ units "0") : sweep pattern cursor keys (r :: rounds) =
    ⟨⟨cursor, pattern, scanCount⟩ :: (sweep pattern next (r.leaves keys) rounds).scans,
      r.page ++ (sweep pattern next (r.leaves keys) rounds).unlinked,
      (sweep pattern next (r.leaves keys) rounds).keys, (sweep pattern next (r.leaves keys) rounds).ended⟩ := by
  rw [sweep, h.reply]
  dsimp only
  rw [h.unlink, if_pos hnext]
  split
  · rfl
  · rename_i hempty
    have hpage : r.page = [] := List.length_eq_zero_iff.mp (by omega)
    rw [Round.leaves, hpage, List.toFinset_nil, Finset.sdiff_empty]

private theorem sweep_over (h : r.Answers (units "0")) : sweep pattern cursor keys (r :: rounds) =
    ⟨[⟨cursor, pattern, scanCount⟩], r.page, r.leaves keys, some (.ok ())⟩ := by
  rw [sweep, h.reply]
  dsimp only
  rw [h.unlink, if_neg (not_not.mpr rfl)]
  split
  · rfl
  · rename_i hempty
    have hpage : r.page = [] := List.length_eq_zero_iff.mp (by omega)
    rw [Round.leaves, hpage, List.toFinset_nil, Finset.sdiff_empty]
    rfl

private theorem mem_leaves : k ∈ r.leaves keys ↔ (((k ∈ keys ∧ k ∉ r.before.removed) ∨ k ∈ r.before.added) ∧
    k ∉ r.between.removed ∨ k ∈ r.between.added) ∧ k ∉ r.page := by
  simp only [Round.leaves, Change.apply, Finset.mem_sdiff, Finset.mem_union, List.mem_toFinset]

/-- The loop ends with the turn whose reply brings the cursor back, and sends off what the pages hold. -/
private theorem sweep_scan (pattern cursor : Str) (keys : Finset Str) (later : List Round)
    (hmore : ∀ r ∈ rounds, ∃ next, r.Answers next ∧ next ≠ units "0") (hover : last.Answers (units "0")) (k : Str) :
    (sweep pattern cursor keys (rounds ++ last :: later)).ended = some (.ok ()) ∧
    (sweep pattern cursor keys (rounds ++ last :: later)).scans.length = rounds.length + 1 ∧
    (k ∈ (sweep pattern cursor keys (rounds ++ last :: later)).unlinked ↔ ∃ r ∈ rounds ++ [last], k ∈ r.page) := by
  induction rounds generalizing cursor keys with
  | nil =>
    rw [List.nil_append, sweep_over hover]
    simp
  | cons r rounds ih =>
    obtain ⟨next,hr,hnext⟩ := hmore r List.mem_cons_self
    have htail : ∀ r' ∈ rounds, ∃ next, r'.Answers next ∧ next ≠ units "0" :=
      fun r' hr' => hmore r' (List.mem_cons_of_mem r hr')
    rw [List.cons_append, sweep_more hr hnext]
    refine ⟨(ih _ _ htail).1,?_,?_⟩
    · rw [List.length_cons, (ih _ _ htail).2.1, List.length_cons]
    · rw [List.mem_append, (ih _ _ htail).2.2, List.cons_append, List.exists_mem_cons_iff]

private theorem Undisturbed.tail (h : Undisturbed k (r :: rounds)) : Undisturbed k rounds :=
  fun r' hr' => h r' (List.mem_cons_of_mem r hr')

private theorem Unwritten.tail (h : Unwritten k (r :: rounds)) : Unwritten k rounds :=
  fun r' hr' => h r' (List.mem_cons_of_mem r hr')

private theorem mem_keys_of_unnamed (hmore : ∀ r ∈ rounds, ∃ next, r.Answers next ∧ next ≠ units "0")
    (hover : last.Answers (units "0")) (hk : k ∈ keys) (hstill : Undisturbed k (rounds ++ [last]))
    (hnone : ∀ r ∈ rounds ++ [last], k ∉ r.page) : k ∈ (sweep pattern cursor keys (rounds ++ last :: later)).keys := by
  have hstays (r : Round) (keys : Finset Str) (hk : k ∈ keys) (hr : k ∉ r.before.removed ∧ k ∉ r.between.removed)
      (hpage : k ∉ r.page) : k ∈ r.leaves keys := mem_leaves.mpr ⟨.inl ⟨.inl ⟨hk,hr.1⟩,hr.2⟩,hpage⟩
  induction rounds generalizing cursor keys with
  | nil =>
    rw [List.nil_append, sweep_over hover]
    exact hstays last keys hk (hstill last List.mem_cons_self) (hnone last List.mem_cons_self)
  | cons r rounds ih =>
    obtain ⟨next,hr,hnext⟩ := hmore r List.mem_cons_self
    rw [List.cons_append, sweep_more hr hnext]
    exact ih (fun r' hr' => hmore r' (List.mem_cons_of_mem r hr'))
      (hstays r keys hk (hstill r List.mem_cons_self) (hnone r List.mem_cons_self)) hstill.tail
      fun r' hr' => hnone r' (List.mem_cons_of_mem r hr')

/-- A key that is gone, or that a page names, is gone at the end unless it is written again. -/
private theorem notMem_keys_of_named (hmore : ∀ r ∈ rounds, ∃ next, r.Answers next ∧ next ≠ units "0")
    (hover : last.Answers (units "0")) (hnew : Unwritten k (rounds ++ [last]))
    (h : k ∉ keys ∨ ∃ r ∈ rounds ++ [last], k ∈ r.page) : k ∉ (sweep pattern cursor keys (rounds ++ last :: later)).keys := by
  have hgone (r : Round) (keys : Finset Str) (hr : k ∉ r.before.added ∧ k ∉ r.between.added) (h : k ∉ keys ∨ k ∈ r.page) :
      k ∉ r.leaves keys := by
    rw [mem_leaves]
    tauto
  induction rounds generalizing cursor keys with
  | nil =>
    rw [List.nil_append, sweep_over hover]
    exact hgone last keys (hnew last List.mem_cons_self) (h.imp_right fun ⟨r,hr,hpage⟩ => List.mem_singleton.mp hr ▸ hpage)
  | cons r rounds ih =>
    obtain ⟨next,hr,hnext⟩ := hmore r List.mem_cons_self
    rw [List.cons_append, sweep_more hr hnext]
    refine ih (fun r' hr' => hmore r' (List.mem_cons_of_mem r hr')) hnew.tail ?_
    rw [List.cons_append, List.exists_mem_cons_iff] at h
    rcases h with h | h | h
    · exact .inl (hgone r keys (hnew r List.mem_cons_self) (.inl h))
    · exact .inl (hgone r keys (hnew r List.mem_cons_self) (.inr h))
    · exact .inr h

end Turns

/-- What passes the check has a key; keys tell tenants, namespaces and ids apart and are all below `cache:`; and a bust ends
when the cursor is back, deletes what is in the namespace throughout and leaves every other key alone. -/
theorem cache_keys_isolated :
    (∀ {tenantId : Id} {ns id : Str}, checkSegment "namespace" ns = .ok ns → checkSegment "id" id = .ok id →
      ∃ k, cacheKey tenantId ns id = .ok k) ∧
    (∀ {tenantId tenantId' : Id} {ns ns' id id' k : Str}, cacheKey tenantId ns id = .ok k → cacheKey tenantId' ns' id' = .ok k →
      tenantId = tenantId' ∧ ns = ns' ∧ id = id') ∧
    (∀ {tenantId : Id} {ns id k : Str}, cacheKey tenantId ns id = .ok k → cachePrefix ++ units ":" <+: k) ∧
    ∀ {tenantId : Id} {ns p : Str} {keys : Finset Str} {rounds : List Round} {last : Round} (later : List Round),
      namespacePrefix tenantId ns = .ok p → FullScan (p ++ units "*") keys rounds last →
      ∃ s, bust tenantId ns keys (rounds ++ last :: later) = .ok s ∧
        s.ended = some (.ok ()) ∧ s.scans.length = rounds.length + 1 ∧
        (∀ k ∈ keys, p <+: k → Undisturbed k (rounds ++ [last]) →
          k ∈ s.unlinked ∧ (Unwritten k (rounds ++ [last]) → k ∉ s.keys)) ∧
        (∀ k ∈ s.unlinked, p <+: k ∧ ∀ tenantId' ns' p', namespacePrefix tenantId' ns' = .ok p' → p' <+: k →
          tenantId' = tenantId ∧ ns' = ns) ∧
        ∀ k ∈ keys, ¬ p <+: k → Undisturbed k (rounds ++ [last]) → k ∈ s.keys := by
  refine ⟨exists_cacheKey,cacheKey_inj,?_,?_⟩
  · intro tenantId ns id k h
    obtain ⟨p,hp,hk⟩ := namespacePrefix_of_cacheKey h
    exact (cachePrefix_of_namespacePrefix hp).trans hk
  · intro tenantId ns p keys rounds last later hp hscan
    have hglob (k : Str) : globMatch (p ++ units "*") k = true ↔ p <+: k := globMatch_plain_star (plain_namespacePrefix hp) k
    have hsweep := sweep_scan (p ++ units "*") (units "0") keys later hscan.more hscan.ended
    refine ⟨_,by rw [bust, hp]; rfl,(hsweep p).1,(hsweep p).2.1,?_,?_,?_⟩
    · intro k hk hstart hstill
      have hpage := hscan.covers k hk ((hglob k).mpr hstart) hstill
      exact ⟨(hsweep k).2.2.mpr hpage,fun hnew => notMem_keys_of_named hscan.more hscan.ended hnew (.inr hpage)⟩
    · intro k hk
      obtain ⟨r,hr,hpage⟩ := (hsweep k).2.2.mp hk
      have hstart := (hglob k).mp (hscan.matching r hr k hpage)
      exact ⟨hstart,fun tenantId' ns' p' hp' hk' => namespacePrefix_inj hp' hp hk' hstart⟩
    · intro k hk hstart hstill
      apply mem_keys_of_unnamed hscan.more hscan.ended hk hstill
      intro r hr hpage
      exact hstart ((hglob k).mp (hscan.matching r hr k hpage))

private theorem fullScan_single {pattern k other : Str} (hk : globMatch pattern k = true) (hother : ¬ globMatch pattern other = true) :
    FullScan pattern {k, other} [] ⟨⟨∅, ∅⟩, .ok (units "0", [k]), ⟨∅, ∅⟩, .answered⟩ := by
  refine ⟨by simp,⟨rfl,rfl⟩,?_,?_⟩
  · intro r hr k' hk'
    cases List.mem_singleton.mp hr
    cases List.mem_singleton.mp hk'
    exact hk
  · intro k' hk' hmatch _
    refine ⟨_,List.mem_cons_self,List.mem_singleton.mpr ?_⟩
    rcases Finset.mem_insert.mp hk' with rfl | h
    · rfl
    · rw [Finset.mem_singleton.mp h] at hmatch
      exact absurd hmatch hother

/-- A namespace of one key beside a counter of the limiter, scanned in one page. -/
theorem cache_keys_isolated_single : ∃ (tenantId : Id) (k : Str) (s : Sweep),
    cacheKey tenantId (units "origins") (units "1") = .ok k ∧ cachePrefix ++ units ":" <+: k ∧
    bust tenantId (units "origins") {k, units "rl:1"} [⟨⟨∅, ∅⟩, .ok (units "0", [k]), ⟨∅, ∅⟩, .answered⟩] = .ok s ∧
    k ∈ s.unlinked ∧ units "rl:1" ∈ s.keys := by
  obtain ⟨hbuilt,_,hbelow,hbust⟩ := cache_keys_isolated
  obtain ⟨k,hk⟩ := @hbuilt ⟨"00000000-0000-0000-0000-000000000000",by decide⟩ (units "origins") (units "1") rfl rfl
  obtain ⟨p,hp,_,rfl⟩ := cacheKey_eq_ok.mp hk
  have hglob := globMatch_plain_star (plain_namespacePrefix hp)
  have hother : ¬ p <+: units "rl:1" := by
    intro h
    obtain ⟨rest,hrest⟩ := (cachePrefix_of_namespacePrefix hp).trans h
    cases hrest
  have hscan := fullScan_single ((hglob _).mpr (List.prefix_append _ (units "1"))) ((hglob _).not.mpr hother)
  obtain ⟨s,hs,_,_,hdeleted,_,hkept⟩ := hbust [] hp hscan
  have hstill (k : Str) : Undisturbed k [⟨⟨∅, ∅⟩, .ok (units "0", [p ++ units "1"]), ⟨∅, ∅⟩, .answered⟩] := by
    intro r hr
    cases List.mem_singleton.mp hr
    exact ⟨Finset.notMem_empty k,Finset.notMem_empty k⟩
  refine ⟨_,_,s,hk,hbelow hk,hs,?_,?_⟩
  · exact (hdeleted _ (Finset.mem_insert_self _ _) (List.prefix_append _ _) (hstill _)).1
  · exact hkept _ (Finset.mem_insert_of_mem (Finset.mem_singleton_self _)) hother (hstill _)

end Nivara.Cache
