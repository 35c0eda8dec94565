import Nivara.Transactions.Program

/-! Proof outlines for interleaved transactions. Each program is checked on its own,
against assertions that survive whatever the other transactions do; the outlines of all
programs together give an invariant of every run. -/
namespace Nivara.Transactions

variable {ι U R α Req : Type} [DecidableEq ι]

/-- What transaction `i` may rely on while others take steps: its own versions and the rows
it has locked stay, committed rows only move up in `le`, and nothing committed is lost. -/
structure Rely (le : R → R → Prop) (i : ι) (d d' : Db ι U R α) : Prop where
  own : ∀ k, d'.table.own i k = d.table.own i k
  locked : ∀ k r, d.table.own i k = some r → d'.table.committed k = d.table.committed k
  grows : ∀ k r, d.table.committed k = some r → ∃ r', d'.table.committed k = some r' ∧ le r r'
  size : d.table.size ≤ d'.table.size
  supply : d.supply ≤ d'.supply
  waiting : d'.waiting i = d.waiting i
  applied : d'.applied i = d.applied i
  log : ∀ u ∈ d.log, u ∈ d'.log
  answers : ∀ a ∈ d.answers, a ∈ d'.answers

def Ordered (le : R → R → Prop) (d : Db ι U R α) : Prop :=
  ∀ i k r r', d.table.committed k = some r → d.table.own i k = some r' → le r r'

/-- Conditions on the moment at which an `UPDATE` takes its snapshot and on the moment at
which it writes. -/
structure Timing (ι U R α : Type) where
  snapshot : Db ι U R α → ι → U → Prop
  write : Db ι U R α → ι → U → Prop

def Timing.any : Timing ι U R α := ⟨fun _ _ _ => True, fun _ _ _ => True⟩

def Timing.Admits (T : Timing ι U R α) (s : System ι U R α) : Action ι Req → Prop
  | .advance i => ∀ u next, s.running i = some (.update u next) →
      (s.db.waiting i = none → T.snapshot s.db i u) ∧ (s.db.waiting i ≠ none → T.write s.db i u)
  | _ => True

/-! A step is admitted outright unless it is the snapshot or the write of an `UPDATE`. -/
section Admits
variable {T : Timing ι U R α} {s : System ι U R α} {i : ι} {u : U} {next : Nat → Prog U R α}

omit [DecidableEq ι] in
theorem Timing.admits_begin (i : ι) (req : Req) : T.Admits s (.begin i req) := trivial

omit [DecidableEq ι] in
theorem Timing.admits_read {p : Prog U R α} (hp : s.running i = some p) (h : ∀ u next, p ≠ .update u next) :
    T.Admits s (.advance i : Action ι Req) := by
  intro u next hu
  exact absurd (Option.some.inj (hp.symm.trans hu)) (h u next)

omit [DecidableEq ι] in
theorem Timing.admits_snapshot (hp : s.running i = some (.update u next)) (hw : s.db.waiting i = none)
    (h : T.snapshot s.db i u) : T.Admits s (.advance i : Action ι Req) := by
  intro v next' hv
  cases hp.symm.trans hv
  exact ⟨fun _ => h,fun hne => absurd hw hne⟩

omit [DecidableEq ι] in
theorem Timing.admits_write (hp : s.running i = some (.update u next)) (hw : s.db.waiting i ≠ none)
    (h : T.write s.db i u) : T.Admits s (.advance i : Action ι Req) := by
  intro v next' hv
  cases hp.symm.trans hv
  exact ⟨fun hnone => absurd hnone hw,fun _ => h⟩

end Admits

/-- A global invariant, the order rows move in, and the timing under which both are kept. -/
structure Discipline (ι α : Type) [DecidableEq ι] {U R : Type} (V : Updates U R) where
  le : R → R → Prop
  refl : ∀ r, le r r
  trans : ∀ r s t, le r s → le s t → le r t
  apply_le : ∀ u r, V.targets u r = true → le r (V.apply u r)
  inv : Db ι U R α → Prop
  timing : Timing ι U R α
  inv_rollback : ∀ d i, inv d → Ordered le d → inv (d.rollback i)

namespace Discipline
variable {V : Updates U R} (D : Discipline ι α V)

def Good (d : Db ι U R α) : Prop := D.inv d ∧ Ordered D.le d

def Stable (i : ι) (P : Db ι U R α → Prop) : Prop :=
  ∀ d d', D.Good d → D.Good d' → Rely D.le i d d' → P d → P d'

def SafeWrite (i : ι) (u : U) (W : Db ι U R α → Prop) (next : Nat → (Db ι U R α → Prop) → Prop) : Prop :=
  ∀ d ks, D.Good d → W d → d.waiting i = some (u, ks) → d.table.free i ks = true →
    D.timing.write d i u → D.inv (d.write V i u ks) ∧
      ∃ P, D.Stable i P ∧ P (d.write V i u ks) ∧ next (d.table.written i ks (V.targets u)) P

/-- `Safe i p P`: run from any good database with `P`, the program `p` of transaction `i`
keeps the invariant at each of its steps, between which anything the others may do happens. -/
def Safe (i : ι) : Prog U R α → (Db ι U R α → Prop) → Prop
  | .done a, P => ∀ d, D.Good d → P d → D.inv (d.commit i a)
  | .find p next, P => ∀ d, D.Good d → P d →
      ∃ Q, D.Stable i Q ∧ Q d ∧ Safe i (next (d.table.find i p)) Q
  | .insert row next, P => ∀ d, D.Good d → P d → D.inv (d.insert i row) ∧
      ∃ Q, D.Stable i Q ∧ Q (d.insert i row) ∧ Safe i (next d.supply) Q
  | .update u next, P => ∃ W, D.Stable i W ∧
      (∀ d, D.Good d → P d → D.timing.snapshot d i u →
        D.inv (d.snapshot V i u) ∧ W (d.snapshot V i u)) ∧
      D.SafeWrite i u W fun n Q => Safe i (next n) Q

theorem stable_idle (i : ι) : D.Stable i (Db.Idle i) := by
  rintro d d' _ _ hr ⟨ho,hw,ha⟩
  exact ⟨fun k => by rw [hr.own, ho],by rw [hr.waiting, hw],by rw [hr.applied, ha]⟩

theorem stable_and {i : ι} {P Q : Db ι U R α → Prop} (hP : D.Stable i P) (hQ : D.Stable i Q) :
    D.Stable i fun d => P d ∧ Q d :=
  fun d d' hd hd' hr h => ⟨hP d d' hd hd' hr h.1,hQ d d' hd hd' hr h.2⟩

end Discipline

/-! What a step of `j` looks like to every other transaction. -/
section Interference
variable {le : R → R → Prop} {i j : ι} {d : Db ι U R α} {V : Updates U R}

theorem rely_refl (hrefl : ∀ r, le r r) : Rely le i d d where
  own _ := rfl
  locked _ _ _ := rfl
  grows _ r hr := ⟨r,hr,hrefl r⟩
  size := Nat.le_refl _
  supply := Nat.le_refl _
  waiting := rfl
  applied := rfl
  log _ hu := hu
  answers _ ha := ha

theorem rely_insert (hrefl : ∀ r, le r r) (hij : i ≠ j) (row : Nat → R) :
    Rely le i d (d.insert j row) where
  own _ := Table.own_insert_other _ _ _ _ hij
  locked _ _ _ := rfl
  grows _ s hs := ⟨s,hs,hrefl s⟩
  size := Nat.le_succ _
  supply := Nat.le_succ _
  waiting := rfl
  applied := rfl
  log _ hu := hu
  answers _ ha := ha

theorem rely_snapshot (hrefl : ∀ r, le r r) (hij : i ≠ j) (u : U) : Rely le i d (d.snapshot V j u) where
  own _ := rfl
  locked _ _ _ := rfl
  grows _ r hr := ⟨r,hr,hrefl r⟩
  size := Nat.le_refl _
  supply := Nat.le_refl _
  waiting := Function.update_of_ne hij _ _
  applied := rfl
  log _ hu := hu
  answers _ ha := ha

theorem rely_write (hrefl : ∀ r, le r r) (hij : i ≠ j) {u : U} {ks : List Nat}
    (hf : d.table.free j ks = true) : Rely le i d (d.write V j u ks) where
  own _ := Table.own_write_other _ _ _ _ hij hf
  locked _ _ _ := rfl
  grows _ r hr := ⟨r,hr,hrefl r⟩
  size := Nat.le_refl _
  supply := Nat.le_refl _
  waiting := Function.update_of_ne hij _ _
  applied := Function.update_of_ne hij _ _
  log _ hu := hu
  answers _ ha := ha

theorem rely_commit (hrefl : ∀ r, le r r) (hord : Ordered le d) (hij : i ≠ j) (a : α) :
    Rely le i d (d.commit j a) where
  own _ := Table.own_commit_other _ _ _ _ hij
  locked k r hr :=
    Table.visible_of_no_own _ _ _ (Table.own_exclusive _ _ _ _ hr hij.symm)
  grows k r hr := by
    cases ho : d.table.own j k with
    | none => exact ⟨r,(Table.visible_of_no_own _ _ _ ho).trans hr,hrefl r⟩
    | some r' => exact ⟨r',Table.visible_of_own _ _ _ ho,hord j k r r' hr ho⟩
  size := Nat.le_refl _
  supply := Nat.le_refl _
  waiting := rfl
  applied := Function.update_of_ne hij _ _
  log _ hu := List.mem_append_left _ hu
  answers _ ha := List.mem_append_left _ ha

theorem rely_rollback (hrefl : ∀ r, le r r) (hij : i ≠ j) : Rely le i d (d.rollback j) where
  own _ := Table.own_rollback_other _ _ _ _ hij
  locked _ _ _ := rfl
  grows _ r hr := ⟨r,hr,hrefl r⟩
  size := Nat.le_refl _
  supply := Nat.le_refl _
  waiting := Function.update_of_ne hij _ _
  applied := Function.update_of_ne hij _ _
  log _ hu := hu
  answers _ ha := ha

theorem ordered_insert (hord : Ordered le d) (row : Nat → R) : Ordered le (d.insert j row) := by
  intro i k s s' hs ho
  have hk : k ≠ d.table.size := by
    have := Table.lt_size_of_committed d.table k hs
    omega
  have ho' : (d.table.insert j (row d.supply)).own i k = some s' := ho
  rw [Table.own_insert, if_neg hk] at ho'
  exact hord i k s s' hs ho'

theorem ordered_write (hord : Ordered le d) (htrans : ∀ r s t, le r s → le s t → le r t)
    (happly : ∀ u r, V.targets u r = true → le r (V.apply u r)) {u : U} {ks : List Nat}
    (hf : d.table.free j ks = true) : Ordered le (d.write V j u ks) := by
  intro i k s s' hs ho
  by_cases hij : i = j
  · subst hij
    rcases Table.own_write_cases _ _ _ ho with ⟨v,_,hv,hp,rfl⟩ | ho
    · -- the version written on is the committed one, or a later one of the same transaction
      rcases Table.visible_cases _ _ _ hv with hv | ⟨_,hv⟩
      · exact htrans _ _ _ (hord i k s v hs hv) (happly u v hp)
      · have hsv : s = v := Option.some.inj (hs.symm.trans hv)
        exact hsv ▸ happly u v hp
    · exact hord i k s s' hs ho
  · exact hord i k s s' hs ((Table.own_write_other _ _ _ _ hij hf).symm.trans ho)

theorem ordered_commit (hord : Ordered le d) (a : α) : Ordered le (d.commit j a) := by
  intro i k s s' hs ho
  by_cases hij : i = j
  · subst hij
    exact absurd ho (by simp [Db.commit])
  · have ho' := (Table.own_commit_other _ _ _ _ hij).symm.trans ho
    have hj := Table.own_exclusive _ _ _ _ ho' (Ne.symm hij)
    exact hord i k s s' ((Table.visible_of_no_own _ _ _ hj).symm.trans hs) ho'

theorem ordered_rollback (hord : Ordered le d) : Ordered le (d.rollback j) := by
  intro i k s s' hs ho
  by_cases hij : i = j
  · subst hij
    exact absurd ho (by simp [Db.rollback])
  · exact hord i k s s' hs ((Table.own_rollback_other _ _ _ _ hij).symm.trans ho)

end Interference

namespace Discipline
variable {V : Updates U R} (D : Discipline ι α V)

/-- The rest of `i`'s program has an outline that holds now, before or inside an `UPDATE`. -/
def Outlined (i : ι) (d : Db ι U R α) (p : Prog U R α) : Prop :=
  (d.waiting i = none ∧ ∃ P, D.Stable i P ∧ P d ∧ D.Safe i p P) ∨
  (∃ u ks next W, p = .update u next ∧ d.waiting i = some (u, ks) ∧ D.Stable i W ∧ W d ∧
    D.SafeWrite i u W fun n Q => D.Safe i (next n) Q)

def Covered (s : System ι U R α) : Prop :=
  D.Good s.db ∧ (∀ i, s.running i = none → s.db.Idle i) ∧
    ∀ i p, s.running i = some p → D.Outlined i s.db p

private theorem outlined_rely {i : ι} {d d' : Db ι U R α} {p : Prog U R α} (hd : D.Good d)
    (hd' : D.Good d') (hr : Rely D.le i d d') (h : D.Outlined i d p) : D.Outlined i d' p := by
  rcases h with ⟨hw,P,hP,hPd,hs⟩ | ⟨u,ks,next,W,rfl,hw,hW,hWd,hs⟩
  · exact .inl ⟨by rw [hr.waiting, hw],P,hP,hP d d' hd hd' hr hPd,hs⟩
  · exact .inr ⟨u,ks,next,W,rfl,by rw [hr.waiting, hw],hW,hW d d' hd hd' hr hWd,hs⟩

/-- A step of `i` to a good database keeps everything covered, if `i` itself stays covered. -/
private theorem covered_update {s : System ι U R α} {i : ι} {d : Db ι U R α} {q : Option (Prog U R α)}
    (hc : D.Covered s) (hd : D.Good d) (hr : ∀ j, j ≠ i → Rely D.le j s.db d)
    (hidle : q = none → d.Idle i) (hout : ∀ p, q = some p → D.Outlined i d p) :
    D.Covered ⟨d, Function.update s.running i q⟩ := by
  obtain ⟨hgood,hi,ho⟩ := hc
  refine ⟨hd,?_,?_⟩
  · intro j hj
    by_cases hji : j = i
    · subst hji
      exact hidle (by simpa using hj)
    · have hj' : s.running j = none := by simpa [hji] using hj
      exact D.stable_idle j _ _ hgood hd (hr j hji) (hi j hj')
  · intro j p hj
    by_cases hji : j = i
    · subst hji
      exact hout p (by simpa using hj)
    · have hj' : s.running j = some p := by simpa [hji] using hj
      exact D.outlined_rely hgood hd (hr j hji) (ho j p hj')

private theorem running_update (s : System ι U R α) (i : ι) {p : Prog U R α}
    (h : s.running i = some p) : s.running = Function.update s.running i (some p) := by
  rw [← h, Function.update_eq_self]

private theorem covered_advance {s s' : System ι U R α} {i : ι} {p : Prog U R α} (hc : D.Covered s)
    (hp : s.running i = some p) (hok : D.timing.Admits s (.advance i : Action ι Req))
    (hs : advance V s i p = some s') : D.Covered s' := by
  obtain ⟨hgood,_,ho⟩ := id hc
  have hout := ho i p hp
  cases p with
  | done a =>
    rcases hout with ⟨hw,P,_,hPd,hsafe⟩ | ⟨_,_,_,_,h,_⟩
    · cases hs
      refine D.covered_update hc ⟨hsafe _ hgood hPd,ordered_commit hgood.2 a⟩
        (fun j hj => rely_commit D.refl hgood.2 hj a) (fun _ => ?_) (fun _ h => by cases h)
      exact ⟨fun k => by simp [Db.commit],hw,by simp [Db.commit]⟩
    · cases h
  | find q next =>
    rcases hout with ⟨hw,P,_,hPd,hsafe⟩ | ⟨_,_,_,_,h,_⟩
    · cases hs
      obtain ⟨Q,hQ,hQd,hrest⟩ := hsafe _ hgood hPd
      refine D.covered_update hc hgood (fun j _ => rely_refl D.refl) (fun h => by cases h) (fun _ h => ?_)
      cases h
      exact .inl ⟨hw,Q,hQ,hQd,hrest⟩
    · cases h
  | insert row next =>
    rcases hout with ⟨hw,P,_,hPd,hsafe⟩ | ⟨_,_,_,_,h,_⟩
    · cases hs
      obtain ⟨hinv,Q,hQ,hQd,hrest⟩ := hsafe _ hgood hPd
      refine D.covered_update hc ⟨hinv,ordered_insert hgood.2 row⟩
        (fun j hj => rely_insert D.refl hj row) (fun h => by cases h) (fun _ h => ?_)
      cases h
      exact .inl ⟨hw,Q,hQ,hQd,hrest⟩
    · cases h
  | update u next =>
    rcases hout with ⟨hw,P,_,hPd,W,hW,hsnap,hwrite⟩ | ⟨u',ks,next',W,h,hw,hW,hWd,hwrite⟩
    · simp only [advance, hw] at hs
      cases hs
      obtain ⟨hinv,hWd⟩ := hsnap _ hgood hPd ((hok u next hp).1 hw)
      have hd : D.Good (s.db.snapshot V i u) := ⟨hinv,hgood.2⟩
      rw [running_update s i hp]
      refine D.covered_update hc hd (fun j hj => rely_snapshot D.refl hj u) (fun h => by cases h)
        (fun _ h => ?_)
      cases h
      exact .inr ⟨u,_,next,W,rfl,Function.update_self ..,hW,hWd,hwrite⟩
    · cases h
      simp only [advance, hw] at hs
      split at hs
      · rename_i hf
        cases hs
        obtain ⟨hinv,Q,hQ,hQd,hrest⟩ := hwrite _ ks hgood hWd hw hf ((hok u next hp).2 (by simp [hw]))
        refine D.covered_update hc ⟨hinv,ordered_write hgood.2 D.trans D.apply_le hf⟩
          (fun j hj => rely_write D.refl hj hf) (fun h => by cases h) (fun _ h => ?_)
        cases h
        exact .inl ⟨Function.update_self ..,Q,hQ,hQd,hrest⟩
      · cases hs

/-- Soundness: when every program has an outline from the idle state, the invariant holds in
every state of every interleaving that respects the timing. -/
theorem sound {prog : Req → Prog U R α} (hsafe : ∀ i req, D.Safe i (prog req) (Db.Idle i))
    (hinit : D.inv Db.empty) {acts : List (Action ι Req)} {s : System ι U R α}
    (hr : Run (step V prog) D.timing.Admits System.initial acts s) : D.Good s.db := by
  have hcovered : D.Covered s := by
    refine hr.invariant ?_ ?_
    · refine ⟨⟨hinit,fun _ _ _ _ h => by cases h⟩,fun i _ => ⟨fun _ => rfl,rfl,rfl⟩,fun _ _ h => by cases h⟩
    · intro s a s' hc hok hs
      cases a with
      | begin i req =>
        simp only [step] at hs
        split at hs
        · rename_i hi
          cases hs
          refine D.covered_update hc hc.1 (fun j _ => rely_refl D.refl) (fun h => by cases h)
            (fun _ h => ?_)
          cases h
          exact .inl ⟨(hc.2.1 i hi).2.1,_,D.stable_idle i,hc.2.1 i hi,hsafe i req⟩
        · cases hs
      | advance i =>
        obtain ⟨p,hp,hadv⟩ := Option.bind_eq_some_iff.mp hs
        exact D.covered_advance hc hp hok hadv
      | abort i =>
        obtain ⟨p,_,rfl⟩ := Option.map_eq_some_iff.mp hs
        refine D.covered_update hc ⟨D.inv_rollback _ i hc.1.1 hc.1.2,ordered_rollback hc.1.2⟩
          (fun j hj => rely_rollback D.refl hj) (fun _ => ?_) (fun _ h => by cases h)
        exact ⟨fun k => by simp [Db.rollback],by simp [Db.rollback],by simp [Db.rollback]⟩
  exact hcovered.1

end Discipline
end Nivara.Transactions
