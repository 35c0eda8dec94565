import Nivara.ServiceTokens.ServiceTokenService
import Nivara.Transactions.Run

/-! A service token is worth its row. Which tenant's rows are searched is said by the string itself; the hash over all of
it, the policy, the narrowing of the scopes and the conditional `UPDATE` decide what it is worth. -/
namespace Nivara.ServiceTokens

def TokenAudit.revokes (k : Uuid) : TokenAudit → Bool
  | .revoked _ _ targetId _ => targetId = k
  | .minted _ _ _ _ _ => false

namespace Registry
open Authz Text Transactions

variable {δ ι : Type} {s s' : Registry δ ι} {i j : ι} {k : Uuid}

/-! ## What holds in every state -/

def gone (s : Registry δ ι) (k : Uuid) : Bool := (s.tokens.committed k).any fun r => r.revokedAt.isSome

structure Stays (r r' : ServiceToken δ) : Prop where
  tenantId : r'.tenantId = r.tenantId
  revokedAt : r.revokedAt ≠ none → r'.revokedAt ≠ none

theorem Stays.refl (r : ServiceToken δ) : Stays r r := ⟨rfl,fun h => h⟩

theorem Stays.trans {r r' r'' : ServiceToken δ} (h : Stays r r') (h' : Stays r' r'') : Stays r r'' :=
  ⟨h'.tenantId.trans h.tenantId,fun hr => h'.revokedAt (h.revokedAt hr)⟩

def MintedRow (sha256 : List UInt8 → δ) (s : Registry δ ι) (r : ServiceToken δ) : Prop :=
  ∃ j v input secret, s.requests j = some (.mint v input secret) ∧ isTenantIdShaped v.tenantId = true ∧
    r.tenantId = uuidOf v.tenantId ∧ r.tokenHash = hashServiceToken sha256 (mintServiceToken v.tenantId secret)

def MintedBy (s : Registry δ ι) (i : ι) (raw : Str) : Prop :=
  ∃ v input secret, s.requests i = some (.mint v input secret) ∧ isTenantIdShaped v.tenantId = true ∧
    raw = mintServiceToken v.tenantId secret

def Told (s : Registry δ ι) (i : ι) : TokenAnswer → Prop
  | .minted _ raw => s.MintedBy i raw
  | .revoked => ∃ v k t u name, s.requests i = some (.revoke v k) ∧ (i, .revoked t u k name) ∈ s.log
  | .refused code message => ∀ v k, s.requests i = some (.revoke v k) → .refused code message = alreadyRevoked → s.gone k = true
  | _ => True

/-- No string that was presented has the hash of another one that was minted. -/
def CollisionFree (sha256 : List UInt8 → δ) (s : Registry δ ι) : Prop :=
  ∀ i j raw v input secret, s.requests i = some (.verify raw) → s.requests j = some (.mint v input secret) →
    hashServiceToken sha256 raw = hashServiceToken sha256 (mintServiceToken v.tenantId secret) →
    encodeUtf8 raw = encodeUtf8 (mintServiceToken v.tenantId secret)

/-- The string was minted, its row is not revoked, and the principal has the tenant and no more than the scopes of that
row. -/
structure Worth (sha256 : List UInt8 → δ) (s : Registry δ ι) (raw : Str) (p : ServicePrincipal) : Prop where
  minted : ∃ j v input secret, s.requests j = some (.mint v input secret) ∧ raw = mintServiceToken v.tenantId secret ∧
    p.tenantId = uuidOf v.tenantId
  row : ∃ r, s.tokens.committed p.tokenId = some r ∧ r.tokenHash = hashServiceToken sha256 raw ∧ r.tenantId = p.tenantId ∧
    r.revokedAt = none ∧
    ∀ x ∈ permissionsFor (.service p.scopes), x.text ∈ r.scopes ∧ x ∈ supportWork ∧ x ∉ ungrantableScopes

def Returns (s : Registry δ ι) (i : ι) : TokenAnswer → Prop
  | .minted _ raw => s.MintedBy i raw
  | .revoked => ∃ v k t u name, s.requests i = some (.revoke v k) ∧ .revoked t u k name ∈ s.recorded i
  | .rescoped => s.recorded i = []
  | _ => False

variable [DecidableEq ι]

def marked (s : Registry δ ι) (i : ι) (k : Uuid) : Bool := (s.tokens.own i k).any (fun r => r.revokedAt.isSome) && !s.gone k

def Clean (s : Registry δ ι) (i : ι) : Prop := (∀ k, s.tokens.own i k = none) ∧ s.recorded i = []

def Fits (sha256 : List UInt8 → δ) (s : Registry δ ι) (i : ι) : TokenCall δ → Prop
  | .createToken v input _ secret => s.Clean i ∧ s.requests i = some (.mint v input secret) ∧ isTenantIdShaped v.tenantId = true
  | .auditMinted _ _ _ _ raw => s.MintedBy i raw ∧ s.recorded i = [] ∧ ∀ k, s.marked i k = false
  | .findUnique v k => s.Clean i ∧ s.requests i = some (.revoke v k)
  | .markRevoked v k _ => s.Clean i ∧ s.requests i = some (.revoke v k) ∧
      ∃ r, s.tokens.committed k = some r ∧ r.tenantId = uuidOf v.tenantId
  | .auditRevoked v k _ => s.requests i = some (.revoke v k) ∧ s.recorded i = [] ∧ ∀ k', s.marked i k' = decide (k' = k)
  | .findToken ref => s.Clean i ∧ ∃ raw, s.requests i = some (.verify raw) ∧ parseServiceToken sha256 raw = some ref
  | .setScopes _ _ => s.Clean i
  | .commit answer => s.Returns i answer ∧ ∀ k, (s.recorded i).countP (fun e => e.revokes k) = (s.marked i k).toNat
  | .rollback answer => s.Told i answer ∧ ∀ p, answer ≠ .principal (some p)
  | .reply answer => s.Clean i ∧ s.Told i answer ∧ ∀ p, answer ≠ .principal (some p)

structure Kept (sha256 : List UInt8 → δ) (s : Registry δ ι) : Prop where
  minted : ∀ k r, s.tokens.Version k r → s.MintedRow sha256 r
  stays : ∀ i k r r', s.tokens.committed k = some r → s.tokens.own i k = some r' → Stays r r'
  fits : ∀ i call, s.calls i = some call → s.Fits sha256 i call
  idle : ∀ i, s.calls i = none → s.Clean i
  once : ∀ k, s.log.countP (fun e => e.2.revokes k) = (s.gone k).toNat
  told : ∀ i a, (i, a) ∈ s.answers → s.Told i a ∧ s.requests i ≠ none ∧ s.calls i = none
  asked : ∀ i call, s.calls i = some call → s.requests i ≠ none
  wrote : ∀ i k e, e ∈ s.recorded i ∨ (i, e) ∈ s.log → e.revokes k = true → ∃ v, s.requests i = some (.revoke v k)
  logged : ∀ i e, (i, e) ∈ s.log → s.calls i = none ∧ s.requests i ≠ none
  winner : ∀ i a k e, (i, a) ∈ s.answers → (i, e) ∈ s.log → e.revokes k = true → a = .revoked

/-! ## What a step leaves of the others -/

/-- What the others leave to call `j`: its versions, what it holds, and what is committed. -/
structure Beside (s s' : Registry δ ι) (j : ι) : Prop where
  requests : s'.requests j = s.requests j
  own : ∀ k, s'.tokens.own j k = s.tokens.own j k
  locked : ∀ k r, s.tokens.own j k = some r → s'.tokens.committed k = s.tokens.committed k
  recorded : s'.recorded j = s.recorded j
  rows : ∀ k r, s.tokens.committed k = some r → ∃ r', s'.tokens.committed k = some r' ∧ Stays r r'
  log : ∀ e ∈ s.log, e ∈ s'.log
  logged : ∀ e, (j, e) ∈ s'.log → (j, e) ∈ s.log

omit [DecidableEq ι] in
private theorem MintedBy.same {raw : Str} (hrequests : s'.requests i = s.requests i) (h : s.MintedBy i raw) : s'.MintedBy i raw := by
  obtain ⟨v,input,secret,hreq,h⟩ := h
  exact ⟨v,input,secret,hrequests.trans hreq,h⟩

omit [DecidableEq ι] in
private theorem Told.mono {answer : TokenAnswer} (hrequests : s'.requests i = s.requests i)
    (hgone : ∀ k, s.gone k = true → s'.gone k = true) (hlog : ∀ e ∈ s.log, e ∈ s'.log) (h : s.Told i answer) : s'.Told i answer := by
  cases answer with
  | minted _ raw => exact MintedBy.same hrequests h
  | revoked =>
    obtain ⟨v,k,t,u,name,hreq,hm⟩ := h
    exact ⟨v,k,t,u,name,hrequests.trans hreq,hlog _ hm⟩
  | refused _ _ => exact fun v k hreq ha => hgone k (h v k (hrequests.symm.trans hreq) ha)
  | principal _ => trivial
  | rescoped => trivial
  | failed => trivial

namespace Beside
variable {sha256 : List UInt8 → δ}

omit [DecidableEq ι] in
private theorem gone_of_rows (h : ∀ k r, s.tokens.committed k = some r → ∃ r', s'.tokens.committed k = some r' ∧ Stays r r')
    (hk : s.gone k = true) : s'.gone k = true := by
  obtain ⟨r,hr,hrev⟩ := (Option.any_eq_true _ _).mp hk
  obtain ⟨r',hr',hstays⟩ := h k r hr
  exact (Option.any_eq_true _ _).mpr ⟨r',hr',Option.isSome_iff_ne_none.mpr (hstays.revokedAt (Option.isSome_iff_ne_none.mp hrev))⟩

private theorem clean (h : Beside s s' j) (hc : s.Clean j) : s'.Clean j :=
  ⟨fun k => (h.own k).trans (hc.1 k),h.recorded.trans hc.2⟩

private theorem told {answer : TokenAnswer} (h : Beside s s' j) (ht : s.Told j answer) : s'.Told j answer :=
  ht.mono h.requests (fun _ hk => gone_of_rows h.rows hk) h.log

private theorem marked_eq (h : Beside s s' j) : s'.marked j k = s.marked j k := by
  unfold marked Registry.gone
  rw [h.own k]
  cases ho : s.tokens.own j k with
  | none => rfl
  | some r => rw [h.locked k r ho]

private theorem returns {answer : TokenAnswer} (h : Beside s s' j) (hr : s.Returns j answer) : s'.Returns j answer := by
  cases answer with
  | minted _ raw => exact MintedBy.same h.requests hr
  | revoked =>
    obtain ⟨v,k,t,u,name,hreq,hm⟩ := hr
    exact ⟨v,k,t,u,name,h.requests.trans hreq,by rwa [h.recorded]⟩
  | rescoped => exact h.recorded.trans hr
  | refused _ _ => exact hr
  | principal _ => exact hr
  | failed => exact hr

private theorem wrote (h : Beside s s' j) (hk : s.Kept sha256) {e : TokenAudit} (he : e ∈ s'.recorded j ∨ (j, e) ∈ s'.log)
    (hrev : e.revokes k = true) : ∃ v, s'.requests j = some (.revoke v k) := by
  rw [h.requests]
  rcases he with he | he
  · exact hk.wrote j k e (.inl (by rwa [h.recorded] at he)) hrev
  · exact hk.wrote j k e (.inr (h.logged e he)) hrev

private theorem fits {call : TokenCall δ} (h : Beside s s' j) (hf : s.Fits sha256 j call) : s'.Fits sha256 j call := by
  cases call with
  | createToken _ _ _ _ => exact ⟨h.clean hf.1,h.requests.trans hf.2.1,hf.2.2⟩
  | auditMinted _ _ _ _ _ => exact ⟨MintedBy.same h.requests hf.1,h.recorded.trans hf.2.1,fun k => h.marked_eq.trans (hf.2.2 k)⟩
  | findUnique _ _ => exact ⟨h.clean hf.1,h.requests.trans hf.2⟩
  | markRevoked v k _ =>
    obtain ⟨hclean,hreq,r,hr,ht⟩ := hf
    obtain ⟨r',hr',hstays⟩ := h.rows k r hr
    exact ⟨h.clean hclean,h.requests.trans hreq,r',hr',hstays.tenantId.trans ht⟩
  | auditRevoked _ _ _ => exact ⟨h.requests.trans hf.1,h.recorded.trans hf.2.1,fun k => h.marked_eq.trans (hf.2.2 k)⟩
  | findToken _ =>
    obtain ⟨hclean,raw,hreq,hparse⟩ := hf
    exact ⟨h.clean hclean,raw,h.requests.trans hreq,hparse⟩
  | setScopes _ _ => exact h.clean hf
  | commit _ =>
    refine ⟨h.returns hf.1,fun k => ?_⟩
    rw [h.recorded, h.marked_eq]
    exact hf.2 k
  | rollback _ => exact ⟨h.told hf.1,hf.2⟩
  | reply _ => exact ⟨h.clean hf.1,h.told hf.2.1,hf.2.2⟩

end Beside

/-! ## The statements -/

/-- A statement of call `i` that commits nothing, and after which the call stands at `next`. -/
structure Statement (s s' : Registry δ ι) (i : ι) (next : TokenCall δ) : Prop where
  calls : s'.calls = Function.update s.calls i (some next)
  requests : s'.requests = s.requests
  answers : s'.answers = s.answers
  log : s'.log = s.log
  committed : s'.tokens.committed = s.tokens.committed
  own : ∀ j, j ≠ i → ∀ k, s'.tokens.own j k = s.tokens.own j k
  recorded : ∀ j, j ≠ i → s'.recorded j = s.recorded j

section Statements
variable {sha256 : List UInt8 → δ} {call next : TokenCall δ}

private theorem Statement.gone_eq (h : Statement s s' i next) : s'.gone = s.gone := by
  funext k
  unfold gone
  rw [h.committed]

private theorem Statement.beside (h : Statement s s' i next) (hj : j ≠ i) : Beside s s' j where
  requests := congrFun h.requests j
  own := h.own j hj
  locked _ _ _ := by rw [h.committed]
  recorded := h.recorded j hj
  rows k r hr := ⟨r,by rwa [h.committed],.refl r⟩
  log _ he := by rwa [h.log]
  logged _ he := by rwa [h.log] at he

/-- A statement after which its own call fits again keeps the books. -/
private theorem Statement.kept (h : Statement s s' i next) (hk : s.Kept sha256) (hcall : s.calls i = some call)
    (hminted : ∀ k r, s'.tokens.Version k r → s.MintedRow sha256 r)
    (hstays : ∀ k r r', s.tokens.committed k = some r → s'.tokens.own i k = some r' → Stays r r')
    (hwrote : ∀ k, ∀ e ∈ s'.recorded i, e.revokes k = true → ∃ v, s.requests i = some (.revoke v k))
    (hfits : s'.Fits sha256 i next) : s'.Kept sha256 := by
  have hother : ∀ j x, j ≠ i → s'.calls j = x → s.calls j = x := by
    intro j x hj hx
    rw [h.calls, Function.update_of_ne hj] at hx
    exact hx
  refine ⟨?_,?_,?_,?_,?_,?_,?_,?_,?_,?_⟩
  · intro k r hv
    obtain ⟨j,v,input,secret,hreq,hr⟩ := hminted k r hv
    exact ⟨j,v,input,secret,(congrFun h.requests j).trans hreq,hr⟩
  · intro j k r r' hr ho
    rw [h.committed] at hr
    by_cases hj : j = i
    · subst hj
      exact hstays k r r' hr ho
    · exact hk.stays j k r r' hr ((h.own j hj k).symm.trans ho)
  · intro j call' hc
    by_cases hj : j = i
    · subst hj
      rw [h.calls, Function.update_self] at hc
      cases hc
      exact hfits
    · exact (h.beside hj).fits (hk.fits j call' (hother j _ hj hc))
  · intro j hc
    have hj : j ≠ i := by
      rintro rfl
      rw [h.calls, Function.update_self] at hc
      cases hc
    exact (h.beside hj).clean (hk.idle j (hother j _ hj hc))
  · intro k
    rw [h.log, h.gone_eq]
    exact hk.once k
  · intro j a ha
    rw [h.answers] at ha
    obtain ⟨ht,hr,hc⟩ := hk.told j a ha
    have hj : j ≠ i := by
      rintro rfl
      cases hc.symm.trans hcall
    rw [h.requests, h.calls, Function.update_of_ne hj]
    exact ⟨(h.beside hj).told ht,hr,hc⟩
  · intro j call' hc
    rw [h.requests]
    by_cases hj : j = i
    · subst hj
      exact hk.asked j call hcall
    · exact hk.asked j call' (hother j _ hj hc)
  · intro j k e he hrev
    by_cases hj : j = i
    · subst hj
      rw [h.requests]
      rcases he with he | he
      · exact hwrote k e he hrev
      · exact hk.wrote j k e (.inr (by rwa [h.log] at he)) hrev
    · exact (h.beside hj).wrote hk he hrev
  · intro j e he
    rw [h.log] at he
    obtain ⟨hc,hr⟩ := hk.logged j e he
    have hj : j ≠ i := by
      rintro rfl
      cases hc.symm.trans hcall
    rw [h.requests, h.calls, Function.update_of_ne hj]
    exact ⟨hc,hr⟩
  · rw [h.answers, h.log]
    exact hk.winner

private theorem Kept.goto (h : s.Kept sha256) (hcall : s.calls i = some call) (hfits : (s.goto i next).Fits sha256 i next) :
    (s.goto i next).Kept sha256 :=
  Statement.kept ⟨rfl,rfl,rfl,rfl,rfl,fun _ _ _ => rfl,fun _ _ => rfl⟩ h hcall h.minted (h.stays i)
    (fun k e he => h.wrote i k e (.inl he)) hfits

private theorem Kept.record (h : s.Kept sha256) {entry : TokenAudit} (hcall : s.calls i = some call)
    (hentry : ∀ k, entry.revokes k = true → ∃ v, s.requests i = some (.revoke v k))
    (hfits : ((s.goto i next).record i entry).Fits sha256 i next) : ((s.goto i next).record i entry).Kept sha256 := by
  refine Statement.kept ⟨rfl,rfl,rfl,rfl,rfl,fun _ _ _ => rfl,fun _ hj => Function.update_of_ne hj _ _⟩ h hcall h.minted (h.stays i)
    (fun k e he hrev => ?_) hfits
  have he' : e ∈ s.recorded i ++ [entry] := (Function.update_self i (s.recorded i ++ [entry]) s.recorded) ▸ he
  rcases List.mem_append.mp he' with he | he
  · exact h.wrote i k e (.inl he) hrev
  · cases List.mem_singleton.mp he
    exact hentry k hrev

private theorem onToken_cases {p : ServiceToken δ → Bool} {f : ServiceToken δ → ServiceToken δ} {missed : TokenCall δ}
    (hs : s.onToken i k p f next missed = some s') :
    (s' = s.goto i missed ∧ ∀ r, s.tokens.visible i k = some r → p r = false) ∨
    ∃ r, s.tokens.free i [k] = true ∧ s.tokens.visible i k = some r ∧ p r = true ∧
      s' = { s.goto i next with tokens := s.tokens.write i [k] p f } := by
  obtain ⟨o,ho,rfl⟩ := Option.map_eq_some_iff.mp hs
  cases o with
  | none =>
    refine .inl ⟨rfl,fun r hv => ?_⟩
    unfold Table.updateById at ho
    split at ho
    · have hnone := Option.map_eq_none_iff.mp (Option.some.inj ho)
      rw [hv, Option.filter_eq_none_iff] at hnone
      simpa using hnone r rfl
    · cases ho
  | some q =>
    obtain ⟨t,row⟩ := q
    obtain ⟨r,hfree,hv,hp,rfl,rfl⟩ := Table.updateById_some _ _ _ ho
    exact .inr ⟨r,hfree,hv,hp,rfl⟩

/-- A call that has written nothing updates a row, which stays the token's. -/
private theorem Kept.update (h : s.Kept sha256) (hcall : s.calls i = some call) {p : ServiceToken δ → Bool}
    {f : ServiceToken δ → ServiceToken δ} (hfree : s.tokens.free i [k] = true)
    (hf : ∀ r, p r = true → Stays r (f r) ∧ (f r).tokenHash = r.tokenHash)
    (hfits : Fits sha256 { s.goto i next with tokens := s.tokens.write i [k] p f } i next) :
    Kept sha256 { s.goto i next with tokens := s.tokens.write i [k] p f } := by
  refine Statement.kept ⟨rfl,rfl,rfl,rfl,rfl,fun j hj _ => Table.own_write_other _ _ _ _ hj hfree,fun _ _ => rfl⟩ h hcall ?_ ?_
    (fun k e he => h.wrote i k e (.inl he)) hfits
  · intro k' r hv
    rcases Table.Version.of_write hfree hv with hold | ⟨r₀,hold,hp,rfl⟩
    · exact h.minted k' r hold
    · obtain ⟨j,v,input,secret,hreq,hshape,ht,hh⟩ := h.minted k' r₀ hold
      exact ⟨j,v,input,secret,hreq,hshape,(hf r₀ hp).1.tenantId.trans ht,(hf r₀ hp).2.trans hh⟩
  · intro k' r r' hr ho
    rcases Table.own_write_cases _ _ _ ho with ⟨r₀,_,hv,hp,rfl⟩ | ho
    · rcases Table.visible_cases _ _ _ hv with ho | ⟨_,hc⟩
      · exact (h.stays i k' r r₀ hr ho).trans (hf r₀ hp).1
      · cases hr.symm.trans hc
        exact (hf r hp).1
    · exact h.stays i k' r r' hr ho

private theorem marked_write (hclean : s.Clean i) {p : ServiceToken δ → Bool} {f : ServiceToken δ → ServiceToken δ}
    {r : ServiceToken δ} (hv : s.tokens.visible i k = some r) (hp : p r = true) (k' : Uuid) :
    marked { s.goto i next with tokens := s.tokens.write i [k] p f } i k' =
      (decide (k' = k) && ((f r).revokedAt.isSome && !s.gone k)) := by
  show (((s.tokens.write i [k] p f).own i k').any _ && !s.gone k') = _
  by_cases hk : k' = k
  · subst hk
    rw [Table.own_write_picked _ _ _ (List.mem_singleton_self k') hv hp]
    simp
  · rw [Table.own_write_self, if_neg (by simpa using hk), hclean.1 k']
    simp [hk]

private theorem gone_of_visible (hclean : s.Clean i) {r : ServiceToken δ} (hv : s.tokens.visible i k = some r) :
    s.gone k = r.revokedAt.isSome := by
  rw [Table.visible_of_no_own _ _ _ (hclean.1 k)] at hv
  simp [gone, hv]

private theorem Kept.createToken [DecidableEq δ] (h : s.Kept sha256) {v : StaffPrincipal} {input : MintTokenInput}
    {scopes : List Permission} {secret : Secret} (hcall : s.calls i = some (.createToken v input scopes secret))
    (hs : s.advance sha256 i (.createToken v input scopes secret) = some s') : s'.Kept sha256 := by
  obtain ⟨hclean,hreq,hshape⟩ := h.fits i _ hcall
  simp only [advance] at hs
  split at hs
  · cases hs
    exact h.goto hcall ⟨trivial,fun _ he => by cases he⟩
  · split at hs
    · cases hs
    · cases hs
      refine Statement.kept ⟨rfl,rfl,rfl,rfl,rfl,fun j hj _ => Table.own_insert_other _ _ _ _ hj,fun _ _ => rfl⟩ h hcall ?_ ?_
        (fun k e he => h.wrote i k e (.inl he)) ⟨⟨v,input,secret,hreq,hshape,rfl⟩,hclean.2,?_⟩
      · intro k r hv
        rcases Table.Version.of_insert hv with ⟨_,rfl⟩ | hold
        · exact ⟨i,v,input,secret,hreq,hshape,rfl,rfl⟩
        · exact h.minted k r hold
      · intro k r r' hr ho
        rcases Table.own_insert_cases _ _ _ _ ho with ⟨rfl,_,_⟩ | ho
        · have hfresh := s.tokens.committed_fresh s.tokens.size (Nat.le_refl _)
          cases hfresh.symm.trans hr
        · exact h.stays i k r r' hr ho
      · intro k
        have hown : ∀ r, (s.tokens.insert i ⟨uuidOf v.tenantId, input.name,
            hashServiceToken sha256 (mintServiceToken v.tenantId secret), scopes.map Permission.text, v.userId, none⟩).own i k = some r →
            r.revokedAt.isSome = false := by
          intro r ho
          rcases Table.own_insert_cases _ _ _ _ ho with ⟨_,_,rfl⟩ | ho
          · rfl
          · cases (hclean.1 k).symm.trans ho
        show (((s.tokens.insert i _).own i k).any _ && _) = false
        cases ho : (s.tokens.insert i ⟨uuidOf v.tenantId, input.name,
            hashServiceToken sha256 (mintServiceToken v.tenantId secret), scopes.map Permission.text, v.userId, none⟩).own i k with
        | none => rfl
        | some r => simp [hown r ho]

private theorem Kept.markRevoked [DecidableEq δ] (h : s.Kept sha256) {v : StaffPrincipal} {name : String}
    (hcall : s.calls i = some (.markRevoked v k name)) (hs : s.advance sha256 i (.markRevoked v k name) = some s') :
    s'.Kept sha256 := by
  obtain ⟨hclean,hreq,r₀,hr₀,ht₀⟩ := h.fits i _ hcall
  simp only [advance] at hs
  rcases onToken_cases hs with ⟨rfl,hmiss⟩ | ⟨r,hfree,hv,hp,rfl⟩
  · -- the row is there, so that it is revoked
    have hv₀ : s.tokens.visible i k = some r₀ := (Table.visible_of_no_own _ _ _ (hclean.1 k)).trans hr₀
    have hrev : r₀.revokedAt.isSome = true := by simpa [ht₀] using hmiss r₀ hv₀
    refine h.goto hcall ⟨fun v' k' hreq' _ => ?_,fun _ he => by cases he⟩
    cases hreq.symm.trans hreq'
    exact (gone_of_visible hclean hv₀).trans hrev
  · rw [Bool.and_eq_true] at hp
    refine h.update hcall hfree (fun _ _ => ⟨⟨rfl,fun _ he => by cases he⟩,rfl⟩) ⟨hreq,hclean.2,fun k' => ?_⟩
    rw [marked_write hclean hv (by simpa using hp), gone_of_visible hclean hv]
    simp [Option.isNone_iff_eq_none.mp hp.2]

private theorem Kept.setScopes [DecidableEq δ] (h : s.Kept sha256) {scopes : List String}
    (hcall : s.calls i = some (.setScopes k scopes)) (hs : s.advance sha256 i (.setScopes k scopes) = some s') : s'.Kept sha256 := by
  have hclean : s.Clean i := h.fits i _ hcall
  simp only [advance] at hs
  rcases onToken_cases hs with ⟨rfl,_⟩ | ⟨r,hfree,hv,hp,rfl⟩
  · refine h.goto hcall ⟨hclean.2,fun k' => ?_⟩
    have hmarked : (s.goto i (.commit .rescoped)).marked i k' = false := by
      show ((s.tokens.own i k').any _ && _) = false
      rw [hclean.1 k']
      rfl
    rw [hmarked]
    show (s.recorded i).countP _ = 0
    rw [hclean.2]
    rfl
  · refine h.update hcall hfree (fun _ _ => ⟨⟨rfl,fun hr => hr⟩,rfl⟩) ⟨hclean.2,fun k' => ?_⟩
    rw [marked_write hclean hv hp, gone_of_visible hclean hv]
    show (s.recorded i).countP _ = _
    rw [hclean.2]
    cases r.revokedAt <;> simp

end Statements

/-! ## The end of a call -/
section Ends
variable {sha256 : List UInt8 → δ} {call : TokenCall δ}

private theorem Kept.close (h : s.Kept sha256) (hcall : s.calls i = some call) (hcalls : s'.calls = Function.update s.calls i none)
    (hrequests : s'.requests = s.requests) (hanswers : s'.answers = s.answers) (hbeside : ∀ j, j ≠ i → Beside s s' j)
    (hclean : s'.Clean i) (hminted : ∀ k r, s'.tokens.Version k r → s.tokens.Version k r)
    (hlog : ∀ e, (i, e) ∈ s'.log → e ∈ s.recorded i ∨ (i, e) ∈ s.log)
    (honce : ∀ k, s'.log.countP (fun e => e.2.revokes k) = (s'.gone k).toNat) : s'.Kept sha256 := by
  have hother : ∀ j x, j ≠ i → s'.calls j = x → s.calls j = x := by
    intro j x hj hx
    rw [hcalls, Function.update_of_ne hj] at hx
    exact hx
  have hopen : ∀ j call', s'.calls j = some call' → j ≠ i := by
    rintro j call' hc rfl
    rw [hcalls, Function.update_self] at hc
    cases hc
  refine ⟨?_,?_,?_,?_,honce,?_,?_,?_,?_,?_⟩
  · intro k r hv
    obtain ⟨j,v,input,secret,hreq,hr⟩ := h.minted k r (hminted k r hv)
    exact ⟨j,v,input,secret,(congrFun hrequests j).trans hreq,hr⟩
  · intro j k r r' hr ho
    have hj : j ≠ i := by
      rintro rfl
      cases (hclean.1 k).symm.trans ho
    rw [(hbeside j hj).own k] at ho
    rw [(hbeside j hj).locked k r' ho] at hr
    exact h.stays j k r r' hr ho
  · exact fun j call' hc => (hbeside j (hopen j call' hc)).fits (h.fits j call' (hother j _ (hopen j call' hc) hc))
  · intro j hc
    by_cases hj : j = i
    · subst hj
      exact hclean
    · exact (hbeside j hj).clean (h.idle j (hother j _ hj hc))
  · intro j a ha
    rw [hanswers] at ha
    obtain ⟨ht,hr,hc⟩ := h.told j a ha
    have hj : j ≠ i := by
      rintro rfl
      cases hc.symm.trans hcall
    rw [hrequests, hcalls, Function.update_of_ne hj]
    exact ⟨(hbeside j hj).told ht,hr,hc⟩
  · intro j call' hc
    rw [hrequests]
    exact h.asked j call' (hother j _ (hopen j call' hc) hc)
  · intro j k e he hrev
    by_cases hj : j = i
    · subst hj
      rw [hrequests]
      rcases he with he | he
      · rw [hclean.2] at he
        cases he
      · exact h.wrote j k e (hlog e he) hrev
    · exact (hbeside j hj).wrote h he hrev
  · intro j e he
    rw [hrequests, hcalls]
    by_cases hj : j = i
    · subst hj
      exact ⟨Function.update_self ..,h.asked j call hcall⟩
    · rw [Function.update_of_ne hj]
      exact h.logged j e ((hbeside j hj).logged e he)
  · intro j a k e ha he hrev
    rw [hanswers] at ha
    have hj : j ≠ i := by
      rintro rfl
      cases (h.told j a ha).2.2.symm.trans hcall
    exact h.winner j a k e ha ((hbeside j hj).logged e he) hrev

/-- With a commit, a token is gone that was gone before or that the call has marked. -/
private theorem Kept.gone_commit (h : s.Kept sha256) (i : ι) (k : Uuid) :
    ((s.committed i).gone k).toNat = (s.gone k).toNat + (s.marked i k).toNat := by
  have hgone : (s.committed i).gone k = (s.tokens.visible i k).any fun r => r.revokedAt.isSome := rfl
  rw [hgone]
  cases ho : s.tokens.own i k with
  | none =>
    have hmarked : s.marked i k = false := by simp [marked, ho]
    rw [hmarked, Table.visible_of_no_own _ _ _ ho]
    rfl
  | some r' =>
    rw [Table.visible_of_own _ _ _ ho]
    have hmarked : s.marked i k = (r'.revokedAt.isSome && !s.gone k) := by simp [marked, ho]
    rw [hmarked, Option.any_some]
    cases hk : s.gone k with
    | false => simp
    | true =>
      obtain ⟨r,hr,hrev⟩ := (Option.any_eq_true _ _).mp hk
      have hrev' := (h.stays i k r r' hr ho).revokedAt (Option.isSome_iff_ne_none.mp hrev)
      simp [Option.isSome_iff_ne_none.mpr hrev']

private theorem Kept.beside_commit (h : s.Kept sha256) (i : ι) (hj : j ≠ i) : Beside s (s.committed i) j where
  requests := rfl
  own _ := Table.own_commit_other _ _ _ _ hj
  locked _ _ ho := Table.visible_of_no_own _ _ _ (Table.own_exclusive _ _ _ _ ho (Ne.symm hj))
  recorded := Function.update_of_ne hj _ _
  rows k r hr := by
    cases ho : s.tokens.own i k with
    | none => exact ⟨r,(Table.visible_of_no_own _ _ _ ho).trans hr,.refl r⟩
    | some r' => exact ⟨r',Table.visible_of_own _ _ _ ho,h.stays i k r r' hr ho⟩
  log _ he := List.mem_append_left _ he
  logged e he := by
    rcases List.mem_append.mp he with he | he
    · exact he
    · obtain ⟨_,_,heq⟩ := List.mem_map.mp he
      exact absurd (congrArg Prod.fst heq).symm hj

private theorem mem_log_committed {e : TokenAudit} (he : (i, e) ∈ (s.committed i).log) : e ∈ s.recorded i ∨ (i, e) ∈ s.log := by
  rcases List.mem_append.mp he with he | he
  · exact .inr he
  · obtain ⟨e',he',heq⟩ := List.mem_map.mp he
    cases heq
    exact .inl he'

private theorem Kept.commit (h : s.Kept sha256) {answer : TokenAnswer} (hcall : s.calls i = some (.commit answer)) :
    (s.committed i).Kept sha256 := by
  obtain ⟨_,hbalanced⟩ := h.fits i _ hcall
  refine h.close hcall rfl rfl rfl (fun j hj => h.beside_commit i hj)
    ⟨Table.own_commit_self _ _,Function.update_self ..⟩ (fun _ _ hv => Table.Version.of_commit hv)
    (fun _ he => mem_log_committed he) fun k => ?_
  show (s.log ++ (s.recorded i).map (i, ·)).countP _ = _
  rw [List.countP_append, List.countP_map, h.once k, h.gone_commit i k]
  exact congrArg _ (hbalanced k)

private theorem Kept.rollback (h : s.Kept sha256) (hcall : s.calls i = some call) : (s.rolledBack i).Kept sha256 :=
  h.close hcall rfl rfl rfl
    (fun _ hj => ⟨rfl,fun _ => Table.own_rollback_other _ _ _ _ hj,fun _ _ _ => rfl,Function.update_of_ne hj _ _,
      fun _ r hr => ⟨r,hr,.refl r⟩,fun _ he => he,fun _ he => he⟩)
    ⟨Table.own_rollback_self _ _,Function.update_self ..⟩ (fun _ _ hv => Table.Version.of_rollback hv)
    (fun _ he => .inr he) h.once

private theorem Kept.closed (h : s.Kept sha256) (hcall : s.calls i = some call) (hclean : s.Clean i) : (s.closed i).Kept sha256 :=
  h.close hcall rfl rfl rfl
    (fun _ hj => ⟨rfl,fun _ => rfl,fun _ _ _ => rfl,Function.update_of_ne hj _ _,fun _ r hr => ⟨r,hr,.refl r⟩,fun _ he => he,fun _ he => he⟩)
    ⟨hclean.1,Function.update_self ..⟩ (fun _ _ hv => hv) (fun _ he => .inr he) h.once

private theorem Kept.answered (h : s.Kept sha256) {answer : TokenAnswer} (ht : s.Told i answer) (hr : s.requests i ≠ none)
    (hc : s.calls i = none) (hwinner : ∀ k e, (i, e) ∈ s.log → e.revokes k = true → answer = .revoked) :
    (s.answered i answer).Kept sha256 := by
  have hbeside : ∀ j, Beside s (s.answered i answer) j := fun j =>
    ⟨rfl,fun _ => rfl,fun _ _ _ => rfl,rfl,fun _ r hr => ⟨r,hr,.refl r⟩,fun _ he => he,fun _ he => he⟩
  refine ⟨h.minted,h.stays,fun j call hj => (hbeside j).fits (h.fits j call hj),h.idle,h.once,?_,h.asked,h.wrote,h.logged,?_⟩
  · intro j a ha
    rcases List.mem_append.mp ha with ha | ha
    · obtain ⟨ht,hr,hc⟩ := h.told j a ha
      exact ⟨(hbeside j).told ht,hr,hc⟩
    · cases List.mem_singleton.mp ha
      exact ⟨(hbeside i).told ht,hr,hc⟩
  · intro j a k e ha he hrev
    rcases List.mem_append.mp ha with ha | ha
    · exact h.winner j a k e ha he hrev
    · cases List.mem_singleton.mp ha
      exact hwinner k e he hrev

end Ends

/-! ## Every step -/
section Steps
variable [DecidableEq δ] {sha256 : List UInt8 → δ} {call : TokenCall δ}

private theorem Kept.advance (h : s.Kept sha256) (hcall : s.calls i = some call) (hs : s.advance sha256 i call = some s') :
    s'.Kept sha256 := by
  have hfits := h.fits i call hcall
  have hasked := h.asked i call hcall
  have hunlogged : ∀ answer k e, (i, e) ∈ s.log → e.revokes k = true → answer = TokenAnswer.revoked :=
    fun _ _ e he _ => by cases (h.logged i e he).1.symm.trans hcall
  cases call with
  | createToken v input scopes secret => exact h.createToken hcall hs
  | auditMinted v k name scopes raw =>
    obtain ⟨hmint,hempty,hnone⟩ := hfits
    cases hs
    refine h.record hcall (fun _ he => by cases he) ⟨hmint,fun k' => ?_⟩
    show (Function.update s.recorded i (s.recorded i ++ [_]) i).countP _ = (s.marked i k').toNat
    rw [Function.update_self, hempty, hnone k']
    rfl
  | findUnique v k =>
    obtain ⟨hclean,hreq⟩ := hfits
    simp only [Registry.advance] at hs
    split at hs
    · cases hs
      exact h.goto hcall ⟨fun _ _ _ ha => absurd ha (by decide),fun _ he => by cases he⟩
    · rename_i existing hfound
      cases hs
      obtain ⟨hv,ht⟩ := Option.filter_eq_some_iff.mp hfound
      rw [Table.visible_of_no_own _ _ _ (hclean.1 k)] at hv
      exact h.goto hcall ⟨hclean,hreq,existing,hv,of_decide_eq_true ht⟩
  | markRevoked v k name => exact h.markRevoked hcall hs
  | auditRevoked v k name =>
    obtain ⟨hreq,hempty,hmarked⟩ := hfits
    cases hs
    have hrecorded : Registry.recorded ((s.goto i (.commit .revoked)).record i (.revoked (uuidOf v.tenantId) v.userId k name)) i =
        [.revoked (uuidOf v.tenantId) v.userId k name] := by
      show Function.update s.recorded i (s.recorded i ++ [_]) i = _
      rw [Function.update_self, hempty]
      rfl
    refine h.record hcall ?_ ⟨⟨v,k,uuidOf v.tenantId,v.userId,name,hreq,?_⟩,fun k' => ?_⟩
    · intro k' he
      cases of_decide_eq_true he
      exact ⟨v,hreq⟩
    · rw [hrecorded]
      exact List.mem_singleton_self _
    · rw [hrecorded]
      show _ = (s.marked i k').toNat
      rw [hmarked k']
      by_cases hk : k' = k
      · subst hk
        simp [TokenAudit.revokes]
      · simp [TokenAudit.revokes, hk, Ne.symm hk]
  | findToken ref =>
    cases hs
    exact (h.closed hcall hfits.1).answered trivial hasked (Function.update_self ..) (hunlogged _)
  | setScopes k scopes => exact h.setScopes hcall hs
  | commit answer =>
    cases hs
    refine (h.commit hcall).answered ?_ hasked (Function.update_self ..) ?_
    · cases answer with
      | minted k raw => exact MintedBy.same (s := s) rfl hfits.1
      | revoked =>
        obtain ⟨v,k,t,u,name,hreq,hm⟩ := hfits.1
        exact ⟨v,k,t,u,name,hreq,List.mem_append_right _ (List.mem_map.mpr ⟨_,hm,rfl⟩)⟩
      | refused code message => exact absurd hfits.1 id
      | principal p => trivial
      | rescoped => trivial
      | failed => trivial
    · -- what the call has recorded, it has recorded as a revoke
      intro k e he hrev
      rcases mem_log_committed he with he | he
      · obtain ⟨w,hreq⟩ := h.wrote i k e (.inl he) hrev
        cases answer with
        | minted k' raw =>
          obtain ⟨v,input,secret,hmint,_⟩ := hfits.1
          cases hreq.symm.trans hmint
        | revoked => rfl
        | rescoped =>
          rw [show s.recorded i = [] from hfits.1] at he
          cases he
        | refused code message => exact absurd hfits.1 id
        | principal p => exact absurd hfits.1 id
        | failed => exact absurd hfits.1 id
      · exact hunlogged answer k e he hrev
  | rollback answer =>
    cases hs
    exact (h.rollback hcall).answered (hfits.1.mono (s := s) rfl (fun _ hk => hk) fun _ he => he) hasked (Function.update_self ..)
      (hunlogged answer)
  | reply answer =>
    cases hs
    exact (h.closed hcall hfits.1).answered (hfits.2.1.mono (s := s) rfl (fun _ hk => hk) fun _ he => he) hasked
      (Function.update_self ..) (hunlogged answer)

omit [DecidableEq δ] [DecidableEq ι] in
private theorem refused_of_acceptedScopes {requested : List String} {answer : TokenAnswer} (h : acceptedScopes requested = .error answer) :
    ∃ message, answer = .refused "validation_failed" message := by
  unfold acceptedScopes at h
  split at h
  · cases h
  · cases h
    exact ⟨_,rfl⟩
  · cases h
    exact ⟨_,rfl⟩
  · cases h
    exact ⟨_,rfl⟩

omit [DecidableEq δ] in
private theorem Kept.begin (h : s.Kept sha256) {request : TokenRequest} (hfree : s.requests i = none) :
    Kept sha256 { s.goto i (request.start sha256) with requests := Function.update s.requests i (some request) } := by
  have hidle : s.calls i = none := by
    cases hc : s.calls i with
    | none => rfl
    | some call => exact absurd hfree (h.asked i call hc)
  have hclean := h.idle i hidle
  have hne : ∀ j, s.requests j ≠ none → j ≠ i := by
    rintro j hj rfl
    exact hj hfree
  have hbeside : ∀ j, j ≠ i → Beside s
      { s.goto i (request.start sha256) with requests := Function.update s.requests i (some request) } j := fun j hj =>
    ⟨Function.update_of_ne hj _ _,fun _ => rfl,fun _ _ _ => rfl,rfl,fun _ r hr => ⟨r,hr,.refl r⟩,fun _ he => he,fun _ he => he⟩
  refine ⟨?_,h.stays,?_,?_,h.once,?_,?_,?_,?_,h.winner⟩
  · intro k r hv
    obtain ⟨j,v,input,secret,hreq,hr⟩ := h.minted k r hv
    have hj : j ≠ i := hne j (by rw [hreq]; exact fun he => by cases he)
    exact ⟨j,v,input,secret,(Function.update_of_ne hj _ _).trans hreq,hr⟩
  · intro j call hc
    by_cases hj : j = i
    · subst hj
      cases (Function.update_self ..).symm.trans hc
      cases request with
      | mint v input secret =>
        simp only [TokenRequest.start]
        split
        · rename_i answer hrefused
          obtain ⟨message,rfl⟩ := refused_of_acceptedScopes hrefused
          refine ⟨hclean,fun v' k hreq _ => ?_,fun _ he => by cases he⟩
          cases (Function.update_self ..).symm.trans hreq
        · split
          · rename_i hshape
            exact ⟨hclean,Function.update_self ..,hshape⟩
          · exact ⟨hclean,trivial,fun _ he => by cases he⟩
      | revoke v k =>
        simp only [TokenRequest.start]
        split
        · exact ⟨hclean,Function.update_self ..⟩
        · exact ⟨hclean,trivial,fun _ he => by cases he⟩
      | verify raw =>
        simp only [TokenRequest.start]
        split
        · exact ⟨hclean,trivial,fun _ he => by cases he⟩
        · rename_i ref hparse
          exact ⟨hclean,raw,Function.update_self ..,hparse⟩
      | rescope k scopes => exact hclean
    · exact (hbeside j hj).fits (h.fits j call ((Function.update_of_ne hj _ _).symm.trans hc))
  · intro j hc
    have hj : j ≠ i := by
      rintro rfl
      cases (Function.update_self ..).symm.trans hc
    exact (hbeside j hj).clean (h.idle j ((Function.update_of_ne hj _ _).symm.trans hc))
  · intro j a ha
    obtain ⟨ht,hr,hc⟩ := h.told j a ha
    have hj := hne j hr
    exact ⟨(hbeside j hj).told ht,by simpa [hj] using hr,(Function.update_of_ne hj _ _).trans hc⟩
  · intro j call hc
    show Function.update s.requests i (some request) j ≠ none
    by_cases hj : j = i
    · subst hj
      rw [Function.update_self]
      exact fun he => by cases he
    · rw [Function.update_of_ne hj]
      exact h.asked j call ((Function.update_of_ne hj _ _).symm.trans hc)
  · intro j k e he hrev
    obtain ⟨v,hreq⟩ := h.wrote j k e he hrev
    have hj : j ≠ i := hne j (by rw [hreq]; exact fun he => by cases he)
    exact ⟨v,(Function.update_of_ne hj _ _).trans hreq⟩
  · intro j e he
    obtain ⟨hc,hr⟩ := h.logged j e he
    have hj := hne j hr
    exact ⟨(Function.update_of_ne hj _ _).trans hc,by simpa [hj] using hr⟩

/-- The step lemma. -/
theorem Kept.step (h : s.Kept sha256) {a : TokenAction ι} (hs : s.step sha256 a = some s') : s'.Kept sha256 := by
  cases a with
  | tick now =>
    simp only [Registry.step] at hs
    split at hs
    · cases hs
      have hbeside : ∀ j, Beside s { s with clock := now } j := fun j =>
        ⟨rfl,fun _ => rfl,fun _ _ _ => rfl,rfl,fun _ r hr => ⟨r,hr,.refl r⟩,fun _ he => he,fun _ he => he⟩
      exact ⟨h.minted,h.stays,fun j call hj => (hbeside j).fits (h.fits j call hj),h.idle,h.once,
        fun j a ha => ⟨(hbeside j).told (h.told j a ha).1,(h.told j a ha).2⟩,h.asked,h.wrote,h.logged,h.winner⟩
    · cases hs
  | begin i request =>
    simp only [Registry.step] at hs
    split at hs
    · rename_i hfree
      cases hs
      exact h.begin hfree
    · cases hs
  | advance i =>
    obtain ⟨call,hcall,hs⟩ := Option.bind_eq_some_iff.mp hs
    exact h.advance hcall hs
  | abort i =>
    obtain ⟨call,hcall,rfl⟩ := Option.map_eq_some_iff.mp hs
    exact (h.rollback hcall).answered trivial (h.asked i call hcall) (Function.update_self ..)
      fun _ e he _ => by cases (h.logged i e he).1.symm.trans hcall
  | lose i =>
    simp only [Registry.step] at hs
    split at hs
    · rename_i answer hcall
      cases hs
      exact h.commit hcall
    · cases hs

end Steps

/-! ## What a token is worth -/
section Results
variable [DecidableEq δ] {sha256 : List UInt8 → δ} {a : TokenAction ι} {p : ServicePrincipal} {acts : List (TokenAction ι)}

omit [DecidableEq δ] in
theorem kept_initial : (initial : Registry δ ι).Kept sha256 where
  minted _ _ hv := by
    rcases hv with h | ⟨_,h⟩
    · cases h
    · cases h
  stays _ _ _ _ hr := by cases hr
  fits _ _ hc := by cases hc
  idle _ _ := ⟨fun _ => rfl,rfl⟩
  once _ := rfl
  told _ _ ha := by cases ha
  asked _ _ hc := by cases hc
  wrote _ _ _ he := by
    rcases he with h | h
    · cases h
    · cases h
  logged _ _ he := by cases he
  winner _ _ _ _ ha := by cases ha

private theorem Kept.principal_of_step (h : s.Kept sha256) (hs : s.step sha256 a = some s')
    (hp : (i, .principal (some p)) ∈ s'.answers) :
    (i, .principal (some p)) ∈ s.answers ∨ ∃ ref, s.calls i = some (.findToken ref) ∧ s.lookup i ref = some p := by
  have happend : ∀ j answer, (i, TokenAnswer.principal (some p)) ∈ s.answers ++ [(j, answer)] →
      (∀ q, answer ≠ .principal (some q)) → (i, .principal (some p)) ∈ s.answers := by
    intro j answer hm hne
    rcases List.mem_append.mp hm with hm | hm
    · exact hm
    · cases List.mem_singleton.mp hm
      exact absurd rfl (hne p)
  cases a with
  | tick now =>
    simp only [Registry.step] at hs
    split at hs
    · cases hs
      exact .inl hp
    · cases hs
  | begin j request =>
    simp only [Registry.step] at hs
    split at hs
    · cases hs
      exact .inl hp
    · cases hs
  | abort j =>
    obtain ⟨_,_,rfl⟩ := Option.map_eq_some_iff.mp hs
    exact .inl (happend j _ hp fun _ he => by cases he)
  | lose j =>
    simp only [Registry.step] at hs
    split at hs
    · cases hs
      exact .inl hp
    · cases hs
  | advance j =>
    obtain ⟨call,hcall,hs⟩ := Option.bind_eq_some_iff.mp hs
    have hfits := h.fits j call hcall
    cases call with
    | createToken v input scopes secret =>
      simp only [Registry.advance] at hs
      split at hs
      · cases hs
        exact .inl hp
      · split at hs
        · cases hs
        · cases hs
          exact .inl hp
    | auditMinted v k name scopes raw =>
      cases hs
      exact .inl hp
    | findUnique v k =>
      simp only [Registry.advance] at hs
      split at hs
      all_goals
        cases hs
        exact .inl hp
    | markRevoked v k name =>
      simp only [Registry.advance] at hs
      rcases onToken_cases hs with ⟨rfl,_⟩ | ⟨_,_,_,_,rfl⟩
      · exact .inl hp
      · exact .inl hp
    | auditRevoked v k name =>
      cases hs
      exact .inl hp
    | findToken ref =>
      cases hs
      rcases List.mem_append.mp hp with hp | hp
      · exact .inl hp
      · obtain ⟨rfl,he⟩ := Prod.mk.inj (List.mem_singleton.mp hp)
        exact .inr ⟨ref,hcall,(TokenAnswer.principal.inj he).symm⟩
    | setScopes k scopes =>
      simp only [Registry.advance] at hs
      rcases onToken_cases hs with ⟨rfl,_⟩ | ⟨_,_,_,_,rfl⟩
      · exact .inl hp
      · exact .inl hp
    | commit answer =>
      cases hs
      refine .inl (happend j answer hp ?_)
      rintro q rfl
      exact hfits.1
    | rollback answer =>
      cases hs
      exact .inl (happend j answer hp hfits.2)
    | reply answer =>
      cases hs
      exact .inl (happend j answer hp hfits.2.2)

/-- What `verify` finds, it finds in a committed row with the hash of the whole string. -/
private theorem Kept.worth (h : s.Kept sha256) (hfree : s.CollisionFree sha256) {ref : ServiceTokenRef δ}
    (hcall : s.calls i = some (.findToken ref)) (hp : s.lookup i ref = some p) :
    ∃ raw, s.requests i = some (.verify raw) ∧ s.Worth sha256 raw p := by
  obtain ⟨hclean,raw,hreq,hparse⟩ := h.fits i _ hcall
  unfold lookup at hp
  split at hp
  · cases hp
  · rename_i k r hfound
    obtain ⟨hv,hpred⟩ := Table.locate_some _ _ _ hfound
    rw [Table.visible_of_no_own _ _ _ (hclean.1 k)] at hv
    rw [Bool.and_eq_true, decide_eq_true_eq, decide_eq_true_eq] at hpred
    split at hp
    · cases hp
    · rename_i hlive
      cases hp
      have hhash : r.tokenHash = hashServiceToken sha256 raw := hpred.2.trans (tokenHash_of_parse hparse)
      obtain ⟨j,v,input,secret,hmint,hshape,ht,hh⟩ := h.minted k r (.inl hv)
      have hraw := eq_mint_of_encodeUtf8 hshape secret (hfree i j raw v input secret hreq hmint (hhash.symm.trans hh))
      refine ⟨raw,hreq,⟨j,v,input,secret,hmint,hraw,ht⟩,r,hv,hhash,rfl,?_,fun x hx => permissionsFor_service hx⟩
      simpa using hlive

omit [DecidableEq δ] in
/-- A minted token is accepted by the grammar, with the tenant it was minted for. -/
private theorem Kept.parsed (h : s.Kept sha256) {raw : Str} (ha : (i, .minted k raw) ∈ s.answers) :
    ∃ v input secret, s.requests i = some (.mint v input secret) ∧ raw = mintServiceToken v.tenantId secret ∧
      parseServiceToken sha256 raw = some ⟨v.tenantId, hashServiceToken sha256 raw⟩ := by
  obtain ⟨⟨v,input,secret,hreq,hshape,rfl⟩,_⟩ := h.told i _ ha
  exact ⟨v,input,secret,hreq,rfl,parse_mint sha256 hshape secret⟩

omit [DecidableEq δ] in
private theorem Kept.gone_of_answer (h : s.Kept sha256) {v : StaffPrincipal} {answer : TokenAnswer}
    (hreq : s.requests i = some (.revoke v k)) (ha : (i, answer) ∈ s.answers) (hor : answer = .revoked ∨ answer = alreadyRevoked) :
    s.gone k = true := by
  have ht := (h.told i _ ha).1
  rcases hor with rfl | rfl
  · obtain ⟨v',k',t,u,name,hreq',hm⟩ := ht
    cases hreq.symm.trans hreq'
    by_contra hgone
    have hnone : s.log.countP (fun e => e.2.revokes k) = 0 := by
      rw [h.once k, Bool.eq_false_iff.mpr hgone]
      rfl
    exact List.countP_eq_zero.mp hnone _ hm (decide_eq_true rfl)
  · exact ht v k hreq rfl

omit [DecidableEq δ] in
/-- Of the revokes of a token, one has written the row, and it is the one that is told so. -/
private theorem Kept.exactly (h : s.Kept sha256) (hk : s.gone k = true) :
    ∃ j w e, s.requests j = some (.revoke w k) ∧ s.log.filter (fun e => e.2.revokes k) = [(j, e)] ∧
      ∀ i v answer, s.requests i = some (.revoke v k) → (i, answer) ∈ s.answers → (answer = .revoked ↔ i = j) := by
  have hlen : (s.log.filter fun e => e.2.revokes k).length = 1 := by
    rw [← List.countP_eq_length_filter, h.once k, hk]
    rfl
  obtain ⟨⟨j,e⟩,hfilter⟩ := List.length_eq_one_iff.mp hlen
  obtain ⟨hm,hrev⟩ := List.mem_filter.mp (hfilter ▸ List.mem_singleton_self (j, e))
  obtain ⟨w,hreq⟩ := h.wrote j k e (.inr hm) hrev
  refine ⟨j,w,e,hreq,hfilter,fun i v answer hi ha => ⟨?_,?_⟩⟩
  · rintro rfl
    obtain ⟨v',k',t,u,name,hi',hmi⟩ := (h.told i _ ha).1
    cases hi.symm.trans hi'
    have hmem : (i, TokenAudit.revoked t u k name) ∈ s.log.filter fun e => e.2.revokes k :=
      List.mem_filter.mpr ⟨hmi,decide_eq_true rfl⟩
    rw [hfilter] at hmem
    exact congrArg Prod.fst (List.mem_singleton.mp hmem)
  · rintro rfl
    exact h.winner i answer k e ha hm hrev

/-- What is true of a state of the registry, and of every step that it takes. -/
structure WorthItsRow (sha256 : List UInt8 → δ) (s : Registry δ ι) : Prop where
  verified : ∀ a s' i p, s.step sha256 a = some s' → (i, .principal (some p)) ∈ s'.answers →
    (i, .principal (some p)) ∈ s.answers ∨ ∃ raw, s.requests i = some (.verify raw) ∧ s.Worth sha256 raw p
  parsed : ∀ i k raw, (i, .minted k raw) ∈ s.answers → ∃ v input secret, s.requests i = some (.mint v input secret) ∧
    raw = mintServiceToken v.tenantId secret ∧ parseServiceToken sha256 raw = some ⟨v.tenantId, hashServiceToken sha256 raw⟩
  once : ∀ k, (s.log.filter fun e => e.2.revokes k).length ≤ 1
  exactly : ∀ i v k answer, s.requests i = some (.revoke v k) → (i, answer) ∈ s.answers →
    (answer = .revoked ∨ answer = alreadyRevoked) →
    ∃ j w e, s.requests j = some (.revoke w k) ∧ s.log.filter (fun e => e.2.revokes k) = [(j, e)] ∧
      ∀ i v answer, s.requests i = some (.revoke v k) → (i, answer) ∈ s.answers → (answer = .revoked ↔ i = j)

/-- A service token is worth its row, in every interleaving of mints, revokes, foreign writes of the scopes and
presented strings, as long as the hash tells these from the minted ones. -/
theorem worthItsRow_of_run {s : Registry δ ι} (hfree : s.CollisionFree sha256)
    (hr : Run (step sha256) Always initial acts s) : s.WorthItsRow sha256 := by
  have h : s.Kept sha256 := hr.invariant kept_initial fun _ _ _ h _ hs => h.step hs
  refine ⟨?_,fun i k raw => h.parsed,?_,fun i v k answer hreq ha hor => h.exactly (h.gone_of_answer hreq ha hor)⟩
  · intro a s' i p hs hp
    rcases h.principal_of_step hs hp with hold | ⟨ref,hcall,hlookup⟩
    · exact .inl hold
    · exact .inr (h.worth hfree hcall hlookup)
  · intro k
    rw [← List.countP_eq_length_filter, h.once k]
    exact Bool.toNat_le _

end Results

private def admin : StaffPrincipal := ⟨units "00000000-0000-0000-0000-00000000000A", 7⟩
private def secret : Secret := ⟨List.replicate 32 255, rfl⟩
private def raw : Str := mintServiceToken admin.tenantId secret

/-- A token is minted and presented, another program widens its scopes, and two revokes meet. -/
private def tokenLife : List (TokenAction Nat) :=
  [.begin 0 (.mint admin ⟨"ai", ["ticket:read", "note:read"]⟩ secret), .advance 0, .advance 0, .advance 0,
   .begin 1 (.verify raw), .advance 1,
   .begin 2 (.rescope 0 ["ticket:read", "audit:read"]), .advance 2, .advance 2, .begin 3 (.verify raw), .advance 3,
   .begin 4 (.revoke admin 0), .begin 5 (.revoke admin 0), .advance 4, .advance 5, .advance 4, .advance 4, .advance 4, .advance 5,
   .advance 5, .begin 6 (.verify raw), .advance 6]

theorem worthItsRow_of_tokenLife : ∃ s : Registry (List UInt8) Nat, Run (step id) Always initial tokenLife s ∧
    s.answers = [(0, .minted 0 raw), (1, .principal (some ⟨10, 0, [.ticketRead, .noteRead]⟩)), (2, .rescoped),
      (3, .principal (some ⟨10, 0, [.ticketRead]⟩)), (4, .revoked), (5, alreadyRevoked), (6, .principal none)] ∧
    s.WorthItsRow id := by
  have hrun : (exec (step id) Always (initial : Registry (List UInt8) Nat) tokenLife).any (fun s =>
      s.answers = [(0, .minted 0 raw), (1, .principal (some ⟨10, 0, [.ticketRead, .noteRead]⟩)), (2, .rescoped),
        (3, .principal (some ⟨10, 0, [.ticketRead]⟩)), (4, .revoked), (5, alreadyRevoked), (6, .principal none)]) = true := by
    decide +kernel
  obtain ⟨s,hs,hp⟩ := exec_any hrun
  exact ⟨s,hs,of_decide_eq_true hp,worthItsRow_of_run (fun _ _ _ _ _ _ _ _ h => h) hs⟩

end Registry
end Nivara.ServiceTokens
