import Nivara.Gate.Guards

/-! Who gets past the guards: the holder of a credential that this server has given out and that is still good, on an
operation that asks for such a principal, and nobody else. -/
namespace Nivara.Gate
open Text Authz
open Idempotency (PrincipalKind)
open Transactions
open Limiter (RateLimitDecision isBlank trim)
open ServiceTokens (ServicePrincipal ServiceTokenRef hashServiceToken isServiceToken parseServiceToken serviceTokenPrefix uuidOf)
open Widget (Claims WidgetPrincipal WidgetSession nonEmptyString sessionFromClaims)

/-- The claims that were signed; the package adds these four of its own. -/
def Says (c claims : Claims) : Prop := ∀ key, key ∉ ["iss", "aud", "iat", "exp"] → c key = claims key

def Grant.Proper : Grant → Prop
  | .staff p _ => (uuid p.tenantId).isSome = true ∧ (uuid p.userId).isSome = true
  | .contact p _ => (uuid p.tenantId).isSome = true ∧ (uuid p.contactId).isSome = true
  | .widget tenantId sessionId _ => (uuid tenantId).isSome = true ∧ (uuid sessionId).isSome = true

section Backends
variable {δ ι : Type} [DecidableEq δ] [DecidableEq ι] (b : Backend δ ι) (granted : List Grant)

namespace Backend

def signatureOf (g : Grant) : Signature := g.signature b.config

def tokenOf (g : Grant) : Str := b.jwt.signAsync (b.signatureOf g)

/-- The package verifies the tokens that have been given out, with the options they were signed with and while they last,
and no others. A token is a JSON object in base64url, and more of it after a dot. -/
structure Honest : Prop where
  accepts : ∀ g ∈ granted, (b.signatureOf g).Lasts b.now →
    ∃ c, b.jwt.verifyAsync (b.tokenOf g) (b.signatureOf g).options b.now = some (some c) ∧ Says c (b.signatureOf g).claims
  refuses : ∀ token options claims, b.jwt.verifyAsync token options b.now = some claims →
    ∃ g ∈ granted, token = b.tokenOf g ∧ options = (b.signatureOf g).options ∧ (b.signatureOf g).Lasts b.now ∧
      ∃ c, claims = some c ∧ Says c (b.signatureOf g).claims
  compact : ∀ g ∈ granted, units "ey" <+: b.tokenOf g
  unbroken : ∀ g ∈ granted, ∀ c ∈ b.tokenOf g, isBlank c = false

/-- What a request is judged on is in order: only the server signs, and the hashes of the service tokens are unique. -/
structure Sound : Prop where
  honest : b.Honest granted
  proper : ∀ g ∈ granted, g.Proper
  unique : ∀ k k' r r', b.tokens.tokens.visible b.i k = some r → b.tokens.tokens.visible b.i k' = some r' →
    r.tokenHash = r'.tokenHash → k = k'

end Backend

inductive Bears : Str → RequestPrincipal → Prop
  | user {p : StaffPrincipal} {at' : Int} (mem : .staff p at' ∈ granted) (lasts : (b.signatureOf (.staff p at')).Lasts b.now) :
      Bears (b.tokenOf (.staff p at')) (.user p)
  | contact {p : ContactPrincipal} {at' : Int} (mem : .contact p at' ∈ granted)
      (lasts : (b.signatureOf (.contact p at')).Lasts b.now) : Bears (b.tokenOf (.contact p at')) (.contact p)
  | widget {tenantId sessionId : String} {at' : Int} {T k : Uuid} {r : WidgetSession}
      (mem : .widget tenantId sessionId at' ∈ granted) (lasts : (b.signatureOf (.widget tenantId sessionId at')).Lasts b.now)
      (tenant : uuid tenantId = some T) (session : uuid sessionId = some k)
      (row : b.visitors.sessions.visible b.i k = some r) (own : r.tenantId = T) (live : r.revokedAt = none)
      (current : b.now < r.expiresAt) :
      Bears (widgetTokenPrefix ++ b.tokenOf (.widget tenantId sessionId at')) (.widget ⟨T, k, r.contactId⟩)
  | service {raw : Str} {ref : ServiceTokenRef δ} {k : Uuid} {r : ServiceTokens.ServiceToken δ}
      (parsed : parseServiceToken b.sha256 raw = some ref) (row : b.tokens.tokens.visible b.i k = some r)
      (tenant : r.tenantId = uuidOf ref.tenantId) (hash : r.tokenHash = hashServiceToken b.sha256 raw)
      (live : r.revokedAt = none) : Bears raw (.service ⟨r.tenantId, k, grantedScopes r.scopes⟩)

end Backends

section Tokens
variable {δ ι : Type} [DecidableEq ι] {b : Backend δ ι} {granted : List Grant} {token : Str}
  {p : RequestPrincipal}

/-! ## The three kinds of token -/

private theorem ne_of_isSome {s : String} (h : (uuid s).isSome = true) : s ≠ "" := by
  rintro rfl
  revert h
  decide

private theorem nonEmpty_of_told {c claims : Claims} (h : Says c claims) (key : String) {s : String}
    (hkey : key ∉ ["iss", "aud", "iat", "exp"]) (hs : claims key = some (.text s)) (hne : s ≠ "") :
    nonEmptyString (c key) = some s := by
  rw [h key hkey, hs, nonEmptyString, if_neg hne]

private theorem principal_of_staff {c : Claims} {q : StaffPrincipal} (h : Says c (staffClaims q))
    (hq : (uuid q.tenantId).isSome = true ∧ (uuid q.userId).isSome = true) : principalFromClaims (some c) = some (.user q) := by
  have hsub := nonEmpty_of_told h "sub" (by decide) rfl (ne_of_isSome hq.2)
  have hten := nonEmpty_of_told h "tenantId" (by decide) rfl (ne_of_isSome hq.1)
  have hkind : c "kind" = some (.text "user") := h "kind" (by decide)
  have hrole : roleNamed (c "role") = some q.role := by
    have htext : staffClaims q "role" = some (.text (roleText q.role)) := rfl
    rw [h "role" (by decide), htext]
    cases q.role <;> rfl
  simp [principalFromClaims, hsub, hten, hkind, hrole]

private theorem principal_of_contact {c : Claims} {q : ContactPrincipal} (h : Says c (contactClaims q))
    (hq : (uuid q.tenantId).isSome = true ∧ (uuid q.contactId).isSome = true) :
    principalFromClaims (some c) = some (.contact q) := by
  have hsub := nonEmpty_of_told h "sub" (by decide) rfl (ne_of_isSome hq.2)
  have hten := nonEmpty_of_told h "tenantId" (by decide) rfl (ne_of_isSome hq.1)
  have hkind : c "kind" = some (.text "contact") := h "kind" (by decide)
  simp [principalFromClaims, hsub, hten, hkind]

private theorem session_of_widget {c : Claims} {tenantId sessionId : String} (h : Says c (widgetClaims tenantId sessionId))
    (hq : (uuid tenantId).isSome = true ∧ (uuid sessionId).isSome = true) :
    sessionFromClaims (some c) = some ⟨sessionId, tenantId⟩ := by
  have hsub := nonEmpty_of_told h "sub" (by decide) rfl (ne_of_isSome hq.2)
  have hten := nonEmpty_of_told h "tenantId" (by decide) rfl (ne_of_isSome hq.1)
  have hkind : c "kind" = some (.text "widget") := h "kind" (by decide)
  simp [sessionFromClaims, hsub, hten, hkind]

private theorem accessOptions_ne (config : AppConfig) : config.accessOptions ≠ config.widgetOptions := by
  intro h
  have haudience : "nivara-api" = "nivara-widget" := congrArg JwtOptions.audience h
  revert haudience
  decide

/-- An access token is one that was signed for a staff member or for a Contact. -/
private theorem verifyAccess_iff (h : b.Sound granted) : b.verifyAccess token = some p ↔
    ∃ g ∈ granted, token = b.tokenOf g ∧ (b.signatureOf g).Lasts b.now ∧
      ((∃ q at', g = .staff q at' ∧ p = .user q) ∨ ∃ q at', g = .contact q at' ∧ p = .contact q) := by
  constructor
  · intro hv
    obtain ⟨claims,hclaims,hp⟩ := Option.bind_eq_some_iff.mp hv
    obtain ⟨g,hg,rfl,hopt,hlasts,c,rfl,htold⟩ := h.honest.refuses _ _ _ hclaims
    refine ⟨g,hg,rfl,hlasts,?_⟩
    cases g with
    | staff q at' =>
      rw [principal_of_staff htold (h.proper _ hg)] at hp
      exact .inl ⟨q,at',rfl,(Option.some.inj hp).symm⟩
    | contact q at' =>
      rw [principal_of_contact htold (h.proper _ hg)] at hp
      exact .inr ⟨q,at',rfl,(Option.some.inj hp).symm⟩
    | widget _ _ _ => exact absurd hopt (accessOptions_ne b.config)
  · rintro ⟨g,hg,rfl,hlasts,⟨q,at',rfl,rfl⟩ | ⟨q,at',rfl,rfl⟩⟩
    · obtain ⟨c,hc,htold⟩ := h.honest.accepts _ hg hlasts
      exact Option.bind_eq_some_iff.mpr ⟨some c,hc,principal_of_staff htold (h.proper _ hg)⟩
    · obtain ⟨c,hc,htold⟩ := h.honest.accepts _ hg hlasts
      exact Option.bind_eq_some_iff.mpr ⟨some c,hc,principal_of_contact htold (h.proper _ hg)⟩

private theorem session_iff (h : b.Sound granted) {ref : Widget.WidgetSessionRef} :
    (b.jwt.verifyAsync token b.config.widgetOptions b.now).bind sessionFromClaims = some ref ↔
      ∃ at', .widget ref.tenantId ref.sessionId at' ∈ granted ∧ token = b.tokenOf (.widget ref.tenantId ref.sessionId at') ∧
        (b.signatureOf (.widget ref.tenantId ref.sessionId at')).Lasts b.now := by
  constructor
  · intro hv
    obtain ⟨claims,hclaims,href⟩ := Option.bind_eq_some_iff.mp hv
    obtain ⟨g,hg,rfl,hopt,hlasts,c,rfl,htold⟩ := h.honest.refuses _ _ _ hclaims
    cases g with
    | staff _ _ => exact absurd hopt.symm (accessOptions_ne b.config)
    | contact _ _ => exact absurd hopt.symm (accessOptions_ne b.config)
    | widget tenantId sessionId at' =>
      rw [session_of_widget htold (h.proper _ hg)] at href
      cases href
      exact ⟨at',hg,rfl,hlasts⟩
  · rintro ⟨at',hg,rfl,hlasts⟩
    obtain ⟨c,hc,htold⟩ := h.honest.accepts _ hg hlasts
    exact Option.bind_eq_some_iff.mpr ⟨some c,hc,session_of_widget htold (h.proper _ hg)⟩

private theorem not_prefixed {g : Grant} (h : b.Sound granted) (hg : g ∈ granted) :
    isServiceToken (b.tokenOf g) = false ∧ isWidgetToken (b.tokenOf g) = false := by
  obtain ⟨rest,hrest⟩ := h.honest.compact g hg
  rw [← hrest]
  exact ⟨rfl,rfl⟩

private theorem isWidgetToken_append (s : Str) : isWidgetToken (widgetTokenPrefix ++ s) = true :=
  List.isPrefixOf_iff_prefix.mpr (List.prefix_append _ _)

private theorem isServiceToken_widget (s : Str) : isServiceToken (widgetTokenPrefix ++ s) = false := rfl

omit [DecidableEq ι] in
private theorem isServiceToken_of_parse {ref : ServiceTokenRef δ} (h : parseServiceToken b.sha256 token = some ref) :
    isServiceToken token = true := by
  unfold parseServiceToken at h
  split at h
  · rename_i hs
    exact hs
  · cases h

private theorem strip_append (s : Str) : stripWidgetPrefix (widgetTokenPrefix ++ s) = s := List.drop_left

private theorem eq_append_strip (hw : isWidgetToken token = true) : token = widgetTokenPrefix ++ stripWidgetPrefix token := by
  obtain ⟨rest,rfl⟩ := List.isPrefixOf_iff_prefix.mp hw
  rw [strip_append]

/-- A widget's token that verifies is looked up, and its names can be. -/
private theorem verifyWidget_cases (h : b.Sound granted) (token : Str) : b.verifyWidget token = .ok none ∨
    ∃ tenantId sessionId at' T k r, .widget tenantId sessionId at' ∈ granted ∧
      stripWidgetPrefix token = b.tokenOf (.widget tenantId sessionId at') ∧
      (b.signatureOf (.widget tenantId sessionId at')).Lasts b.now ∧ uuid tenantId = some T ∧ uuid sessionId = some k ∧
      b.visitors.sessions.visible b.i k = some r ∧ r.tenantId = T ∧ r.revokedAt = none ∧ b.now < r.expiresAt ∧
      b.verifyWidget token = .ok (some ⟨T, k, r.contactId⟩) := by
  unfold Backend.verifyWidget
  cases hv : (b.jwt.verifyAsync (stripWidgetPrefix token) b.config.widgetOptions b.now).bind sessionFromClaims with
  | none => exact .inl rfl
  | some ref =>
    obtain ⟨at',hg,htoken,hlasts⟩ := (session_iff h).mp hv
    obtain ⟨hT,hk⟩ := h.proper _ hg
    obtain ⟨T,hT⟩ := Option.isSome_iff_exists.mp hT
    obtain ⟨k,hk⟩ := Option.isSome_iff_exists.mp hk
    simp only [hT, hk]
    cases hr : (b.visitors.sessions.visible b.i k).filter fun r => r.tenantId = T with
    | none => exact .inl rfl
    | some r =>
      obtain ⟨hrow,hown⟩ := Option.filter_eq_some_iff.mp hr
      simp only
      split
      · exact .inl rfl
      · rename_i hlive
        split
        · exact .inl rfl
        · rename_i hcurrent
          exact .inr ⟨ref.tenantId,ref.sessionId,at',T,k,r,hg,htoken,hlasts,hT,hk,hrow,of_decide_eq_true hown,
            by simpa using hlive,by omega,rfl⟩

private theorem widget_iff (h : b.Sound granted) (hw : isWidgetToken token = true) {w : WidgetPrincipal} :
    b.verifyWidget token = .ok (some w) ↔ Bears b granted token (.widget w) := by
  constructor
  · intro hv
    rcases verifyWidget_cases h token with hnone | ⟨tenantId,sessionId,at',T,k,r,hg,htoken,hlasts,hT,hk,hrow,hown,hlive,hcur,hsome⟩
    · cases hnone.symm.trans hv
    · cases hsome.symm.trans hv
      rw [eq_append_strip hw, htoken]
      exact .widget hg hlasts hT hk hrow hown hlive hcur
  · intro hb
    cases hb with
    | @widget tenantId sessionId at' T k r hg hlasts hT hk hrow hown hlive hcur =>
      have href : (b.jwt.verifyAsync (b.tokenOf (.widget tenantId sessionId at')) b.config.widgetOptions b.now).bind
          sessionFromClaims = some ⟨sessionId, tenantId⟩ := (session_iff h).mpr ⟨at',hg,rfl,hlasts⟩
      have hfilter : (b.visitors.sessions.visible b.i k).filter (fun r => r.tenantId = T) = some r :=
        Option.filter_eq_some_iff.mpr ⟨hrow,decide_eq_true hown⟩
      simp only [Backend.verifyWidget, strip_append, href, hT, hk, hfilter, hlive, Option.isSome_none, Bool.false_eq_true,
        if_false, if_neg (show ¬ r.expiresAt ≤ b.now by omega)]

private theorem isServiceToken_of_bears {q : ServicePrincipal} (hb : Bears b granted token (.service q)) :
    isServiceToken token = true := by
  cases hb with
  | service hparse _ _ _ _ => exact isServiceToken_of_parse hparse

private theorem isWidgetToken_of_bears {w : WidgetPrincipal} (hb : Bears b granted token (.widget w)) :
    isServiceToken token = false ∧ isWidgetToken token = true := by
  cases hb with
  | widget _ _ _ _ _ _ _ _ => exact ⟨isServiceToken_widget _,isWidgetToken_append _⟩

private theorem access_iff (h : b.Sound granted) (hs : isServiceToken token = false) (hw : isWidgetToken token = false) :
    b.verifyAccess token = some p ↔ Bears b granted token p := by
  rw [verifyAccess_iff h]
  constructor
  · rintro ⟨g,hg,rfl,hlasts,⟨q,at',rfl,rfl⟩ | ⟨q,at',rfl,rfl⟩⟩
    · exact .user hg hlasts
    · exact .contact hg hlasts
  · intro hb
    cases hb with
    | user hg hlasts => exact ⟨_,hg,rfl,hlasts,.inl ⟨_,_,rfl,rfl⟩⟩
    | contact hg hlasts => exact ⟨_,hg,rfl,hlasts,.inr ⟨_,_,rfl,rfl⟩⟩
    | widget _ _ _ _ _ _ _ _ => cases hw.symm.trans (isWidgetToken_append _)
    | service hparse _ _ _ _ => cases hs.symm.trans (isServiceToken_of_parse hparse)

private theorem armed_of_bears (h : b.Sound granted) (hb : Bears b granted token p) :
    (tenantContextFor p).isSome = true ∨ ∃ w : WidgetPrincipal, p = .widget w ∧ w.contactId = none := by
  cases hb with
  | user hg _ =>
    obtain ⟨hT,hU⟩ := h.proper _ hg
    obtain ⟨T,hT⟩ := Option.isSome_iff_exists.mp hT
    obtain ⟨U,hU⟩ := Option.isSome_iff_exists.mp hU
    exact .inl (by simp [tenantContextFor, hT, hU])
  | contact hg _ =>
    obtain ⟨hT,hC⟩ := h.proper _ hg
    obtain ⟨T,hT⟩ := Option.isSome_iff_exists.mp hT
    obtain ⟨C,hC⟩ := Option.isSome_iff_exists.mp hC
    exact .inl (by simp [tenantContextFor, hT, hC])
  | @widget _ _ _ T k r _ _ _ _ _ _ _ _ =>
    cases hc : r.contactId with
    | none => exact .inr ⟨_,rfl,rfl⟩
    | some contactId => exact .inl rfl
  | service _ _ _ _ _ => exact .inl rfl

def Presents (b : Backend δ ι) (granted : List Grant) (authorization : Option Str) (p : RequestPrincipal) : Prop :=
  ∃ token, bearerToken authorization = some token ∧ Bears b granted token p

private theorem space_not_mem {scheme : Str} (hscheme : scheme.map lower = units "bearer") : space ∉ scheme := by
  intro hmem
  have hlower : lower space ∈ units "bearer" := hscheme ▸ List.mem_map_of_mem hmem
  revert hlower
  decide

private theorem trim_spaces (n : ℕ) (h : ∀ c ∈ token, isBlank c = false) : trim (List.replicate n space ++ token) = token := by
  have hfront : (List.replicate n space ++ token).dropWhile isBlank = token := by
    rw [List.dropWhile_append_of_pos fun c hc => by rw [List.eq_of_mem_replicate hc]; rfl]
    rw [List.dropWhile_eq_self_iff]
    intro hl
    simp [h _ (List.getElem_mem hl)]
  unfold trim
  rw [hfront, List.rdropWhile_eq_self_iff]
  intro hl
  simp [h _ (List.getLast_mem hl)]

/-- A token without blanks may follow its scheme at any distance. -/
private theorem bearerToken_of_unbroken {scheme : Str} (n : ℕ) (hscheme : scheme.map lower = units "bearer") (hne : token ≠ [])
    (h : ∀ c ∈ token, isBlank c = false) :
    bearerToken (some (scheme ++ space :: (List.replicate n space ++ token))) = some token := by
  have hsplit : (scheme ++ space :: (List.replicate n space ++ token)).splitOn space =
      scheme :: (List.replicate n space ++ token).splitOn space :=
    List.splitOn_append_cons_self_of_not_mem (space_not_mem hscheme) _
  simp [bearerToken, hsplit, hscheme, List.intercalate_splitOn, trim_spaces n h, hne]

theorem Bears.presents {scheme : Str} (n : ℕ) (hscheme : scheme.map lower = units "bearer") (hne : token ≠ [])
    (h : ∀ c ∈ token, isBlank c = false) (hb : Bears b granted token p) :
    Presents b granted (some (scheme ++ space :: (List.replicate n space ++ token))) p :=
  ⟨token,bearerToken_of_unbroken n hscheme hne h,hb⟩

section Resolution
variable [DecidableEq δ]

private theorem service_iff (h : b.Sound granted) {q : ServicePrincipal} :
    b.verifyService token = some q ↔ Bears b granted token (.service q) := by
  constructor
  · intro hv
    obtain ⟨ref,hparse,hfound⟩ := Option.bind_eq_some_iff.mp hv
    unfold ServiceTokens.Registry.lookup at hfound
    split at hfound
    · cases hfound
    · rename_i k r hlocate
      split at hfound
      · cases hfound
      · rename_i hlive
        cases hfound
        obtain ⟨hrow,hmatch⟩ := Table.locate_some _ _ _ hlocate
        simp only [Bool.and_eq_true, decide_eq_true_eq] at hmatch
        exact .service hparse hrow hmatch.1 (hmatch.2.trans (ServiceTokens.tokenHash_of_parse hparse)) (by simpa using hlive)
  · intro hb
    cases hb with
    | @service _ ref k r hparse hrow hten hhash hlive =>
      refine Option.bind_eq_some_iff.mpr ⟨ref,hparse,?_⟩
      rw [← ServiceTokens.tokenHash_of_parse hparse] at hhash
      unfold ServiceTokens.Registry.lookup
      cases hlocate : b.tokens.tokens.locate b.i fun r => r.tenantId = uuidOf ref.tenantId && r.tokenHash = ref.tokenHash with
      | none =>
        have hnot := Table.locate_none _ _ _ hlocate hrow
        simp [hten, hhash] at hnot
      | some found =>
        -- the index has one row with the hash
        obtain ⟨hrow',hmatch⟩ := Table.locate_some _ _ _ hlocate
        simp only [Bool.and_eq_true, decide_eq_true_eq] at hmatch
        have hk := h.unique _ _ _ _ hrow' hrow (hmatch.2.trans hhash.symm)
        rw [hk] at hrow'
        cases hrow'.symm.trans hrow
        simp [hk, hlive]

/-- A token that does not verify leads to no error. -/
theorem resolve_ok (h : b.Sound granted) (token : Str) : ∃ p, b.resolve token = .ok p := by
  unfold Backend.resolve
  split
  · exact ⟨_,rfl⟩
  · split
    · rcases verifyWidget_cases h token with hv | ⟨_,_,_,_,_,_,_,_,_,_,_,_,_,_,_,hv⟩
      · exact ⟨none,by rw [hv]; rfl⟩
      · exact ⟨_,by rw [hv]; rfl⟩
    · exact ⟨_,rfl⟩

/-- The prefix only chooses who verifies: what comes of a token is whose good credential it is. -/
theorem resolve_iff (h : b.Sound granted) : b.resolve token = .ok (some p) ↔ Bears b granted token p := by
  unfold Backend.resolve
  cases hs : isServiceToken token with
  | true =>
    simp only [if_true, Except.ok.injEq, Option.map_eq_some_iff]
    constructor
    · rintro ⟨q,hq,rfl⟩
      exact (service_iff h).mp hq
    · intro hb
      cases p with
      | service q => exact ⟨q,(service_iff h).mpr hb,rfl⟩
      | widget w => cases hs.symm.trans (isWidgetToken_of_bears hb).1
      | user q =>
        cases hb with
        | user hg _ => cases hs.symm.trans (not_prefixed h hg).1
      | contact q =>
        cases hb with
        | contact hg _ => cases hs.symm.trans (not_prefixed h hg).1
  | false =>
    cases hw : isWidgetToken token with
    | true =>
      simp only [Bool.false_eq_true, if_false, if_true]
      constructor
      · intro hv
        rcases verifyWidget_cases h token with hnone | ⟨_,_,_,_,_,_,_,_,_,_,_,_,_,_,_,hsome⟩
        · rw [hnone] at hv
          cases hv
        · have hv' := hv
          rw [hsome] at hv'
          cases hv'
          exact (widget_iff h hw).mp hsome
      · intro hb
        cases p with
        | widget w =>
          rw [(widget_iff h hw).mpr hb]
          rfl
        | service q => cases hs.symm.trans (isServiceToken_of_bears hb)
        | user q =>
          cases hb with
          | user hg _ => cases hw.symm.trans (not_prefixed h hg).2
        | contact q =>
          cases hb with
          | contact hg _ => cases hw.symm.trans (not_prefixed h hg).2
    | false =>
      simp only [Bool.false_eq_true, if_false, Except.ok.injEq]
      exact access_iff h hs hw

/-! ## The verdict -/

structure Operation.Admits (o : Operation) (p : RequestPrincipal) : Prop where
  kind : ∀ kind, o.requiredKind = some kind → p.kind = kind
  permission : ∀ permission, o.required = some permission → permission ∈ p.permissions
  declared : o.required = none → o.authenticatedOnly = true ∨ o.requiredKind ≠ none

private theorem permissionGuard_cases {o : Operation} (ho : o.isPublic = false) (p : RequestPrincipal) :
    (o.Admits p ∧ permissionGuard o (some p) = .ok ()) ∨ (¬ o.Admits p ∧ permissionGuard o (some p) = .error forbidden) := by
  simp only [permissionGuard, ho, Bool.false_eq_true, if_false]
  split
  · rename_i hkind
    obtain ⟨kind,hk,hne⟩ := (Option.any_eq_true _ _).mp hkind
    exact .inr ⟨fun h => of_decide_eq_true hne (h.kind kind hk),rfl⟩
  · rename_i hkind
    have hkind : ∀ kind, o.requiredKind = some kind → p.kind = kind := by
      intro kind hk
      by_contra hne
      exact hkind ((Option.any_eq_true _ _).mpr ⟨kind,hk,decide_eq_true hne⟩)
    cases hr : o.required with
    | none =>
      simp only
      split
      · rename_i hdeclared
        refine .inl ⟨⟨hkind,fun q hq => ?_,fun _ => ?_⟩,rfl⟩
        · cases hr.symm.trans hq
        · simpa [Option.isSome_iff_ne_none] using hdeclared
      · rename_i hdeclared
        refine .inr ⟨fun h => hdeclared ?_,rfl⟩
        simpa [Option.isSome_iff_ne_none] using h.declared hr
    | some q =>
      simp only
      split
      · rename_i hq
        refine .inl ⟨⟨hkind,fun q' hq' => ?_,fun hnone => ?_⟩,rfl⟩
        · cases hr.symm.trans hq'
          exact hq
        · cases hr.symm.trans hnone
      · rename_i hq
        exact .inr ⟨fun h => hq (h.permission q hr),rfl⟩

variable {o : Operation} {check : RequestPrincipal → RateLimitDecision} {authorization : Option Str}

private theorem verdict_open (ho : o.isPublic = true) : verdict b o check authorization = .passes none := by
  simp [verdict, guards, authGuard, rateLimitGuard, permissionGuard, ho, bind, Except.bind, pure, Except.pure]

private theorem verdict_nobody (h : b.Sound granted) (ho : o.isPublic = false) (hno : ∀ p, ¬ Presents b granted authorization p) :
    verdict b o check authorization = unauthenticated := by
  have hauth : authGuard b o authorization = .error unauthenticated := by
    unfold authGuard
    rw [ho, if_neg Bool.false_ne_true]
    cases ht : bearerToken authorization with
    | none => rfl
    | some token =>
      obtain ⟨found,hfound⟩ := resolve_ok h token
      cases found with
      | none => simp only [hfound]
      | some p => exact absurd ⟨token,ht,(resolve_iff h).mp hfound⟩ (hno p)
  simp [verdict, guards, hauth, bind, Except.bind]

section Presented
variable (h : b.Sound granted) (ho : o.isPublic = false) (hp : Presents b granted authorization p)
include h ho hp

private theorem authGuard_of_presents : authGuard b o authorization = .ok (some p) := by
  obtain ⟨token,ht,hb⟩ := hp
  simp [authGuard, ho, ht, (resolve_iff h).mpr hb]

private theorem verdict_limited {limit : ℕ} {wait : ℤ} (hc : check p = .denied limit wait) :
    verdict b o check authorization = rateLimited limit wait := by
  simp [verdict, guards, authGuard_of_presents h ho hp, rateLimitGuard, hc, bind, Except.bind]

private theorem verdict_admitted (hc : check p = .allowed) (ha : o.Admits p) :
    verdict b o check authorization = .passes (some p) := by
  rcases permissionGuard_cases ho p with ⟨_,hg⟩ | ⟨hna,_⟩
  · simp [verdict, guards, authGuard_of_presents h ho hp, rateLimitGuard, hc, hg, bind, Except.bind, pure, Except.pure]
  · exact absurd ha hna

private theorem verdict_forbidden (hc : check p = .allowed) (ha : ¬ o.Admits p) :
    verdict b o check authorization = forbidden := by
  rcases permissionGuard_cases ho p with ⟨hyes,_⟩ | ⟨_,hg⟩
  · exact absurd hyes ha
  · simp [verdict, guards, authGuard_of_presents h ho hp, rateLimitGuard, hc, hg, bind, Except.bind]

end Presented

private inductive Course (b : Backend δ ι) (granted : List Grant) (o : Operation) (check : RequestPrincipal → RateLimitDecision)
    (authorization : Option Str) : Verdict → Prop
  | anybody (ho : o.isPublic = true) : Course b granted o check authorization (.passes none)
  | nobody (ho : o.isPublic = false) (hno : ∀ p, ¬ Presents b granted authorization p) :
      Course b granted o check authorization unauthenticated
  | limited (ho : o.isPublic = false) {p : RequestPrincipal} (hp : Presents b granted authorization p) {limit : ℕ} {wait : ℤ}
      (hc : check p = .denied limit wait) : Course b granted o check authorization (rateLimited limit wait)
  | admitted (ho : o.isPublic = false) {p : RequestPrincipal} (hp : Presents b granted authorization p)
      (hc : check p = .allowed) (ha : o.Admits p) : Course b granted o check authorization (.passes (some p))
  | turnedAway (ho : o.isPublic = false) {p : RequestPrincipal} (hp : Presents b granted authorization p)
      (hc : check p = .allowed) (ha : ¬ o.Admits p) : Course b granted o check authorization forbidden

private theorem course_of_verdict (h : b.Sound granted) : Course b granted o check authorization (verdict b o check authorization) := by
  cases ho : o.isPublic with
  | true => exact verdict_open (b := b) ho ▸ .anybody ho
  | false =>
    by_cases hno : ∀ p, ¬ Presents b granted authorization p
    · exact verdict_nobody h ho hno ▸ .nobody ho hno
    · obtain ⟨p,hp⟩ := Classical.not_forall_not.mp hno
      cases hc : check p with
      | denied limit wait => exact verdict_limited h ho hp hc ▸ .limited ho hp hc
      | allowed =>
        by_cases ha : o.Admits p
        · exact verdict_admitted h ho hp hc ha ▸ .admitted ho hp hc ha
        · exact verdict_forbidden h ho hp hc ha ▸ .turnedAway ho hp hc ha

structure Judged (b : Backend δ ι) (granted : List Grant) (o : Operation) (check : RequestPrincipal → RateLimitDecision)
    (authorization : Option Str) (v : Verdict) : Prop where
  anybody : v = .passes none ↔ o.isPublic = true
  passes : ∀ p, v = .passes (some p) ↔
    o.isPublic = false ∧ Presents b granted authorization p ∧ check p = .allowed ∧ o.Admits p
  unauthenticated : v = unauthenticated ↔ o.isPublic = false ∧ ∀ p, ¬ Presents b granted authorization p
  rateLimited : (∃ limit wait, v = rateLimited limit wait) ↔
    o.isPublic = false ∧ ∃ p, Presents b granted authorization p ∧ check p ≠ .allowed
  forbidden : v = forbidden ↔ o.isPublic = false ∧ ∃ p, Presents b granted authorization p ∧ check p = .allowed ∧ ¬ o.Admits p
  /-- The handler can open a transaction for the principal; a widget's visitor that has not been named has none yet. -/
  armed : ∀ p, v = .passes (some p) →
    (tenantContextFor p).isSome = true ∨ ∃ w : WidgetPrincipal, p = .widget w ∧ w.contactId = none
  never : v ≠ .failed

private theorem unauthenticated_ne_forbidden : unauthenticated ≠ forbidden := by decide

private theorem unauthenticated_ne_rateLimited (limit : ℕ) (wait : ℤ) : unauthenticated ≠ rateLimited limit wait := by
  simp [unauthenticated, rateLimited]

private theorem forbidden_ne_rateLimited (limit : ℕ) (wait : ℤ) : forbidden ≠ rateLimited limit wait := by
  simp [forbidden, rateLimited]

/-- A request gets to its handler with a good credential of a principal that the limiter lets through and that the operation
asks for, and with nothing else; whatever stops it is told by the first of the three that it lacks. -/
theorem judged_of_verdict (h : b.Sound granted) : Judged b granted o check authorization (verdict b o check authorization) := by
  have hcourse : Course b granted o check authorization (verdict b o check authorization) := course_of_verdict h
  generalize hv : verdict b o check authorization = v at hcourse
  refine ⟨⟨?_,fun ho => ?_⟩,fun p => ⟨?_,?_⟩,⟨?_,?_⟩,⟨?_,?_⟩,⟨?_,?_⟩,?_,?_⟩
  · rintro rfl
    cases hcourse with
    | anybody ho => exact ho
  · exact hv ▸ verdict_open ho
  · rintro rfl
    cases hcourse with
    | admitted ho hp hc ha => exact ⟨ho,hp,hc,ha⟩
  · rintro ⟨ho,hp,hc,ha⟩
    exact hv ▸ verdict_admitted h ho hp hc ha
  · intro hx
    cases hcourse with
    | nobody ho hno => exact ⟨ho,hno⟩
    | anybody _ => cases hx
    | limited _ _ _ => exact absurd hx.symm (unauthenticated_ne_rateLimited _ _)
    | admitted _ _ _ _ => cases hx
    | turnedAway _ _ _ _ => exact absurd hx.symm unauthenticated_ne_forbidden
  · rintro ⟨ho,hno⟩
    exact hv ▸ verdict_nobody h ho hno
  · rintro ⟨limit,wait,hx⟩
    cases hcourse with
    | limited ho hp hc => exact ⟨ho,_,hp,by simp [hc]⟩
    | anybody _ => cases hx
    | nobody _ _ => exact absurd hx (unauthenticated_ne_rateLimited _ _)
    | admitted _ _ _ _ => cases hx
    | turnedAway _ _ _ _ => exact absurd hx (forbidden_ne_rateLimited _ _)
  · rintro ⟨ho,p,hp,hc⟩
    cases hd : check p with
    | allowed => exact absurd hd hc
    | denied limit wait => exact ⟨limit,wait,hv ▸ verdict_limited h ho hp hd⟩
  · intro hx
    cases hcourse with
    | turnedAway ho hp hc ha => exact ⟨ho,_,hp,hc,ha⟩
    | anybody _ => cases hx
    | nobody _ _ => exact absurd hx unauthenticated_ne_forbidden
    | limited _ _ _ => exact absurd hx.symm (forbidden_ne_rateLimited _ _)
    | admitted _ _ _ _ => cases hx
  · rintro ⟨ho,p,hp,hc,ha⟩
    exact hv ▸ verdict_forbidden h ho hp hc ha
  · rintro p rfl
    cases hcourse with
    | admitted _ hp _ _ =>
      obtain ⟨token,_,hb⟩ := hp
      exact armed_of_bears h hb
  · rintro rfl
    cases hcourse

/-! ## The surfaces -/

def portalSurface : List Operation := portalAuthController ++ portalTicketsController
def widgetSurface : List Operation := widgetSessionsController ++ widgetTicketsController

def adminSurface : List Operation := auditController ++ serviceTokensController ++ invitationsController

structure OnItsSurface (b : Backend δ ι) (o : Operation) (p : RequestPrincipal) : Prop where
  contact : p.kind = .contact → o ∈ portalSurface
  widget : p.kind = .widget → o ∈ widgetSurface
  staff : ∀ q, p = .user q → o ∉ portalSurface ∧ o ∉ widgetSurface ∧ (q.role = .agent → o ∉ adminSurface)
  /-- A machine does support work, and of that what is in its row. -/
  machine : ∀ q, p = .service q → o ∉ portalSurface ∧ o ∉ widgetSurface ∧ o ∉ adminSurface ∧
    ∃ permission r, o.required = some permission ∧ b.tokens.tokens.visible b.i q.tokenId = some r ∧ r.revokedAt = none ∧
      r.tenantId = q.tenantId ∧ permission.text ∈ r.scopes

private theorem kind_of_unpermitted : ∀ o ∈ controllers, o.isPublic = false → o.required = none →
    o.requiredKind = some .user ∨ (o.requiredKind = some .contact ∧ o ∈ portalSurface) ∨
      (o.requiredKind = some .widget ∧ o ∈ widgetSurface) := by decide

private theorem kind_of_portal : ∀ o ∈ portalSurface, o.isPublic = false → o.requiredKind = some .contact := by decide

private theorem kind_of_widget : ∀ o ∈ widgetSurface, o.isPublic = false → o.requiredKind = some .widget := by decide

private theorem required_of_admin : ∀ o ∈ adminSurface, o.isPublic = false →
    o.required = some .auditRead ∨ o.required = some .tokenManage ∨ o.required = some .userInvite := by decide

private theorem permission_of_admin (ho : o ∈ adminSurface) (hp : o.isPublic = false) :
    ∃ permission, o.required = some permission ∧ permission ∉ supportWork := by
  rcases required_of_admin o ho hp with h | h | h
  · exact ⟨_,h,by decide⟩
  · exact ⟨_,h,by decide⟩
  · exact ⟨_,h,by decide⟩

private theorem surface_of_kind (ho : o ∈ controllers) (hp : o.isPublic = false) (ha : o.Admits p) (hnone : p.permissions = []) :
    p.kind = .user ∨ (p.kind = .contact ∧ o ∈ portalSurface) ∨ (p.kind = .widget ∧ o ∈ widgetSurface) := by
  have hrequired : o.required = none := by
    cases hr : o.required with
    | none => rfl
    | some permission => exact absurd (ha.permission permission hr) (by simp [hnone])
  rcases kind_of_unpermitted o ho hp hrequired with h | ⟨h,hs⟩ | ⟨h,hs⟩
  · exact .inl (ha.kind _ h)
  · exact .inr (.inl ⟨ha.kind _ h,hs⟩)
  · exact .inr (.inr ⟨ha.kind _ h,hs⟩)

/-- No principal gets past the guards to an operation of another surface than its own. -/
theorem onItsSurface_of_verdict (h : b.Sound granted) (ho : o ∈ controllers)
    (hv : verdict b o check authorization = .passes (some p)) : OnItsSurface b o p := by
  have hcourse : Course b granted o check authorization (verdict b o check authorization) := course_of_verdict h
  rw [hv] at hcourse
  cases hcourse with
  | admitted hp hpresents _ ha =>
    have hportal (hs : o ∈ portalSurface) : p.kind = .contact := ha.kind _ (kind_of_portal o hs hp)
    have hwidget (hs : o ∈ widgetSurface) : p.kind = .widget := ha.kind _ (kind_of_widget o hs hp)
    cases p with
    | contact q =>
      rcases surface_of_kind ho hp ha rfl with hk | ⟨_,hs⟩ | ⟨hk,_⟩
      · cases hk
      · exact ⟨fun _ => hs,nofun,nofun,nofun⟩
      · cases hk
    | widget q =>
      rcases surface_of_kind ho hp ha rfl with hk | ⟨hk,_⟩ | ⟨_,hs⟩
      · cases hk
      · cases hk
      · exact ⟨nofun,fun _ => hs,nofun,nofun⟩
    | user q =>
      refine ⟨nofun,nofun,?_,nofun⟩
      rintro _ ⟨⟩
      refine ⟨fun hs => (nomatch hportal hs),fun hs => (nomatch hwidget hs),fun hrole hs => ?_⟩
      obtain ⟨permission,hr,hwork⟩ := permission_of_admin hs hp
      have hmem := ha.permission permission hr
      rw [RequestPrincipal.permissions, RequestPrincipal.authority, hrole] at hmem
      exact hwork hmem
    | service q =>
      refine ⟨nofun,nofun,nofun,?_⟩
      rintro _ ⟨⟩
      obtain ⟨token,_,hb⟩ := hpresents
      cases hb with
      | @service _ ref k r _ hrow _ _ hlive =>
        have hpermissions {permission : Permission} (hr : o.required = some permission) :
            permission.text ∈ r.scopes ∧ permission ∈ supportWork ∧ permission ∉ ungrantableScopes :=
          permissionsFor_service (ha.permission permission hr)
        refine ⟨fun hs => (nomatch hportal hs),fun hs => (nomatch hwidget hs),fun hs => ?_,?_⟩
        · obtain ⟨permission,hr,hwork⟩ := permission_of_admin hs hp
          exact hwork (hpermissions hr).2.1
        · cases hr : o.required with
          | some permission => exact ⟨permission,r,rfl,hrow,hlive,rfl,(hpermissions hr).1⟩
          | none =>
            rcases kind_of_unpermitted o ho hp hr with hk | ⟨hk,_⟩ | ⟨hk,_⟩
            · cases ha.kind _ hk
            · cases ha.kind _ hk
            · cases ha.kind _ hk

end Resolution
end Tokens

section Example

private def key : AppConfig := ⟨"s3cret", "s3cret too"⟩

private def signed (g : Signature) : Str :=
  units "eyJhbGciOiJIUzI1NiJ9." ++ match g.claims "sub" with
    | some (.text sub) => units sub
    | _ => []

private def jwtOf (granted : List Grant) : Jwt where
  signAsync := signed
  verifyAsync token options now := ((granted.map (·.signature key)).find? fun g =>
    signed g = token ∧ g.options = options ∧ now / 1000 < g.at' / 1000 + g.expiresIn).map fun g => some g.claims

private def agent : StaffPrincipal := ⟨"00000000-0000-0000-0000-00000000000A", "00000000-0000-0000-0000-000000000001", .agent⟩

private def given : List Grant :=
  [.staff agent 0, .contact ⟨"00000000-0000-0000-0000-00000000000A", "00000000-0000-0000-0000-000000000002"⟩ 0,
    .widget "00000000-0000-0000-0000-00000000000A" "00000000-0000-0000-0000-000000000003" 0]

private def office : Backend (List UInt8) Unit :=
  ⟨jwtOf given, key, id, ServiceTokens.Registry.initial, Widget.Visitors.initial, (), 600000⟩

private theorem same_of_token : ∀ g ∈ given, ∀ g' ∈ given, office.tokenOf g = office.tokenOf g' → g = g' := by decide +kernel

private theorem verify_office (token : Str) (options : JwtOptions) : office.jwt.verifyAsync token options office.now =
    ((given.map (·.signature key)).find? fun f => signed f = token ∧ f.options = options ∧
      office.now / 1000 < f.at' / 1000 + f.expiresIn).map fun f => some f.claims := rfl

private theorem proper_given : ∀ g ∈ given, g.Proper := by
  intro g hg
  simp only [given, List.mem_cons, List.not_mem_nil, or_false] at hg
  rcases hg with rfl | rfl | rfl
  · exact ⟨by decide +kernel,by decide +kernel⟩
  · exact ⟨by decide +kernel,by decide +kernel⟩
  · exact ⟨by decide +kernel,by decide +kernel⟩

private theorem unbroken_given (g : Grant) (hg : g ∈ given) : ∀ c ∈ office.tokenOf g, isBlank c = false := by
  have hall : (given.all fun g => (office.tokenOf g).all fun c => !isBlank c) = true := by decide +kernel
  intro c hc
  simpa using List.all_eq_true.mp (List.all_eq_true.mp hall g hg) c hc

private theorem compact_given (g : Grant) : units "ey" <+: office.tokenOf g :=
  (show units "ey" <+: units "eyJhbGciOiJIUzI1NiJ9." by decide).trans (List.prefix_append _ _)

private theorem accepts_given {g : Grant} (hg : g ∈ given) (hlasts : (office.signatureOf g).Lasts office.now) :
    ∃ c, office.jwt.verifyAsync (office.tokenOf g) (office.signatureOf g).options office.now = some (some c) ∧
      Says c (office.signatureOf g).claims := by
  rw [verify_office]
  cases hf : (given.map (·.signature key)).find? fun f => signed f = office.tokenOf g ∧
      f.options = (office.signatureOf g).options ∧ office.now / 1000 < f.at' / 1000 + f.expiresIn with
  | none =>
    have hnone := List.find?_eq_none.mp hf _ (List.mem_map_of_mem hg)
    exact absurd (decide_eq_true ⟨rfl,rfl,hlasts⟩) hnone
  | some f =>
    have hfound := List.find?_some hf
    have htoken := (of_decide_eq_true hfound).1
    obtain ⟨g',hg',rfl⟩ := List.mem_map.mp (List.mem_of_find?_eq_some hf)
    cases same_of_token g hg g' hg' htoken.symm
    exact ⟨_,rfl,fun _ _ => rfl⟩

private theorem refuses_given {token : Str} {options : JwtOptions} {claims : Option Claims}
    (hv : office.jwt.verifyAsync token options office.now = some claims) :
    ∃ g ∈ given, token = office.tokenOf g ∧ options = (office.signatureOf g).options ∧
      (office.signatureOf g).Lasts office.now ∧ ∃ c, claims = some c ∧ Says c (office.signatureOf g).claims := by
  rw [verify_office] at hv
  obtain ⟨f,hf,rfl⟩ := Option.map_eq_some_iff.mp hv
  have hfound := List.find?_some hf
  obtain ⟨htoken,hopt,hlasts⟩ := of_decide_eq_true hfound
  obtain ⟨g,hg,rfl⟩ := List.mem_map.mp (List.mem_of_find?_eq_some hf)
  exact ⟨g,hg,htoken.symm,hopt.symm,hlasts,_,rfl,fun _ _ => rfl⟩

private theorem office_sound : office.Sound given where
  honest := ⟨fun _ => accepts_given,fun _ _ _ => refuses_given,fun g _ => compact_given g,unbroken_given⟩
  proper := proper_given
  unique := nofun

theorem judged_of_office : verdict office (operation "POST /tickets/:id/notes" (withPermission .noteWrite)) (fun _ => .allowed)
    (some (units "BEARER  eyJhbGciOiJIUzI1NiJ9.00000000-0000-0000-0000-000000000001")) = .passes (some (.user agent)) := by
  have hlasts : (600000 : Int) / 1000 < 0 / 1000 + 15 * 60 := by decide
  have hb : Bears office given (office.tokenOf (.staff agent 0)) (.user agent) := .user List.mem_cons_self hlasts
  have hbearer : (units "BEARER").map lower = units "bearer" := by decide
  have hp := hb.presents 1 hbearer (by decide) (office_sound.honest.unbroken _ List.mem_cons_self)
  exact ((judged_of_verdict office_sound).passes _).mpr ⟨rfl,hp,rfl,⟨by decide,by decide,by decide⟩⟩

private def caller : ContactPrincipal := ⟨"00000000-0000-0000-0000-00000000000A", "00000000-0000-0000-0000-000000000002"⟩

/-- A Contact's token, on an operation of the portal. -/
theorem onItsSurface_of_office : OnItsSurface office ⟨"GET /portal/tickets", undecorated, forKind .contact⟩ (.contact caller) := by
  have hv : verdict office ⟨"GET /portal/tickets", undecorated, forKind .contact⟩ (fun _ => .allowed)
      (some (units "bearer eyJhbGciOiJIUzI1NiJ9.00000000-0000-0000-0000-000000000002")) = .passes (some (.contact caller)) := by
    decide +kernel
  exact onItsSurface_of_verdict office_sound (by decide) hv

end Example
end Nivara.Gate
