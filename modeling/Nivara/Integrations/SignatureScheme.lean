import Nivara.Integrations.Timestamp
import Nivara.Text.Bytes

/-! The verification of a signed request, from `integrations/signature-scheme.ts`, whatever the source that signs. -/
namespace Nivara.Integrations
open Text
open Limiter (Header)

structure SignatureScheme where
  signatureHeader : Str
  timestampHeader : Str
  /-- `prefix`. -/
  digestPrefix : Str
  replayWindowSeconds : ℕ
  signingBase : Str → Str → Str

abbrev Headers := List (Str × Header)

structure SignatureCheck where
  headers : Headers
  rawBody : Str
  secret : Str
  now : Instant

inductive SignatureFailure where
  | missingHeaders
  | staleTimestamp
  | badSignature
  deriving DecidableEq, Repr

def toLowerCase (name : Str) : Str := name.map fun c => if 65 ≤ c.toNat ∧ c.toNat ≤ 90 then (c.toNat + 32).toUInt16 else c

/-- The first header of the name decides, and has no value when it was sent more than once. -/
def headerValue (headers : Headers) (name : Str) : Option Str :=
  match headers.find? fun h => toLowerCase h.1 = toLowerCase name with
  | some (_, .one value) => some value
  | _ => none

section Verification
variable (hmac : Str → Str → Str) (scheme : SignatureScheme)

/-- The bytes a genuine request carries, where `hmac` is the digest in hexadecimal. -/
def expectedSignature (secret timestamp rawBody : Str) : List UInt8 :=
  encodeUtf8 (scheme.digestPrefix ++ hmac secret (scheme.signingBase timestamp rawBody))

def verifySignature (check : SignatureCheck) : Except SignatureFailure Unit :=
  let signature := (headerValue check.headers scheme.signatureHeader).getD []
  let timestamp := (headerValue check.headers scheme.timestampHeader).getD []
  if signature = [] ∨ timestamp = [] then .error .missingHeaders
  else match stringToNumber timestamp with
    | some (.finite sentAt) =>
      if scheme.replayWindowSeconds < skewSeconds check.now sentAt then .error .staleTimestamp
      else
        let expected := expectedSignature hmac scheme check.secret timestamp check.rawBody
        let presented := encodeUtf8 signature
        if expected.length ≠ presented.length then .error .badSignature
        -- `timingSafeEqual`
        else if expected = presented then .ok () else .error .badSignature
    | _ => .error .missingHeaders

structure Carries (check : SignatureCheck) (signature timestamp : Str) : Prop where
  presents : headerValue check.headers scheme.signatureHeader = some signature
  dates : headerValue check.headers scheme.timestampHeader = some timestamp
  signed : signature ≠ []
  dated : timestamp ≠ []
  genuine : expectedSignature hmac scheme check.secret timestamp check.rawBody = encodeUtf8 signature

end Verification

section Verified
variable {hmac : Str → Str → Str} {scheme : SignatureScheme} {check : SignatureCheck} {signature timestamp : Str}

private theorem headerValue_getD {headers : Headers} {name value : Str} (h : (headerValue headers name).getD [] = value) (hne : value ≠ []) :
    headerValue headers name = some value := by
  cases hv : headerValue headers name with
  | none =>
    rw [hv] at h
    exact absurd h.symm hne
  | some v =>
    rw [hv] at h
    exact congrArg some h

/-- A request verifies if it carries the digest of what it says, and says when it was sent. -/
theorem verifySignature_eq_ok : verifySignature hmac scheme check = .ok () ↔ ∃ signature timestamp sentAt,
    Carries hmac scheme check signature timestamp ∧ stringToNumber timestamp = some (.finite sentAt) ∧
      skewSeconds check.now sentAt ≤ scheme.replayWindowSeconds := by
  constructor
  · intro h
    unfold verifySignature at h
    dsimp only at h
    split at h
    · cases h
    · rename_i hne
      obtain ⟨hs,ht⟩ := not_or.mp hne
      split at h
      · rename_i sentAt hsent
        split at h
        · cases h
        · rename_i hskew
          split at h
          · cases h
          · split at h
            · rename_i hequal
              exact ⟨_,_,sentAt,⟨headerValue_getD rfl hs,headerValue_getD rfl ht,hs,ht,hequal⟩,hsent,not_lt.mp hskew⟩
            · cases h
      · cases h
  · rintro ⟨signature,timestamp,sentAt,hcarries,hsent,hskew⟩
    unfold verifySignature
    dsimp only
    rw [hcarries.presents, hcarries.dates, Option.getD_some, Option.getD_some,
      if_neg (not_or.mpr ⟨hcarries.signed,hcarries.dated⟩), hsent]
    dsimp only
    rw [if_neg (not_lt.mpr hskew), hcarries.genuine, if_neg (not_not.mpr rfl), if_pos rfl]

/-- Where the time is given in whole seconds, the window is exact to the millisecond. -/
theorem verifySignature_of_seconds {second : ℕ} (hs : second ≤ lastSecond) (hw : scheme.replayWindowSeconds ≤ 100000000)
    (h : Carries hmac scheme check signature (decimal second)) :
    verifySignature hmac scheme check = .ok () ↔ |check.now.1 - 1000 * second| ≤ 1000 * scheme.replayWindowSeconds := by
  rw [verifySignature_eq_ok, ← skewSeconds_le_iff check.now hs hw]
  constructor
  · rintro ⟨_,timestamp,sentAt,hcarries,hsent,hskew⟩
    cases Option.some.inj (h.dates.symm.trans hcarries.dates)
    rw [stringToNumber_decimal hs] at hsent
    cases hsent
    exact hskew
  · exact fun hskew => ⟨_,_,_,h,stringToNumber_decimal hs,hskew⟩

end Verified
end Nivara.Integrations
