import Nivara.Basic
import Nivara.Pagination.BadCursor

/-! The text of a service token, from `service-tokens/service-token-format.ts` and `tenancy/tenant-context.ts`. -/
namespace Nivara.ServiceTokens
open Text

def serviceTokenPrefix : Str := units "nvk_live_"
def separator : CodeUnit := unit '.'

def isTenantIdShaped (value : Str) : Bool := Pagination.isUuidText value

def uuidOf (text : Str) : Uuid := (text.filterMap hexValue).foldl (fun n d => 16 * n + d) 0

abbrev Secret := { bytes : List UInt8 // bytes.length = 32 }

section Format
variable {δ : Type} (sha256 : List UInt8 → δ)

def hashServiceToken (raw : Str) : δ := sha256 (encodeUtf8 raw)

def isServiceToken (value : Str) : Bool := serviceTokenPrefix.isPrefixOf value

def mintServiceToken (tenantId : Str) (secret : Secret) : Str :=
  serviceTokenPrefix ++ tenantId ++ separator :: encodeBase64 secret.1

structure ServiceTokenRef (δ : Type) where
  tenantId : Str
  tokenHash : δ
  deriving DecidableEq

def parseServiceToken (raw : Str) : Option (ServiceTokenRef δ) :=
  if isServiceToken raw then
    match (raw.drop serviceTokenPrefix.length).splitOn separator with
    | [tenantId, secret] =>
      if tenantId = [] || secret = [] then none
      else if isTenantIdShaped tenantId then some ⟨tenantId, hashServiceToken sha256 raw⟩
      else none
    | _ => none
  else none

/-- The hash that is looked for is of the whole string. -/
theorem tokenHash_of_parse {sha256 : List UInt8 → δ} {raw : Str} {ref : ServiceTokenRef δ} (h : parseServiceToken sha256 raw = some ref) :
    ref.tokenHash = hashServiceToken sha256 raw := by
  unfold parseServiceToken at h
  split at h
  · split at h
    · split at h
      · cases h
      · split at h
        · cases h
          rfl
        · cases h
    · cases h
  · cases h

private theorem mem_of_isTenantIdShaped {value : Str} (h : isTenantIdShaped value = true) :
    ∀ c ∈ value, (hexValue c).isSome = true ∨ c = unit '-' := by
  unfold isTenantIdShaped Pagination.isUuidText at h
  split at h
  · rename_i a b c d e hsplit
    have hjoin : value = a ++ unit '-' :: (b ++ unit '-' :: (c ++ unit '-' :: (d ++ unit '-' :: e))) := by
      calc
        value = [unit '-'].intercalate (List.splitOn (unit '-') value) := (List.intercalate_splitOn _).symm
        _ = _ := by rw [hsplit]; simp [List.intercalate]
    simp only [Bool.and_eq_true, List.all_cons, List.all_nil, Bool.and_true] at h
    obtain ⟨_,ha,hb,hc,hd,he⟩ := h
    have hgroup : ∀ g : Str, g.all Pagination.isHexUnit = true → ∀ c ∈ g, (hexValue c).isSome = true ∨ c = unit '-' :=
      fun g hg c hc => .inl (List.all_eq_true.mp hg c hc)
    rw [hjoin]
    intro x hx
    simp only [List.mem_append, List.mem_cons] at hx
    rcases hx with hx | rfl | hx | rfl | hx | rfl | hx | rfl | hx
    · exact hgroup a ha x hx
    · exact .inr rfl
    · exact hgroup b hb x hx
    · exact .inr rfl
    · exact hgroup c hc x hx
    · exact .inr rfl
    · exact hgroup d hd x hx
    · exact .inr rfl
    · exact hgroup e he x hx
  · cases h

private theorem plain_of_hexValue {c : CodeUnit} (h : (hexValue c).isSome = true ∨ c = unit '-') : c.toNat < 0x80 ∧ c ≠ separator := by
  rcases h with h | rfl
  · unfold hexValue at h
    have hrange : (48 ≤ c.toNat ∧ c.toNat ≤ 57) ∨ (97 ≤ c.toNat ∧ c.toNat ≤ 102) ∨ (65 ≤ c.toNat ∧ c.toNat ≤ 70) := by
      by_contra hne
      rw [not_or, not_or] at hne
      rw [if_neg hne.1, if_neg hne.2.1, if_neg hne.2.2] at h
      cases h
    refine ⟨by omega,?_⟩
    rintro rfl
    exact absurd hrange (by decide)
  · decide

private theorem plain_of_letter {n : Nat} (h : n < 64) : (letter n).toNat < 0x80 ∧ letter n ≠ separator := by
  have hall : ∀ k < 64, (letter k).toNat < 0x80 ∧ letter k ≠ separator := by decide
  exact hall n h

private theorem plain_secret (secret : Secret) : ∀ c ∈ encodeBase64 secret.1, c.toNat < 0x80 ∧ c ≠ separator := by
  intro c hc
  obtain ⟨n,hn,rfl⟩ := letters_encode _ c hc
  exact plain_of_letter hn

private theorem plain_tenantId {tenantId : Str} (h : isTenantIdShaped tenantId = true) : ∀ c ∈ tenantId, c.toNat < 0x80 ∧ c ≠ separator :=
  fun c hc => plain_of_hexValue (mem_of_isTenantIdShaped h c hc)

private theorem secret_ne_nil (secret : Secret) : encodeBase64 secret.1 ≠ [] := by
  obtain ⟨bytes,hlen⟩ := secret
  intro he
  -- what is encoded can be decoded again
  have hdecoded := forgiving.decode_encode bytes
  have hnil := forgiving.decode_encode []
  rw [he] at hdecoded
  rw [show encodeBase64 [] = [] from rfl] at hnil
  rw [← hdecoded, hnil] at hlen
  cases hlen

private theorem split_minted {tenantId : Str} (h : isTenantIdShaped tenantId = true) (secret : Secret) :
    (tenantId ++ separator :: encodeBase64 secret.1).splitOn separator = [tenantId, encodeBase64 secret.1] := by
  have hone : ∀ part : Str, (∀ c ∈ part, c.toNat < 0x80 ∧ c ≠ separator) → part.splitOn separator = [part] := by
    intro part hpart
    exact List.splitOnP_eq_singleton fun c hc => by simpa using (hpart c hc).2
  have happend : (tenantId ++ separator :: encodeBase64 secret.1).splitOnP (· == separator) =
      tenantId.splitOnP (· == separator) ++ (encodeBase64 secret.1).splitOnP (· == separator) :=
    List.splitOnP_append_cons _ _ (by simp)
  have htenant := hone tenantId (plain_tenantId h)
  have hsecret := hone _ (plain_secret secret)
  unfold List.splitOn at htenant hsecret ⊢
  rw [happend, htenant, hsecret]
  rfl

/-- Every minted token is accepted, with the tenant it was minted for. -/
theorem parse_mint {tenantId : Str} (h : isTenantIdShaped tenantId = true) (secret : Secret) :
    parseServiceToken sha256 (mintServiceToken tenantId secret) =
      some ⟨tenantId, hashServiceToken sha256 (mintServiceToken tenantId secret)⟩ := by
  have hstart : isServiceToken (mintServiceToken tenantId secret) = true := by
    unfold isServiceToken mintServiceToken
    rw [List.append_assoc, List.isPrefixOf_iff_prefix]
    exact List.prefix_append _ _
  have hbody : (mintServiceToken tenantId secret).drop serviceTokenPrefix.length = tenantId ++ separator :: encodeBase64 secret.1 := by
    unfold mintServiceToken
    rw [List.append_assoc, List.drop_left]
  have hne : tenantId ≠ [] := by
    rintro rfl
    exact absurd h (by decide)
  unfold parseServiceToken
  rw [if_pos hstart, hbody, split_minted h secret]
  simp [hne, secret_ne_nil, h]

private theorem ascii_mint {tenantId : Str} (h : isTenantIdShaped tenantId = true) (secret : Secret) :
    ∀ c ∈ mintServiceToken tenantId secret, c.toNat < 0x80 := by
  have hstart : (serviceTokenPrefix.all fun c => c.toNat < 0x80) = true := by decide
  intro c hc
  simp only [mintServiceToken, List.mem_append, List.mem_cons] at hc
  rcases hc with (hc | hc) | rfl | hc
  · exact of_decide_eq_true (List.all_eq_true.mp hstart c hc)
  · exact (plain_tenantId h c hc).1
  · decide
  · exact (plain_secret secret c hc).1

/-- Only the token itself has its bytes. -/
theorem eq_mint_of_encodeUtf8 {tenantId raw : Str} (h : isTenantIdShaped tenantId = true) (secret : Secret)
    (hbytes : encodeUtf8 raw = encodeUtf8 (mintServiceToken tenantId secret)) : raw = mintServiceToken tenantId secret :=
  eq_of_encodeUtf8_ascii (ascii_mint h secret) hbytes

end Format
end Nivara.ServiceTokens
