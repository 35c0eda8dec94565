import Mathlib.Data.List.DropRight
import Mathlib.Data.List.TakeWhile
import Nivara.Limiter.RateLimitService

/-! The address that a request is limited on, from `rate-limit/client-ip.ts`. All of the header but its last entry is the
client's to choose. -/
namespace Nivara.Limiter
open Text

def isBlank (c : CodeUnit) : Bool :=
  let n := c.toNat
  (9 ≤ n && n ≤ 13) || n = 32 || n = 0xA0 || n = 0x1680 || (0x2000 ≤ n && n ≤ 0x200A) || n = 0x2028 || n = 0x2029 ||
    n = 0x202F || n = 0x205F || n = 0x3000 || n = 0xFEFF

def trim (value : Str) : Str := (value.dropWhile isBlank).rdropWhile isBlank

def comma : CodeUnit := unit ','

/-- A header as Node hands it out: its lines may have been put together or not. -/
inductive Header where
  | one (value : Str)
  | many (values : List Str)
  deriving DecidableEq

structure IncomingMessage where
  forwardedFor : Option Header
  remoteAddress : Option Str
  deriving DecidableEq

def unknownAddress : Str := units "unknown"

def platformProxyHops : Nat := 1

def mappedPrefix : Str := units "::ffff:"

def normalise (address : Str) : Str := if mappedPrefix.isPrefixOf address then address.drop mappedPrefix.length else address

def Header.text : Header → Str
  | .one value => value
  | .many values => [comma].intercalate values

def Header.chain (h : Header) : List Str := ((h.text.splitOn comma).map trim).filter (· ≠ [])

def forwardedHop (chain : List Str) : Option Str :=
  if platformProxyHops ≤ chain.length then chain[chain.length - platformProxyHops]? else none

def clientIp (request : IncomingMessage) : Str :=
  let address := (request.forwardedFor.bind fun h => forwardedHop h.chain).or request.remoteAddress
  match address with
  | none => unknownAddress
  | some address => if address = [] then unknownAddress else normalise address

/-- What reaches the process when the proxy has appended the address to whatever was sent: as an entry after a comma, or as
a line of its own. -/
inductive Appended (address : Str) : Header → Prop
  | alone : Appended address (.one address)
  | entry (sent blanks : Str) (hblanks : ∀ c ∈ blanks, isBlank c = true) :
      Appended address (.one (sent ++ comma :: (blanks ++ address)))
  | line (sent : List Str) : Appended address (.many (sent ++ [address]))
  | lastLine (sent : List Str) (last blanks : Str) (hblanks : ∀ c ∈ blanks, isBlank c = true) :
      Appended address (.many (sent ++ [last ++ comma :: (blanks ++ address)]))

def IncomingMessage.CameFrom (request : IncomingMessage) (address : Str) : Prop :=
  ∃ h, request.forwardedFor = some h ∧ Appended address h

def IncomingMessage.Unforwarded (request : IncomingMessage) : Prop := ∀ h, request.forwardedFor = some h → h.chain = []

def isOctet (s : Str) : Bool :=
  s ≠ [] && s.length ≤ 3 && s.all (fun c => (digitOf c).isSome) && valueOf (s.filterMap digitOf) ≤ 255

def isIPv4 (s : Str) : Bool :=
  match s.splitOn (unit '.') with
  | [a, b, c, d] => [a, b, c, d].all isOctet
  | _ => false

/-! ## Trimming -/
section Trimming
variable {s blanks : Str}

private theorem trim_append (h : ∀ c ∈ blanks, isBlank c = true) : trim (blanks ++ s) = trim s := by
  unfold trim
  rw [List.dropWhile_append_of_pos h]

private theorem trim_ne_nil (h : ∃ c ∈ s, isBlank c = false) : trim s ≠ [] := by
  obtain ⟨c,hc,hblank⟩ := h
  intro he
  have hrest := List.rdropWhile_eq_nil_iff.mp he
  rw [← List.takeWhile_append_dropWhile (p := isBlank) (l := s)] at hc
  rcases List.mem_append.mp hc with hc | hc
  · cases hblank.symm.trans (List.mem_takeWhile_imp hc)
  · cases hblank.symm.trans (hrest c hc)

theorem trim_eq_self (h : ∀ c ∈ s, isBlank c = false) : trim s = s := by
  have hfront : s.dropWhile isBlank = s := by
    rw [List.dropWhile_eq_self_iff]
    intro hl
    simp [h _ (List.getElem_mem hl)]
  unfold trim
  rw [hfront, List.rdropWhile_eq_self_iff]
  intro hl
  simp [h _ (List.getLast_mem hl)]

end Trimming

/-! ## The last entry -/
section Last
variable {address : Str} {h : Header}

private theorem join_append (sent : List Str) (last : Str) : [comma].intercalate (sent ++ [last]) = last ∨
    ∃ before, [comma].intercalate (sent ++ [last]) = before ++ comma :: last := by
  induction sent with
  | nil => exact .inl (by simp [List.intercalate])
  | cons part sent ih =>
    right
    have hcons : [comma].intercalate (part :: (sent ++ [last])) = part ++ comma :: [comma].intercalate (sent ++ [last]) := by
      cases sent with
      | nil => simp [List.intercalate]
      | cons next rest => simp [List.intercalate]
    rw [List.cons_append, hcons]
    rcases ih with ih | ⟨before,ih⟩
    · exact ⟨part,by rw [ih]⟩
    · exact ⟨part ++ comma :: before,by rw [ih]; simp⟩

/-- However the address was appended, it ends the text of the header. -/
private theorem text_of_appended (ha : Appended address h) : ∃ blanks, (∀ c ∈ blanks, isBlank c = true) ∧
    (h.text = blanks ++ address ∨ ∃ before, h.text = before ++ comma :: (blanks ++ address)) := by
  cases ha with
  | alone => exact ⟨[],by simp,.inl rfl⟩
  | entry sent blanks hblanks => exact ⟨blanks,hblanks,.inr ⟨sent,rfl⟩⟩
  | line sent => exact ⟨[],by simp,join_append sent address⟩
  | lastLine sent last blanks hblanks =>
    refine ⟨blanks,hblanks,.inr ?_⟩
    rcases join_append sent (last ++ comma :: (blanks ++ address)) with hjoin | ⟨before,hjoin⟩
    · exact ⟨last,hjoin⟩
    · exact ⟨before ++ comma :: last,by rw [Header.text, hjoin]; simp⟩

/-- The last entry of the chain is the appended one, whatever stands before it. -/
private theorem chain_of_appended (ha : Appended address h) (hblank : ∃ c ∈ address, isBlank c = false) (hcomma : comma ∉ address) :
    ∃ before, h.chain = before ++ [trim address] := by
  obtain ⟨blanks,hblanks,htext⟩ := text_of_appended ha
  have hone : (blanks ++ address).splitOn comma = [blanks ++ address] := by
    refine List.splitOn_eq_singleton fun hc => ?_
    rcases List.mem_append.mp hc with hc | hc
    · exact absurd (hblanks _ hc) (by decide)
    · exact hcomma hc
  have hkept : [trim (blanks ++ address)].filter (· ≠ []) = [trim address] := by
    rw [trim_append hblanks]
    simp [trim_ne_nil hblank]
  unfold Header.chain
  rcases htext with htext | ⟨before,htext⟩
  · exact ⟨[],by rw [htext, hone, List.map_singleton, hkept]; rfl⟩
  · rw [htext, List.splitOn_append_cons_self, hone, List.map_append, List.filter_append, List.map_singleton, hkept]
    exact ⟨_,rfl⟩

private theorem forwardedHop_append (before : List Str) (last : Str) : forwardedHop (before ++ [last]) = some last := by
  simp [forwardedHop, platformProxyHops]

private theorem clientIp_of_cameFrom {request : IncomingMessage} (hblank : ∃ c ∈ address, isBlank c = false)
    (hcomma : comma ∉ address) (h : request.CameFrom address) : clientIp request = normalise (trim address) := by
  obtain ⟨h,hheader,ha⟩ := h
  obtain ⟨before,hchain⟩ := chain_of_appended ha hblank hcomma
  simp [clientIp, hheader, hchain, forwardedHop_append, trim_ne_nil hblank]

end Last

/-! ## Mapped peers -/
section Mapped
variable {peer : Str}

private theorem units_of_isIPv4 (h : isIPv4 peer = true) :
    (∀ c ∈ peer, (digitOf c).isSome = true ∨ c = unit '.') ∧ ∃ c ∈ peer, (digitOf c).isSome = true := by
  unfold isIPv4 at h
  split at h
  · rename_i a b c d hsplit
    have hjoin : peer = a ++ unit '.' :: (b ++ unit '.' :: (c ++ unit '.' :: d)) := by
      calc
        peer = [unit '.'].intercalate (peer.splitOn (unit '.')) := (List.intercalate_splitOn _).symm
        _ = _ := by rw [hsplit]; simp [List.intercalate]
    have hoctet : ∀ s ∈ [a, b, c, d], ∀ x ∈ s, (digitOf x).isSome = true := by
      intro s hs x hx
      have hs' := List.all_eq_true.mp h s hs
      simp only [isOctet, Bool.and_eq_true, List.all_eq_true] at hs'
      exact hs'.1.2 x hx
    have hne : a ≠ [] := by
      have ha := List.all_eq_true.mp h a (by simp)
      simp only [isOctet, Bool.and_eq_true, decide_eq_true_eq] at ha
      exact ha.1.1.1
    constructor
    · intro x hx
      rw [hjoin] at hx
      simp only [List.mem_append, List.mem_cons] at hx
      rcases hx with hx | rfl | hx | rfl | hx | rfl | hx
      · exact .inl (hoctet a (by simp) x hx)
      · exact .inr rfl
      · exact .inl (hoctet b (by simp) x hx)
      · exact .inr rfl
      · exact .inl (hoctet c (by simp) x hx)
      · exact .inr rfl
      · exact .inl (hoctet d (by simp) x hx)
    · obtain ⟨x,hx⟩ := List.exists_mem_of_ne_nil a hne
      exact ⟨x,by rw [hjoin]; exact List.mem_append_left _ hx,hoctet a (by simp) x hx⟩
  · cases h

private theorem range_of_digitOf {c : CodeUnit} (h : (digitOf c).isSome = true) : 48 ≤ c.toNat ∧ c.toNat ≤ 57 := by
  unfold digitOf at h
  split at h
  · assumption
  · cases h

private theorem plain_of_isIPv4 (h : isIPv4 peer = true) : ∀ c ∈ peer, isBlank c = false ∧ c ≠ comma ∧ c ≠ unit ':' := by
  intro c hc
  rcases (units_of_isIPv4 h).1 c hc with hd | rfl
  · have hrange := range_of_digitOf hd
    refine ⟨?_,?_,?_⟩
    · simp only [isBlank, Bool.or_eq_false_iff, Bool.and_eq_false_iff, decide_eq_false_iff_not]
      omega
    · rintro rfl
      exact absurd hrange (by decide)
    · rintro rfl
      exact absurd hrange (by decide)
  · decide

private theorem normalise_mapped (peer : Str) : normalise (mappedPrefix ++ peer) = peer := by
  simp [normalise]

private theorem normalise_of_isIPv4 (h : isIPv4 peer = true) : normalise peer = peer := by
  obtain ⟨c,hc,_⟩ := (units_of_isIPv4 h).2
  unfold normalise
  rw [if_neg]
  intro hmapped
  obtain ⟨rest,hrest⟩ := List.isPrefixOf_iff_prefix.mp hmapped
  exact (plain_of_isIPv4 h (unit ':') (by rw [← hrest]; exact List.mem_append_left _ (by decide))).2.2 rfl

private theorem clientIp_of_header {request : IncomingMessage} (h : isIPv4 peer = true)
    (hfrom : request.CameFrom peer ∨ request.CameFrom (mappedPrefix ++ peer)) : clientIp request = peer := by
  obtain ⟨c,hc,_⟩ := (units_of_isIPv4 h).2
  have hplain := plain_of_isIPv4 h
  rcases hfrom with hfrom | hfrom
  · rw [clientIp_of_cameFrom ⟨c,hc,(hplain c hc).1⟩ (fun hm => (hplain _ hm).2.1 rfl) hfrom,
      trim_eq_self fun c hc => (hplain c hc).1, normalise_of_isIPv4 h]
  · have hmapped : (mappedPrefix.all fun c => isBlank c = false ∧ c ≠ comma) = true := by decide
    have hall : ∀ c ∈ mappedPrefix ++ peer, isBlank c = false ∧ c ≠ comma := by
      intro c hc
      rcases List.mem_append.mp hc with hc | hc
      · exact of_decide_eq_true (List.all_eq_true.mp hmapped c hc)
      · exact ⟨(hplain c hc).1,(hplain c hc).2.1⟩
    have hc' : c ∈ mappedPrefix ++ peer := List.mem_append_right _ hc
    rw [clientIp_of_cameFrom ⟨c,hc',(hall c hc').1⟩ (fun hm => (hall _ hm).2 rfl) hfrom,
      trim_eq_self fun c hc => (hall c hc).1, normalise_mapped]

private theorem clientIp_of_peer {request : IncomingMessage} (hnone : request.Unforwarded)
    (hpeer : request.remoteAddress = some (mappedPrefix ++ peer)) : clientIp request = peer := by
  have hhop : (request.forwardedFor.bind fun h => forwardedHop h.chain) = none := by
    cases hheader : request.forwardedFor with
    | none => rfl
    | some h =>
      rw [Option.bind_some, hnone h hheader]
      rfl
  have hne : mappedPrefix ++ peer ≠ [] := by simp [mappedPrefix, units]
  simp [clientIp, hhop, hpeer, hne, normalise_mapped]

end Mapped

/-- The limiter's address cannot be forged: behind the proxy it is the appended one whatever was sent before it, so that
requests of one peer share their bucket; and a mapped peer is the same as its address in a header. -/
theorem clientIp_unforgeable :
    (∀ address request, (∃ c ∈ address, isBlank c = false) → comma ∉ address → request.CameFrom address →
      clientIp request = normalise (trim address)) ∧
    (∀ address request request' bucket, (∃ c ∈ address, isBlank c = false) → comma ∉ address →
      request.CameFrom address → request'.CameFrom address →
      slackIpKey (clientIp request) bucket = slackIpKey (clientIp request') bucket) ∧
    ∀ peer request request', isIPv4 peer = true → request.Unforwarded → request.remoteAddress = some (mappedPrefix ++ peer) →
      request'.CameFrom peer ∨ request'.CameFrom (mappedPrefix ++ peer) → clientIp request = clientIp request' := by
  refine ⟨fun address request => clientIp_of_cameFrom,?_,?_⟩
  · intro address request request' bucket hblank hcomma hfrom hfrom'
    rw [clientIp_of_cameFrom hblank hcomma hfrom, clientIp_of_cameFrom hblank hcomma hfrom']
  · intro peer request request' hpeer hnone hremote hfrom
    rw [clientIp_of_peer hnone hremote, clientIp_of_header hpeer hfrom]

/-- A forged entry beside the plain header, and a mapped peer beside the header. -/
theorem clientIp_of_forged :
    clientIp ⟨some (.one (units "1.2.3.4, ,203.0.113.7, 203.0.113.9")), none⟩ = units "203.0.113.9" ∧
    clientIp ⟨none, some (units "::ffff:203.0.113.9")⟩ = clientIp ⟨some (.many [units "1.2.3.4", units "203.0.113.9"]), none⟩ := by
  obtain ⟨happended,_,hmapped⟩ := clientIp_unforgeable
  refine ⟨(happended (units "203.0.113.9") _ ⟨unit '2',by decide,by decide⟩ (by decide) ⟨_,rfl,?_⟩).trans (by decide),
    hmapped (units "203.0.113.9") _ _ (by decide) (fun _ he => by cases he) rfl (.inl ⟨_,rfl,?_⟩)⟩
  · exact .entry (units "1.2.3.4, ,203.0.113.7") (units " ") (List.forall_mem_singleton.mpr (by decide))
  · exact .line [units "1.2.3.4"]

end Nivara.Limiter
