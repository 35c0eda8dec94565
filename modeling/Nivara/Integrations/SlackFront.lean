import Nivara.Basic
import Nivara.Idempotency.Scope
import Nivara.Integrations.SignatureScheme
import Nivara.Text.Objects
import Nivara.Transactions.Run

/-! What the Slack adapter believes, from `slack/slack-signature.ts`, the front of `accept` in `slack/slack-inbound.service.ts` and
`readSlackEnvelope` of `slack/slack-event.ts`. On the way from Slack anybody may read, change, delay and repeat a request. -/
namespace Nivara.Integrations
open Text Transactions

def slackSignatureScheme : SignatureScheme where
  signatureHeader := units "x-slack-signature"
  timestampHeader := units "x-slack-request-timestamp"
  digestPrefix := units "v0="
  replayWindowSeconds := 300
  signingBase timestamp rawBody := units "v0:" ++ (timestamp ++ unit ':' :: rawBody)

structure SlackRequest where
  headers : Headers
  rawBody : Str

structure SlackInstallation where
  tenantId : Uuid
  botUserId : Str

abbrev Installations := Str → Option SlackInstallation

inductive SlackEnvelope where
  | challenge (challenge : Str)
  | event (teamId eventId : Str) (event : Option Json)
  | ignored

def asRecord : Json → Option Json
  | .object members => some (.object members)
  | _ => none

def asText : Option Json → Option Str
  | some (.string s) => if s = [] then none else some s
  | _ => none

def readSlackEnvelope (payload : Json) : SlackEnvelope :=
  match asRecord payload with
  | none => .ignored
  | some body =>
    if asText (body.get (units "type")) = some (units "url_verification") then
      match asText (body.get (units "challenge")) with
      | some challenge => .challenge challenge
      | none => .ignored
    else if asText (body.get (units "type")) ≠ some (units "event_callback") then .ignored
    else
      match asText (body.get (units "team_id")), asText (body.get (units "event_id")) with
      | some teamId, some eventId => .event teamId eventId (body.get (units "event"))
      | _, _ => .ignored

inductive Screened where
  | refuse
  | ack
  | challenge (challenge : Str)
  /-- The event is to be claimed for the tenant of the workspace. -/
  | claim (installation : SlackInstallation) (eventId : Str) (event : Option Json)

def heed (installations : Installations) (rawBody : Str) : Screened :=
  match parseJson rawBody with
  | none => .ack
  | some payload =>
    match readSlackEnvelope payload with
    | .challenge challenge => .challenge challenge
    | .ignored => .ack
    | .event teamId eventId event =>
      match installations teamId with
      | none => .ack
      | some installation => .claim installation eventId event

section Wire
variable (hmac : Str → Str → Str) (slackSigningSecret : Option Str)

def accept (installations : Installations) (request : SlackRequest) (now : Instant) : Screened :=
  match slackSigningSecret with
  | none => .refuse
  | some secret =>
    if secret = [] then .refuse
    else
      match verifySignature hmac slackSignatureScheme ⟨request.headers, request.rawBody, secret, now⟩ with
      | .error _ => .refuse
      | .ok () => heed installations request.rawBody

inductive Entry where
  /-- Slack has signed a body, by its own clock. -/
  | signed (second : ℕ) (body : Str)
  | answered (request : SlackRequest) (now : Instant) (installations : Installations) (answer : Screened)

structure Wire where
  now : Instant
  installations : Installations
  log : List Entry

inductive WireAction where
  | pass (now : Instant)
  | install (teamId : Str) (installation : Option SlackInstallation)
  | sign (second : ℕ) (body : Str)
  /-- Whoever sends it. -/
  | deliver (request : SlackRequest)

def Wire.step (w : Wire) : WireAction → Option Wire
  | .pass now => if w.now.1 ≤ now.1 then some { w with now } else none
  | .install teamId installation => some { w with installations := Function.update w.installations teamId installation }
  | .sign second body => if second ≤ lastSecond then some { w with log := w.log ++ [.signed second body] } else none
  | .deliver request => some { w with
      log := w.log ++ [.answered request w.now w.installations (accept hmac slackSigningSecret w.installations request w.now)] }

/-- Who has not the secret puts a genuine digest only on what Slack has signed. -/
def Wire.Unforged (w : Wire) : WireAction → Prop
  | .deliver request => ∀ secret signature timestamp, slackSigningSecret = some secret →
      headerValue request.headers slackSignatureScheme.signatureHeader = some signature →
      headerValue request.headers slackSignatureScheme.timestampHeader = some timestamp →
      encodeUtf8 (slackSignatureScheme.digestPrefix ++ hmac secret (slackSignatureScheme.signingBase timestamp request.rawBody)) =
        encodeUtf8 signature →
      ∃ second body, Entry.signed second body ∈ w.log ∧
        slackSignatureScheme.signingBase timestamp request.rawBody = slackSignatureScheme.signingBase (decimal second) body
  | _ => True

/-- What is true of an answer, after what was logged before it. What is not refused was signed by Slack, with the time in the
header, at most five minutes ago or ahead; and then it is the signed body that is answered, and nothing else of the request. What
is refused carries no digest that is as fresh. -/
def Entry.Sound (before : List Entry) : Entry → Prop
  | .signed second _ => second ≤ lastSecond
  | .answered request now installations answer =>
    (answer ≠ .refuse → answer = heed installations request.rawBody ∧ ∃ second, Entry.signed second request.rawBody ∈ before ∧
      headerValue request.headers slackSignatureScheme.timestampHeader = some (decimal second) ∧
      |now.1 - 1000 * second| ≤ 300000) ∧
    (answer = .refuse → ∀ secret signature second, slackSigningSecret = some secret → secret ≠ [] → second ≤ lastSecond →
      |now.1 - 1000 * second| ≤ 300000 →
      ¬ Carries hmac slackSignatureScheme ⟨request.headers, request.rawBody, secret, now⟩ signature (decimal second))

def Sound (log : List Entry) : Prop := ∀ before e after, log = before ++ e :: after → e.Sound hmac slackSigningSecret before

structure Believed (log : List Entry) : Prop where
  sound : Sound hmac slackSigningSecret log
  /-- A request that was read off the wire is good for ten minutes, whoever sends it again. -/
  shortLived : ∀ request now installations answer request' now' installations' answer',
    Entry.answered request now installations answer ∈ log → Entry.answered request' now' installations' answer' ∈ log →
    answer ≠ .refuse → answer' ≠ .refuse →
    headerValue request.headers slackSignatureScheme.timestampHeader =
      headerValue request'.headers slackSignatureScheme.timestampHeader →
    |now.1 - now'.1| ≤ 600000

end Wire

section Runs
variable {hmac : Str → Str → Str} {slackSigningSecret : Option Str} {w u : Wire}

private theorem signed_inj {timestamp rawBody body : Str} {second : ℕ} (hread : (stringToNumber timestamp).isSome)
    (hs : second ≤ lastSecond) (h : slackSignatureScheme.signingBase timestamp rawBody =
      slackSignatureScheme.signingBase (decimal second) body) : timestamp = decimal second ∧ rawBody = body := by
  have hdecimal : unit ':' ∉ decimal second := colon_not_mem (by rw [stringToNumber_decimal hs]; rfl)
  obtain ⟨htime,hbody⟩ := Idempotency.split_left (List.append_cancel_left h) (colon_not_mem hread) hdecimal
  exact ⟨htime,hbody⟩

private theorem heed_ne_refuse (installations : Installations) (rawBody : Str) : heed installations rawBody ≠ .refuse := by
  unfold heed
  cases parseJson rawBody with
  | none => simp
  | some payload =>
    dsimp only
    cases readSlackEnvelope payload with
    | challenge _ => simp
    | ignored => simp
    | event teamId eventId event =>
      dsimp only
      cases installations teamId <;> simp

/-- Either the request is refused, or it verifies and its body alone is read. -/
private theorem accept_cases (hmac : Str → Str → Str) (slackSigningSecret : Option Str) (installations : Installations) (request : SlackRequest) (now : Instant) :
    (accept hmac slackSigningSecret installations request now = .refuse ∧ ∀ secret, slackSigningSecret = some secret → secret ≠ [] →
      verifySignature hmac slackSignatureScheme ⟨request.headers, request.rawBody, secret, now⟩ ≠ .ok ()) ∨
    (accept hmac slackSigningSecret installations request now = heed installations request.rawBody ∧
      ∃ secret, slackSigningSecret = some secret ∧
        verifySignature hmac slackSignatureScheme ⟨request.headers, request.rawBody, secret, now⟩ = .ok ()) := by
  unfold accept
  cases slackSigningSecret with
  | none => exact .inl ⟨rfl,fun _ h => by cases h⟩
  | some secret =>
    dsimp only
    by_cases hempty : secret = []
    · rw [if_pos hempty]
      refine .inl ⟨rfl,fun other h hne => ?_⟩
      cases h
      exact absurd hempty hne
    · rw [if_neg hempty]
      cases hv : verifySignature hmac slackSignatureScheme ⟨request.headers, request.rawBody, secret, now⟩ with
      | error failure =>
        refine .inl ⟨rfl,fun other h _ => ?_⟩
        cases h
        rw [hv]
        simp
      | ok _ => exact .inr ⟨rfl,secret,rfl,hv⟩

private theorem verified_iff {check : SignatureCheck} {signature : Str} {second : ℕ} (hs : second ≤ lastSecond)
    (h : Carries hmac slackSignatureScheme check signature (decimal second)) :
    verifySignature hmac slackSignatureScheme check = .ok () ↔ |check.now.1 - 1000 * second| ≤ 300000 := by
  have hwindow := verifySignature_of_seconds hs (by decide) h
  norm_num [slackSignatureScheme] at hwindow ⊢
  exact hwindow

private theorem sound_delivered {request : SlackRequest} (hsigned : ∀ second body, Entry.signed second body ∈ w.log → second ≤ lastSecond)
    (hun : w.Unforged hmac slackSigningSecret (.deliver request)) :
    (Entry.answered request w.now w.installations (accept hmac slackSigningSecret w.installations request w.now)).Sound hmac
      slackSigningSecret w.log := by
  rcases accept_cases hmac slackSigningSecret w.installations request w.now with
    ⟨hrefuse,hfails⟩ | ⟨hheard,secret,hsecret,hverified⟩
  · refine ⟨fun hne => absurd hrefuse hne,fun _ secret signature second hsecret hne hs hnow hcarries => ?_⟩
    exact hfails secret hsecret hne ((verified_iff hs hcarries).mpr hnow)
  · obtain ⟨signature,timestamp,sentAt,hcarries,hsent,_⟩ := verifySignature_eq_ok.mp hverified
    obtain ⟨second,body,hmem,hbase⟩ := hun secret signature timestamp hsecret hcarries.presents hcarries.dates hcarries.genuine
    have hs := hsigned second body hmem
    obtain ⟨rfl,rfl⟩ := signed_inj (by rw [hsent]; rfl) hs hbase
    have hnow := (verified_iff hs hcarries).mp hverified
    have hne : accept hmac slackSigningSecret w.installations request w.now ≠ .refuse := hheard ▸ heed_ne_refuse _ _
    exact ⟨fun _ => ⟨hheard,second,hmem,hcarries.dates,hnow⟩,fun hrefuse => absurd hrefuse hne⟩

private theorem sound_append {log : List Entry} {e : Entry} (h : Sound hmac slackSigningSecret log)
    (he : e.Sound hmac slackSigningSecret log) : Sound hmac slackSigningSecret (log ++ [e]) := by
  intro before x after hlog
  rcases List.eq_nil_or_concat after with rfl | ⟨rest,last,rfl⟩
  · obtain ⟨rfl,hx⟩ := List.append_inj' hlog rfl
    cases hx
    exact he
  · rw [List.concat_eq_append, ← List.cons_append, ← List.append_assoc] at hlog
    exact h before x rest (List.append_inj' hlog rfl).1

private theorem signed_le {log : List Entry} (h : Sound hmac slackSigningSecret log) :
    ∀ second body, Entry.signed second body ∈ log → second ≤ lastSecond := by
  intro second body hmem
  obtain ⟨before,after,hlog⟩ := List.append_of_mem hmem
  exact h before _ after hlog

private theorem sound_step {a : WireAction} (h : Sound hmac slackSigningSecret w.log) (hun : w.Unforged hmac slackSigningSecret a)
    (hs : w.step hmac slackSigningSecret a = some u) : Sound hmac slackSigningSecret u.log := by
  cases a with
  | pass now =>
    obtain ⟨_,⟨⟩⟩ := Option.ite_none_right_eq_some.mp hs
    exact h
  | install teamId installation =>
    cases hs
    exact h
  | sign second body =>
    obtain ⟨hle,⟨⟩⟩ := Option.ite_none_right_eq_some.mp hs
    exact sound_append h hle
  | deliver request =>
    cases hs
    exact sound_append h (sound_delivered (signed_le h) hun)

private theorem decimal_inj {m n : ℕ} (hm : m ≤ lastSecond) (hn : n ≤ lastSecond) (h : decimal m = decimal n) : m = n := by
  have hread := (stringToNumber_decimal hm).symm.trans (h ▸ stringToNumber_decimal hn)
  have hval : (m : ℚ) = n := congrArg Double.val (Number.finite.inj (Option.some.inj hread))
  exact_mod_cast hval

/-- Whatever is sent to it, the adapter acts on what Slack has signed only, and only for a few minutes. -/
theorem believed_of_run {acts : List WireAction} (hnone : w.log = [])
    (h : Run (Wire.step hmac slackSigningSecret) (Wire.Unforged hmac slackSigningSecret) w acts u) :
    Believed hmac slackSigningSecret u.log := by
  have hstart : Sound hmac slackSigningSecret w.log := by
    intro before e after hlog
    rw [hnone] at hlog
    simp at hlog
  have hsound := h.invariant hstart fun _ _ _ hi hun hs => sound_step hi hun hs
  refine ⟨hsound,fun request now installations answer request' now' installations' answer' hmem hmem' hne hne' hdate => ?_⟩
  have hplace {request : SlackRequest} {now : Instant} {installations : Installations} {answer : Screened}
      (hmem : Entry.answered request now installations answer ∈ u.log) (hne : answer ≠ .refuse) :
      ∃ second ≤ lastSecond, headerValue request.headers slackSignatureScheme.timestampHeader = some (decimal second) ∧
        |now.1 - 1000 * second| ≤ 300000 := by
    obtain ⟨before,after,hlog⟩ := List.append_of_mem hmem
    obtain ⟨_,second,hsigned,hdated,hnow⟩ := (hsound before _ after hlog).1 hne
    exact ⟨second,signed_le hsound second _ (hlog ▸ List.mem_append_left _ hsigned),hdated,hnow⟩
  obtain ⟨second,hs,hdated,hnow⟩ := hplace hmem hne
  obtain ⟨second',hs',hdated',hnow'⟩ := hplace hmem' hne'
  have hsame := decimal_inj hs hs' (Option.some.inj (hdated.symm.trans (hdate.trans hdated')))
  subst hsame
  rw [abs_le] at hnow hnow' ⊢
  omega

end Runs

section Example

private def body : Str := units "\x7b\"type\":\"event_callback\",\"team_id\":\"T1\",\"event_id\":\"E1\",\"event\":\x7b\x7d\x7d"

private def secret : Str := units "8f742231b10e8888abcd99yyyzzz85a5"

private def digest : Str := units "d394ae017624f2b036c66c24f41a950ec0910fc185eb1faf6bc6aeebe8ab6dc3"

private def hmacOf (key base : Str) : Str :=
  if key = secret ∧ base = slackSignatureScheme.signingBase (decimal 1531420618) body then digest else []

private def captured : SlackRequest where
  headers := [(units "X-Slack-Request-Timestamp", .one (decimal 1531420618)), (units "X-Slack-Signature", .one (units "v0=" ++ digest))]
  rawBody := body

private def workspaces : Installations := Function.update (fun _ => none) (units "T1") (some ⟨1, units "B1"⟩)

private def quiet : Wire := ⟨⟨1531420918000, by decide⟩, workspaces, []⟩

private def Entry.tenant : Entry → Option (Option Uuid)
  | .signed _ _ => none
  | .answered _ _ _ (.claim installation _ _) => some (some installation.tenantId)
  | .answered _ _ _ _ => some none

/-- The request is taken when it comes after five minutes, and refused when it comes again a millisecond later. -/
private def repeated : List WireAction :=
  [.sign 1531420618 body, .deliver captured, .pass ⟨1531420918001, by decide⟩, .deliver captured]

theorem believed_of_repeated : ∃ u, Run (Wire.step hmacOf (some secret)) (Wire.Unforged hmacOf (some secret)) quiet repeated u ∧
    u.log.filterMap Entry.tenant = [some 1, none] ∧ Believed hmacOf (some secret) u.log := by
  have hbase (base : Str) (h : encodeUtf8 (units "v0=" ++ hmacOf secret base) = encodeUtf8 (units "v0=" ++ digest)) :
      base = slackSignatureScheme.signingBase (decimal 1531420618) body := by
    by_contra hne
    rw [hmacOf, if_neg (fun hc => hne hc.2)] at h
    revert h
    decide
  have hunforged (w : Wire) (hmem : Entry.signed 1531420618 body ∈ w.log) : w.Unforged hmacOf (some secret) (.deliver captured) := by
    intro key signature timestamp hkey hsignature _ hequal
    cases hkey
    have hpresented : signature = units "v0=" ++ digest :=
      Option.some.inj (hsignature.symm.trans (by decide +kernel))
    subst hpresented
    exact ⟨1531420618,body,hmem,hbase _ hequal⟩
  have hrun : Run (Wire.step hmacOf (some secret)) (Wire.Unforged hmacOf (some secret)) quiet
      ([] ++ [.sign 1531420618 body] ++ [.deliver captured] ++ [.pass ⟨1531420918001, by decide⟩] ++ [.deliver captured]) _ :=
    .snoc (.snoc (.snoc (.snoc .nil trivial rfl) (hunforged _ (by simp)) rfl) trivial rfl) (hunforged _ (by simp)) rfl
  exact ⟨_,hrun,by decide +kernel,believed_of_run rfl hrun⟩

end Example
end Nivara.Integrations
