import Mathlib.Init

/-! What a Slack destination is, from `slack/slack-target.ts`, and what the handler makes of
Slack's answer, from `slack/slack-client.ts`. -/
namespace Nivara.Slack

structure SlackDestination where
  channelId : String
  threadTs : String
  deriving DecidableEq, Repr

def slackTarget (channelId threadTs : String) : String := channelId ++ "/" ++ threadTs

/-- The whole string, in two parts that are not empty. -/
def parseSlackTarget (target : String) : Option SlackDestination :=
  match target.toList.splitOn '/' with
  | [channelId, threadTs] =>
    if channelId = [] ∨ threadTs = [] then none else some ⟨String.ofList channelId, String.ofList threadTs⟩
  | _ => none

structure SlackError where
  permanent : Bool
  message : String
  deriving DecidableEq, Repr

def permanentErrors : List String :=
  ["channel_not_found", "thread_not_found", "is_archived", "not_in_channel", "invalid_auth", "account_inactive",
   "token_revoked", "no_permission", "msg_too_long"]

inductive Answer where
  /-- There is no token to post with, so there is no call. -/
  | unconfigured
  /-- The call throws: a network fault, the request timeout, or a body that is not JSON. -/
  | unreachable (message : String)
  | http (status : Nat)
  | refused (error : Option String)
  | ok (ts : Option String)
  deriving DecidableEq, Repr

def postMessage : Answer → Except SlackError String
  | .unconfigured =>
    .error ⟨true, "Slack is not configured in this process, so there is no credential to post with."⟩
  | .unreachable message => .error ⟨false, message⟩
  | .http status => .error ⟨false, "Slack answered HTTP " ++ toString status ++ " to chat.postMessage"⟩
  | .refused error =>
    let error := error.getD "unknown_error"
    .error ⟨permanentErrors.contains error, "Slack refused the post: " ++ error⟩
  | .ok ts =>
    match ts with
    | none => .error ⟨false, "Slack accepted the post but named no message"⟩
    | some ts => if ts = "" then .error ⟨false, "Slack accepted the post but named no message"⟩ else .ok ts

def Answer.agrees (accepts : Bool) : Answer → Bool
  | .unconfigured => !accepts
  | .unreachable _ => true
  | .http _ => true
  | .refused _ => !accepts
  | .ok _ => accepts

end Nivara.Slack
