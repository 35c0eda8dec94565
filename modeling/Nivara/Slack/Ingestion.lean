import Mathlib.Data.List.DropRight
import Nivara.Text.Bytes
import Nivara.Tickets.TicketService
import Nivara.Transactions.Alone

/-! A Slack message on its way to a Ticket, from `slack/slack-ingestion.service.ts`,
`slack/slack-event.ts` and `slack/slack-subject.ts`. -/
namespace Nivara.Slack
open Text Transactions Tickets Tickets.Tx

inductive Json where
  | text (s : String)
  | other
  deriving DecidableEq, Repr

/-- An event that is an object, by its keys; a key that is absent is `undefined`. -/
abbrev Event := String → Option Json

def isSpace (n : Nat) : Bool :=
  (9 ≤ n && n ≤ 13) || n = 32 || n = 0xA0 || n = 0x1680 || (0x2000 ≤ n && n ≤ 0x200A) || n = 0x2028 || n = 0x2029 ||
    n = 0x202F || n = 0x205F || n = 0x3000 || n = 0xFEFF

def trim (s : String) : String :=
  .ofList ((s.toList.dropWhile fun c => isSpace c.toNat).rdropWhile fun c => isSpace c.toNat)

def trimStart (s : Str) : Str := s.dropWhile fun c => isSpace c.toNat
def trimEnd (s : Str) : Str := s.rdropWhile fun c => isSpace c.toNat

def asText : Option Json → Option String
  | some (.text s) => if s = "" then none else some s
  | _ => none

structure SlackUtterance where
  channelId : String
  threadTs : String
  slackUserId : String
  text : String
  deriving DecidableEq, Repr

/-- `readSlackMessage`; `none` is an event that is ignored. Whether the message opens its thread or
replies in it is nowhere looked at but for the thread it names. -/
def readSlackMessage (event : Option Event) (botUserId : String) : Option SlackUtterance := do
  let message ← event
  if message "type" ≠ some (.text "message") then none
  else if (message "subtype").isSome then none
  else if (message "bot_id").isSome then none
  else
    let slackUserId ← asText (message "user")
    if slackUserId = botUserId then none
    else
      let channelId ← asText (message "channel")
      let ts ← asText (message "ts")
      let text ← (asText (message "text")).map trim
      if text = "" then none
      else
        let threadTs := asText (message "thread_ts")
        some ⟨channelId, if threadTs = none ∨ threadTs = some ts then ts else threadTs.getD ts, slackUserId, text⟩

def maxDerivedSubject : Nat := 120

def beforeLastSpace (s : Str) : Option Str :=
  match s.reverse.dropWhile (· ≠ unit ' ') with
  | [] => none
  | _ :: rest => some rest.reverse

/-- The cut at `maxDerivedSubject` may part a pair of surrogates. -/
def subjectFrom (text : String) : Str :=
  let firstLine := trimEnd (trimStart ((utf16 text).takeWhile (· ≠ unit '\n')))
  if firstLine.isEmpty then units "Slack conversation"
  else if firstLine.length ≤ maxDerivedSubject then firstLine
  else
    let clipped := firstLine.take maxDerivedSubject
    let body := match beforeLastSpace clipped with
      | some before => if maxDerivedSubject / 2 < before.length then before else clipped
      | none => clipped
    trimEnd body ++ units "…"

def contactFor (slackUserId : String) : Tx Uuid := run (.upsertContact slackUserId) .sql

def onThread (channelId threadTs : String) (r : Ticket) : Bool :=
  r.slackChannelId = some channelId ∧ r.slackThreadTs = some threadTs

/-- `orderBy: [{ createdAt: 'desc' }, { id: 'desc' }]`. -/
def newestFirst (rank : Uuid → Nat) (a b : Uuid × Ticket) : Bool := oldestFirst rank b a

def ticketOnThread (rank : Uuid → Nat) (channelId threadTs : String) : Tx (Option (Uuid × Ticket)) := do
  match ← findFirst fun _ r => onThread channelId threadTs r ∧ r.state ≠ .closed with
  | some live => pure (some live)
  | none =>
    let rows ← findMany fun _ r => onThread channelId threadTs r
    pure (rows.mergeSort (newestFirst rank)).head?

def openThread (principal : ContactPrincipal) (message : SlackUtterance) (at' : Int) : Tx ContactReply := do
  let ticket ← createIn principal.tenantId ⟨wellFormed (subjectFrom message.text), principal.contactId, .slack, none,
    some (message.channelId, message.threadTs)⟩ at'
  let posted ← postIn ticket.1 message.text at'
  pure ⟨.spawn, ticket.1, ticket.2, posted.1, posted.2⟩

section Handle
variable {ι : Type} [DecidableEq ι]

/-- One transaction of the handler, with nobody beside it. An error ends the handler. -/
def step (i : ι) (n : Nat) {α β : Type} (tenantId : Uuid) (actor : Actor) (p : Tx α) (d : Desk ι)
    (next : Desk ι → α → Option (Desk ι × Except (Option Failure) β)) : Option (Desk ι × Except (Option Failure) β) :=
  match p.alone (deskEngine ι) i ⟨tenantId, actor, d.clock⟩ n d with
  | none => none
  | some (d', .error e) => some (d', .error e)
  | some (d', .ok a) => next d' a

/-- `SlackIngestionService.handle` with no concurrent writer: three transactions. `none` would be a
statement that waits, or one that takes more than `n` turns; an ignored event answers `none`. -/
def handle (i : ι) (n : Nat) (rank : Uuid → Nat) (tenantId : Uuid) (botUserId : String) (event : Option Event) (at' : Int)
    (d : Desk ι) : Option (Desk ι × Except (Option Failure) (Option ContactReply)) :=
  match readSlackMessage event botUserId with
  | none => some (d, .ok none)
  | some message =>
    step i n tenantId .system (contactFor message.slackUserId) d fun d contactId =>
      let principal : ContactPrincipal := ⟨tenantId, contactId⟩
      step i n tenantId (.contact contactId) (ticketOnThread rank message.channelId message.threadTs) d fun d existing =>
        match existing with
        | some ticket =>
          step i n tenantId (.contact contactId) (reply principal ticket.1 message.text .slack at') d fun d r =>
            some (d, .ok (some r))
        | none =>
          step i n tenantId (.contact contactId) (openThread principal message at') d fun d r => some (d, .ok (some r))

end Handle
end Nivara.Slack
