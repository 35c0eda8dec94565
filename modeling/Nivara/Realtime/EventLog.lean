import Nivara.Basic
import Nivara.Collections.OrderedMap

/-! Real-time events and the log behind reconnect replay, from `realtime/events.ts`,
`realtime/realtime-principal.ts` and `realtime/event-log.ts`. The log never reads inside a payload,
so the type of the payloads is left open. -/
namespace Nivara.Realtime
open Collections

inductive RealtimeEvent where
  | ticketCreated | ticketUpdated | ticketAssigned | messageCreated | noteCreated | ticketSlaBreached
  | ticketIntegrationFailed
  deriving DecidableEq, Repr

inductive Audience where
  | all | staff
  deriving DecidableEq, Repr

def audienceOf : RealtimeEvent → Audience
  | .ticketCreated => .all
  | .ticketUpdated => .all
  | .ticketAssigned => .all
  | .messageCreated => .all
  | .noteCreated => .staff
  | .ticketSlaBreached => .staff
  | .ticketIntegrationFailed => .staff

/-- Who may hold a socket. A widget visitor has a Contact only once it is known. -/
inductive RealtimePrincipal where
  | user (tenantId userId : String)
  | contact (tenantId contactId : String)
  | widget (tenantId sessionId : String) (contactId : Option String)
  deriving DecidableEq, Repr

def RealtimePrincipal.tenantId : RealtimePrincipal → String
  | .user tenantId _ => tenantId
  | .contact tenantId _ => tenantId
  | .widget tenantId _ _ => tenantId

def isStaff : RealtimePrincipal → Bool
  | .user _ _ => true
  | _ => false

def canReceive (principal : RealtimePrincipal) (event : RealtimeEvent) : Bool :=
  audienceOf event = .all || isStaff principal

/-- `RealtimeEnvelope`; `ts` is the server's clock when the envelope was made. -/
structure Envelope (δ : Type) where
  event : RealtimeEvent
  room : String
  seq : Nat
  ts : Int
  data : δ
  deriving DecidableEq, Repr

/-- `head` is the highest number assigned, retained past what the buffer holds. -/
structure RoomLog (δ : Type) where
  head : Nat
  buffer : List (Envelope δ)

def RETAIN_PER_ROOM : Nat := 200

def MAX_ROOMS : Nat := 2000

structure EventLogOptions where
  retainPerRoom : Option Nat
  maxRooms : Option Nat
  deriving DecidableEq, Repr

structure EventLog (δ : Type) where
  retainPerRoom : Nat
  maxRooms : Nat
  rooms : OrderedMap String (RoomLog δ)
  evictedHighWater : Nat

structure Replay (δ : Type) where
  events : List (Envelope δ)
  gap : Bool
  deriving DecidableEq, Repr

namespace EventLog
variable {δ : Type}

def new (options : EventLogOptions) : EventLog δ :=
  ⟨options.retainPerRoom.getD RETAIN_PER_ROOM, options.maxRooms.getD MAX_ROOMS, .empty, 0⟩

def evict (log : EventLog δ) : EventLog δ :=
  match log.rooms.oldest with
  | none => log
  | some (oldest, _) =>
    { log with
      evictedHighWater := max log.evictedHighWater ((log.rooms.get oldest).elim 0 RoomLog.head)
      rooms := log.rooms.delete oldest }

def touch (log : EventLog δ) (room : String) : EventLog δ × RoomLog δ :=
  match log.rooms.get room with
  | some existing => ({ log with rooms := (log.rooms.delete room).set room existing }, existing)
  | none =>
    let log := if log.maxRooms ≤ log.rooms.size then log.evict else log
    let fresh : RoomLog δ := ⟨log.evictedHighWater, []⟩
    ({ log with rooms := log.rooms.set room fresh }, fresh)

/-- The next number in a room is assigned and the envelope retained; the source changes the room's
log in place. -/
def append (log : EventLog δ) (room : String) (event : RealtimeEvent) (data : δ) (ts : Int) :
    EventLog δ × Envelope δ :=
  let (log, roomLog) := log.touch room
  let envelope : Envelope δ := ⟨event, room, roomLog.head + 1, ts, data⟩
  let buffer := roomLog.buffer ++ [envelope]
  let buffer := if log.retainPerRoom < buffer.length then buffer.tail else buffer
  ({ log with rooms := log.rooms.set room ⟨roomLog.head + 1, buffer⟩ }, envelope)

def replay (log : EventLog δ) (principal : RealtimePrincipal) (room : String) (afterSeq : Nat) : Replay δ :=
  match log.rooms.get room with
  | none => ⟨[], 0 < afterSeq⟩
  | some roomLog =>
    ⟨roomLog.buffer.filter fun envelope => afterSeq < envelope.seq && canReceive principal envelope.event,
      0 < afterSeq && (roomLog.buffer.head?.all fun envelope => afterSeq + 1 < envelope.seq)⟩

end EventLog
end Nivara.Realtime
