import Mathlib.Algebra.Group.Int.Defs
import Nivara.Realtime.EventLog

/-! The names of rooms and who may join them, from `realtime/rooms.ts`, `realtime/can-join.ts` and
`realtime/subscribe-request.ts`. -/
namespace Nivara.Realtime

inductive Room where
  | agents (tenantId : String)
  | ticket (tenantId ticketId : String)
  | internal (tenantId ticketId : String)
  deriving DecidableEq, Repr

def Room.tenantId : Room → String
  | .agents tenantId => tenantId
  | .ticket tenantId _ => tenantId
  | .internal tenantId _ => tenantId

def agentsRoom (tenantId : String) : String := "t:" ++ tenantId ++ ":agents"

def ticketRoom (tenantId ticketId : String) : String := "t:" ++ tenantId ++ ":ticket:" ++ ticketId

def internalRoom (tenantId ticketId : String) : String := "t:" ++ tenantId ++ ":ticket:" ++ ticketId ++ ":internal"

def Room.name : Room → String
  | .agents tenantId => agentsRoom tenantId
  | .ticket tenantId ticketId => ticketRoom tenantId ticketId
  | .internal tenantId ticketId => internalRoom tenantId ticketId

def Room.ticketId : Room → Option String
  | .agents _ => none
  | .ticket _ ticketId => some ticketId
  | .internal _ ticketId => some ticketId

def isHexDigit (c : Char) : Bool := ('0' ≤ c && c ≤ '9') || ('a' ≤ c && c ≤ 'f') || ('A' ≤ c && c ≤ 'F')

def isUuid (value : String) : Bool :=
  match List.splitOn '-' value.toList with
  | [a, b, c, d, e] =>
    a.length = 8 && b.length = 4 && c.length = 4 && d.length = 4 && e.length = 12 &&
      [a, b, c, d, e].all fun group => group.all isHexDigit
  | _ => false

def parseRoom (name : String) : Option Room :=
  match name.toList with
  | 't' :: ':' :: rest =>
    match (List.splitOn ':' rest).map String.ofList with
    | [tenantId, "agents"] => if isUuid tenantId then some (.agents tenantId) else none
    | [tenantId, "ticket", ticketId] => if isUuid tenantId && isUuid ticketId then some (.ticket tenantId ticketId) else none
    | [tenantId, "ticket", ticketId, "internal"] =>
      if isUuid tenantId && isUuid ticketId then some (.internal tenantId ticketId) else none
    | _ => none
  | _ => none

inductive JoinVerdict where
  | allow | deny | requiresRequesterMatch
  deriving DecidableEq, Repr

def canJoin (principal : RealtimePrincipal) (roomName : String) : JoinVerdict :=
  match parseRoom roomName with
  | none => .deny
  | some room =>
    if room.tenantId ≠ principal.tenantId then .deny
    else if isStaff principal then .allow
    else match room with
      | .agents _ => .deny
      | .internal _ _ => .deny
      | .ticket _ _ => .requiresRequesterMatch

/-- What a client can send: a value of JSON, or nothing. A number that is no integer is `fraction`. -/
inductive Body where
  | undefined
  | null
  | bool (b : Bool)
  | num (n : Int)
  | fraction
  | str (s : String)
  | arr (items : List Body)
  | obj (fields : List (String × Body))

def Body.field (name : String) (fields : List (String × Body)) : Body := (fields.lookup name).getD .undefined

def maxSafeInteger : Int := 2 ^ 53 - 1

structure SubscribeRequest where
  room : String
  afterSeq : Nat
  deriving DecidableEq, Repr

def parseRoomName : Body → Option String
  | .obj fields =>
    match Body.field "room" fields with
    | .str room => if room = "" then none else some room
    | _ => none
  | _ => none

def parseSubscribe : Body → Option SubscribeRequest
  | .obj fields =>
    match Body.field "room" fields with
    | .str room =>
      if room = "" then none
      else match Body.field "afterSeq" fields with
        | .undefined => some ⟨room, 0⟩
        | .num n => if n ≤ maxSafeInteger ∧ 0 ≤ n then some ⟨room, n.toNat⟩ else none
        | _ => none
    | _ => none
  | _ => none

section Names
variable {name tenantId ticketId : String}

private theorem toList_of_segments {rest : List Char} {segments : List String}
    (hname : name.toList = 't' :: ':' :: rest) (hsegments : (List.splitOn ':' rest).map String.ofList = segments) :
    name.toList = 't' :: ':' :: [':'].intercalate (segments.map String.toList) := by
  have hsplit : segments.map String.toList = List.splitOn ':' rest := by
    rw [← hsegments, List.map_map]
    exact List.map_id'' (fun _ => String.toList_ofList) _
  rw [hname, hsplit, List.intercalate_splitOn]

/-- A name that is taken for a room is that room's name, to the letter. -/
theorem name_of_parse {room : Room} (h : parseRoom name = some room) :
    name = room.name ∧ isUuid room.tenantId = true ∧ room.ticketId.all isUuid = true := by
  unfold parseRoom at h
  split at h
  · rename_i rest hname
    split at h
    · rename_i t hsegments
      split at h
      · rename_i hid
        cases h
        refine ⟨String.toList_inj.mp ?_,hid,rfl⟩
        rw [toList_of_segments hname hsegments]
        simp [Room.name, agentsRoom, String.toList_append, List.intercalate]
      · cases h
    · rename_i t k hsegments
      split at h
      · rename_i hids
        cases h
        refine ⟨String.toList_inj.mp ?_,(Bool.and_eq_true _ _ ▸ hids).1,(Bool.and_eq_true _ _ ▸ hids).2⟩
        rw [toList_of_segments hname hsegments]
        simp [Room.name, ticketRoom, String.toList_append, List.intercalate]
      · cases h
    · rename_i t k hsegments
      split at h
      · rename_i hids
        cases h
        refine ⟨String.toList_inj.mp ?_,(Bool.and_eq_true _ _ ▸ hids).1,(Bool.and_eq_true _ _ ▸ hids).2⟩
        rw [toList_of_segments hname hsegments]
        simp [Room.name, internalRoom, String.toList_append, List.intercalate]
      · cases h
    · cases h
  · cases h

/-- A name that is taken for a Ticket's room is that room's name. -/
theorem ticketRoom_of_parse (h : parseRoom name = some (.ticket tenantId ticketId)) :
    name = ticketRoom tenantId ticketId ∧ isUuid tenantId = true ∧ isUuid ticketId = true := name_of_parse h

/-- An identifier is made of digits and dashes. -/
theorem mem_of_isUuid {id : String} (h : isUuid id = true) {c : Char} (hc : c ∈ id.toList) : isHexDigit c = true ∨ c = '-' := by
  unfold isUuid at h
  split at h
  · rename_i g₁ g₂ g₃ g₄ g₅ hgroups
    simp only [Bool.and_eq_true, decide_eq_true_eq, List.all_cons, List.all_nil, Bool.and_true] at h
    obtain ⟨_,h₁,h₂,h₃,h₄,h₅⟩ := h
    have hjoin : ['-'].intercalate (List.splitOn '-' id.toList) = id.toList := List.intercalate_splitOn '-'
    rw [← hjoin, hgroups] at hc
    simp only [List.intercalate, List.intersperse, List.flatten_cons, List.flatten_nil, List.append_nil, List.mem_append,
      List.mem_singleton] at hc
    rcases hc with hc | hc | hc | hc | hc | hc | hc | hc | hc
    · exact .inl (List.all_eq_true.mp h₁ c hc)
    · exact .inr hc
    · exact .inl (List.all_eq_true.mp h₂ c hc)
    · exact .inr hc
    · exact .inl (List.all_eq_true.mp h₃ c hc)
    · exact .inr hc
    · exact .inl (List.all_eq_true.mp h₄ c hc)
    · exact .inr hc
    · exact .inl (List.all_eq_true.mp h₅ c hc)
  · cases h

private theorem last_of_isUuid (h : isUuid ticketId = true) :
    ∃ c, ticketId.toList.getLast? = some c ∧ isHexDigit c = true := by
  unfold isUuid at h
  split at h
  · rename_i a b c d e hgroups
    simp only [Bool.and_eq_true, decide_eq_true_eq, List.all_cons, List.all_nil, Bool.and_true] at h
    obtain ⟨⟨_,hlen⟩,_,_,_,_,hall⟩ := h
    have hne : e ≠ [] := fun he => by simp [he] at hlen
    have hjoin : ticketId.toList = (a ++ '-' :: b ++ '-' :: c ++ '-' :: d ++ ['-']) ++ e := by
      have hsplit : ['-'].intercalate (List.splitOn '-' ticketId.toList) = ticketId.toList := List.intercalate_splitOn '-'
      rw [← hsplit, hgroups]
      simp [List.intercalate]
    refine ⟨e.getLast hne,?_,List.all_eq_true.mp hall _ (List.getLast_mem hne)⟩
    rw [hjoin, List.getLast?_append_of_ne_nil _ hne, List.getLast?_eq_some_getLast hne]
  · cases h

private theorem ne_of_last {other : String} {c : Char} (hlast : other.toList.getLast? = some c) (hc : isHexDigit c = false)
    (h : isUuid ticketId = true) : ticketRoom tenantId ticketId ≠ other := by
  rintro rfl
  obtain ⟨d,hd,hdigit⟩ := last_of_isUuid h
  have hne : ticketId.toList ≠ [] := fun he => by simp [he] at hd
  rw [ticketRoom, String.toList_append, List.getLast?_append_of_ne_nil _ hne, hd] at hlast
  cases hlast
  rw [hc] at hdigit
  cases hdigit

/-- A Ticket's room is no dashboard. -/
theorem ticketRoom_ne_agentsRoom (h : isUuid ticketId = true) (t : String) : ticketRoom tenantId ticketId ≠ agentsRoom t := by
  refine ne_of_last (c := 's') ?_ (by decide) h
  rw [agentsRoom, String.toList_append, List.getLast?_append_of_ne_nil _ (by decide)]
  decide

/-- A Ticket's room is no room for Notes. -/
theorem ticketRoom_ne_internalRoom (h : isUuid ticketId = true) (t k : String) :
    ticketRoom tenantId ticketId ≠ internalRoom t k := by
  refine ne_of_last (c := 'l') ?_ (by decide) h
  rw [internalRoom, String.toList_append, List.getLast?_append_of_ne_nil _ (by decide)]
  decide

end Names

section Verdicts
variable {principal : RealtimePrincipal} {name : String}

/-- Nobody is let near a room of another tenant. -/
theorem tenant_of_canJoin (h : canJoin principal name ≠ .deny) :
    ∃ room, parseRoom name = some room ∧ room.tenantId = principal.tenantId := by
  unfold canJoin at h
  split at h
  · exact absurd rfl h
  · rename_i room hroom
    split at h
    · exact absurd rfl h
    · rename_i hten
      exact ⟨room,hroom,by simpa using hten⟩

/-- A customer is asked about its own Ticket, or refused. -/
theorem ticket_of_canJoin (hstaff : isStaff principal = false) (h : canJoin principal name ≠ .deny) :
    canJoin principal name = .requiresRequesterMatch ∧
      ∃ ticketId, parseRoom name = some (.ticket principal.tenantId ticketId) := by
  obtain ⟨room,hroom,hten⟩ := tenant_of_canJoin h
  simp only [canJoin, hroom, hten, ne_eq, not_true_eq_false, if_false, hstaff, Bool.false_eq_true] at h ⊢
  cases room with
  | agents t => exact absurd rfl h
  | internal t k => exact absurd rfl h
  | ticket t k =>
    cases hten
    exact ⟨rfl,k,rfl⟩

end Verdicts
end Nivara.Realtime
