import Nivara.Realtime.Confidentiality

/-! The names of rooms against the rooms they denote. The server makes its names from the identifiers
that the database gives out; a client may write an identifier in either case, and the registry of
rooms, the log and the sockets go by the letter. -/
namespace Nivara.Realtime
open Collections Transactions

/-- How the database gives out a `uuid`. -/
def storedUuid (id : String) : String := String.ofList (id.toList.map Char.toLower)

def inLowerCase (id : String) : Bool := id.toList.all fun c => !c.isUpper

namespace Room

def stored (tenantId : String) : Room → Room
  | .agents _ => .agents tenantId
  | .ticket _ ticketId => .ticket tenantId (storedUuid ticketId)
  | .internal _ ticketId => .internal tenantId (storedUuid ticketId)

def spelledOut (room : Room) : Bool := room.ticketId.all inLowerCase

end Room

def publishedName (principal : RealtimePrincipal) (room : Room) : String := (room.stored principal.tenantId).name

section Spelling
variable {id tenantId ticketId : String}

private theorem toLower_eq_self_iff (c : Char) : c.toLower = c ↔ c.isUpper = false := by
  by_cases h : c.val ≥ 'A'.val ∧ c.val ≤ 'Z'.val
  · have hup : c.isUpper = true := decide_eq_true h
    have hne : c.toLower ≠ c := by
      intro he
      have hval := congrArg Char.val ((dif_pos h).symm.trans he)
      simp at hval
    simp [hup, hne]
  · have hup : c.isUpper = false := decide_eq_false h
    have he : c.toLower = c := dif_neg h
    simp [hup, he]

/-- An identifier is written as it is stored when it has no capital. -/
theorem storedUuid_eq_self_iff : storedUuid id = id ↔ inLowerCase id = true := by
  rw [storedUuid, ← String.toList_inj, String.toList_ofList, inLowerCase]
  induction id.toList with
  | nil => simp
  | cons c cs ih => simp [toLower_eq_self_iff, ih]

private theorem plain_of_isUuid (h : isUuid id = true) : ':' ∉ id.toList := by
  intro hc
  rcases mem_of_isUuid h hc with hd | hd
  · exact absurd hd (by decide)
  · exact absurd hd (by decide)

private theorem segments_of_name (name : String) (segments : List String)
    (hname : name.toList = 't' :: ':' :: [':'].intercalate (segments.map String.toList))
    (hne : segments ≠ []) (hplain : ∀ segment ∈ segments, ':' ∉ segment.toList) :
    ∃ rest, name.toList = 't' :: ':' :: rest ∧ (List.splitOn ':' rest).map String.ofList = segments := by
  refine ⟨_,hname,?_⟩
  rw [List.splitOn_intercalate ':' (by simpa using hplain) (by simpa using hne), List.map_map]
  exact List.map_id'' (fun _ => String.ofList_toList) _

/-- `parseRoom` undoes the three builders. -/
theorem parseRoom_name {room : Room} (ht : isUuid room.tenantId = true) (hk : room.ticketId.all isUuid = true) :
    parseRoom room.name = some room := by
  cases room with
  | agents t =>
    have ht : isUuid t = true := ht
    obtain ⟨rest,hname,hsegments⟩ := segments_of_name (agentsRoom t) [t, "agents"]
      (by simp [agentsRoom, String.toList_append, List.intercalate]) (by simp) (by simp [plain_of_isUuid ht])
    unfold parseRoom
    simp only [Room.name, hname, hsegments, ht, if_true]
  | ticket t k =>
    have ht : isUuid t = true := ht
    have hk : isUuid k = true := hk
    obtain ⟨rest,hname,hsegments⟩ := segments_of_name (ticketRoom t k) [t, "ticket", k]
      (by simp [ticketRoom, String.toList_append, List.intercalate]) (by simp) (by simp [plain_of_isUuid ht, plain_of_isUuid hk])
    unfold parseRoom
    simp only [Room.name, hname, hsegments, ht, hk, Bool.and_self, if_true]
  | internal t k =>
    have ht : isUuid t = true := ht
    have hk : isUuid k = true := hk
    obtain ⟨rest,hname,hsegments⟩ := segments_of_name (internalRoom t k) [t, "ticket", k, "internal"]
      (by simp [internalRoom, String.toList_append, List.intercalate]) (by simp) (by simp [plain_of_isUuid ht, plain_of_isUuid hk])
    unfold parseRoom
    simp only [Room.name, hname, hsegments, ht, hk, Bool.and_self, if_true]

end Spelling

section Published
variable {principal : RealtimePrincipal} {room : Room}

/-- A room of the principal's tenant is published to under this name when its Ticket is spelled as it is stored. -/
theorem name_eq_publishedName_iff (ht : room.tenantId = principal.tenantId) :
    room.name = publishedName principal room ↔ room.spelledOut = true := by
  rw [publishedName, ← ht]
  cases room with
  | agents t => exact ⟨fun _ => rfl,fun _ => rfl⟩
  | ticket t k =>
    have hcancel : ticketRoom t k = ticketRoom t (storedUuid k) ↔ storedUuid k = k := by
      rw [eq_comm, ticketRoom, ticketRoom, ← String.toList_inj, ← String.toList_inj]
      simp [String.toList_append]
    exact hcancel.trans storedUuid_eq_self_iff
  | internal t k =>
    have hcancel : internalRoom t k = internalRoom t (storedUuid k) ↔ storedUuid k = k := by
      rw [eq_comm, internalRoom, internalRoom, ← String.toList_inj, ← String.toList_inj]
      simp [String.toList_append]
    exact hcancel.trans storedUuid_eq_self_iff

end Published

namespace Gateway
variable {δ : Type}

def mayJoin (s : Gateway δ) (principal : RealtimePrincipal) (roomName : String) : Bool :=
  match canJoin principal roomName with
  | .allow => true
  | .deny => false
  | .requiresRequesterMatch => s.ownsRoom principal roomName

variable {s : Gateway δ} {principal : RealtimePrincipal} {name : String}

/-- A name that is accepted denotes a room of the tenant. -/
theorem room_of_mayJoin (h : s.mayJoin principal name = true) :
    ∃ room, parseRoom name = some room ∧ room.tenantId = principal.tenantId ∧ name = room.name := by
  have hjoin : canJoin principal name ≠ .deny := by
    intro hdeny
    rw [mayJoin, hdeny] at h
    cases h
  obtain ⟨room,hroom,hten⟩ := tenant_of_canJoin hjoin
  exact ⟨room,hroom,hten,(name_of_parse hroom).1⟩

/-- `parseRoom` undoes the builders; and a name that a subscribe accepts is the one the server publishes to exactly
when the Ticket in it is written without capitals. Among those no two denote one room, and whoever is in one of
them is among the sockets that its events go to. -/
theorem canonical_iff_spelledOut :
    (∀ room : Room, isUuid room.tenantId = true → room.ticketId.all isUuid = true → parseRoom room.name = some room) ∧
    ∀ (s : Gateway δ) (principal : RealtimePrincipal) (name : String), s.mayJoin principal name = true →
      ∃ room, parseRoom name = some room ∧ (name = publishedName principal room ↔ room.spelledOut = true) ∧
        (room.spelledOut = true →
          (∀ name' room', s.mayJoin principal name' = true → parseRoom name' = some room' → room'.spelledOut = true →
            room'.stored principal.tenantId = room.stored principal.tenantId → name' = name) ∧
          ∀ id x, s.sockets.get id = some x → x.principal = principal → x.online = true → name ∈ x.rooms →
            id ∈ s.socketsIn (publishedName principal room)) := by
  refine ⟨fun room ht hk => parseRoom_name ht hk,fun s principal name h => ?_⟩
  obtain ⟨room,hroom,hten,rfl⟩ := room_of_mayJoin h
  refine ⟨room,hroom,name_eq_publishedName_iff hten,fun hspelled => ⟨fun name' room' h' hroom' hspelled' hsame => ?_,
    fun id x hx _ hon hin => ?_⟩⟩
  · obtain ⟨room₁,hroom₁,hten₁,rfl⟩ := room_of_mayJoin h'
    cases hroom₁.symm.trans hroom'
    rw [(name_eq_publishedName_iff hten).mpr hspelled, (name_eq_publishedName_iff hten₁).mpr hspelled', publishedName,
      publishedName, hsame]
  · rw [← (name_eq_publishedName_iff hten).mpr hspelled]
    exact mem_socketsIn.mpr ⟨x,hx,hon,hin⟩

private def tenantRow : String := "4d0e7a1c-2b3f-4a5e-8c9d-0f1e2a3b4c5d"

private def ticketRow : String := "c0ffee00-1111-4222-8333-444455556666"

private def inItsRoom (room : String) : List (GatewayAction Unit) :=
  [.opened ⟨ticketRow, tenantRow, "c1"⟩, .connect "s1" (.contact tenantRow "c1"), .subscribe 0 "s1" (.obj [("room", .str room)]),
    .resolve 0, .join 0]

theorem canonical_of_inItsRoom : ∃ s : Gateway Unit, Run step Always (initial ⟨none, none⟩) (inItsRoom (ticketRoom tenantRow ticketRow)) s ∧
    ∃ room, parseRoom (ticketRoom tenantRow ticketRow) = some room ∧
      ticketRoom tenantRow ticketRow = publishedName (.contact tenantRow "c1") room := by
  have hrun : (exec step Always (initial ⟨none, none⟩) (inItsRoom (ticketRoom tenantRow ticketRow))).any (fun s : Gateway Unit =>
      s.mayJoin (.contact tenantRow "c1") (ticketRoom tenantRow ticketRow)) = true := by decide +kernel
  have hspelled : ((parseRoom (ticketRoom tenantRow ticketRow)).any Room.spelledOut) = true := by decide +kernel
  obtain ⟨s,hs,hmay⟩ := exec_any hrun
  obtain ⟨room,hroom,hiff,_⟩ := canonical_iff_spelledOut.2 s _ _ hmay
  rw [hroom, Option.any_some] at hspelled
  exact ⟨s,hs,room,hroom,hiff.mpr hspelled⟩

private def ticketCapitals : String := "C0FFEE00-1111-4222-8333-444455556666"

/-- With capitals in its name the room is entered, and is not where the events of the Ticket go. -/
theorem notCanonical_of_capitals : ∃ s : Gateway Unit,
    Run step Always (initial ⟨none, none⟩) (inItsRoom (ticketRoom tenantRow ticketCapitals)) s ∧
    s.mayJoin (.contact tenantRow "c1") (ticketRoom tenantRow ticketCapitals) = true ∧
    s.mayJoin (.contact tenantRow "c1") (ticketRoom tenantRow ticketRow) = true ∧
    ticketRoom tenantRow ticketCapitals ≠ ticketRoom tenantRow ticketRow ∧
    (∀ room, parseRoom (ticketRoom tenantRow ticketCapitals) = some room →
      publishedName (.contact tenantRow "c1") room = ticketRoom tenantRow ticketRow) ∧
    (s.sockets.get "s1").any (fun x => x.online && x.rooms.contains (ticketRoom tenantRow ticketCapitals)) = true ∧
    s.socketsIn (ticketRoom tenantRow ticketRow) = [] := by
  have hrun : (exec step Always (initial ⟨none, none⟩) (inItsRoom (ticketRoom tenantRow ticketCapitals))).any (fun s : Gateway Unit =>
      s.mayJoin (.contact tenantRow "c1") (ticketRoom tenantRow ticketCapitals) ∧
      s.mayJoin (.contact tenantRow "c1") (ticketRoom tenantRow ticketRow) ∧
      (s.sockets.get "s1").any (fun x => x.online && x.rooms.contains (ticketRoom tenantRow ticketCapitals)) = true ∧
      s.socketsIn (ticketRoom tenantRow ticketRow) = []) = true := by decide +kernel
  have hroom : parseRoom (ticketRoom tenantRow ticketCapitals) = some (.ticket tenantRow ticketCapitals) := by decide +kernel
  have hpublished : publishedName (.contact tenantRow "c1") (.ticket tenantRow ticketCapitals) = ticketRoom tenantRow ticketRow := by
    decide +kernel
  obtain ⟨s,hs,hend⟩ := exec_any hrun
  obtain ⟨hcapitals,hplain,hin,hnobody⟩ := of_decide_eq_true hend
  refine ⟨s,hs,hcapitals,hplain,by decide +kernel,fun room hr => ?_,hin,hnobody⟩
  cases hroom.symm.trans hr
  exact hpublished

end Gateway
end Nivara.Realtime
