import Nivara.Realtime.EventLog

/-! The numbers of a room never go back, and what a replay without a gap hands over is all there is.
A room that was evicted has left its head to the one high-water mark, from which every new room
starts; so the numbers that a room was given before are below its first new one. -/
namespace Nivara.Realtime
open Collections

/-- The arguments of an `append`, with the instant at which it is made. -/
structure Call (δ : Type) where
  room : String
  event : RealtimeEvent
  data : δ
  ts : Int
  deriving DecidableEq, Repr

variable {δ : Type}

/-- One `append` after the other: the log, and the envelopes in the order they were made. -/
def EventLog.appends (log : EventLog δ) : List (Call δ) → EventLog δ × List (Envelope δ)
  | [] => (log, [])
  | c :: calls =>
    let (log, envelope) := log.append c.room c.event c.data c.ts
    let (log, issued) := log.appends calls
    (log, envelope :: issued)

def inRoom (room : String) (issued : List (Envelope δ)) : List (Envelope δ) := issued.filter fun e => e.room = room

/-- The buffer of a room is the end of what was ever made in it, and whatever came before has lower
numbers. -/
structure Window (history : List (Envelope δ)) (retainPerRoom : Nat) (roomLog : RoomLog δ) : Prop where
  retained : roomLog.buffer.length ≤ retainPerRoom
  bounded : roomLog.buffer.length ≤ roomLog.head
  consecutive : roomLog.buffer.map Envelope.seq = List.range' (roomLog.head + 1 - roomLog.buffer.length) roomLog.buffer.length
  ends : ∃ before, history = before ++ roomLog.buffer ∧ ∀ e ∈ before, e.seq + roomLog.buffer.length ≤ roomLog.head

namespace Window
variable {history : List (Envelope δ)} {retainPerRoom : Nat} {roomLog : RoomLog δ} {e : Envelope δ}

theorem mem_buffer (h : Window history retainPerRoom roomLog) (he : e ∈ roomLog.buffer) :
    roomLog.head < e.seq + roomLog.buffer.length ∧ e.seq ≤ roomLog.head := by
  have hmem := List.mem_map_of_mem (f := Envelope.seq) he
  rw [h.consecutive, List.mem_range'_1] at hmem
  have := h.bounded
  omega

theorem seq_le (h : Window history retainPerRoom roomLog) (he : e ∈ history) : e.seq ≤ roomLog.head := by
  obtain ⟨before,hsplit,hbefore⟩ := h.ends
  rw [hsplit, List.mem_append] at he
  rcases he with he | he
  · have := hbefore e he
    omega
  · exact (h.mem_buffer he).2

/-- A room without a buffer. -/
theorem fresh {head : Nat} (h : ∀ e ∈ history, e.seq ≤ head) : Window history retainPerRoom ⟨head, []⟩ where
  retained := Nat.zero_le _
  bounded := Nat.zero_le _
  consecutive := rfl
  ends := ⟨history,by simp,by simpa using h⟩

private theorem push (h : Window history retainPerRoom roomLog) (he : e.seq = roomLog.head + 1)
    (hroom : roomLog.buffer.length < retainPerRoom) :
    Window (history ++ [e]) retainPerRoom ⟨roomLog.head + 1, roomLog.buffer ++ [e]⟩ := by
  obtain ⟨before,hsplit,hbefore⟩ := h.ends
  have hb := h.bounded
  refine ⟨?_,?_,?_,before,?_,?_⟩
  · rw [List.length_append]
    exact hroom
  · simpa using hb
  · have hstart : roomLog.head + 1 + 1 - (roomLog.buffer.length + 1) = roomLog.head + 1 - roomLog.buffer.length := by omega
    have hend : roomLog.head + 1 - roomLog.buffer.length + roomLog.buffer.length = e.seq := by omega
    rw [List.map_append, h.consecutive, List.length_append, List.length_singleton, hstart, List.range'_1_concat, hend]
    rfl
  · rw [hsplit, List.append_assoc]
  · intro x hx
    have := hbefore x hx
    simp only [List.length_append, List.length_singleton]
    omega

private theorem shift (h : Window history (retainPerRoom + 1) roomLog) (hfull : roomLog.buffer.length = retainPerRoom + 1) :
    Window history retainPerRoom ⟨roomLog.head, roomLog.buffer.tail⟩ := by
  obtain ⟨before,hsplit,hbefore⟩ := h.ends
  obtain ⟨head,buffer⟩ := roomLog
  cases buffer with
  | nil => cases hfull
  | cons x rest =>
    simp only [List.length_cons, Nat.add_right_cancel_iff] at hfull
    have hcons := h.consecutive
    have hb := h.bounded
    simp only [List.map_cons, List.length_cons, List.range'_succ, List.cons.injEq] at hcons hb
    refine ⟨?_,?_,?_,before ++ [x],?_,?_⟩
    · simp [hfull]
    · simp only [List.tail_cons]
      omega
    · have hstart : head + 1 - (rest.length + 1) + 1 = head + 1 - rest.length := by omega
      simp only [List.tail_cons]
      rw [hcons.2, hstart]
    · rw [hsplit, List.append_assoc]
      rfl
    · intro y hy
      simp only [List.tail_cons]
      rcases List.mem_append.mp hy with hy | hy
      · have := hbefore y hy
        simp only [List.length_cons] at this
        omega
      · rw [List.mem_singleton.mp hy, hcons.1]
        omega

/-- What `append` does to the buffer. -/
theorem append (h : Window history retainPerRoom roomLog) (he : e.seq = roomLog.head + 1) :
    Window (history ++ [e]) retainPerRoom ⟨roomLog.head + 1,
      if retainPerRoom < (roomLog.buffer ++ [e]).length then (roomLog.buffer ++ [e]).tail else roomLog.buffer ++ [e]⟩ := by
  have hr := h.retained
  have hwide : Window history (retainPerRoom + 1) roomLog := ⟨by omega,h.bounded,h.consecutive,h.ends⟩
  have hpush := hwide.push he (by omega)
  split
  · rename_i hfull
    refine hpush.shift ?_
    simp only [List.length_append, List.length_singleton] at hfull ⊢
    omega
  · rename_i hfull
    exact ⟨by simpa using hfull,hpush.bounded,hpush.consecutive,hpush.ends⟩

end Window

/-- What `touch` may do: `room` is there afterwards, as it was or fresh, and at most one other room
has been evicted for it, whose head is below the mark. -/
structure Touched (log : EventLog δ) (room : String) (log' : EventLog δ) (roomLog : RoomLog δ) : Prop where
  retainPerRoom : log'.retainPerRoom = log.retainPerRoom
  maxRooms : log'.maxRooms = log.maxRooms
  highWater : log.evictedHighWater ≤ log'.evictedHighWater
  held : log'.rooms.get room = some roomLog
  known : log.rooms.get room = some roomLog ∨ (log.rooms.get room = none ∧ roomLog = ⟨log'.evictedHighWater, []⟩)
  others : ∀ j, j ≠ room → log'.rooms.get j = log.rooms.get j ∨
    ∃ old, log.rooms.get j = some old ∧ log'.rooms.get j = none ∧ old.head ≤ log'.evictedHighWater
  capacity : log.rooms.size ≤ max 1 log.maxRooms → log'.rooms.size ≤ max 1 log.maxRooms

section Touch
variable {log : EventLog δ} {room : String}

private theorem touched_existing {existing : RoomLog δ} (h : log.rooms.get room = some existing) :
    Touched log room { log with rooms := (log.rooms.delete room).set room existing } existing where
  retainPerRoom := rfl
  maxRooms := rfl
  highWater := Nat.le_refl _
  held := by rw [OrderedMap.get_set, if_pos rfl]
  known := .inl h
  others j hj := by
    left
    rw [OrderedMap.get_set, if_neg hj, OrderedMap.get_delete, if_neg hj]
  capacity hsize := by
    have hdel : (log.rooms.delete room).size + 1 = log.rooms.size := OrderedMap.size_delete (by rw [h]; rfl)
    have hnone : (log.rooms.delete room).get room = none := by rw [OrderedMap.get_delete, if_pos rfl]
    rw [OrderedMap.size_set, hnone]
    exact hdel ▸ hsize

/-- A new room goes in, after an eviction or where there is room for it. -/
private theorem touched_fresh {log' : EventLog δ} (h : log.rooms.get room = none)
    (hretain : log'.retainPerRoom = log.retainPerRoom) (hmax : log'.maxRooms = log.maxRooms)
    (hwater : log.evictedHighWater ≤ log'.evictedHighWater)
    (hothers : ∀ j, log'.rooms.get j = log.rooms.get j ∨
      ∃ old, log.rooms.get j = some old ∧ log'.rooms.get j = none ∧ old.head ≤ log'.evictedHighWater)
    (hsize : log.rooms.size ≤ max 1 log.maxRooms → log'.rooms.size + 1 ≤ max 1 log.maxRooms) :
    Touched log room { log' with rooms := log'.rooms.set room ⟨log'.evictedHighWater, []⟩ } ⟨log'.evictedHighWater, []⟩ where
  retainPerRoom := hretain
  maxRooms := hmax
  highWater := hwater
  held := by rw [OrderedMap.get_set, if_pos rfl]
  known := .inr ⟨h,rfl⟩
  others j hj := by
    rw [OrderedMap.get_set, if_neg hj]
    exact hothers j
  capacity hcap := by
    have hnone : log'.rooms.get room = none := by
      rcases hothers room with hsame | ⟨_,_,hnone,_⟩
      · rw [hsame, h]
      · exact hnone
    rw [OrderedMap.size_set, hnone]
    exact hsize hcap

private theorem evict_others (log : EventLog δ) (j : String) : log.evict.rooms.get j = log.rooms.get j ∨
    ∃ old, log.rooms.get j = some old ∧ log.evict.rooms.get j = none ∧ old.head ≤ log.evict.evictedHighWater := by
  cases ho : log.rooms.oldest with
  | none =>
    left
    simp only [EventLog.evict, ho]
  | some p =>
    obtain ⟨oldest,old⟩ := p
    have hget := OrderedMap.get_of_oldest ho
    simp only [EventLog.evict, ho, hget, OrderedMap.get_delete, Option.elim_some]
    by_cases hj : j = oldest
    · right
      exact ⟨old,by rw [hj, hget],by rw [if_pos hj],Nat.le_max_right _ _⟩
    · left
      rw [if_neg hj]

theorem touched_of_touch (log : EventLog δ) (room : String) : Touched log room (log.touch room).1 (log.touch room).2 := by
  cases h : log.rooms.get room with
  | some existing =>
    simp only [EventLog.touch, h]
    exact touched_existing h
  | none =>
    by_cases hfull : log.maxRooms ≤ log.rooms.size
    · simp only [EventLog.touch, h, if_pos hfull]
      cases ho : log.rooms.oldest with
      | none =>
        have hempty : log.rooms.size = 0 := by
          rw [OrderedMap.size, List.head?_eq_none_iff.mp ho, List.length_nil]
        have hevict : log.evict = log := by simp only [EventLog.evict, ho]
        rw [hevict]
        refine touched_fresh h rfl rfl (Nat.le_refl _) (fun _ => .inl rfl) fun _ => ?_
        rw [hempty]
        exact Nat.le_max_left _ _
      | some p =>
        obtain ⟨oldest,old⟩ := p
        have hget := OrderedMap.get_of_oldest ho
        have hwater : log.evictedHighWater ≤ log.evict.evictedHighWater := by
          simp only [EventLog.evict, ho]
          exact Nat.le_max_left _ _
        have hdel : log.evict.rooms.size + 1 = log.rooms.size := by
          simp only [EventLog.evict, ho]
          exact OrderedMap.size_delete (by rw [hget]; rfl)
        refine touched_fresh h ?_ ?_ hwater (evict_others log) fun hcap => ?_
        · simp only [EventLog.evict, ho]
        · simp only [EventLog.evict, ho]
        · rw [hdel]
          exact hcap
    · simp only [EventLog.touch, h, if_neg hfull]
      refine touched_fresh h rfl rfl (Nat.le_refl _) (fun _ => .inl rfl) fun _ => ?_
      exact Nat.le_trans (by omega) (Nat.le_max_right _ _)

end Touch

/-- What every `append` keeps of the log and the envelopes made so far. -/
structure Numbered (log : EventLog δ) (issued : List (Envelope δ)) : Prop where
  capacity : log.rooms.size ≤ max 1 log.maxRooms
  increasing : ∀ room, ((inRoom room issued).map Envelope.seq).Pairwise (· < ·)
  window : ∀ room roomLog, log.rooms.get room = some roomLog → Window (inRoom room issued) log.retainPerRoom roomLog
  evicted : ∀ room, log.rooms.get room = none → ∀ e ∈ inRoom room issued, e.seq ≤ log.evictedHighWater
  head : ∀ room roomLog, log.rooms.get room = some roomLog →
    (inRoom room issued).getLast?.map Envelope.seq = some roomLog.head

section Appends
variable {log : EventLog δ} {issued : List (Envelope δ)}

/-- The window on a room after `touch`, whether or not the room was known before. -/
private theorem window_of_touched {room : String} {log' : EventLog δ} {roomLog : RoomLog δ} (h : Numbered log issued)
    (ht : Touched log room log' roomLog) : Window (inRoom room issued) log.retainPerRoom roomLog := by
  rcases ht.known with hknown | ⟨hnone,rfl⟩
  · exact h.window room roomLog hknown
  · refine Window.fresh fun e he => ?_
    exact Nat.le_trans (h.evicted room hnone e he) ht.highWater

theorem numbered_append (h : Numbered log issued) (room : String) (event : RealtimeEvent) (data : δ) (ts : Int) :
    Numbered (log.append room event data ts).1 (issued ++ [(log.append room event data ts).2]) := by
  have ht := touched_of_touch log room
  have hwindow := window_of_touched h ht
  rcases htouch : log.touch room with ⟨log',roomLog⟩
  rw [htouch] at ht hwindow
  simp only at ht hwindow
  simp only [EventLog.append, htouch]
  have hself : inRoom room (issued ++ [⟨event, room, roomLog.head + 1, ts, data⟩]) =
      inRoom room issued ++ [⟨event, room, roomLog.head + 1, ts, data⟩] := by simp [inRoom]
  have hother : ∀ j, j ≠ room → inRoom j (issued ++ [⟨event, room, roomLog.head + 1, ts, data⟩]) = inRoom j issued := by
    intro j hj
    simp [inRoom, Ne.symm hj]
  refine ⟨?_,fun j => ?_,fun j rl hj => ?_,fun j hj e he => ?_,fun j rl hj => ?_⟩
  · rw [OrderedMap.size_set, ht.held, ht.maxRooms]
    exact ht.capacity h.capacity
  · by_cases hj : j = room
    · subst hj
      rw [hself, List.map_append, List.pairwise_append]
      refine ⟨h.increasing j,List.pairwise_singleton _ _,fun a ha b hb => ?_⟩
      obtain ⟨e,he,rfl⟩ := List.mem_map.mp ha
      have hb : b = roomLog.head + 1 := List.mem_singleton.mp hb
      have := hwindow.seq_le he
      omega
    · rw [hother j hj]
      exact h.increasing j
  · rw [OrderedMap.get_set] at hj
    split at hj
    · rename_i hjr
      cases hj
      rw [hjr, hself, ht.retainPerRoom]
      exact hwindow.append rfl
    · rename_i hjr
      rw [hother j hjr, ht.retainPerRoom]
      rcases ht.others j hjr with hsame | ⟨_,_,hnone,_⟩
      · exact h.window j rl (hsame ▸ hj)
      · rw [hnone] at hj
        cases hj
  · rw [OrderedMap.get_set] at hj
    split at hj
    · cases hj
    · rename_i hjr
      rw [hother j hjr] at he
      rcases ht.others j hjr with hsame | ⟨old,hold,_,hle⟩
      · exact Nat.le_trans (h.evicted j (hsame ▸ hj) e he) ht.highWater
      · exact Nat.le_trans ((h.window j old hold).seq_le he) hle
  · rw [OrderedMap.get_set] at hj
    split at hj
    · rename_i hjr
      cases hj
      rw [hjr, hself, List.getLast?_concat]
      rfl
    · rename_i hjr
      rw [hother j hjr]
      rcases ht.others j hjr with hsame | ⟨_,_,hnone,_⟩
      · exact h.head j rl (hsame ▸ hj)
      · rw [hnone] at hj
        cases hj

theorem numbered_appends (h : Numbered log issued) (calls : List (Call δ)) :
    Numbered (log.appends calls).1 (issued ++ (log.appends calls).2) := by
  induction calls generalizing log issued with
  | nil =>
    rw [EventLog.appends, List.append_nil]
    exact h
  | cons c calls ih =>
    have hnext := ih (numbered_append h c.room c.event c.data c.ts)
    rw [List.append_assoc] at hnext
    exact hnext

theorem numbered_new (options : EventLogOptions) : Numbered (EventLog.new options : EventLog δ) [] where
  capacity := Nat.zero_le _
  increasing _ := List.Pairwise.nil
  window _ _ h := by cases h
  evicted _ _ _ he := by cases he
  head _ _ h := by cases h

/-- A replay that tells of no gap has all that came after the cursor. -/
theorem replay_of_window {principal : RealtimePrincipal} {room : String} {afterSeq : Nat} {history : List (Envelope δ)}
    (h : ∀ roomLog, log.rooms.get room = some roomLog → Window history log.retainPerRoom roomLog) (hafter : 0 < afterSeq)
    (hgap : (log.replay principal room afterSeq).gap = false) :
    (log.replay principal room afterSeq).events =
      history.filter fun e => afterSeq < e.seq && canReceive principal e.event := by
  cases hg : log.rooms.get room with
  | none => simp [EventLog.replay, hg, hafter] at hgap
  | some roomLog =>
    simp only [EventLog.replay, hg, hafter, decide_true, Bool.true_and] at hgap ⊢
    have hwindow := h roomLog hg
    obtain ⟨before,hsplit,hbefore⟩ := hwindow.ends
    cases hbuf : roomLog.buffer with
    | nil => simp [hbuf] at hgap
    | cons x rest =>
      have hx := hwindow.mem_buffer (e := x) (by simp [hbuf])
      simp only [hbuf, List.head?_cons, Option.all_some, decide_eq_false_iff_not] at hgap
      have hnone : before.filter (fun e => decide (afterSeq < e.seq) && canReceive principal e.event) = [] := by
        refine List.filter_eq_nil_iff.mpr fun e he => ?_
        have hle := hbefore e he
        have hlate : ¬ afterSeq < e.seq := by
          have hcons := hwindow.consecutive
          have hb := hwindow.bounded
          simp only [hbuf, List.map_cons, List.length_cons, List.range'_succ, List.cons.injEq] at hcons hle hb
          omega
        simp [hlate]
      rw [hsplit, List.filter_append, hnone, List.nil_append, hbuf]

end Appends

/-- What the log promises of its numbers and of its replays, given all envelopes it ever made. -/
structure Honest (retainPerRoom maxRooms : Nat) (log : EventLog δ) (issued : List (Envelope δ)) : Prop where
  increasing : ∀ room, ((inRoom room issued).map Envelope.seq).Pairwise (· < ·)
  capacity : log.rooms.size ≤ max 1 maxRooms
  buffers : ∀ room roomLog, log.rooms.get room = some roomLog →
    (inRoom room issued).getLast?.map Envelope.seq = some roomLog.head ∧ roomLog.buffer.length ≤ retainPerRoom ∧
    roomLog.buffer.length ≤ roomLog.head ∧
    roomLog.buffer.map Envelope.seq = List.range' (roomLog.head + 1 - roomLog.buffer.length) roomLog.buffer.length
  replays : ∀ principal room afterSeq, 0 < afterSeq → (∃ e ∈ inRoom room issued, e.seq = afterSeq) →
    (log.replay principal room afterSeq).gap = false →
    (log.replay principal room afterSeq).events =
      (inRoom room issued).filter fun e => afterSeq < e.seq && canReceive principal e.event

theorem appends_options (log : EventLog δ) (calls : List (Call δ)) :
    (log.appends calls).1.retainPerRoom = log.retainPerRoom ∧ (log.appends calls).1.maxRooms = log.maxRooms := by
  induction calls generalizing log with
  | nil => exact ⟨rfl,rfl⟩
  | cons c calls ih =>
    obtain ⟨hretain,hmax⟩ := ih (log.append c.room c.event c.data c.ts).1
    have ht := touched_of_touch log c.room
    exact ⟨hretain.trans ht.retainPerRoom,hmax.trans ht.maxRooms⟩

/-- Whatever is appended to whatever rooms, numbers only go up and the gap flag is honest. -/
theorem honest_of_appends (retainPerRoom maxRooms : Nat) (calls : List (Call δ)) :
    Honest retainPerRoom maxRooms ((EventLog.new ⟨some retainPerRoom, some maxRooms⟩).appends calls).1
      ((EventLog.new ⟨some retainPerRoom, some maxRooms⟩).appends calls).2 := by
  have h := numbered_appends (numbered_new ⟨some retainPerRoom, some maxRooms⟩) calls
  obtain ⟨hretain,hmax⟩ := appends_options (EventLog.new ⟨some retainPerRoom, some maxRooms⟩) calls
  rw [List.nil_append] at h
  refine ⟨h.increasing,?_,fun room roomLog hroom => ?_,fun principal room afterSeq hafter _ hgap => ?_⟩
  · have hcapacity := h.capacity
    rw [hmax] at hcapacity
    exact hcapacity
  · have hwindow := h.window room roomLog hroom
    have hretained := hwindow.retained
    rw [hretain] at hretained
    exact ⟨h.head room roomLog hroom,hretained,hwindow.bounded,hwindow.consecutive⟩
  · exact replay_of_window (h.window room) hafter hgap

private def revived : List (Call String) :=
  [⟨"a", .messageCreated, "hello", 1⟩, ⟨"a", .messageCreated, "anybody?", 2⟩, ⟨"b", .ticketCreated, "new", 3⟩,
   ⟨"a", .ticketAssigned, "to Kim", 4⟩, ⟨"a", .noteCreated, "call back", 5⟩, ⟨"a", .messageCreated, "we call back", 6⟩]

/-- A Contact that has seen number 4 of the revived room is handed the Message and not the Note. -/
theorem honest_of_revived : ∃ (log : EventLog String) (issued : List (Envelope String)),
    (EventLog.new ⟨some 3, some 1⟩).appends revived = (log, issued) ∧ Honest 3 1 log issued ∧
    log.replay (.contact "t" "c") "a" 4 = ⟨[⟨.messageCreated, "a", 6, 6, "we call back"⟩], false⟩ ∧
    [⟨.messageCreated, "a", 6, 6, "we call back"⟩] = (inRoom "a" issued).filter fun e =>
      4 < e.seq && canReceive (.contact "t" "c") e.event := by
  have hreplay : ((EventLog.new ⟨some 3, some 1⟩).appends revived).1.replay (.contact "t" "c") "a" 4 =
      ⟨[⟨.messageCreated, "a", 6, 6, "we call back"⟩], false⟩ := by decide +kernel
  have hissued : ∃ e ∈ inRoom "a" ((EventLog.new ⟨some 3, some 1⟩).appends revived).2, e.seq = 4 := by decide +kernel
  have hhonest := honest_of_appends 3 1 revived
  have hevents := hhonest.replays (.contact "t" "c") "a" 4 (by decide) hissued (by rw [hreplay])
  rw [hreplay] at hevents
  exact ⟨_,_,rfl,hhonest,hreplay,hevents⟩

end Nivara.Realtime
