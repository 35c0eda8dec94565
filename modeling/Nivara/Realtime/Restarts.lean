import Nivara.Realtime.Numbering

/-! The gap flag across restarts. A process that starts again numbers its rooms from one, and a cursor
does not say which process it is from: a number of an earlier process is compared with the window of
this one, as if it were its own. -/
namespace Nivara.Realtime

/-- What a process does: it appends, or it ends and another one begins with an empty log. -/
inductive LifeEvent (δ : Type) where
  | append (call : Call δ)
  | restart
  deriving DecidableEq, Repr

/-- `published` has every envelope ever made, with the number of the process that made it. -/
structure Process (δ : Type) where
  options : EventLogOptions
  incarnation : Nat
  log : EventLog δ
  published : List (Nat × Envelope δ)

namespace Process
variable {δ : Type}

def first (options : EventLogOptions) : Process δ := ⟨options, 0, .new options, []⟩

def step (p : Process δ) : LifeEvent δ → Process δ
  | .append c =>
    let (log, envelope) := p.log.append c.room c.event c.data c.ts
    { p with log := log, published := p.published ++ [(p.incarnation, envelope)] }
  | .restart => { p with incarnation := p.incarnation + 1, log := .new p.options }

def run (p : Process δ) (events : List (LifeEvent δ)) : Process δ := events.foldl step p

def Lives (p : Process δ) : Prop :=
  ∃ earlier issued, p.published = earlier ++ issued.map (p.incarnation, ·) ∧ (∀ x ∈ earlier, x.1 < p.incarnation) ∧
    Numbered p.log issued

private theorem lives_step {p : Process δ} (h : p.Lives) (event : LifeEvent δ) : (p.step event).Lives := by
  obtain ⟨earlier,issued,hpub,hearlier,hnum⟩ := h
  cases event with
  | append c =>
    refine ⟨earlier,issued ++ [(p.log.append c.room c.event c.data c.ts).2],?_,hearlier,?_⟩
    · simp only [step, hpub, List.map_append, List.map_singleton, List.append_assoc]
    · exact numbered_append hnum c.room c.event c.data c.ts
  | restart =>
    refine ⟨p.published,[],by simp [step],fun x hx => ?_,numbered_new p.options⟩
    rw [hpub] at hx
    rcases List.mem_append.mp hx with hx | hx
    · exact Nat.lt_succ_of_lt (hearlier x hx)
    · obtain ⟨e,_,rfl⟩ := List.mem_map.mp hx
      exact Nat.lt_succ_self _

theorem lives_of_run {p : Process δ} (h : p.Lives) (events : List (LifeEvent δ)) : (p.run events).Lives := by
  induction events generalizing p with
  | nil => exact h
  | cons event events ih => exact ih (lives_step h event)

theorem lives_first (options : EventLogOptions) : (first options : Process δ).Lives :=
  ⟨[],[],rfl,fun _ hx => (by cases hx),numbered_new options⟩

variable {p : Process δ} {principal : RealtimePrincipal} {room : String} {afterSeq n : Nat}

/-- The client that names the `n`th envelope has received, or is handed by the replay, everything it
may receive that was published in the room after it. -/
def CaughtUp (p : Process δ) (principal : RealtimePrincipal) (room : String) (afterSeq n : Nat) (received : Nat → Prop) :
    Prop :=
  ∀ m x, n < m → p.published[m]? = some x → x.2.room = room → canReceive principal x.2.event = true →
    received m ∨ (x.1 = p.incarnation ∧ x.2 ∈ (p.log.replay principal room afterSeq).events)

/-- The log does not hold the room, or what it retains of it does not reach back to the cursor. -/
def OutOfWindow (p : Process δ) (room : String) (afterSeq : Nat) : Prop :=
  ∀ roomLog, p.log.rooms.get room = some roomLog → ∀ e ∈ roomLog.buffer.head?, afterSeq + 1 < e.seq

/-- What an earlier process published after the `n`th envelope, or this one under a number that is
not above the cursor, has been received. -/
def HasTheRest (p : Process δ) (principal : RealtimePrincipal) (room : String) (afterSeq n : Nat) (received : Nat → Prop) :
    Prop :=
  ∀ m x, n < m → p.published[m]? = some x → x.2.room = room → canReceive principal x.2.event = true →
    x.1 ≠ p.incarnation ∨ x.2.seq ≤ afterSeq → received m

theorem gap_eq_true_iff (hafter : 0 < afterSeq) :
    (p.log.replay principal room afterSeq).gap = true ↔ p.OutOfWindow room afterSeq := by
  unfold EventLog.replay OutOfWindow
  cases hg : p.log.rooms.get room with
  | none => simp [hafter]
  | some roomLog =>
    cases hb : roomLog.buffer with
    | nil => simp [hafter, hb]
    | cons x rest => simp [hafter, hb]

/-- What this process has published in the room above the cursor is in a replay without a gap. -/
private theorem handed_of_window (h : p.Lives) (hafter : 0 < afterSeq)
    (hgap : (p.log.replay principal room afterSeq).gap = false) {m : Nat} {x : Nat × Envelope δ}
    (hm : p.published[m]? = some x) (hroom : x.2.room = room) (hrec : canReceive principal x.2.event = true)
    (hcur : x.1 = p.incarnation) (hseq : afterSeq < x.2.seq) : x.2 ∈ (p.log.replay principal room afterSeq).events := by
  obtain ⟨earlier,issued,hpub,hearlier,hnum⟩ := h
  have hmem : x.2 ∈ issued := by
    have hx := List.mem_of_getElem? hm
    rw [hpub, List.mem_append] at hx
    rcases hx with hx | hx
    · exact absurd hcur (Nat.ne_of_lt (hearlier x hx))
    · obtain ⟨e,he,rfl⟩ := List.mem_map.mp hx
      exact he
  rw [replay_of_window (hnum.window room) hafter hgap]
  simp [inRoom, hmem, hroom, hseq, hrec]

/-- After an envelope of this process come only others of it, with higher numbers. -/
private theorem later_of_current (h : p.Lives) {m : Nat} {e : Envelope δ} {x : Nat × Envelope δ}
    (hn : p.published[n]? = some (p.incarnation, e)) (hlt : n < m) (hm : p.published[m]? = some x)
    (hroom : x.2.room = e.room) : x.1 = p.incarnation ∧ e.seq < x.2.seq := by
  obtain ⟨earlier,issued,hpub,hearlier,hnum⟩ := h
  rw [hpub] at hn hm
  have hge : earlier.length ≤ n := by
    by_contra hlow
    rw [List.getElem?_append_left (by omega)] at hn
    exact Nat.lt_irrefl _ (hearlier _ (List.mem_of_getElem? hn))
  rw [List.getElem?_append_right hge, List.getElem?_map] at hn
  rw [List.getElem?_append_right (by omega), List.getElem?_map] at hm
  obtain ⟨_,he,heq⟩ := Option.map_eq_some_iff.mp hn
  cases heq
  obtain ⟨e',he',rfl⟩ := Option.map_eq_some_iff.mp hm
  obtain ⟨hi,hei⟩ := List.getElem?_eq_some_iff.mp he
  obtain ⟨hj,hej⟩ := List.getElem?_eq_some_iff.mp he'
  have hinc := hnum.increasing e.room
  rw [List.pairwise_map, inRoom, List.pairwise_filter, List.pairwise_iff_getElem] at hinc
  have hlater := hinc _ _ hi hj (by omega)
  rw [hei, hej] at hlater
  exact ⟨rfl,hlater (by simp) (by simpa using hroom)⟩

/-- In every life of any number of processes, and for a cursor that any of them has issued: unless the
log tells of a gap, the client is caught up exactly if the cursor is this process's own, or the client
has what the number hides from it. -/
theorem caughtUp_iff_of_run (options : EventLogOptions) (events : List (LifeEvent δ)) (principal : RealtimePrincipal)
    (received : Nat → Prop) {c : Nat} {e : Envelope δ} (hp : p = (first options).run events) (hafter : 0 < afterSeq)
    (hn : p.published[n]? = some (c, e)) (hroom : e.room = room) (hseq : e.seq = afterSeq) :
    ((p.log.replay principal room afterSeq).gap = false → p.CaughtUp principal room afterSeq n received) ↔
      c = p.incarnation ∨ p.OutOfWindow room afterSeq ∨ p.HasTheRest principal room afterSeq n received := by
  have hlives : p.Lives := hp ▸ lives_of_run (lives_first options) events
  constructor
  · intro h
    by_cases hout : p.OutOfWindow room afterSeq
    · exact .inr (.inl hout)
    · have hgap : (p.log.replay principal room afterSeq).gap = false :=
        Bool.eq_false_iff.mpr fun hg => hout ((gap_eq_true_iff hafter).mp hg)
      refine .inr (.inr fun m x hlt hm hxroom hrec hhidden => ?_)
      rcases h hgap m x hlt hm hxroom hrec with hreceived | ⟨hcur,hin⟩
      · exact hreceived
      · rcases hhidden with hne | hlow
        · exact absurd hcur hne
        · rw [EventLog.replay] at hin
          split at hin
          · cases hin
          · have hin := (List.mem_filter.mp hin).2
            simp only [Bool.and_eq_true, decide_eq_true_eq] at hin
            omega
  · rintro (rfl | hout | hrest) hgap m x hlt hm hxroom hrec
    · obtain ⟨hcur,hlater⟩ := later_of_current hlives hn hlt hm (hxroom.trans hroom.symm)
      exact .inr ⟨hcur,handed_of_window hlives hafter hgap hm hxroom hrec hcur (hseq ▸ hlater)⟩
    · rw [(gap_eq_true_iff hafter).mpr hout] at hgap
      cases hgap
    · by_cases hcur : x.1 = p.incarnation
      · by_cases hhigh : afterSeq < x.2.seq
        · exact .inr ⟨hcur,handed_of_window hlives hafter hgap hm hxroom hrec hcur hhigh⟩
        · exact .inl (hrest m x hlt hm hxroom hrec (.inr (by omega)))
      · exact .inl (hrest m x hlt hm hxroom hrec (.inl hcur))

private def restarted : List (LifeEvent Unit) :=
  [.append ⟨"t:1:agents", .ticketUpdated, (), 0⟩, .append ⟨"t:1:agents", .ticketUpdated, (), 1⟩, .restart,
    .append ⟨"t:1:agents", .ticketUpdated, (), 2⟩]

/-- The cursor is the first process's last one, and the client has received all there is. -/
theorem caughtUp_iff_of_restarted :
    ((first ⟨none, none⟩).run restarted).CaughtUp (.user "1" "u") "t:1:agents" 2 1 (fun _ => True) ∧
      ((first ⟨none, none⟩).run restarted).published[1]? = some (0, ⟨.ticketUpdated, "t:1:agents", 2, 1, ()⟩) := by
  have hn : ((first ⟨none, none⟩).run restarted).published[1]? = some (0, ⟨.ticketUpdated, "t:1:agents", 2, 1, ()⟩) := by
    decide +kernel
  have hiff := caughtUp_iff_of_run ⟨none, none⟩ restarted (.user "1" "u") (fun _ => True) rfl (by decide) hn rfl rfl
  refine ⟨hiff.mpr (.inr (.inr fun _ _ _ _ _ _ _ => trivial)) ?_,hn⟩
  decide +kernel

theorem oldCursor_not_caughtUp :
    ¬ ∀ (events : List (LifeEvent Unit)) (principal : RealtimePrincipal) (room : String) (afterSeq n c : Nat)
      (e : Envelope Unit) (received : Nat → Prop), 0 < afterSeq →
      ((first ⟨none, none⟩).run events).published[n]? = some (c, e) → e.room = room → e.seq = afterSeq →
      (((first ⟨none, none⟩).run events).log.replay principal room afterSeq).gap = false →
      ((first ⟨none, none⟩).run events).CaughtUp principal room afterSeq n received := by
  intro h
  have hn : ((first ⟨none, none⟩).run restarted).published[1]? = some (0, ⟨.ticketUpdated, "t:1:agents", 2, 1, ()⟩) := by
    decide +kernel
  have hm : ((first ⟨none, none⟩).run restarted).published[2]? = some (1, ⟨.ticketUpdated, "t:1:agents", 1, 2, ()⟩) := by
    decide +kernel
  have hgap : (((first ⟨none, none⟩).run restarted).log.replay (.user "1" "u") "t:1:agents" 2).gap = false := by
    decide +kernel
  have hnothing : (((first ⟨none, none⟩).run restarted).log.replay (.user "1" "u") "t:1:agents" 2).events = [] := by
    decide +kernel
  rcases h restarted (.user "1" "u") _ _ 1 _ _ (· ≤ 1) (by decide) hn rfl rfl hgap 2 _ (by decide) hm rfl rfl with hle | ⟨_,hin⟩
  · exact absurd hle (by decide)
  · rw [hnothing] at hin
    cases hin

end Process
end Nivara.Realtime
