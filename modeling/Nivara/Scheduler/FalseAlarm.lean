import Nivara.Scheduler.Pulse

/-! No false alarm: a process whose ticks all succeed in time is never called stalled, through idle spells and wakes. -/
namespace Nivara.Scheduler
open Transactions Text

namespace SchedulerHeartbeat
variable {h : SchedulerHeartbeat} {name other : Str} {intervalMs : ℕ} {at' : ℤ} {b : Beat}

def HasBeaten (h : SchedulerHeartbeat) (name : Str) : Prop := ∃ b, h.ticks.get name = some b ∧ b.lastTickAt ≠ none

private theorem HasBeaten.retime (hb : h.HasBeaten other) : (h.retime name intervalMs).HasBeaten other := by
  obtain ⟨b,hget,hlast⟩ := hb
  by_cases heq : other = name
  · subst heq
    exact ⟨_,get_retime_self hget,hlast⟩
  · exact ⟨b,by rw [get_retime, if_neg heq, hget],hlast⟩

private theorem HasBeaten.beat (hb : h.HasBeaten other) : (h.beat name at').HasBeaten other := by
  obtain ⟨b,hget,hlast⟩ := hb
  by_cases heq : other = name
  · subst heq
    exact ⟨_,get_beat_self hget,by simp⟩
  · exact ⟨b,by rw [get_beat, if_neg heq, hget],hlast⟩

private theorem HasBeaten.register (hb : h.HasBeaten other) (hne : other ≠ name) : (h.register name intervalMs).HasBeaten other := by
  obtain ⟨b,hget,hlast⟩ := hb
  exact ⟨b,by rw [get_register, if_neg hne, hget],hlast⟩

private theorem hasBeaten_of_beat (hb : h.ticks.get name = some b) : (h.beat name at').HasBeaten name := ⟨_,get_beat_self hb,by simp⟩

end SchedulerHeartbeat

namespace Pulse
variable {late : ℕ} {took : LoopName → ℕ} {p q : Pulse} {loop : LoopName} {b : Beat}

/-- The pulse of a loop: what it runs at, that it goes on, and that its next beat comes within three intervals of the last. -/
structure Beating (late : ℕ) (took : LoopName → ℕ) (p : Pulse) (loop : LoopName) (b : Beat) : Prop where
  kept : p.heartbeat.ticks.get loop.name = some b
  least : loop.activeMs ≤ b.intervalMs
  pace : ∀ t ∈ p.ticker.timers, t.loop = loop → b.intervalMs ≤ p.ticker.intervalMs loop ∧ t.dueAt ≤ p.ticker.now + b.intervalMs
  goes : (∃ t ∈ p.ticker.timers, t.loop = loop) ∨ ⟨loop, .woken⟩ ∈ p.ticker.unfinished
  next : ∀ at', b.lastTickAt = some at' →
    (∃ t ∈ p.ticker.timers, t.loop = loop ∧ p.bootedAt + t.dueAt + late + took loop ≤ at' + 3 * b.intervalMs) ∨
      ∃ w ∈ p.atWork, w.loop = loop ∧ p.bootedAt + w.since + took loop ≤ at' + 3 * b.intervalMs

/-- What holds of a scheduler that has not been stopped and is in time. -/
structure Vital (late : ℕ) (took : LoopName → ℕ) (p : Pulse) : Prop where
  steady : p.ticker.Steady
  hooked : p.ticker.loops ≠ [] → p.ticker.hooked = true
  onTime : ∀ t ∈ p.ticker.timers, p.ticker.now ≤ t.dueAt + late
  inTime : ∀ w ∈ p.atWork, w.since ≤ p.ticker.now ∧ p.ticker.now ≤ w.since + took w.loop
  woken : ∀ loop, ⟨loop, .woken⟩ ∈ p.ticker.unfinished →
    ∃ since ≤ p.ticker.lastRequestAt, ⟨loop, some .woken, since⟩ ∈ p.atWork
  beating : ∀ loop ∈ p.ticker.loops, ∃ b, Beating late took p loop b
  named : ∀ name, (p.heartbeat.ticks.get name).isSome = true → ∃ loop ∈ p.ticker.loops, name = loop.name
  slow : p.ticker.boot = .startingSlow → p.ticker.loops = [.fastDrain, .slowSweep] ∧ p.heartbeat.HasBeaten LoopName.fastDrain.name
  booted : p.runScheduler = true → p.ticker.boot = .over →
    p.ticker.loops = [.fastDrain, .slowSweep] ∧ ∀ loop : LoopName, p.heartbeat.HasBeaten loop.name

private theorem Beating.frame (h : Beating late took p loop b) (hbooted : q.bootedAt = p.bootedAt)
    (hkept : q.heartbeat.ticks.get loop.name = p.heartbeat.ticks.get loop.name)
    (hnow : p.ticker.now ≤ q.ticker.now) (htimers : ∀ t, t.loop = loop → (t ∈ q.ticker.timers ↔ t ∈ p.ticker.timers))
    (hpace : (∃ t ∈ p.ticker.timers, t.loop = loop) → p.ticker.intervalMs loop ≤ q.ticker.intervalMs loop)
    (hwoken : ⟨loop, .woken⟩ ∈ p.ticker.unfinished → ⟨loop, .woken⟩ ∈ q.ticker.unfinished)
    (hwork : ∀ w ∈ p.atWork, w.loop = loop → w ∈ q.atWork) : Beating late took q loop b where
  kept := hkept.trans h.kept
  least := h.least
  pace t ht hloop := by
    have hmem := (htimers t hloop).mp ht
    obtain ⟨hle,hdue⟩ := h.pace t hmem hloop
    exact ⟨hle.trans (hpace ⟨t,hmem,hloop⟩),hdue.trans (Nat.add_le_add_right hnow _)⟩
  goes := by
    rcases h.goes with ⟨t,ht,hloop⟩ | hw
    · exact .inl ⟨t,(htimers t hloop).mpr ht,hloop⟩
    · exact .inr (hwoken hw)
  next at' hat := by
    rw [hbooted]
    rcases h.next at' hat with ⟨t,ht,hloop,hle⟩ | ⟨w,hw,hloop,hle⟩
    · exact .inl ⟨t,(htimers t hloop).mpr ht,hloop,hle⟩
    · exact .inr ⟨w,hwork w hw hloop,hloop,hle⟩

private theorem Beating.armed (hlate : late + took loop ≤ 2 * loop.activeMs)
    (hkept : q.heartbeat.ticks.get loop.name = some b) (hinterval : b.intervalMs = q.ticker.intervalMs loop) {id : ℕ}
    (hmem : ⟨id, loop, q.ticker.now + b.intervalMs⟩ ∈ q.ticker.timers)
    (hsingle : ∀ t ∈ q.ticker.timers, t.loop = loop → t = ⟨id, loop, q.ticker.now + b.intervalMs⟩)
    (hlast : ∀ at', b.lastTickAt = some at' → at' = q.bootedAt + q.ticker.now ∨
      ∃ w ∈ q.atWork, w.loop = loop ∧ q.bootedAt + w.since + took loop ≤ at' + 3 * b.intervalMs) : Beating late took q loop b := by
  have hleast : loop.activeMs ≤ b.intervalMs := hinterval ▸ q.ticker.activeMs_le_intervalMs loop
  refine ⟨hkept,hleast,?_,.inl ⟨_,hmem,rfl⟩,?_⟩
  · intro t ht hloop
    rw [hsingle t ht hloop]
    exact ⟨hinterval.le,le_refl _⟩
  · intro at' hat
    rcases hlast at' hat with rfl | hwork
    · refine .inl ⟨_,hmem,rfl,?_⟩
      push_cast
      omega
    · exact .inr hwork

private theorem Beating.beaten (h : Beating late took p loop b) (hlate : late + took loop ≤ 2 * loop.activeMs)
    (hwoken : ⟨loop, .woken⟩ ∈ p.ticker.unfinished → ∃ since ≤ p.ticker.now, ⟨loop, some .woken, since⟩ ∈ q.atWork)
    (hbooted : q.bootedAt = p.bootedAt) (hnow : q.ticker.now = p.ticker.now) (hlast : q.ticker.lastRequestAt = p.ticker.lastRequestAt)
    (htimers : ∀ t, t.loop = loop → (t ∈ q.ticker.timers ↔ t ∈ p.ticker.timers))
    (hunfinished : ⟨loop, .woken⟩ ∈ p.ticker.unfinished → ⟨loop, .woken⟩ ∈ q.ticker.unfinished)
    (hkept : q.heartbeat.ticks.get loop.name = some { b with lastTickAt := some (p.bootedAt + p.ticker.now) }) :
    Beating late took q loop { b with lastTickAt := some (p.bootedAt + p.ticker.now) } := by
  refine ⟨hkept,h.least,?_,?_,?_⟩
  · intro t ht hloop
    rw [Ticker.intervalMs_congr hnow hlast, hnow]
    exact h.pace t ((htimers t hloop).mp ht) hloop
  · rcases h.goes with ⟨t,ht,hloop⟩ | hw
    · exact .inl ⟨t,(htimers t hloop).mpr ht,hloop⟩
    · exact .inr (hunfinished hw)
  · have hleast := h.least
    rintro at' ⟨⟩
    rw [hbooted]
    rcases h.goes with ⟨t,ht,hloop⟩ | hw
    · have hdue := (h.pace t ht hloop).2
      refine .inl ⟨t,(htimers t hloop).mpr ht,hloop,?_⟩
      dsimp only
      omega
    · obtain ⟨since,hsince,hmem⟩ := hwoken hw
      refine .inr ⟨_,hmem,rfl,?_⟩
      dsimp only
      omega

private theorem arm_running (h : p.ticker.stopped = false) (loop : LoopName) :
    p.arm loop = { p with heartbeat := p.heartbeat.retime loop.name (p.ticker.intervalMs loop) } :=
  if_neg (by simp [h])

private theorem Vital.awake (h : Vital late took p) (hlate : ∀ loop, late + took loop ≤ 2 * loop.activeMs)
    (hidle : p.ticker.isIdle = true) (loop : LoopName) : ⟨loop, .woken⟩ ∉ p.ticker.unfinished := by
  intro hw
  obtain ⟨since,hsince,hmem⟩ := h.woken loop hw
  have hdone := (h.inTime _ hmem).2
  have htook := hlate loop
  have hactive : loop.activeMs ≤ 60000 := by cases loop <;> decide
  have hlong : idleAfterMs < p.ticker.now - p.ticker.lastRequestAt := of_decide_eq_true hidle
  simp only [idleAfterMs] at hlong
  dsimp only at hdone
  omega

private theorem Vital.calm (h : Vital late took p) (hlate : ∀ loop, late + took loop ≤ 2 * loop.activeMs) :
    p.ticker.Calm .touch := by
  intro hwakes loop _
  exact h.awake hlate (Bool.and_eq_true_iff.mp hwakes).1 loop

private theorem vital_pass (h : Vital late took p) {ms : ℕ} (hok : Prompt late took p (.pass ms))
    (hsteady : Ticker.Steady { p.ticker with now := p.ticker.now + ms }) :
    Vital late took { p with ticker := { p.ticker with now := p.ticker.now + ms } } where
  steady := hsteady
  hooked := h.hooked
  onTime := hok.1
  inTime w hw := ⟨(h.inTime w hw).1.trans (Nat.le_add_right ..),hok.2 w hw⟩
  woken := h.woken
  beating loop hloop := by
    obtain ⟨b,hb⟩ := h.beating loop hloop
    refine ⟨b,hb.frame rfl rfl (Nat.le_add_right ..) (fun _ _ => .rfl) (fun _ => ?_) id fun _ hw _ => hw⟩
    exact Ticker.intervalMs_mono (Nat.le_add_right ..) rfl
  named := h.named
  slow := h.slow
  booted := h.booted

private theorem vital_visit (h : Vital late took p) (hwakes : ¬ p.ticker.wakes = true)
    (hsteady : Ticker.Steady { p.ticker with lastRequestAt := p.ticker.now }) :
    Vital late took { p with ticker := { p.ticker with lastRequestAt := p.ticker.now } } where
  steady := hsteady
  hooked := h.hooked
  onTime := h.onTime
  inTime := h.inTime
  woken loop hw := by
    obtain ⟨since,_,hmem⟩ := h.woken loop hw
    exact ⟨since,(h.inTime _ hmem).1,hmem⟩
  beating loop hloop := by
    obtain ⟨b,hb⟩ := h.beating loop hloop
    refine ⟨b,hb.frame rfl rfl (le_refl _) (fun _ _ => .rfl) (fun _ => ?_) id fun _ hw _ => hw⟩
    have hidle : p.ticker.isIdle = false := by
      rw [Bool.eq_false_iff]
      intro hidle
      exact hwakes (Bool.and_eq_true_iff.mpr ⟨hidle,h.hooked (List.ne_nil_of_mem hloop)⟩)
    rw [Ticker.intervalMs_of_awake hidle]
    exact Ticker.activeMs_le_intervalMs _ loop
  named := h.named
  slow := h.slow
  booted := h.booted

private theorem vital_wake (h : Vital late took p) (hrun : p.ticker.stopped = false)
    (hsteady : Ticker.Steady ({ p.ticker with lastRequestAt := p.ticker.now } : Ticker).wake) :
    Vital late took { p.wake with ticker := ({ p.ticker with lastRequestAt := p.ticker.now } : Ticker).wake } := by
  obtain ⟨hnow,hlast,hloops,hhooked,hboot,hstopped,hunfinished⟩ :=
    Ticker.wake_frame p.ticker.loops { p.ticker with lastRequestAt := p.ticker.now }
  change (Ticker.wake _).now = _ at hnow
  change (Ticker.wake _).lastRequestAt = _ at hlast
  change (Ticker.wake _).loops = _ at hloops
  change (Ticker.wake _).hooked = _ at hhooked
  change (Ticker.wake _).boot = _ at hboot
  change (Ticker.wake _).stopped = _ at hstopped
  change (Ticker.wake _).unfinished = _ at hunfinished
  have hwoken (loop : LoopName) (hloop : loop ∈ p.ticker.loops) :
      ⟨loop, .woken⟩ ∈ (Ticker.wake { p.ticker with lastRequestAt := p.ticker.now }).unfinished := by
    rw [hunfinished]
    exact List.mem_append_left _ (List.mem_map.mpr ⟨loop,List.mem_reverse.mpr hloop,rfl⟩)
  have hnone (t : Timer) : t ∉ (Ticker.wake { p.ticker with lastRequestAt := p.ticker.now }).timers := by
    intro ht
    have hlisted := hsteady.listed t ht
    rw [hloops] at hlisted
    exact hsteady.waking t.loop (hwoken t.loop hlisted) t ht rfl
  have hwork (loop : LoopName) (hloop : loop ∈ p.ticker.loops) : ⟨loop, some .woken, p.ticker.now⟩ ∈ p.wake.atWork := by
    rw [wake_eq]
    exact List.mem_append_left _ (List.mem_map.mpr ⟨loop,List.mem_reverse.mpr hloop,rfl⟩)
  rw [wake_eq] at hwork ⊢
  refine ⟨hsteady,?_,fun t ht => absurd ht (hnone t),?_,?_,?_,?_,?_,?_⟩
  · dsimp only
    rw [hloops, hhooked]
    exact h.hooked
  · dsimp only
    rw [hnow]
    intro w hw
    rcases List.mem_append.mp hw with hw | hw
    · obtain ⟨loop,_,rfl⟩ := List.mem_map.mp hw
      exact ⟨le_refl _,Nat.le_add_right ..⟩
    · exact h.inTime w hw
  · dsimp only
    rw [hlast]
    intro loop hw
    refine ⟨_,le_refl _,hwork loop ?_⟩
    rcases hsteady.awake loop hw with hloop | hstop
    · rwa [hloops] at hloop
    · rw [hstopped, hrun] at hstop
      cases hstop
  · dsimp only
    rw [hloops]
    intro loop hloop
    obtain ⟨b,hb⟩ := h.beating loop hloop
    refine ⟨b,hb.kept,hb.least,fun t ht => absurd ht (hnone t),.inr (hwoken loop hloop),?_⟩
    -- where the timer would have fired in time, the wake is in time as well
    intro at' hat
    rcases hb.next at' hat with ⟨t,ht,_,hle⟩ | ⟨w,hw,hwloop,hle⟩
    · refine .inr ⟨_,hwork loop hloop,rfl,?_⟩
      have hdue := h.onTime t ht
      dsimp only
      omega
    · exact .inr ⟨w,List.mem_append_right _ hw,hwloop,hle⟩
  · dsimp only
    rw [hloops]
    exact h.named
  · dsimp only
    rw [hloops, hboot]
    exact h.slow
  · dsimp only
    rw [hloops, hboot]
    exact h.booted

private theorem single_timer {s : Ticker} (h : s.OneClock) {t t' : Timer} (ht : t ∈ s.timers) (ht' : t' ∈ s.timers.erase t) :
    t'.loop ≠ t.loop := by
  intro heq
  have hperm := (List.perm_cons_erase ht).map Timer.loop
  have hnodup := hperm.nodup_iff.mp h.single
  exact (List.nodup_cons.mp hnodup).1 (List.mem_map.mpr ⟨t',ht',heq⟩)

private theorem vital_fire (h : Vital late took p) (hlate : ∀ loop, late + took loop ≤ 2 * loop.activeMs)
    (hrun : p.ticker.stopped = false) {t : Timer} (ht : t ∈ p.ticker.timers)
    (hsteady : Ticker.Steady ((({ p.ticker with timers := p.ticker.timers.erase t } : Ticker).arm t.loop).runOnce t.loop .fired)) :
    Vital late took { (p.arm t.loop).runOnce t.loop (some .fired) with
      ticker := (({ p.ticker with timers := p.ticker.timers.erase t } : Ticker).arm t.loop).runOnce t.loop .fired } := by
  have hless : ({ p.ticker with timers := p.ticker.timers.erase t } : Ticker).stopped = false := hrun
  rw [Ticker.arm_running hless] at hsteady
  rw [Ticker.arm_running hless, arm_running hrun]
  have hloop := h.steady.listed t ht
  refine ⟨hsteady,h.hooked,?_,?_,?_,?_,?_,?_,?_⟩
  · intro t' ht'
    rcases List.mem_cons.mp ht' with rfl | ht'
    · exact le_trans (Nat.le_add_right ..) (Nat.le_add_right ..)
    · exact h.onTime t' (List.mem_of_mem_erase ht')
  · intro w hw
    rcases List.mem_cons.mp hw with rfl | hw
    · exact ⟨le_refl _,Nat.le_add_right ..⟩
    · exact h.inTime w hw
  · intro loop hw
    rcases List.mem_cons.mp hw with heq | hw
    · cases heq
    · obtain ⟨since,hsince,hmem⟩ := h.woken loop hw
      exact ⟨since,hsince,List.mem_cons_of_mem _ hmem⟩
  · intro loop hl
    obtain ⟨b,hb⟩ := h.beating loop hl
    by_cases heq : loop = t.loop
    · subst heq
      obtain ⟨hpace,_⟩ := hb.pace t ht rfl
      refine ⟨_,Beating.armed (hlate t.loop) (SchedulerHeartbeat.get_retime_self hb.kept) rfl List.mem_cons_self ?_ ?_⟩
      · intro t' ht' hsame
        rcases List.mem_cons.mp ht' with rfl | ht'
        · rfl
        · exact absurd hsame (single_timer h.steady.clock ht ht')
      · -- the tick that begins is as early as the timer that has fired
        intro at' hat
        right
        rcases hb.next at' hat with ⟨t',ht',_,hle⟩ | ⟨w,hw,hwloop,hle⟩
        · have hdue := h.onTime t' ht'
          refine ⟨_,List.mem_cons_self,rfl,?_⟩
          dsimp only [runOnce]
          omega
        · refine ⟨w,List.mem_cons_of_mem _ hw,hwloop,hle.trans ?_⟩
          dsimp only [runOnce]
          omega
    · refine ⟨b,hb.frame rfl ?_ (le_refl _) ?_ (fun _ => le_refl _) (List.mem_cons_of_mem _) fun w hw _ => List.mem_cons_of_mem _ hw⟩
      · exact SchedulerHeartbeat.get_retime.trans (if_neg (LoopName.name_ne heq))
      · intro t' hsame
        have hne : t' ≠ t := fun ht' => heq (by rw [← hsame, ht'])
        have hnew : t' ≠ ⟨p.ticker.nextId, t.loop, p.ticker.now + p.ticker.intervalMs t.loop⟩ := fun ht' => heq (by rw [← hsame, ht'])
        refine List.mem_cons.trans ⟨fun ht' => ?_,fun ht' => .inr ((List.mem_erase_of_ne hne).mpr ht')⟩
        exact List.mem_of_mem_erase (ht'.resolve_left hnew)
  · intro name hname
    exact h.named name (SchedulerHeartbeat.isSome_retime ▸ hname)
  · exact fun hboot => ⟨(h.slow hboot).1,(h.slow hboot).2.retime⟩
  · exact fun hsched hboot => ⟨(h.booted hsched hboot).1,fun loop => ((h.booted hsched hboot).2 loop).retime⟩

private theorem vital_done (h : Vital late took p) (hlate : ∀ loop, late + took loop ≤ 2 * loop.activeMs) {w : Work}
    (hw : w.occasion ≠ some .woken) : Vital late took (p.done w true) := by
  have hkeep (loop : LoopName) (since : ℕ) (hmem : ⟨loop, some .woken, since⟩ ∈ p.atWork) :
      ⟨loop, some .woken, since⟩ ∈ (p.done w true).atWork := by
    refine (List.mem_erase_of_ne ?_).mpr hmem
    rintro rfl
    exact hw rfl
  refine ⟨h.steady,h.hooked,h.onTime,fun w' hw' => h.inTime w' (List.mem_of_mem_erase hw'),?_,?_,?_,?_,?_⟩
  · intro loop hwoken
    obtain ⟨since,hsince,hmem⟩ := h.woken loop hwoken
    exact ⟨since,hsince,hkeep loop since hmem⟩
  · intro loop hloop
    obtain ⟨b,hb⟩ := h.beating loop hloop
    by_cases heq : loop = w.loop
    · subst heq
      refine ⟨_,hb.beaten (hlate w.loop) ?_ rfl rfl rfl (fun _ _ => .rfl) id (SchedulerHeartbeat.get_beat_self hb.kept)⟩
      intro hwoken
      obtain ⟨since,_,hmem⟩ := h.woken w.loop hwoken
      exact ⟨since,(h.inTime _ hmem).1,hkeep w.loop since hmem⟩
    · refine ⟨b,hb.frame rfl ?_ (le_refl _) (fun _ _ => .rfl) (fun _ => le_refl _) id ?_⟩
      · exact SchedulerHeartbeat.get_beat.trans (if_neg (LoopName.name_ne heq))
      · rintro w' hw' rfl
        refine (List.mem_erase_of_ne ?_).mpr hw'
        rintro rfl
        exact heq rfl
  · intro name hname
    exact h.named name (SchedulerHeartbeat.isSome_beat ▸ hname)
  · exact fun hboot => ⟨(h.slow hboot).1,(h.slow hboot).2.beat⟩
  · exact fun hsched hboot => ⟨(h.booted hsched hboot).1,fun loop => ((h.booted hsched hboot).2 loop).beat⟩

private theorem vital_forget (h : Vital late took p) (loop : LoopName)
    (hsteady : Ticker.Steady { p.ticker with unfinished := p.ticker.unfinished.erase ⟨loop, .fired⟩ }) :
    Vital late took { p with ticker := { p.ticker with unfinished := p.ticker.unfinished.erase ⟨loop, .fired⟩ } } where
  steady := hsteady
  hooked := h.hooked
  onTime := h.onTime
  inTime := h.inTime
  woken loop' hw := h.woken loop' (List.mem_of_mem_erase hw)
  beating loop' hloop := by
    obtain ⟨b,hb⟩ := h.beating loop' hloop
    refine ⟨b,hb.frame rfl rfl (le_refl _) (fun _ _ => .rfl) (fun _ => le_refl _) ?_ fun _ hw _ => hw⟩
    exact (List.mem_erase_of_ne (by simp)).mpr
  named := h.named
  slow := h.slow
  booted := h.booted

private theorem vital_woken (h : Vital late took p) (hlate : ∀ loop, late + took loop ≤ 2 * loop.activeMs)
    (hrun : p.ticker.stopped = false) {since : ℕ} (hmem : ⟨loop, .woken⟩ ∈ p.ticker.unfinished)
    (hsteady : Ticker.Steady (({ p.ticker with unfinished := p.ticker.unfinished.erase ⟨loop, .woken⟩ } : Ticker).arm loop)) :
    Vital late took { (p.done ⟨loop, some .woken, since⟩ true).arm loop with
      ticker := ({ p.ticker with unfinished := p.ticker.unfinished.erase ⟨loop, .woken⟩ } : Ticker).arm loop } := by
  have hless : ({ p.ticker with unfinished := p.ticker.unfinished.erase ⟨loop, .woken⟩ } : Ticker).stopped = false := hrun
  have hdone : (p.done ⟨loop, some .woken, since⟩ true).ticker.stopped = false := hrun
  rw [Ticker.arm_running hless] at hsteady
  rw [Ticker.arm_running hless, arm_running hdone]
  have honly (loop' : LoopName) (hw : ⟨loop', .woken⟩ ∈ p.ticker.unfinished.erase ⟨loop, .woken⟩) : loop' ≠ loop := by
    rintro rfl
    have hcount := List.count_pos_iff.mpr hw
    have hone := h.steady.single loop'
    rw [List.count_erase_self] at hcount
    omega
  have hkeep (w : Work) (hne : w.loop ≠ loop) (hw : w ∈ p.atWork) : w ∈ p.atWork.erase ⟨loop, some .woken, since⟩ := by
    refine (List.mem_erase_of_ne ?_).mpr hw
    rintro rfl
    exact hne rfl
  refine ⟨hsteady,h.hooked,?_,fun w hw => h.inTime w (List.mem_of_mem_erase hw),?_,?_,?_,?_,?_⟩
  · intro t ht
    rcases List.mem_cons.mp ht with rfl | ht
    · exact le_trans (Nat.le_add_right ..) (Nat.le_add_right ..)
    · exact h.onTime t ht
  · intro loop' hw
    obtain ⟨since',hsince,hwork⟩ := h.woken loop' (List.mem_of_mem_erase hw)
    exact ⟨since',hsince,hkeep _ (honly loop' hw) hwork⟩
  · intro loop' hloop'
    obtain ⟨b,hb⟩ := h.beating loop' hloop'
    by_cases heq : loop' = loop
    · subst heq
      refine ⟨_,Beating.armed (hlate loop') (SchedulerHeartbeat.get_retime_self (SchedulerHeartbeat.get_beat_self hb.kept)) rfl
        List.mem_cons_self ?_ ?_⟩
      · intro t ht hsame
        rcases List.mem_cons.mp ht with rfl | ht
        · rfl
        · exact absurd hsame (h.steady.waking loop' hmem t ht)
      · rintro at' ⟨⟩
        exact .inl rfl
    · refine ⟨b,hb.frame rfl ?_ (le_refl _) ?_ (fun _ => le_refl _) ?_ fun w hw hwloop => hkeep w (hwloop ▸ heq) hw⟩
      · refine SchedulerHeartbeat.get_retime.trans ((if_neg (LoopName.name_ne heq)).trans ?_)
        exact SchedulerHeartbeat.get_beat.trans (if_neg (LoopName.name_ne heq))
      · intro t hsame
        refine List.mem_cons.trans ⟨fun ht => ht.resolve_left ?_,.inr⟩
        rintro rfl
        exact heq hsame.symm
      · exact (List.mem_erase_of_ne (by simpa using heq)).mpr
  · intro name hname
    rw [SchedulerHeartbeat.isSome_retime] at hname
    exact h.named name (SchedulerHeartbeat.isSome_beat ▸ hname)
  · exact fun hboot => ⟨(h.slow hboot).1,(h.slow hboot).2.beat.retime⟩
  · exact fun hsched hboot => ⟨(h.booted hsched hboot).1,fun loop' => ((h.booted hsched hboot).2 loop').beat.retime⟩

private theorem vital_start (h : Vital late took p) (hlate : ∀ loop, late + took loop ≤ 2 * loop.activeMs)
    (hrun : p.ticker.stopped = false) (hnew : loop ∉ p.ticker.loops) {boot : Boot} (hover : boot ≠ .over)
    (hslow : boot = .startingSlow → p.ticker.loops = [.fastDrain] ∧ loop = .slowSweep ∧ p.heartbeat.HasBeaten LoopName.fastDrain.name)
    (hsteady : Ticker.Steady (({ p.ticker with hooked := true, boot } : Ticker).start loop)) :
    Vital late took { p.start loop with ticker := ({ p.ticker with hooked := true, boot } : Ticker).start loop } := by
  have hlonger : ({ p.ticker with hooked := true, boot, loops := p.ticker.loops ++ [loop] } : Ticker).stopped = false := hrun
  have hregistered : ({ p with heartbeat := p.heartbeat.register loop.name loop.activeMs } : Pulse).ticker.stopped = false := hrun
  rw [Ticker.start, Ticker.arm_running hlonger] at hsteady
  rw [Ticker.start, Ticker.arm_running hlonger, start, arm_running hregistered]
  have hget : (p.heartbeat.register loop.name loop.activeMs).ticks.get loop.name = some ⟨loop.activeMs, none⟩ :=
    SchedulerHeartbeat.get_register.trans (if_pos rfl)
  have hnone (t : Timer) (ht : t ∈ p.ticker.timers) : t.loop ≠ loop := by
    rintro rfl
    exact hnew (h.steady.listed t ht)
  refine ⟨hsteady,fun _ => rfl,?_,?_,?_,?_,?_,?_,fun _ hboot => absurd hboot hover⟩
  · intro t ht
    rcases List.mem_cons.mp ht with rfl | ht
    · exact le_trans (Nat.le_add_right ..) (Nat.le_add_right ..)
    · exact h.onTime t ht
  · intro w hw
    rcases List.mem_cons.mp hw with rfl | hw
    · exact ⟨le_refl _,Nat.le_add_right ..⟩
    · exact h.inTime w hw
  · intro loop' hw
    obtain ⟨since,hsince,hmem⟩ := h.woken loop' hw
    exact ⟨since,hsince,List.mem_cons_of_mem _ hmem⟩
  · intro loop' hloop'
    rcases List.mem_append.mp hloop' with hloop' | hloop'
    · obtain ⟨b,hb⟩ := h.beating loop' hloop'
      have hne : loop' ≠ loop := ne_of_mem_of_not_mem hloop' hnew
      refine ⟨b,hb.frame rfl ?_ (le_refl _) ?_ (fun _ => le_refl _) id fun w hw _ => List.mem_cons_of_mem _ hw⟩
      · refine SchedulerHeartbeat.get_retime.trans ((if_neg (LoopName.name_ne hne)).trans ?_)
        exact SchedulerHeartbeat.get_register.trans (if_neg (LoopName.name_ne hne))
      · intro t hsame
        refine List.mem_cons.trans ⟨fun ht => ht.resolve_left ?_,.inr⟩
        rintro rfl
        exact hne hsame.symm
    · cases List.mem_singleton.mp hloop'
      refine ⟨_,Beating.armed (hlate loop) (SchedulerHeartbeat.get_retime_self hget) rfl List.mem_cons_self ?_ ?_⟩
      · intro t ht hsame
        rcases List.mem_cons.mp ht with rfl | ht
        · rfl
        · exact absurd hsame (hnone t ht)
      · rintro at' ⟨⟩
  · intro name hname
    by_cases heq : name = loop.name
    · exact ⟨loop,List.mem_append_right _ List.mem_cons_self,heq⟩
    · have hkept : (p.heartbeat.ticks.get name).isSome = true := by
        have hregister := SchedulerHeartbeat.isSome_retime.symm.trans hname
        rwa [SchedulerHeartbeat.get_register, if_neg heq] at hregister
      obtain ⟨loop',hloop',hname⟩ := h.named name hkept
      exact ⟨loop',List.mem_append_left _ hloop',hname⟩
  · intro hboot
    obtain ⟨hloops,rfl,hbeaten⟩ := hslow hboot
    refine ⟨?_,(hbeaten.register (by decide)).retime⟩
    simp [Ticker.begin, hloops]

section Runs
variable {e : PulseEvent} {acts : List PulseEvent} {bootedAt : ℤ} {runScheduler : Bool}

private theorem vital_initial (bootedAt : ℤ) (runScheduler : Bool) : Vital late took (initial bootedAt runScheduler) where
  steady := Ticker.steady_initial
  hooked h := absurd rfl h
  onTime := by simp [initial, Ticker.initial]
  inTime := by simp [initial]
  woken := by simp [initial, Ticker.initial]
  beating := by simp [initial, Ticker.initial]
  named := by simp [initial, SchedulerHeartbeat.initial]
  slow := by simp [initial, Ticker.initial]
  booted := by simp [initial, Ticker.initial]

private theorem of_told {event : TickerEvent} {r : Pulse} (hs : p.told event r = some q) (hq : q.ticker.stopped = false) :
    ∃ ticker, p.ticker.step event = some ticker ∧ q = { r with ticker } ∧ p.ticker.stopped = false := by
  obtain ⟨ticker,hticker,rfl⟩ := Option.map_eq_some_iff.mp hs
  refine ⟨ticker,hticker,rfl,Bool.eq_false_iff.mpr fun hp => ?_⟩
  rw [Ticker.stays_stopped hticker hp] at hq
  cases hq

private theorem vital_bootstrap (h : p.ticker.stopped = false → Vital late took p)
    (hlate : ∀ loop, late + took loop ≤ 2 * loop.activeMs) (hs : p.step .bootstrap = some q) (hq : q.ticker.stopped = false) :
    Vital late took q := by
  obtain ⟨ticker,hticker,rfl,hrun⟩ := of_told hs hq
  have hv := h hrun
  have hsteady := Ticker.steady_step (e := .bootstrap p.runScheduler) hv.steady trivial hticker
  obtain ⟨hboot,hticker⟩ := Option.ite_none_right_eq_some.mp hticker
  have hloops := hv.steady.boot.1 hboot
  cases hsched : p.runScheduler with
  | true =>
    rw [hsched, if_pos rfl] at hticker
    cases hticker
    refine vital_start hv hlate hrun (by simp [hloops]) (by simp) ?_ hsteady
    rintro ⟨⟩
  | false =>
    rw [hsched, if_neg Bool.false_ne_true] at hticker
    cases hticker
    refine ⟨hsteady,hv.hooked,hv.onTime,hv.inTime,hv.woken,?_,hv.named,?_,?_⟩
    · intro loop hloop
      obtain ⟨b,hb⟩ := hv.beating loop hloop
      exact ⟨b,hb.frame rfl rfl (le_refl _) (fun _ _ => .rfl) (fun _ => le_refl _) id fun _ hw _ => hw⟩
    · rintro ⟨⟩
    · intro hon
      cases hsched.symm.trans hon

private theorem vital_started (h : p.ticker.stopped = false → Vital late took p)
    (hlate : ∀ loop, late + took loop ≤ 2 * loop.activeMs) {since : ℕ} (hs : p.step (.started since true) = some q)
    (hq : q.ticker.stopped = false) : Vital late took q := by
  rw [step] at hs
  cases hboot : p.ticker.boot with
  | startingFast =>
    rw [hboot] at hs
    obtain ⟨_,hs⟩ := Option.ite_none_right_eq_some.mp hs
    obtain ⟨ticker,hticker,rfl,hrun⟩ := of_told hs hq
    have hv := h hrun
    have hsteady := Ticker.steady_step (e := .started) hv.steady trivial hticker
    rw [Ticker.step, hboot] at hticker
    cases hticker
    have hloops := hv.steady.boot.2 hboot
    have hhooked := hv.hooked (by simp [hloops])
    have hticker : ({ p.ticker with boot := .startingSlow } : Ticker) = { p.ticker with hooked := true, boot := .startingSlow } :=
      congrArg (fun hooked => ({ p.ticker with hooked, boot := .startingSlow } : Ticker)) hhooked
    rw [hticker] at hsteady ⊢
    have hdone := vital_done hv hlate (w := ⟨.fastDrain, none, since⟩) (by simp)
    refine vital_start hdone hlate hrun (by simp [done, hloops]) (by simp) (fun _ => ⟨hloops,rfl,?_⟩) hsteady
    obtain ⟨b,hb⟩ := hv.beating .fastDrain (by simp [hloops])
    exact SchedulerHeartbeat.hasBeaten_of_beat hb.kept
  | startingSlow =>
    rw [hboot] at hs
    obtain ⟨_,hs⟩ := Option.ite_none_right_eq_some.mp hs
    obtain ⟨ticker,hticker,rfl,hrun⟩ := of_told hs hq
    have hv := h hrun
    have hsteady := Ticker.steady_step (e := .started) hv.steady trivial hticker
    rw [Ticker.step, hboot] at hticker
    cases hticker
    obtain ⟨hloops,hfast⟩ := hv.slow hboot
    have hdone := vital_done hv hlate (w := ⟨.slowSweep, none, since⟩) (by simp)
    refine ⟨hsteady,hdone.hooked,hdone.onTime,hdone.inTime,hdone.woken,?_,hdone.named,?_,fun _ _ => ⟨hloops,?_⟩⟩
    · intro loop hloop
      obtain ⟨b,hb⟩ := hdone.beating loop hloop
      exact ⟨b,hb.frame rfl rfl (le_refl _) (fun _ _ => .rfl) (fun _ => le_refl _) id fun _ hw _ => hw⟩
    · rintro ⟨⟩
    · intro loop
      cases loop with
      | fastDrain => exact hfast.beat
      | slowSweep =>
        obtain ⟨b,hb⟩ := hv.beating .slowSweep (by simp [hloops])
        exact SchedulerHeartbeat.hasBeaten_of_beat hb.kept
  | _ =>
    rw [hboot] at hs
    cases hs

private theorem vital_finish (h : p.ticker.stopped = false → Vital late took p)
    (hlate : ∀ loop, late + took loop ≤ 2 * loop.activeMs) {tick : Tick} {since : ℕ}
    (hs : p.step (.finish tick since true) = some q) (hq : q.ticker.stopped = false) : Vital late took q := by
  obtain ⟨_,hs⟩ := Option.ite_none_right_eq_some.mp hs
  obtain ⟨ticker,hticker,rfl,hrun⟩ := of_told hs hq
  have hv := h hrun
  have hsteady := Ticker.steady_step (e := .finish tick) hv.steady trivial hticker
  obtain ⟨hmem,hticker⟩ := Option.ite_none_right_eq_some.mp hticker
  obtain ⟨loop,occasion⟩ := tick
  cases occasion with
  | fired =>
    cases hticker
    exact vital_forget (vital_done hv hlate (w := ⟨loop, some .fired, since⟩) (by simp)) loop hsteady
  | woken =>
    cases hticker
    exact vital_woken hv hlate hrun hmem hsteady

private theorem vital_step (h : p.ticker.stopped = false → Vital late took p)
    (hlate : ∀ loop, late + took loop ≤ 2 * loop.activeMs) (hok : Prompt late took p e) (hs : p.step e = some q)
    (hq : q.ticker.stopped = false) : Vital late took q := by
  cases e with
  | bootstrap => exact vital_bootstrap h hlate hs hq
  | started since succeeds =>
    cases hok
    exact vital_started h hlate hs hq
  | finish tick since succeeds =>
    cases hok
    exact vital_finish h hlate hs hq
  | pass ms =>
    obtain ⟨ticker,hticker,rfl,hrun⟩ := of_told hs hq
    have hsteady := Ticker.steady_step (e := .pass ms) (h hrun).steady trivial hticker
    cases hticker
    exact vital_pass (h hrun) hok hsteady
  | request url =>
    rw [step] at hs
    by_cases hprobe : isHealthProbe url = true
    · rw [if_pos hprobe] at hs
      cases hs
      exact h hq
    · rw [if_neg hprobe] at hs
      obtain ⟨ticker,hticker,rfl,hrun⟩ := of_told hs hq
      have hv := h hrun
      have hsteady := Ticker.steady_step hv.steady (hv.calm hlate) hticker
      rw [Ticker.step] at hticker
      by_cases hwakes : p.ticker.wakes = true
      · rw [if_pos hwakes] at hticker ⊢
        cases hticker
        exact vital_wake hv hrun hsteady
      · rw [if_neg hwakes] at hticker ⊢
        cases hticker
        exact vital_visit hv hwakes hsteady
  | fire t =>
    obtain ⟨ticker,hticker,rfl,hrun⟩ := of_told hs hq
    have hv := h hrun
    have hsteady := Ticker.steady_step (e := .fire t) hv.steady trivial hticker
    obtain ⟨⟨ht,_⟩,hticker⟩ := Option.ite_none_right_eq_some.mp hticker
    cases hticker
    exact vital_fire hv hlate hrun ht hsteady
  | shutdown =>
    obtain ⟨ticker,hticker,rfl,hrun⟩ := of_told hs hq
    cases hticker
    have hclear (loops : List LoopName) (s : Ticker) (hs : s.stopped = true) : (loops.foldl Ticker.clear s).stopped = true := by
      induction loops generalizing s with
      | nil => exact hs
      | cons loop loops ih => exact ih (s.clear loop) hs
    cases (hclear p.ticker.loops { p.ticker with stopped := true } rfl).symm.trans hq

private theorem Vital.current (h : Vital late took p) {loop : LoopName} (hloop : loop ∈ p.ticker.loops) {b : Beat} {at' : ℤ}
    (hkept : p.heartbeat.ticks.get loop.name = some b) (hat : b.lastTickAt = some at') :
    p.bootedAt + p.ticker.now - at' ≤ b.intervalMs * staleTickMultiplier := by
  obtain ⟨b',hb⟩ := h.beating loop hloop
  cases hkept.symm.trans hb.kept
  simp only [staleTickMultiplier]
  rcases hb.next at' hat with ⟨t,ht,_,hle⟩ | ⟨w,hw,rfl,hle⟩
  · have hdue := h.onTime t ht
    push_cast
    omega
  · have hdone := (h.inTime w hw).2
    push_cast
    omega

/-- No false alarm: while every tick succeeds, and the time that it takes and the lateness of its timer come to two of its loop's
active intervals at most, the scheduler is never called stalled, and the answer is the database's alone. -/
theorem ready_of_run (hlate : ∀ loop, late + took loop ≤ 2 * loop.activeMs)
    (h : Run step (Prompt late took) (initial bootedAt runScheduler) acts p) (hboot : p.ticker.boot = .over)
    (hrun : p.ticker.stopped = false) (database : Bool) (redis : RedisReport) :
    (p.readiness database redis).2.scheduler.status ≠ .stalled ∧ (p.readiness database redis).1 = if database then 200 else 503 := by
  have hv : Vital late took p := h.invariant (I := fun p => p.ticker.stopped = false → Vital late took p)
    (fun _ => vital_initial bootedAt runScheduler) (fun _ _ _ hi hok hs => vital_step hi hlate hok hs) hrun
  have hlively : (p.readiness database redis).2.scheduler.status ≠ .stalled := by
    refine scheduler_ne_stalled.mpr fun hon => ?_
    obtain ⟨hloops,hbeaten⟩ := hv.booted hon hboot
    constructor
    · obtain ⟨b,hget,_⟩ := hbeaten .fastDrain
      have hmem : ⟨LoopName.fastDrain.name, b.lastTickAt, b.intervalMs⟩ ∈ p.heartbeat.report := SchedulerHeartbeat.mem_report.mpr hget
      exact List.ne_nil_of_mem hmem
    · intro tick htick
      have hget := SchedulerHeartbeat.mem_report.mp htick
      obtain ⟨loop,hloop,hname⟩ := hv.named tick.name (by rw [hget, Option.isSome_some])
      obtain ⟨b,hkept,hlast⟩ := hbeaten loop
      rw [hname] at hget
      cases hget.symm.trans hkept
      obtain ⟨at',hat⟩ := Option.ne_none_iff_exists'.mp hlast
      exact ⟨at',hat,hv.current hloop hkept hat⟩
  refine ⟨hlively,?_⟩
  rw [readiness, readiness_fst]
  cases database with
  | true => exact if_pos ⟨rfl,hlively⟩
  | false => rfl

/-- A drain that takes two seconds, and a request after it. -/
theorem ready_of_drain : ∃ p : Pulse, Run step (Prompt 500 fun _ => 2000) (initial 1784462400000 true)
    [.bootstrap, .started 0 true, .started 0 true, .pass 3000, .fire ⟨0, .fastDrain, 3000⟩, .pass 2000,
      .finish ⟨.fastDrain, .fired⟩ 3000 true, .request (units "/tickets"), .request (units "/health/ready")] p ∧
    (p.readiness false ⟨false, false⟩).2.scheduler.status ≠ .stalled ∧ (p.readiness false ⟨false, false⟩).1 = 503 := by
  have hexec : (exec step (Prompt 500 fun _ => 2000) (initial 1784462400000 true)
      [.bootstrap, .started 0 true, .started 0 true, .pass 3000, .fire ⟨0, .fastDrain, 3000⟩, .pass 2000,
        .finish ⟨.fastDrain, .fired⟩ 3000 true, .request (units "/tickets"), .request (units "/health/ready")]).any
      (fun p => p.ticker.boot = .over && p.ticker.stopped = false) = true := by decide +kernel
  obtain ⟨p,hrun,hp⟩ := exec_any hexec
  obtain ⟨hboot,hstopped⟩ := Bool.and_eq_true_iff.mp hp
  exact ⟨p,hrun,ready_of_run (by rintro (_ | _) <;> decide) hrun (of_decide_eq_true hboot) (of_decide_eq_true hstopped) false
    ⟨false, false⟩⟩

end Runs
end Pulse
end Nivara.Scheduler
