import Nucleus.Proofs.Kernel.Diary
import Nucleus.Proofs.Kernel.Permanence
import Nucleus.Proofs.Kernel.TickTime

/-!
# Waiting for the next tick

While nobody can run, the processor waits with the timer set for the next tick of the pseudo-clock.
The timer is set in whole microseconds and so is the time gathered for the tick, but what is left of
a microsecond is never lost between the two, so the tick is due when the timer has run out
(`idle_ends`). This needs that the clock does not overtake the last time it was read.
-/

namespace Nucleus

/-- It has been decided what runs next. -/
def Notice.isDecision : Notice → Bool
  | resuming _ | dispatching _ | idle _ | nothingLeft | stuck _ => true
  | created _ _ | terminated _ | blocked _ _ | woke _ _ | passedUp _ _ | unhandled _ _
  | poolExhausted | secondHandler _ _ | strayInterrupt _ | quantumExpired _ | clockTick
  | emptyBitmap _ | nothingCompleted _ | boot _ => false

namespace Kernel

open Outcome

variable {k k' k₀ k₁ : Kernel} {h : Slot} {start log : List Notice} {clock ticks : Nat}
  {vs : List Visit} {machine machine' : Machine} {config : Config} {call : Call}

/-- The processor waits with the timer set for the next tick. -/
structure Waits (k : Kernel) : Prop where
  line : k.line = []
  soft : k.softCount ≠ 0
  timer : k.TimerSet k.untilTick

theorem waits_of_schedule (h : schedule k = .ok .idle k' log) : k'.Waits := by
  have hchoice := k.choice_schedule
  rw [h] at hchoice
  cases hchoice with
  | wait hcurrent hready _ hsoft =>
    have hline : k.line = [] := by rw [line, hcurrent, hready]; rfl
    exact ⟨hline, hsoft, timerSet_setTimer k _ rfl rfl⟩

/-- When the timer has run out, a tick is due, also if some time passed before. -/
theorem Waits.due (hw : k.Waits) (hscale : k.machine.read Bus.timeScale ≠ 0)
    (hfit : ticks + (k.config.tickInterval.toNat + 1) * k.machine.timeScale.toNat ≤ UInt32.size)
    (hpassed : k.machine.TimePasses ticks machine)
    (hout : machine.TimePasses (machine.timerLeft.toNat * (machine.read Bus.timeScale).toNat)
      machine') :
    k.config.tickInterval ≤ ({ k with machine := machine' } : Kernel).gatherTick.tickMicros := by
  have hsize : UInt32.size = 4294967296 := rfl
  have hall := hpassed.trans hout
  have huntil := k.toNat_untilTick
  have hpos := k.machine.timeScale_pos
  have hleft := hw.timer.left
  have hwait : k.untilTick.toNat * k.machine.timeScale.toNat ≤
      k.config.tickInterval.toNat * k.machine.timeScale.toNat := Nat.mul_le_mul_right _ (by omega)
  rw [Nat.add_one_mul] at hfit
  rw [hpassed.timerLeft, Machine.timerLeft_of_read hw.timer.timer (by omega), hpassed.scale,
    ← Machine.timeScale_of_ne_zero hscale] at hall
  -- What was left of a microsecond, the time that passed and the time on the timer: the clock has
  -- not overtaken the last time it was read.
  have hsince : (machine'.now - k.tickUntil).toNat = (k.machine.now - k.tickUntil).toNat +
      (ticks + k.untilTick.toNat * k.machine.timeScale.toNat) := by
    have hsum : machine'.now - k.tickUntil = k.machine.now - k.tickUntil +
        UInt32.ofNat (ticks + k.untilTick.toNat * k.machine.timeScale.toNat) := by
      rw [hall.now]
      grind
    rw [hsum, UInt32.toNat_add, UInt32.toNat_ofNat_of_lt' (by omega), Nat.mod_eq_of_lt (by omega)]
  have hmicros : k.untilTick.toNat ≤
      (elapsed machine'.now k.tickUntil machine'.timeScale).1.toNat := by
    show _ ≤ ((machine'.now - k.tickUntil) / machine'.timeScale).toNat
    rw [hall.timeScale, UInt32.toNat_div, hsince, Nat.le_div_iff_mul_le hpos]
    omega
  rw [UInt32.le_iff_toNat_le]
  show _ ≤ (Word.saturatingAdd k.tickMicros
    (elapsed machine'.now k.tickUntil machine'.timeScale).1).toNat
  have hinterval := k.config.tickInterval.toNat_lt
  rw [Word.toNat_saturatingAdd]
  exact Nat.le_min.2 ⟨by omega, Nat.le_sub_one_of_lt hinterval⟩

/-! ## What is decided -/

/-- If a process runs after the decision, it has been resumed. -/
theorem schedule_of_running (hs : (schedule k).state? = some k') (hh : k'.current = some h) :
    ∃ state log, schedule k = .ok (.resume (k'.pidAt h) state) k' log := by
  have htells := schedule_tells k
  have hfault : ∀ cause log, schedule k ≠ .fault cause k' log := fun cause log heq => by
    obtain ⟨rfl, hnobody, -⟩ := of_schedule_eq_fault heq
    cases hnobody.symm.trans hh
  cases hschedule : schedule k with
  | ok decision s log =>
    rw [hschedule] at hs htells
    obtain rfl := Option.some.inj hs
    replace htells : k.Decided decision (moves log) s := htells
    generalize moves log = ms at htells
    cases htells with
    | resumed hh₁ hc hg =>
      obtain rfl := Option.some.inj (hg.symm.trans hh)
      exact ⟨_, log, rfl⟩
    | dispatched hd hk hms =>
      cases hd
      obtain rfl := Option.some.inj (hk.current.symm.trans hh)
      exact ⟨_, log, rfl⟩
    | waited hcurrent hk hd => cases (hk.current.symm.trans hh).symm.trans hcurrent
  | fault cause s log =>
    rw [hschedule] at hs
    obtain rfl := Option.some.inj hs
    exact absurd hschedule (hfault cause log)
  | abort cause =>
    rw [hschedule] at hs
    cases hs

/-- If nobody can run but somebody waits for a device or for the clock, the processor waits. -/
theorem schedule_of_waiting (hs : (schedule k).state? = some k') (hh : k'.current = none)
    (hlive : k'.liveCount ≠ 0) (hsoft : k'.softCount ≠ 0) :
    ∃ log, schedule k = .ok .idle k' log := by
  have hchoice := k.choice_schedule
  generalize schedule k = o at hchoice hs ⊢
  cases hchoice with
  | resume hcurrent =>
    obtain rfl := Option.some.inj hs
    cases hh.symm.trans ((Alike.charge k).current.trans hcurrent)
  | dispatch =>
    obtain rfl := Option.some.inj hs
    cases hh
  | halt _ _ hnone =>
    obtain rfl := Option.some.inj hs
    exact absurd hnone hlive
  | deadlock _ _ _ hnone =>
    obtain rfl := Option.some.inj hs
    exact absurd hnone hsoft
  | wait =>
    obtain rfl := Option.some.inj hs
    exact ⟨_, rfl⟩

/-- One notice tells what has been decided. -/
theorem log_schedule (k : Kernel) :
    ∃ notice, (schedule k).log = [notice] ∧ notice.isDecision = true := by
  have hchoice := k.choice_schedule
  generalize schedule k = o at hchoice ⊢
  cases hchoice with
  | resume | dispatch | halt | deadlock | wait => exact ⟨_, rfl, rfl⟩

theorem countP_isTick_schedule (k : Kernel) : (schedule k).log.countP Notice.isTick = 0 := by
  obtain ⟨notice, hlog, hdecision⟩ := k.log_schedule
  rw [hlog]
  cases notice with
  | clockTick => cases hdecision
  | _ => rfl

/-! ## The tick -/

/-- The pseudo-clock has ticked for those who waited on it while nobody ran. -/
structure EndsWait (waiting : List Pid) (k : Kernel) (o : Outcome Kernel Decision)
    (k' : Kernel) : Prop where
  state : o.state? = some k'
  ticks : o.log.countP Notice.isTick = 1
  ticked : k.Ticked k'
  /-- The process that has waited longest is resumed, and the others are ready in their order. -/
  resumes : ∀ pid others, waiting = pid :: others →
    (∃ state log, o = .ok (.resume pid state) k' log) ∧ k'.lineAt .processor = [pid] ∧
      k'.lineAt .ready = others
  /-- If nobody has waited, the processor waits again. -/
  waits : waiting = [] → ∃ log, o = .ok .idle k' log

/-- A timer that finds a tick due makes one tick, and then it is decided what runs next. -/
theorem Sound.timer_ticks (hk : k.Sound) (hb : k.ClockBooks)
    (hdue : ∀ machine, k.machine.TimePasses ((Call.deliver .timer).ticks k) machine →
      k.config.tickInterval ≤ ({ k with machine } : Kernel).gatherTick.tickMicros) :
    ∃ k' k₁ log, k.Ticked k' ∧ (Kernel.schedule k₁).state? = some k' ∧
      (Call.deliver .timer).run k = (Kernel.schedule k₁).after log ∧
      log.countP Notice.isTick = 1 := by
  obtain ⟨machine, k₁, htrap, htime, htimer, henters, hrun⟩ := hk.timer_run
  have huse := Call.use?_of_timer htrap htimer (hdue machine htime)
  obtain ⟨k', hs, hticked⟩ := hk.exists_ticked hb huse
  have hdue₁ : k₁.gatherTick.tickIsDue = true :=
    henters.tickIsDue_gatherTick.trans (decide_eq_true (hdue machine htime))
  obtain ⟨cause, habort⟩ | ⟨log, k₂, hserved, hrun⟩ := hrun
  · rw [habort] at hs
    cases hs
  · refine ⟨k', k₂, log, hticked, ?_, hrun, ?_⟩
    · rwa [hrun, state?_after] at hs
    · cases hserved with
      | ticked _ _ hquiet =>
        rw [List.countP_append, countP_isTick_of_quiet hquiet]
        rfl
      | nobody hnot | expired hnot => cases hnot.symm.trans hdue₁

/-- If nobody runs when the timer makes a tick, those who waited for it can run from then on. -/
theorem Sound.endsWait (hk : k.Sound) (hb : k.ClockBooks) (hline : k.line = [])
    (hsoft : k.softCount ≠ 0)
    (hdue : ∀ machine, k.machine.TimePasses ((Call.deliver .timer).ticks k) machine →
      k.config.tickInterval ≤ ({ k with machine } : Kernel).gatherTick.tickMicros) :
    ∃ k', EndsWait (k.lineAt (.waitList .clock)) k ((Call.deliver .timer).run k) k' := by
  obtain ⟨k', k₁, log, hticked, hs, hrun, hticks⟩ := hk.timer_ticks hb hdue
  have hstate : ((Call.deliver .timer).run k).state? = some k' := by rwa [hrun, state?_after]
  have hk' : k'.Sound := hk.step (.call _ hstate)
  have hline' : k'.line = k.waits.waiting .clock := by rw [hticked.line, hline, List.nil_append]
  have hfirst : k'.current = k'.line.head? :=
    Ends.of_state? (P := Dispatched) ((schedule_view SemaphoreId.isOrdinary_clock k₁).mono
      (fun _ _ h => h.2) (fun _ _ h => h.1.2) fun _ h => h) hs
  refine ⟨k', hstate, ?ticks, hticked, ?resumes, ?waits⟩
  case ticks => rw [hrun, log_after hs, List.countP_append, hticks, countP_isTick_schedule]
  case resumes =>
    intro pid others hwaiting
    obtain ⟨h, rest, hqueue, hpid, hothers⟩ := List.map_eq_cons_iff.1 hwaiting
    replace hqueue : k.waits.waiting .clock = h :: rest := hqueue
    rw [hline', hqueue, List.head?_cons] at hfirst
    have hready : k'.ready.items = rest := by
      rw [line_of_current hfirst, hqueue] at hline'
      exact List.tail_eq_of_cons_eq hline'
    have hkept : ∀ g ∈ k.waits.waiting .clock, k'.pidAt g = k.pidAt g := fun g hg => by
      refine hk.pidAt_eq hstate (hk.used_of_mem (p := .waitList .clock) hg) ?_
      rw [← hline'] at hg
      rcases List.mem_append.1 hg with hrunning | hready
      · exact hk'.used_of_mem (p := .processor) hrunning
      · exact hk'.used_of_mem (p := .ready) hready
    rw [hqueue] at hkept
    obtain ⟨hkept, hkeptRest⟩ := List.forall_mem_cons.1 hkept
    obtain ⟨state, log', hresumed⟩ := schedule_of_running hs hfirst
    refine ⟨⟨state, log ++ log', ?_⟩, ?_, ?_⟩
    · rw [hrun, hresumed, hkept, hpid]
      rfl
    · rw [lineAt, standing, hfirst, Option.toList_some, List.map_singleton, hkept, hpid]
    · rw [lineAt, standing, hready, ← hothers]
      exact List.map_congr_left hkeptRest
  case waits =>
    intro hwaiting
    have hnone : k.waits.waiting .clock = [] := List.map_eq_nil_iff.1 hwaiting
    rw [hline', hnone] at hfirst
    have hcount : k.waiterCount .clock = 0 := congrArg List.length hnone
    have hsoft' : k'.softCount ≠ 0 := fun hzero => hsoft <| by
      have hsum := hticked.soft
      rw [hzero, hcount] at hsum
      exact UInt32.toNat_inj.1 hsum.symm
    have hlive : k'.liveCount ≠ 0 := by
      obtain ⟨h, hused, -⟩ := hk'.softCount_ne_zero_iff.1 hsoft'
      exact hk'.liveCount_ne_zero_iff.2 ⟨h, hused⟩
    obtain ⟨log', hidle⟩ := schedule_of_waiting hs hfirst hlive hsoft'
    refine ⟨log ++ log', ?_⟩
    rw [hrun, hidle]
    rfl

/-- A wait ends with the next tick: in every run that leaves the bus alone, if a call has left the
processor waiting and the timer runs out next, the pseudo-clock ticks for those who have blocked on
it. Time may have passed on the clock since the call, as long as the clock does not come around
before the timer has run out. -/
theorem idle_ends (hboot : boot (.new machine config) = .ok () k₀ start)
    (hscale : machine.read Bus.timeScale ≠ 0) (hrun : Diary k₀ clock vs k) (hbus : call.OffBus k)
    (hidle : call.run k = .ok .idle k₁ log) (hpassed : k₁.machine.TimePasses ticks machine')
    (hfit : ticks + (config.tickInterval.toNat + 1) * (machine.read Bus.timeScale).toNat ≤
      UInt32.size) :
    ∃ k', EndsWait (standingAfter (moves (loggedIn start vs ++ log)) (.waitList .clock))
      { k₁ with machine := machine' }
      ((Call.deliver .timer).run { k₁ with machine := machine' }) k' := by
  have hstart := started_of_boot hboot
  have hstate : (call.run k).state? = some k₁ := congrArg Outcome.state? hidle
  have hnext := hrun.call call hbus hstate
  obtain ⟨moved, -, -, hturn, hk₁⟩ :=
    (hrun.underway hstart.sound hstart.vacant).turn hbus hstate
  rw [hidle] at hturn
  obtain ⟨k₂, _, _, -, -, hschedule, -⟩ := hturn
  have hwaits := waits_of_schedule hschedule
  have hread : k₁.machine.read Bus.timeScale = machine.read Bus.timeScale :=
    hk₁.scale.trans hstart.scale
  have hscale₁ : k₁.machine.read Bus.timeScale ≠ 0 := hread ▸ hscale
  rw [← hread, ← Machine.timeScale_of_ne_zero hscale₁, ← hstart.config, ← hk₁.config] at hfit
  have hboot' : (boot (.new machine config)).state? = some k₀ := congrArg Outcome.state? hboot
  have hbooks := hnext.clockBooks hboot
  have hlog : (boot (.new machine config)).log = start := congrArg Outcome.log hboot
  have hroster := roster_of_history hboot' (hnext.history (boot (.new machine config)).log)
  have hwaiting : k₁.lineAt (.waitList .clock) =
      standingAfter (moves (loggedIn _ vs ++ (call.run k).log)) _ := hroster.line _
  rw [hlog, hidle] at hwaiting
  have hwait := (hk₁.sound.congr (.setMachine k₁ machine')).endsWait
    (hbooks.of_untouched ⟨rfl, rfl⟩) hwaits.line hwaits.soft fun machine'' hout =>
      hwaits.due hscale₁ hfit hpassed hout
  rwa [show ({ k₁ with machine := machine' } : Kernel).lineAt (.waitList .clock) =
    k₁.lineAt (.waitList .clock) from rfl, hwaiting] at hwait

/-- The root process and its child wait for a tick, and some time passes before the timer runs
out. -/
theorem idle_ends_two : ∃ k₀ start clock vs k, ∃ call : Call, ∃ k₁ log machine k',
    boot (.new Machine.new .usual) = .ok () k₀ start ∧ Diary k₀ clock vs k ∧
    call.run k = .ok .idle k₁ log ∧ k₁.machine.TimePasses 30000 machine ∧
    EndsWait [1, 2] { k₁ with machine }
      ((Call.deliver .timer).run { k₁ with machine }) k' := by
  obtain ⟨k₀, start, clock, vs, k, hboot, hcalls, htest⟩ := exists_replay
    (p := fun start _ vs k =>
      let call := Call.deliver (.request 7 0 0 0 false)
      call.OffBus k && match call.run k with
        | .ok .idle k₁ log => (k₁.machine.read Bus.timeScale = 1 ∧
          standingAfter (moves (loggedIn start vs ++ log)) (.waitList .clock) = [1, 2])
        | _ => false)
    Machine.new .usual
    [(0, .schedule), (5, .deliver (.request 1 0x20001000 0 0 false)),
      (5, .deliver (.request 7 0 0 0 false))]
    (by decide +kernel)
  have hrun := Diary.start.replay hcalls
  obtain ⟨hbus, htest⟩ := (Bool.and_eq_true _ _).mp htest
  split at htest
  · rename_i k₁ log hidle
    obtain ⟨hread, hwaiting⟩ := of_decide_eq_true htest
    have hpassed := k₁.machine.timePasses_advance 30000
    rw [hread] at hpassed
    obtain ⟨k', hends⟩ := idle_ends hboot (by decide) hrun (of_decide_eq_true hbus) hidle hpassed
      (by decide)
    rw [hwaiting] at hends
    exact ⟨k₀, start, clock, vs, k, _, k₁, log, _, k', hboot, hrun, hidle, hpassed, hends⟩
  · cases htest

/-- If so much time passes that the clock comes around before the timer has run out, no tick is due
then, and the processor goes on waiting although the root process waits for a tick. -/
theorem idle_overslept : ∃ k₀ start clock vs k, ∃ k₁ log k' log',
    boot (.new Machine.new .usual) = .ok () k₀ start ∧
    (Config.usual.tickInterval.toNat + 1) * (Machine.new.read Bus.timeScale).toNat ≤
      UInt32.size ∧
    replayDiary [(0, .schedule)] (k₀.machine.now.toNat, [], k₀) = some (clock, vs, k) ∧
    (Call.deliver (.request 7 0 0 0 false)).OffBus k ∧
    (Call.deliver (.request 7 0 0 0 false)).run k = .ok .idle k₁ log ∧
    k₁.lineAt (.waitList .clock) = [1] ∧
    (Call.deliver .timer).run { k₁ with machine := k₁.machine.advance 4294917296 } =
      .ok .idle k' log' ∧
    log'.countP Notice.isTick = 0 ∧ k'.lineAt (.waitList .clock) = [1] := by
  obtain ⟨k₀, start, clock, vs, k, hboot, hcalls, htest⟩ := exists_replay
    (p := fun _ _ _ k =>
      (Call.deliver (.request 7 0 0 0 false)).OffBus k &&
        match (Call.deliver (.request 7 0 0 0 false)).run k with
        | .ok .idle k₁ _ => k₁.lineAt (.waitList .clock) = [1] &&
          match (Call.deliver .timer).run
              { k₁ with machine := k₁.machine.advance 4294917296 } with
          | .ok .idle k' log' =>
            log'.countP Notice.isTick = 0 ∧ k'.lineAt (.waitList .clock) = [1]
          | _ => false
        | _ => false)
    Machine.new .usual [(0, .schedule)] (by decide +kernel)
  obtain ⟨hbus, htest⟩ := (Bool.and_eq_true _ _).mp htest
  split at htest
  · rename_i k₁ log hidle
    obtain ⟨hwaiting, htest⟩ := (Bool.and_eq_true _ _).mp htest
    split at htest
    · rename_i k' log' htimer
      obtain ⟨hticks, hstill⟩ := of_decide_eq_true htest
      exact ⟨k₀, start, clock, vs, k, k₁, log, k', log', hboot, by decide, hcalls,
        of_decide_eq_true hbus, hidle, of_decide_eq_true hwaiting, htimer, hticks, hstill⟩
    · cases htest
  · cases htest

end Kernel

end Nucleus
