import Nucleus.Kernel.Run
import Nucleus.Proofs.Kernel.Quantum

/-!
# Deciding again

A decision accounts for all the time up to the reading of the clock: it charges the running process,
gathers time for the next tick, and sets the timer for what is left. So a second decision while the
clock stands still has nothing to charge or to gather. If the first one dispatched a process, the
second takes another path, since now this process runs, but it comes to the same answer, sets the
timer to the same deadline and changes nothing (`schedule_again`).
-/

namespace Nucleus

theorem elapsed_eq_zero {now since scale : Word} (h : (now - since) / scale = 0) :
    elapsed now since scale = (0, since) := by
  unfold elapsed
  dsimp only
  rw [h, UInt32.zero_mul, UInt32.add_zero]

theorem elapsed_self (now scale : Word) : elapsed now now scale = (0, now) := by
  apply elapsed_eq_zero
  rw [UInt32.sub_self]
  exact UInt32.zero_div

/-- Less than a microsecond counts for nothing. -/
theorem elapsed_of_lt {now since scale : Word} (h : (now - since).toNat < scale.toNat) :
    elapsed now since scale = (0, since) := by
  apply elapsed_eq_zero
  apply UInt32.toNat_inj.1
  rw [UInt32.toNat_div, Nat.div_eq_of_lt h]
  rfl

theorem Word.saturatingAdd_zero (a : Word) : Word.saturatingAdd a 0 = a := by
  have hlt := a.toNat_lt
  apply UInt32.toNat_inj.1
  rw [Word.toNat_saturatingAdd]
  change min (a.toNat + 0) (4294967296 - 1) = _
  omega

theorem Machine.set_read (m : Machine) (a : Word) : m.set a (m.read a) = m := by
  unfold Machine.set Machine.read
  rw [Memory.write_read]

namespace Kernel

open Outcome

variable {k k' : Kernel} {h : Slot} {micros : Word}

/-! ## Nothing left to do -/

namespace TimerSet

/-- No time is left to be gathered for the next tick. -/
theorem gatherTick_eq (ht : k.TimerSet micros) : k.gatherTick = k := by
  unfold gatherTick
  rw [elapsed_of_lt ht.left]
  simp only [Word.saturatingAdd_zero]

/-- The timer need not be set to the same deadline. -/
theorem setTimer_eq (ht : k.TimerSet micros) : k.setTimer micros = k := by
  unfold setTimer writeWord
  rw [Machine.write_of_plain (by decide), ← ht.timer, Machine.set_read]

end TimerSet

/-- The running process has been charged for all but less than a microsecond. -/
def ChargedUp (k : Kernel) : Prop :=
  elapsed k.machine.now k.chargedUntil k.machine.timeScale = (0, k.chargedUntil)

theorem chargedUp_charge (hh : k.current = some h) : k.charge.ChargedUp := by
  rw [charge_eq hh]
  exact elapsed_again _ _ _

theorem ChargedUp.setTimer (hc : k.ChargedUp) (micros : Word) : (k.setTimer micros).ChargedUp := by
  have hstill := (Beat.arm (k := k) micros).standsStill
  unfold ChargedUp
  rw [hstill.now, hstill.timeScale]
  exact hc

theorem ChargedUp.charge_eq (hc : k.ChargedUp) (hh : k.current = some h) : k.charge = k := by
  rw [Kernel.charge_eq hh, hc]
  exact modify_self (f := (·.charge 0)) (Descriptor.charge_zero _)

/-! ## What a decision leaves -/

/-- The process that runs after a decision has been resumed as it is and charged. -/
theorem resumed_of_schedule (hs : (schedule k).state? = some k') (hh : k'.current = some h) :
    (∃ log, schedule k = .ok (.resume (k'.pidAt h) (k'.processes.get h).state) k' log) ∧
      k'.ChargedUp := by
  have hchoice := k.choice_schedule
  generalize schedule k = o at hchoice hs ⊢
  cases hchoice with
  | resume hg =>
    obtain rfl := Option.some.inj hs
    obtain rfl := Option.some.inj (((Alike.charge k).current.trans hg).symm.trans hh)
    exact ⟨⟨_, rfl⟩, ChargedUp.setTimer (chargedUp_charge hg : k.charge.gatherTick.ChargedUp) _⟩
  | dispatch =>
    obtain rfl := Option.some.inj hs
    obtain rfl := Option.some.inj hh
    refine ⟨⟨_, rfl⟩, ChargedUp.setTimer ?_ _⟩
    exact elapsed_self k.machine.now k.machine.timeScale
  | halt hcurrent | deadlock hcurrent | wait hcurrent =>
    obtain rfl := Option.some.inj hs
    cases hcurrent.symm.trans hh

/-- A process that runs after a decision is resumed again, and nothing changes. -/
theorem schedule_running (hs : (schedule k).state? = some k') (hh : k'.current = some h) :
    schedule k' =
      .ok (.resume (k'.pidAt h) (k'.processes.get h).state) k' [.resuming (k'.pidAt h)] := by
  obtain ⟨⟨log, hresumed⟩, hcharged⟩ := resumed_of_schedule hs hh
  have htimer := timerSet_of_schedule hresumed hh
  have hset : k'.setTimer (min (Word.saturatingSub k'.config.quantum
      (k'.processes.get h).quantumTime) k'.untilTick) = k' := htimer.setTimer_eq
  rw [schedule_eq_resumeCurrent hh]
  unfold resumeCurrent
  simp only [hcharged.charge_eq hh, htimer.gatherTick_eq, hset]
  rfl

theorem waitOrStop_of_soft (hlive : k.liveCount ≠ 0) (hsoft : k.softCount ≠ 0) :
    k.waitOrStop =
      .ok .idle (k.gatherTick.setTimer k.gatherTick.untilTick) [.idle k.softCount] := by
  unfold waitOrStop
  rw [if_neg hlive, if_neg hsoft]
  rfl

/-- If nobody can run, the kernel is left as it is, or the timer has been set for the next tick. -/
theorem state?_waitOrStop (k : Kernel) :
    k.waitOrStop.state? = some k ∨ k.liveCount ≠ 0 ∧ k.softCount ≠ 0 ∧
      k.waitOrStop.state? = some (k.gatherTick.setTimer k.gatherTick.untilTick) := by
  by_cases hlive : k.liveCount = 0
  · have hstop : k.waitOrStop = .ok .halt k [.nothingLeft] := if_pos hlive
    exact .inl (by rw [hstop]; rfl)
  by_cases hsoft : k.softCount = 0
  · have hstop : k.waitOrStop = .fault .deadlock k [.stuck k.liveCount] := by
      unfold waitOrStop
      rw [if_neg hlive, if_pos hsoft]
    exact .inl (by rw [hstop]; rfl)
  · exact .inr ⟨hlive, hsoft, by rw [waitOrStop_of_soft hlive hsoft]; rfl⟩

/-- What is decided when nobody can run is decided again. -/
theorem waitOrStop_again (hs : k.waitOrStop.state? = some k') : k'.waitOrStop = k.waitOrStop := by
  rcases state?_waitOrStop k with hsame | ⟨hlive, hsoft, hset⟩
  · obtain rfl := Option.some.inj (hsame.symm.trans hs)
    rfl
  · obtain rfl := Option.some.inj (hset.symm.trans hs)
    have htimer : (k.gatherTick.setTimer k.gatherTick.untilTick).TimerSet k.gatherTick.untilTick :=
      timerSet_setTimer k _ rfl rfl
    have hagain : (k.gatherTick.setTimer k.gatherTick.untilTick).setTimer
        (k.gatherTick.setTimer k.gatherTick.untilTick).untilTick = _ := htimer.setTimer_eq
    rw [waitOrStop_of_soft hlive hsoft]
    calc (k.gatherTick.setTimer k.gatherTick.untilTick).waitOrStop
      _ = _ := waitOrStop_of_soft hlive hsoft
      _ = .ok .idle (k.gatherTick.setTimer k.gatherTick.untilTick) [.idle k.softCount] := by
        rw [htimer.gatherTick_eq, hagain]
        rfl

/-- If nobody runs after a decision, nobody could run before it, and still nobody can. -/
theorem not_canRun_of_schedule (hs : (schedule k).state? = some k') (hh : k'.current = none) :
    ¬ k.CanRun ∧ ¬ k'.CanRun := by
  have hnobody : ∀ {k : Kernel}, k.current = none → k.ready.items = [] → ¬ k.CanRun :=
    fun hcurrent hready => not_or.2 ⟨not_not.2 hcurrent, not_not.2 hready⟩
  have hchoice := k.choice_schedule
  generalize schedule k = o at hchoice hs
  cases hchoice with
  | resume hg =>
    obtain rfl := Option.some.inj hs
    cases hh.symm.trans ((Alike.charge k).current.trans hg)
  | dispatch =>
    obtain rfl := Option.some.inj hs
    cases hh
  | halt hcurrent hready | deadlock hcurrent hready | wait hcurrent hready =>
    obtain rfl := Option.some.inj hs
    exact ⟨hnobody hcurrent hready, hnobody hcurrent hready⟩

/-! ## Deciding again -/

theorem exists_state?_schedule (k : Kernel) : ∃ k', (schedule k).state? = some k' := by
  by_cases hrun : k.CanRun
  · obtain ⟨pid, state, hresult⟩ := schedule_of_canRun hrun
    cases hschedule : schedule k with
    | ok decision k' log => exact ⟨k', rfl⟩
    | fault cause k' log => exact ⟨k', rfl⟩
    | abort cause =>
      rw [hschedule] at hresult
      cases hresult
  · rw [schedule_of_not_canRun hrun]
    rcases state?_waitOrStop k with hsame | ⟨-, -, hset⟩
    · exact ⟨_, hsame⟩
    · exact ⟨_, hset⟩

/-- Two outcomes that differ in the notices at most. -/
structure SameEnd {α : Type} (o o' : Outcome Kernel α) : Prop where
  state : o'.state? = o.state?
  result : o'.result? = o.result?

theorem sameEnd_after {α : Type} (o : Outcome Kernel α) (log log' : List Notice) :
    SameEnd (o.after log) (o.after log') := by
  cases o with
  | ok value s rest => exact ⟨rfl, rfl⟩
  | fault cause s rest => exact ⟨rfl, rfl⟩
  | abort cause => exact ⟨rfl, rfl⟩

/-- A run goes on from its first decision and from what this decision leaves. -/
theorem run_of_schedule {result : Except Fault Decision} (hs : (schedule k).state? = some k')
    (hresult : (schedule k).result? = some result) (rounds : Nat) :
    ∃ log, run rounds k = (runFrom rounds result k').after log := by
  cases hschedule : schedule k with
  | ok decision s log =>
    rw [hschedule] at hs hresult
    obtain rfl := Option.some.inj hs
    obtain rfl := Option.some.inj hresult
    exact ⟨log, by rw [run, Action.bind_apply, Action.recover, hschedule]⟩
  | fault cause s log =>
    rw [hschedule] at hs hresult
    obtain rfl := Option.some.inj hs
    obtain rfl := Option.some.inj hresult
    exact ⟨log, by rw [run, Action.bind_apply, Action.recover, hschedule]⟩
  | abort cause =>
    rw [hschedule] at hs
    cases hs

/-- While the clock stands still, a second decision is the same as the first and leaves everything
as it is, the interval timer and the rest of memory included. So a run from there decides nothing
else and ends as it would have without the first decision. -/
theorem schedule_again (k : Kernel) : ∃ k' result,
    (schedule k).state? = some k' ∧ (schedule k).result? = some result ∧
      (schedule k').state? = some k' ∧ (schedule k').result? = some result ∧
      ∀ rounds, (∃ log, run rounds k' = (runFrom rounds result k').after log) ∧
        SameEnd (run rounds k) (run rounds k') := by
  obtain ⟨k', hs⟩ := exists_state?_schedule k
  have hagain : (schedule k').state? = some k' ∧ (schedule k').result? = (schedule k).result? := by
    cases hh : k'.current with
    | some h =>
      obtain ⟨⟨log, hresumed⟩, -⟩ := resumed_of_schedule hs hh
      rw [schedule_running hs hh, hresumed]
      exact ⟨rfl, rfl⟩
    | none =>
      obtain ⟨hrun, hrun'⟩ := not_canRun_of_schedule hs hh
      rw [schedule_of_not_canRun hrun] at hs ⊢
      rw [schedule_of_not_canRun hrun', waitOrStop_again hs]
      exact ⟨hs, rfl⟩
  obtain ⟨result, hresult⟩ : ∃ result, (schedule k).result? = some result := by
    cases hschedule : schedule k with
    | ok decision s log => exact ⟨.ok decision, rfl⟩
    | fault cause s log => exact ⟨.error cause, rfl⟩
    | abort cause =>
      rw [hschedule] at hs
      cases hs
  refine ⟨k', result, hs, hresult, hagain.1, hagain.2.trans hresult, fun rounds => ?_⟩
  obtain ⟨log, hrun⟩ := run_of_schedule hs hresult rounds
  obtain ⟨log', hrun'⟩ := run_of_schedule hagain.1 (hagain.2.trans hresult) rounds
  refine ⟨⟨log', hrun'⟩, ?_⟩
  rw [hrun, hrun']
  exact sameEnd_after _ log log'

end Kernel

end Nucleus
