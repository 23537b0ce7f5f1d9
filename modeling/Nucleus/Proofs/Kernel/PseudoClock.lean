import Nucleus.Proofs.Kernel.Ledger

/-!
# The law of the pseudo-clock

The value of the pseudo-clock is the number of its waiters with the opposite sign, or one less after
a tick that found nobody (`ClockBooks`). So a wait always blocks, and a tick that is due releases
everybody who waits: the loop that brings the value up to zero makes a round for each of them, and
at most one more.
-/

namespace Nucleus

/-- Nothing is left of a time that has been accounted for. -/
theorem elapsed_elapsed (now since scale : Word) :
    (elapsed now (elapsed now since scale).2 scale).1 = 0 := by
  have hle := Nat.div_mul_le_self (now - since).toNat scale.toNat
  have hlt := (now - since).toNat_lt
  have hscaled : ((now - since) / scale * scale).toNat =
      (now - since).toNat / scale.toNat * scale.toNat := by
    rw [UInt32.toNat_mul, UInt32.toNat_div, Nat.mod_eq_of_lt (Nat.lt_of_le_of_lt hle hlt)]
  have hrest : (now - (since + (now - since) / scale * scale)).toNat =
      (now - since).toNat % scale.toNat := by
    have hsplit : now - (since + (now - since) / scale * scale) =
        now - since - (now - since) / scale * scale := by grind
    rw [hsplit, UInt32.toNat_sub_of_le, hscaled, Nat.mod_eq_sub_div_mul]
    rwa [UInt32.le_iff_toNat_le, hscaled]
  apply UInt32.toNat_inj.1
  show ((now - (since + (now - since) / scale * scale)) / scale).toNat = 0
  rw [UInt32.toNat_div, hrest]
  rcases Nat.eq_zero_or_pos scale.toNat with hzero | hpos
  · rw [hzero, Nat.div_zero]
  · exact Nat.div_eq_of_lt (Nat.mod_lt _ hpos)

/-- If the value is at most one too low for the number of waiters, a tick releases them all. -/
theorem View.act_tick {v : View} (hv : v.value.toInt = -v.waiting.length ∨
    v.value.toInt = -v.waiting.length - 1) :
    Use.tick.act true v = { v with
      value := if v.value.toInt < 0 then 0 else -1
      waiting := []
      line := v.line ++ v.waiting
      softCount := v.softCount - v.waiting.length } := by
  by_cases hneg : v.value.toInt < 0
  · have hrounds : v.waiting.length ≤ (-v.value.toInt).toNat := by omega
    simp only [Use.act, if_pos hneg, View.release, if_true]
    rw [List.drop_of_length_le hrounds, List.take_of_length_le hrounds, Nat.min_eq_right hrounds]
  · -- A value that is not negative is zero, and then nobody waits.
    have hempty : v.waiting = [] := List.length_eq_zero_iff.1 (by omega)
    have hzero : v.value = 0 := Int32.toInt_inj.1 (show v.value.toInt = 0 by omega)
    have hlower : Count.saturatingAdd 0 (-1) = -1 := by decide
    simp [Use.act, View.release, View.add, hempty, hzero, hlower]

namespace Kernel

open Outcome

variable {k k' : Kernel} {h : Slot} {call : Call} {l l' : Ledger} {n : Nat}

/-! ## Value and waiters -/

/-- The value of the pseudo-clock says how many processes wait, up to one tick that is pending. -/
def ClockBooks (k : Kernel) : Prop :=
  (k.value .clock).toInt = -(k.waiterCount .clock) ∨
    (k.value .clock).toInt = -(k.waiterCount .clock) - 1

namespace ClockBooks

theorem of_untouched (hb : k.ClockBooks) (hk : k.Untouched .clock k') : k'.ClockBooks := by
  have hwaiters : k'.waiterCount .clock = k.waiterCount .clock := congrArg List.length hk.waiting
  unfold ClockBooks at hb ⊢
  rwa [hk.value, hwaiters]

/-- A wait and a termination move the value and the number of waiters together, and a tick ends with
nobody waiting, so the slack never grows. -/
theorem enter (hb : k.ClockBooks) (hk : k.Accounted) (hentry : Entry .clock k k' l l') :
    k'.ClockBooks := by
  have hmost : k.waiterCount .clock ≤ 20 := hk.length_waiting_le .clock
  unfold ClockBooks at hb ⊢
  cases hentry with
  | give hid => exact absurd rfl hid
  | take hpos hvalue hwaiters => omega
  | block hpos hvalue hwaiters =>
    rw [Count.least] at hvalue
    omega
  | tick hid hvalue hwaiters =>
    rw [Count.least] at hvalue
    split at hvalue
    · rename_i hneg
      rw [if_pos hneg] at hwaiters
      omega
    · -- Nobody waits for a tick that finds a value of zero; it stays pending.
      rename_i hneg
      rw [if_neg hneg] at hwaiters
      rw [if_pos (by omega)] at hvalue
      omega
  | lose n hvalue hwaiters =>
    rw [Count.greatest] at hvalue
    replace hvalue : _ = min 2147483647 ((k.value .clock).toInt + n) := hvalue
    omega

theorem step (hb : k.ClockBooks) (hk : k.Sound) (h : k.Step k') : k'.ClockBooks := by
  have hk' := hk.step h
  cases h with
  | call call h =>
    have hspares : k.Spares .clock := k.spares_of_soft nofun
    have htransition := hk.transition SemaphoreId.isOrdinary_clock hspares h
    exact hb.enter hk.toAccounted (htransition.entry hk.toAccounted hk'.toAccounted .empty)
  | machine machine => exact hb.of_untouched ⟨rfl, rfl⟩

end ClockBooks

/-- In every state of every run the value agrees with the number of waiters. -/
theorem Reachable.clockBooks (hk : k.Reachable) : k.ClockBooks := by
  induction hk with
  | new machine config => exact .inl rfl
  | boot hk h ih =>
    exact ih.of_untouched (hk.sound.untouched_of_boot SemaphoreId.isOrdinary_clock h)
  | step hk h ih => exact ih.step hk.sound h

/-! ## Rounds -/

/-- After `n` rounds of the loop of a tick the value has come up by `n`. -/
theorem releaseClock_value (hk : k.Accounted) (hn : (k.value .clock).toInt + n ≤ 0) :
    (releaseClock n k).Finishes fun _ k' =>
      (k'.value .clock).toInt = (k.value .clock).toInt + n := by
  refine (releaseClock_view hk hn).mono fun _ k' hview => ?_
  have hvalue : k'.value .clock = Int32.ofInt ((k.value .clock).toInt + n) :=
    congrArg View.value hview
  have hlow := (k.value .clock).le_toInt
  rw [hvalue, Int32.toInt_ofInt_of_le (by omega) (by omega)]

/-! ## Time -/

/-- The time for the next tick starts now. -/
structure Restarted (k : Kernel) : Prop where
  tickMicros : k.tickMicros = 0
  gathered : (elapsed k.machine.now k.tickUntil k.machine.timeScale).1 = 0

namespace Restarted

theorem of_gatherTick (k : Kernel) (hk : k.gatherTick.SameClocks k') :
    Restarted { k' with tickMicros := 0 } := by
  refine ⟨rfl, ?_⟩
  show (elapsed k'.machine.now k'.tickUntil k'.machine.timeScale).1 = 0
  rw [hk.machine, hk.tickUntil]
  exact elapsed_elapsed _ _ _

theorem tickMicros_gatherTick (hk : k.Restarted) : k.gatherTick.tickMicros = 0 := by
  have hsum : k.gatherTick.tickMicros = Word.saturatingAdd k.tickMicros
      (elapsed k.machine.now k.tickUntil k.machine.timeScale).1 := rfl
  rw [hsum, hk.tickMicros, hk.gathered]
  rfl

theorem charge (hk : k.Restarted) : k.charge.Restarted := by
  unfold Kernel.charge
  split
  · exact ⟨hk.tickMicros, hk.gathered⟩
  · exact ⟨hk.tickMicros, hk.gathered⟩

/-- Deciding what runs next gathers no more time. -/
theorem schedule (hk : k.Restarted) : (schedule k).Always (·.tickMicros = 0) := by
  have hchoice := k.choice_schedule
  generalize Kernel.schedule k = o at hchoice ⊢
  cases hchoice with
  | resume => exact hk.charge.tickMicros_gatherTick
  | @dispatch h rest =>
    have hgiven : Restarted { k with
        ready := rest, current := some h, chargedUntil := k.machine.now } :=
      ⟨hk.tickMicros, hk.gathered⟩
    exact hgiven.tickMicros_gatherTick
  | halt | deadlock => exact hk.tickMicros
  | wait => exact hk.tickMicros_gatherTick

end Restarted

theorem wakeNext_sameClocks (id : SemaphoreId) (k : Kernel) :
    (wakeNext id k).Always k.SameClocks :=
  (wakeNext_sameWorld id k).mono fun _ hw => hw.toSameClocks

theorem releaseClock_sameClocks (n : Nat) (k : Kernel) :
    (releaseClock n k).Always k.SameClocks := by
  induction n generalizing k with
  | zero => exact .refl k
  | succ n ih =>
    unfold releaseClock Always
    rw [Action.ends_bind, Action.ends_discard]
    refine Ends.mono (wakeNext_sameClocks .clock k) (fun _ k₁ hk₁ => ?_) (fun _ _ h => h)
      fun _ h => h
    have hadd : k.SameClocks (k₁.add .clock 1) := hk₁.trans ⟨rfl, rfl, rfl, rfl, rfl⟩
    rw [Action.ends_bind, Action.ends_change]
    exact (ih (k₁.add .clock 1)).mono fun _ hk' => hadd.trans hk'

/-- A tick changes no time. -/
theorem tickClock_sameClocks (k : Kernel) : (tickClock k).Always k.SameClocks := by
  unfold tickClock Always
  rw [Action.ends_bind, Action.ends_look]
  dsimp only
  split
  · exact Action.ends_andThen (releaseClock_sameClocks _ k) fun _ _ hk' => hk'
  · rw [Action.ends_bind]
    refine Ends.mono (wakeNext_sameClocks .clock k) (fun woken k₁ hk₁ => ?_) (fun _ _ h => h)
      fun _ h => h
    have hadd : ∀ delta, k.SameClocks (k₁.add .clock delta) := fun _ =>
      hk₁.trans ⟨rfl, rfl, rfl, rfl, rfl⟩
    cases woken with
    | some h => exact hadd 1
    | none => exact hadd (-1)

/-- After the pseudo-clock has ticked no time is gathered for the next tick. -/
theorem serveInterrupt_restarts (hk : k.Accounted) {cause : Word}
    (huse : k.interruptUse? (.ofCause cause) = some (.clock, .tick)) :
    (serveInterrupt cause k).Finishes fun _ k' => k'.Restarted := by
  unfold interruptUse? at huse
  unfold serveInterrupt
  split at huse
  · rename_i htimer
    split at huse
    · rename_i hdue
      have hgathered : k.gatherTick.Accounted := hk.congr (Alike.gatherTick k).toSameBooks
      have htick := (tickClock_view hgathered).and_always (tickClock_sameClocks k.gatherTick)
      rw [htimer]
      simp only [serveTimer, Finishes, Action.ends_bind, Action.ends_change, Action.ends_look]
      rw [if_pos hdue, Action.ends_bind]
      exact htick.ends fun _ _ hk' => .of_gatherTick k hk'.2
    · cases huse
  · obtain ⟨d, -, heq⟩ := Option.map_eq_some_iff.1 huse
    cases heq

theorem handleInterrupt_restarts (hk : k.Accounted)
    (huse : k.trapUse? .interrupt = some (.clock, .tick)) :
    (handleInterrupt k).Always (·.tickMicros = 0) := by
  have hserve : ∀ {k : Kernel}, k.Accounted → ∀ {cause : Word},
      k.interruptUse? (.ofCause cause) = some (.clock, .tick) →
      ((serveInterrupt cause >>= fun _ => schedule) k).Always (·.tickMicros = 0) :=
    fun hk _ huse => Action.ends_bind.2 ((serveInterrupt_restarts hk huse).ends fun _ _ hk' =>
      hk'.schedule)
  unfold handleInterrupt Always
  rw [Action.ends_bind, Action.ends_look, Action.ends_bind, Action.ends_change]
  cases hh : k.current with
  | none => exact hserve hk huse
  | some h =>
    have hsame := Alike.capture k h (k.machine.loadState TrapVector.interrupt.oldArea)
    exact hserve (hk.congr hsame.toSameBooks) ((interruptUse?_saved k h _ _).trans huse)

/-! ## Ticks -/

/-- All processes that waited on the pseudo-clock have been released. -/
structure Ticked (k k' : Kernel) : Prop where
  /-- They can run after those who could, in the order in which they blocked. -/
  line : k'.line = k.line ++ k.waits.waiting .clock
  /-- The running process goes on, and the others are in the ready queue. -/
  running : ∀ h, k.current = some h →
    k'.current = some h ∧ k'.ready.items = k.ready.items ++ k.waits.waiting .clock
  soft : k'.softCount.toNat + k.waiterCount .clock = k.softCount.toNat
  nobody : k'.waits.waiting .clock = []
  value : (k'.value .clock).toInt = if (k.value .clock).toInt < 0 then 0 else -1
  restarted : k'.tickMicros = 0

/-- A call that makes the pseudo-clock tick is the handling of an interrupt. -/
theorem Call.restarts (hk : k.Sound) (huse : call.use? k = some (.clock, .tick))
    (h : (call.run k).state? = some k') : k'.tickMicros = 0 := by
  obtain ⟨⟨vector, k₁⟩, htrap, huse⟩ := Option.bind_eq_some_iff.1 huse
  obtain ⟨⟨machine, rfl⟩, hrun⟩ := Call.run_eq_of_trap? htrap
  have hk₁ := hk.congr (.setMachine k machine)
  rw [hrun] at h
  cases vector with
  | interrupt =>
    have hends := handleInterrupt_restarts hk₁.toAccounted huse
    exact Ends.of_state? (P := fun k : Kernel => k.tickMicros = 0) hends h
  | sysBreak =>
    obtain ⟨service, -, huse⟩ := Option.bind_eq_some_iff.1 huse
    cases service with
    | waitDevice line unit read =>
      obtain ⟨d, -, heq⟩ := Option.map_eq_some_iff.1 huse
      cases heq
    | _ => cases huse
  | programTrap => cases huse
  | tlb => cases huse

/-- A tick that is due releases everybody. -/
theorem Sound.exists_ticked (hk : k.Sound) (hb : k.ClockBooks)
    (huse : call.use? k = some (.clock, .tick)) :
    ∃ k', (call.run k).state? = some k' ∧ k.Ticked k' := by
  have hspares : k.Spares .clock := k.spares_of_soft nofun
  obtain ⟨k', hk', hview, hd⟩ := hk.exists_transition SemaphoreId.isOrdinary_clock hspares huse
  have hall := View.act_tick (v := k.view .clock) hb
  rw [show SemaphoreId.clock.isSoft = true from rfl, hall] at hview
  have hline : k'.line = k.line ++ k.waits.waiting .clock := congrArg View.line hview
  have hcount : k'.softCount.toNat = k.softCount.toNat - k.waiterCount .clock :=
    congrArg View.softCount hview
  have hle : k.waiterCount .clock ≤ k.softCount.toNat := hk.length_waiting_le_softCount rfl
  refine ⟨k', hk', ⟨hline, fun h hh => hd.append hh hline, ?_, congrArg View.waiting hview, ?_, ?_⟩⟩
  · omega
  · have hvalue : k'.value .clock = if (k.value .clock).toInt < 0 then 0 else -1 :=
      congrArg View.value hview
    rw [hvalue]
    split <;> rfl
  · exact Call.restarts hk huse hk'

/-! ## The law -/

theorem Call.use?_of_request {k₁ : Kernel} {service : Service}
    (htrap : call.trap? k = some (.sysBreak, k₁)) (hservice : k₁.service? = some service) :
    call.use? k = service.use? := by
  unfold use?
  rw [htrap]
  exact congrArg (Option.bind · Service.use?) hservice

theorem Call.use?_of_timer {k₁ : Kernel} (htrap : call.trap? k = some (.interrupt, k₁))
    (htimer : InterruptSource.ofCause
      (k₁.machine.loadState TrapVector.interrupt.oldArea).cause = .timer)
    (hdue : k₁.config.tickInterval ≤ k₁.gatherTick.tickMicros) :
    call.use? k = some (.clock, .tick) := by
  have hdue : k₁.gatherTick.tickIsDue = true := decide_eq_true hdue
  unfold use?
  rw [htrap]
  show k₁.interruptUse? _ = _
  rw [htimer, interruptUse?, if_pos rfl, if_pos hdue]

/-- The law of the pseudo-clock: the value is the number of waiters with the opposite sign or one
less, so it is never positive, every wait blocks, the loop of a tick ends, and a tick that is due
releases all waiters. -/
structure ClockLaw (k : Kernel) : Prop where
  books : k.ClockBooks
  nonpositive : (k.value .clock).toInt ≤ 0
  least : -21 ≤ (k.value .clock).toInt
  /-- The running process blocks when it waits for a tick. -/
  blocks : ∀ (call : Call) (k₁ : Kernel), call.trap? k = some (.sysBreak, k₁) →
    k₁.service? = some .waitClock →
    ∃ h k', k.current = some h ∧ (call.run k).state? = some k' ∧ k'.current ≠ some h ∧
      k'.waits.waiting .clock = k.waits.waiting .clock ++ [h]
  /-- The value is negative before each round of the loop of a tick and zero after the last. -/
  rounds : ∀ n : Nat, (n : Int) ≤ -(k.value .clock).toInt →
    (releaseClock n k).Finishes fun _ k' => (k'.value .clock).toInt = (k.value .clock).toInt + n
  /-- A timer interrupt that finds the tick due releases everybody. -/
  ticks : ∀ (call : Call) (k₁ : Kernel), call.trap? k = some (.interrupt, k₁) →
    InterruptSource.ofCause (k₁.machine.loadState TrapVector.interrupt.oldArea).cause = .timer →
    k₁.config.tickInterval ≤ k₁.gatherTick.tickMicros →
    ∃ k', (call.run k).state? = some k' ∧ k.Ticked k'

/-- The law of the pseudo-clock holds in every state of every run. -/
theorem clockLaw_of_reachable (hk : k.Reachable) : k.ClockLaw := by
  have hbooks := hk.clockBooks
  have hsound := hk.sound
  have hmost : k.waiterCount .clock ≤ 20 := hsound.length_waiting_le .clock
  have hbounds : -21 ≤ (k.value .clock).toInt ∧ (k.value .clock).toInt ≤ 0 := by
    unfold ClockBooks at hbooks
    omega
  refine ⟨hbooks, hbounds.2, hbounds.1, ?_, ?_, ?_⟩
  · intro call k₁ htrap hservice
    have huse : call.use? k = some (.clock, .take) := Call.use?_of_request htrap hservice
    have hcurrent : k.current ≠ none := Call.fits_of_use? huse
    obtain ⟨h, hh⟩ := Option.ne_none_iff_exists'.1 hcurrent
    have hspares : k.Spares .clock := k.spares_of_soft nofun
    have hnot : ¬ 0 < (k.value .clock).toInt := Int.not_lt.2 hbounds.2
    obtain ⟨k', hk', hgoes, hwaits⟩ :=
      hsound.exists_take SemaphoreId.isOrdinary_clock hspares hh huse
    exact ⟨h, k', hh, hk', fun hh' => hnot (hgoes.1 hh'), hwaits hnot⟩
  · intro n hn
    exact releaseClock_value hsound.toAccounted (by omega)
  · intro call k₁ htrap htimer hdue
    exact hsound.exists_ticked hbooks (Call.use?_of_timer htrap htimer hdue)

/-- The root process waits for a tick, and the timer runs out when the tick is due. -/
theorem clockLaw_of_reachable_tick : ∃ k k', k.Reachable ∧ k.ClockLaw ∧
    k.waits.waiting .clock = [0] ∧ ((Call.deliver .timer).run k).state? = some k' ∧
    k.Ticked k' := by
  obtain ⟨k, hk, htest⟩ := exists_reachable
    (p := fun k => k.waits.waiting .clock = [0] ∧
      ((Call.deliver .timer).trap? { k with machine := k.machine.advance 100000 }).any
        fun t => t.1 = .interrupt ∧
          InterruptSource.ofCause
            (t.2.machine.loadState TrapVector.interrupt.oldArea).cause = .timer ∧
          t.2.config.tickInterval ≤ t.2.gatherTick.tickMicros)
    [.schedule, .deliver (.request 7 0 0 0 false)] (by decide +kernel)
  obtain ⟨hwaiting, htest⟩ := of_decide_eq_true htest
  obtain ⟨⟨vector, k₁⟩, htrap, hp⟩ := (Option.any_eq_true _ _).1 htest
  obtain ⟨rfl, htimer, hdue⟩ := of_decide_eq_true hp
  have hlater := hk.step (.machine (k.machine.advance 100000))
  have hlaw := clockLaw_of_reachable hlater
  obtain ⟨k', hk', hticked⟩ := hlaw.ticks _ k₁ htrap htimer hdue
  exact ⟨_, k', hlater, hlaw, hwaiting, hk', hticked⟩

end Kernel

end Nucleus
