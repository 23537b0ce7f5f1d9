import Nucleus.Proofs.Kernel.Calm
import Nucleus.Proofs.Kernel.Handling
import Nucleus.Proofs.Kernel.PseudoClock

/-!
# The pace of a call

All that a call of the nucleus does to the times is composed of a few kinds of beats: a process is
charged or gets the processor, time is gathered for the next tick, the pseudo-clock ticks, and the
interval timer is set. `Kernel.Beat` says once what each of them does, and a `Kernel.Pace` is a
sequence of them. The clock stands still all the while. Every call charges the running process
first, goes on in some pace, and then decides what runs next, unless it stops at a fault, at which
it has neither gathered time nor set the timer if a process is left on the processor
(`Sound.call_turn`).
-/

namespace Nucleus

theorem elapsed_again (now since scale : Word) :
    elapsed now (elapsed now since scale).2 scale = (0, (elapsed now since scale).2) := by
  have hzero := elapsed_elapsed now since scale
  refine Prod.ext hzero ?_
  show _ + (elapsed now (elapsed now since scale).2 scale).1 * scale = _
  rw [hzero, UInt32.zero_mul, UInt32.add_zero]

/-- Less than a microsecond is left of a time that has been accounted for. -/
theorem elapsed_rest (now since : Word) {scale : Word} (hscale : 0 < scale.toNat) :
    (now - (elapsed now since scale).2).toNat < scale.toNat := by
  have hzero : ((now - (elapsed now since scale).2) / scale).toNat = 0 :=
    congrArg UInt32.toNat (elapsed_elapsed now since scale)
  rw [UInt32.toNat_div] at hzero
  exact (Nat.div_eq_zero_iff_lt hscale).1 hzero

/-- The time between two counts of ticks; only what fits the clock is seen of it. -/
theorem elapsed_ofNat {clock since : Nat} (h : since ≤ clock) (scale : Word) :
    elapsed (UInt32.ofNat clock) (UInt32.ofNat since) scale =
      (UInt32.ofNat ((clock - since) % UInt32.size / scale.toNat),
        UInt32.ofNat (since + (clock - since) % UInt32.size / scale.toNat * scale.toNat)) := by
  have hmicros : (UInt32.ofNat clock - UInt32.ofNat since) / scale =
      UInt32.ofNat ((clock - since) % UInt32.size / scale.toNat) := by
    rw [← UInt32.ofNat_sub h]
    apply UInt32.toNat_inj.1
    rw [UInt32.toNat_div, UInt32.toNat_ofNat', UInt32.toNat_ofNat', Nat.mod_eq_of_lt (a := _ / _)]
    exact Nat.lt_of_le_of_lt (Nat.div_le_self _ _) (Nat.mod_lt _ (by decide))
  unfold elapsed
  rw [hmicros, UInt32.ofNat_add, UInt32.ofNat_mul, UInt32.ofNat_toNat]

theorem Descriptor.charge_zero (d : Descriptor) : d.charge 0 = d := by
  have hquantum : Word.saturatingAdd d.quantumTime 0 = d.quantumTime := by
    have hlt := d.quantumTime.toNat_lt
    apply UInt32.toNat_inj.1
    rw [Word.toNat_saturatingAdd]
    change min (d.quantumTime.toNat + 0) (4294967296 - 1) = _
    omega
  unfold charge
  rw [hquantum, UInt32.add_zero]

namespace Kernel

open Outcome

variable {k k' k₁ : Kernel} {h : Slot} {log log' : List Notice} {α : Type}

/-! ## Charging -/

theorem modify_self {f : Descriptor → Descriptor} (hf : f (k.processes.get h) = k.processes.get h) :
    k.modify h f = k := by
  rw [modify_congr (f := id) hf]
  unfold modify ProcessTable.modify Table.modify
  rw [id, Table.set_get]

theorem modify_comm (k : Kernel) (h : Slot) {f g : Descriptor → Descriptor}
    (hfg : ∀ d, g (f d) = f (g d)) : (k.modify h f).modify h g = (k.modify h g).modify h f := by
  have htable : ∀ t : Table maxProcesses Descriptor,
      (t.modify h f).modify h g = (t.modify h g).modify h f := fun t => by
    ext i
    simp only [Table.get_modify, if_true, hfg]
    split <;> rfl
  unfold modify ProcessTable.modify
  dsimp only
  rw [htable]

/-- A process that has been charged is not charged again while the clock stands still. -/
theorem charge_charge (k : Kernel) : k.charge.charge = k.charge := by
  cases hh : k.current with
  | none => simp only [charge, hh]
  | some h =>
    have hcurrent : k.charge.current = some h := (Alike.charge k).current.trans hh
    have htime : elapsed k.charge.machine.now k.charge.chargedUntil k.charge.machine.timeScale =
        (0, k.charge.chargedUntil) := by
      rw [charge_eq hh]
      exact elapsed_again _ _ _
    rw [charge_eq hcurrent, htime]
    exact modify_self (f := (·.charge 0)) (Descriptor.charge_zero _)

theorem timeless_of_nobody (hh : k.current = none) : k.charge.Timeless k := by
  have hcharge : k.charge = { k with chargedUntil := k.machine.now } := by simp only [charge, hh]
  rw [hcharge]
  exact {
    bus := .refl k.machine
    config := rfl
    tickMicros := rfl
    tickUntil := rfl
    lastPid := UInt32.le_refl _
    running := fun h hh' => by cases hh.symm.trans hh'
    alive := fun g hg => .inl ⟨hg, rfl, rfl, rfl⟩
    vacant := id }

/-! ## Beats -/

/-- What can happen to the times in one piece. -/
inductive Beat (k : Kernel) : List Notice → Kernel → Prop
  /-- No time passes. -/
  | rest {log : List Notice} {k' : Kernel} (hk : k.Timeless k') (hlog : Quiet log) : Beat k log k'
  | charge : Beat k [] k.charge
  | gather : Beat k [] k.gatherTick
  /-- The pseudo-clock ticks because a tick is due. -/
  | tick (hdue : k.tickIsDue = true) : Beat k [.clockTick] { k with tickMicros := 0 }
  /-- The running process goes back to the ready queue. -/
  | expire {h : Slot} {k' : Kernel} (hh : k.current = some h) (hk : k.Timeless k') :
    Beat k [.quantumExpired (k.pidAt h)] k'
  /-- A ready process gets the processor and a new quantum. -/
  | dispatch {h : Slot} {rest : Queue Slot} (hk : k.Accounted) (hcurrent : k.current = none)
    (hready : k.ready.items = h :: rest.items) :
    Beat k [.dispatching (k.pidAt h)]
      ({ k with ready := rest, current := some h, chargedUntil := k.machine.now }.modify h
        ({ · with quantumTime := 0 }))
  | arm (micros : Word) : Beat k [] (k.setTimer micros)

/-- A sequence of beats and the notices given with them. -/
inductive Pace : Kernel → List Notice → Kernel → Prop
  | refl (k : Kernel) : Pace k [] k
  | cons {k k₁ k' : Kernel} {log log' : List Notice} (h : k.Beat log k₁) (hp : Pace k₁ log' k') :
    Pace k (log ++ log') k'

namespace Pace

theorem single (h : k.Beat log k') : k.Pace log k' :=
  List.append_nil log ▸ .cons h (.refl k')

theorem append (hp : k.Pace log k₁) (hp' : k₁.Pace log' k') : k.Pace (log ++ log') k' := by
  induction hp with
  | refl => exact hp'
  | cons h _ ih =>
    rw [List.append_assoc]
    exact .cons h (ih hp')

/-- A beat without a notice after others. -/
theorem concat (hp : k.Pace log k₁) (h : k₁.Beat [] k') : k.Pace log k' := by
  have hlonger := hp.append (single h)
  rwa [List.append_nil] at hlonger

theorem of_timeless (hk : k.Timeless k') : k.Pace [] k' := single (.rest hk quiet_nil)

/-- Nobody gets the processor in a pace that gives no notice of it. -/
theorem current_of_quiet (hp : k.Pace log k') (hquiet : Quiet log) (hh : k'.current = some h) :
    k.current = some h := by
  induction hp with
  | refl => exact hh
  | @cons k k₁ k' log log' hbeat _ ih =>
    obtain ⟨hlog, hlog'⟩ := List.forall_mem_append.1 hquiet
    replace ih := ih hlog' hh
    cases hbeat with
    | rest hk => exact (hk.running h ih).1
    | charge => exact (Alike.charge k).current.symm.trans ih
    | gather | arm => exact ih
    | tick | expire | dispatch => cases hlog _ List.mem_cons_self

end Pace

/-- What stands still during a call: the clock, its scale and the configuration; and still nobody
waits on a register of the bus. -/
structure StandsStill (k k' : Kernel) : Prop where
  now : k'.machine.now = k.machine.now
  scale : k'.machine.read Bus.timeScale = k.machine.read Bus.timeScale
  config : k'.config = k.config
  vacant : k.Vacant → k'.Vacant

theorem StandsStill.timeScale (hk : k.StandsStill k') :
    k'.machine.timeScale = k.machine.timeScale := congrArg (max · 1) hk.scale

theorem StandsStill.trans (hk : k.StandsStill k₁) (hk' : k₁.StandsStill k') : k.StandsStill k' where
  now := hk'.now.trans hk.now
  scale := hk'.scale.trans hk.scale
  config := hk'.config.trans hk.config
  vacant hv := hk'.vacant (hk.vacant hv)

theorem Timeless.standsStill (hk : k.Timeless k') : k.StandsStill k' where
  now := hk.bus.now
  scale := hk.bus _ Machine.isBusRegister_timeScale
  config := hk.config
  vacant := hk.vacant

theorem charge_standsStill (k : Kernel) : k.StandsStill k.charge := by
  have hsame : k.charge.machine = k.machine ∧ k.charge.config = k.config := by
    unfold charge
    split <;> exact ⟨rfl, rfl⟩
  refine ⟨congrArg Machine.now hsame.1, by rw [hsame.1], hsame.2, fun hv => ?_⟩
  unfold Vacant
  rw [(Alike.charge k).waits]
  exact hv

theorem Beat.standsStill (h : k.Beat log k') : k.StandsStill k' := by
  cases h with
  | rest hk => exact hk.standsStill
  | charge => exact charge_standsStill k
  | gather => exact ⟨rfl, rfl, rfl, id⟩
  | tick => exact ⟨rfl, rfl, rfl, id⟩
  | expire hh hk => exact hk.standsStill
  | dispatch => exact ⟨rfl, rfl, rfl, id⟩
  | arm micros =>
    have hread : ∀ a, Bus.IsRegister a → Bus.timer ≠ a →
        (k.setTimer micros).machine.read a = k.machine.read a := fun a ha hne =>
      Machine.read_write_of_isBusRegister ha hne k.machine _
    exact ⟨hread _ Machine.isBusRegister_clock (by decide),
      hread _ Machine.isBusRegister_timeScale (by decide), rfl, id⟩

theorem Pace.standsStill (hp : k.Pace log k') : k.StandsStill k' := by
  induction hp with
  | refl => exact ⟨rfl, rfl, rfl, id⟩
  | cons h _ ih => exact h.standsStill.trans ih

/-! ## The timer -/

theorem toNat_untilTick (k : Kernel) :
    k.untilTick.toNat = k.config.tickInterval.toNat - k.tickMicros.toNat :=
  Word.toNat_saturatingSub _ _

/-- The timer has just been set, and less than a microsecond is still to be gathered. -/
structure TimerSet (k : Kernel) (micros : Word) : Prop where
  left : (k.machine.now - k.tickUntil).toNat < k.machine.timeScale.toNat
  timer : k.machine.read Bus.timer = Word.saturatingMul micros k.machine.timeScale

/-- The timer is set after time has been gathered. -/
theorem timerSet_setTimer (k : Kernel) (micros : Word)
    (hmachine : k₁.machine = k.gatherTick.machine)
    (huntil : k₁.tickUntil = k.gatherTick.tickUntil) :
    (k₁.setTimer micros).TimerSet micros := by
  have hstill := (Beat.arm (k := k₁) micros).standsStill
  constructor
  case left =>
    rw [hstill.now, hstill.timeScale, hmachine]
    show (_ - k₁.tickUntil).toNat < _
    rw [huntil]
    exact elapsed_rest _ _ k.machine.timeScale_pos
  case timer =>
    rw [hstill.timeScale]
    exact Machine.read_write_self _ _ _

/-! ## Actions -/

/-- The interval timer is set as it was, and no time has been gathered for the next tick. -/
structure SameTick (k k' : Kernel) : Prop where
  timer : k'.machine.read Bus.timer = k.machine.read Bus.timer
  tickMicros : k'.tickMicros = k.tickMicros
  tickUntil : k'.tickUntil = k.tickUntil

theorem SameTick.trans (hk : k.SameTick k₁) (hk' : k₁.SameTick k') : k.SameTick k' :=
  ⟨hk'.timer.trans hk.timer, hk'.tickMicros.trans hk.tickMicros,
    hk'.tickUntil.trans hk.tickUntil⟩

theorem Timeless.sameTick (hk : k.Timeless k') : k.SameTick k' :=
  ⟨hk.bus _ Machine.isBusRegister_timer, hk.tickMicros, hk.tickUntil⟩

theorem charge_sameTick (k : Kernel) : k.SameTick k.charge := by
  unfold charge
  split <;> exact ⟨rfl, rfl, rfl⟩

/-- The action goes on in some pace, and a fault comes with nothing that has to do with time and
leaves the timer and the gathered time alone. -/
def Paced (k : Kernel) (o : Outcome Kernel α) : Prop :=
  o.Tells (fun _ k' log => k.Pace log k' ∧ k'.Accounted)
    fun _ k' log => k.Pace log k' ∧ k.SameTick k' ∧ Quiet log

theorem Calm.paced {o : Outcome Kernel α} (h : Calm k o) : Paced k o :=
  Tells.mono h (fun _ _ _ h => ⟨.single (.rest h.1 h.2.2), h.2.1⟩)
    fun _ _ _ h => ⟨.single (.rest h.1 h.2), h.1.sameTick, h.2⟩

/-- Every service goes on in some pace. -/
theorem serve_paced (hk : k.Sound) (hv : k.Vacant) (hh : k.current = some h) (service : Service)
    (hbus : SparesBus service) : Paced k (serve h service k) := by
  by_cases htime : service = .usedTime
  · subst htime
    simp only [serve, Action.change_bind_apply]
    have hcharged := hk.congr (Alike.charge k)
    have hresult := Alike.giveResult k.charge h (k.charge.processes.get h).usedTime
    exact ⟨(Pace.single .charge).concat (.rest (.giveResult _ _ _) quiet_nil),
      (hcharged.congr hresult).toAccounted⟩
  · exact (serve_calm hk hv hh service hbus htime).paced

/-- What becomes of an interrupt of the timer once time has been gathered. -/
inductive TimerServed (k : Kernel) : List Notice → Kernel → Prop
  /-- A tick is due. -/
  | ticked {k₁ : Kernel} {before : List Notice} (hdue : k.gatherTick.tickIsDue = true)
    (hk : k.gatherTick.Timeless k₁) (hquiet : Quiet before) :
    TimerServed k (before ++ [.clockTick]) { k₁ with tickMicros := 0 }
  /-- No tick is due and no process runs. -/
  | nobody (hdue : k.gatherTick.tickIsDue = false) (hh : k.current = none) :
    TimerServed k [] k.gatherTick
  /-- The quantum of the running process is used up. -/
  | expired {h : Slot} {k' : Kernel} (hdue : k.gatherTick.tickIsDue = false)
    (hh : k.current = some h) (hk : k.gatherTick.Timeless k') (hnobody : k'.current = none) :
    TimerServed k [.quantumExpired (k.pidAt h)] k'

theorem serveTimer_served (hk : k.Accounted) :
    (serveTimer k).Tells (fun _ k' log => k.TimerServed log k' ∧ k'.Accounted)
      fun _ _ _ => False := by
  have hgathered : k.gatherTick.Accounted := hk.congr (Alike.gatherTick k).toSameBooks
  unfold serveTimer
  rw [Action.change_bind_apply, Action.look_bind_apply]
  cases hdue : k.gatherTick.tickIsDue with
  | true =>
    rw [if_pos rfl]
    have htick := Ends.tells (tickClock_view hgathered) (tickClock_ticks hgathered)
    refine Action.tells_bind.2 (htick.mono ?_ fun _ _ _ h => h.1)
    rintro _ k₁ _ ⟨-, htime, hk₁, before, hquiet, rfl⟩
    have hreset : k₁.Alike { k₁ with tickMicros := 0 } := .of_eq rfl rfl rfl rfl rfl rfl rfl
    refine ⟨?_, hk₁.congr hreset.toSameBooks⟩
    simp only [List.append_nil]
    exact .ticked hdue htime hquiet
  | false =>
    rw [if_neg Bool.false_ne_true, Action.look_bind_apply]
    cases hh : k.gatherTick.current with
    | none => exact ⟨.nobody hdue hh, hgathered⟩
    | some h =>
      refine (expire_tells hgathered hh).mono ?_ fun _ _ _ => False.elim
      rintro _ k' _ ⟨htime, hk', hnobody, rfl⟩
      exact ⟨.expired hdue hh htime hnobody, hk'⟩

theorem TimerServed.pace (h : k.TimerServed log k') : k.Pace log k' := by
  have hgather : k.Pace [] k.gatherTick := .single .gather
  cases h with
  | @ticked k₁ before hdue hk hquiet =>
    have hstill : k₁.tickIsDue = true := by
      unfold tickIsDue at hdue ⊢
      rwa [hk.config, hk.tickMicros]
    exact hgather.append (.cons (.rest hk hquiet) (.single (.tick hstill)))
  | nobody => exact hgather
  | expired hdue hh hk =>
    have hcurrent : k.gatherTick.current = some _ := hh
    exact hgather.append (.single (.expire hcurrent hk))

theorem serveInterrupt_paced (hk : k.Accounted) (cause : Word) :
    Paced k (serveInterrupt cause k) := by
  by_cases htimer : InterruptSource.ofCause cause = .timer
  · unfold serveInterrupt
    rw [htimer]
    exact (serveTimer_served hk).mono (fun _ _ _ h => ⟨h.1.pace, h.2⟩) fun _ _ _ => False.elim
  · exact (serveInterrupt_calm hk htimer).paced

/-- To decide what runs next is a pace of its own. -/
theorem pace_of_schedule {decision : Decision} (hk : k.Accounted)
    (h : schedule k = .ok decision k' log) : k.Pace log k' := by
  have hnote : ∀ (k : Kernel) (notice : Notice), notice.isBeat = false → k.Pace [notice] k :=
    fun k _ hquiet => .single (.rest (.refl k) (quiet_singleton hquiet))
  have hchoice := k.choice_schedule
  generalize schedule k = o at hchoice h
  cases hchoice with
  | resume =>
    cases h
    exact ((Pace.single .charge).concat .gather).concat (.arm _) |>.append
      (hnote _ (.resuming _) rfl)
  | @dispatch next rest hcurrent hready =>
    cases h
    have hdispatch := Beat.dispatch hk hcurrent hready
    have hpid : ({ k with ready := rest, current := some next }.modify next
        ({ · with quantumTime := 0 })).pidAt next = k.pidAt next := by
      simp [pidAt, modify]
    rw [← hpid] at hdispatch
    exact ((Pace.single hdispatch).concat .gather).concat (.arm _)
  | halt =>
    cases h
    exact hnote _ .nothingLeft rfl
  | deadlock => cases h
  | wait =>
    cases h
    exact (Pace.single .gather).concat (.arm _) |>.append (hnote _ (.idle _) rfl)

end Kernel

end Nucleus
