import Nucleus.Proofs.Kernel.CpuTime
import Nucleus.Proofs.Kernel.Idle

/-!
# No early preemption

There is one timer for two ends, that of the quantum and that of the tick, and when it has run out
the nucleus tells them apart by the time gathered for the tick alone. It is set at every decision
for whichever end comes first, so a process that goes back to the ready queue has used up its
quantum (`quantum_of_boot`). A call that stops at a fault charges the process but neither sets the
timer nor gathers time, so this needs that the clock does not come around between the last decision
and the interrupt, or that a quantum fits the clock.
-/

namespace Nucleus

/-- If the timer has run out and no tick is due, the quantum is used up. -/
theorem used_of_no_tick {quantum interval gathered left scale begun decided clock now : Nat}
    (hscale : 0 < scale) (hleft : left < scale) (hbegun : begun ≤ decided)
    (hdecided : decided ≤ clock)
    (hnow : now = clock +
      min (quantum - (decided - begun) / scale) (interval - gathered) * scale)
    (hdue : gathered + (now - decided + left) % UInt32.size / scale < interval)
    (hsince : (quantum + 1) * scale ≤ UInt32.size ∨ now < decided + (UInt32.size - scale)) :
    quantum ≤ (now - begun) / scale := by
  rw [Nat.le_div_iff_mul_le hscale]
  have hused := Nat.div_mul_le_self (decided - begun) scale
  rcases Nat.le_total (quantum - (decided - begun) / scale) (interval - gathered) with hend | hend
  · -- The timer was set for the end of the quantum.
    rw [Nat.min_eq_left hend] at hnow
    have hrest : quantum * scale ≤ (quantum - (decided - begun) / scale) * scale +
        (decided - begun) / scale * scale := by
      rw [← Nat.add_mul]
      exact Nat.mul_le_mul_right _ (by omega)
    omega
  · -- The timer was set for the tick, so the clock has come around since.
    rw [Nat.min_eq_right hend] at hnow
    have hsize : UInt32.size = 4294967296 := rfl
    have haround : UInt32.size ≤ now - decided + left := by
      by_contra hlt
      rw [Nat.mod_eq_of_lt (by omega)] at hdue
      have htick : interval - gathered ≤ (now - decided + left) / scale := by
        rw [Nat.le_div_iff_mul_le hscale]
        omega
      omega
    rcases hsince with hfits | hrecent
    · rw [Nat.add_one_mul] at hfits
      omega
    · omega

namespace Kernel

open Outcome

variable {k k' k₀ k₁ : Kernel} {h : Slot} {start log : List Notice} {clock scale decided : Nat}
  {ss : List Stay} {vs : List Visit} {machine machine' : Machine} {config : Config}
  {o : Outcome Kernel Decision} {decision : Decision} {micros : Word}

/-! ## The timer of the running process -/

/-- The time for which the timer is set while a process runs. -/
def runsFor (k : Kernel) (h : Slot) : Word :=
  min (Word.saturatingSub k.config.quantum (k.processes.get h).quantumTime) k.untilTick

theorem saturatingSub_zero (a : Word) : Word.saturatingSub a 0 = a :=
  UInt32.toNat_inj.1 (Word.toNat_saturatingSub a 0)

/-- A decision sets the timer for the process that runs next. -/
theorem timerSet_of_schedule (hs : schedule k = .ok decision k' log) (hh : k'.current = some h) :
    k'.TimerSet (k'.runsFor h) := by
  have hchoice := k.choice_schedule
  generalize schedule k = o at hchoice hs
  cases hchoice with
  | resume hg =>
    cases hs
    obtain rfl := Option.some.inj (((Alike.charge k).current.trans hg).symm.trans hh)
    exact timerSet_setTimer k.charge _ rfl rfl
  | @dispatch g rest =>
    cases hs
    obtain rfl := Option.some.inj hh
    set k₁ : Kernel := { k with ready := rest, current := some g, chargedUntil := k.machine.now }
    set k₂ := k₁.gatherTick.modify g ({ · with quantumTime := 0 }) with hk₂
    have hnew : (k₂.processes.get g).quantumTime = 0 := by simp [hk₂, modify]
    have hruns : (k₂.setTimer (min k₂.config.quantum k₂.untilTick)).runsFor g =
        min k₂.config.quantum k₂.untilTick := by
      show min (Word.saturatingSub _ (k₂.processes.get g).quantumTime) _ = _
      rw [hnew, saturatingSub_zero]
      rfl
    rw [hruns]
    exact timerSet_setTimer k₁ _ rfl rfl
  | halt hcurrent | wait hcurrent =>
    cases hs
    cases hcurrent.symm.trans hh
  | deadlock => cases hs

/-! ## What is known of the timer between calls -/

/-- The count of ticks at the last call that decided what runs next. -/
def lastDecision : List Visit → Nat
  | [] => 0
  | v :: vs => if v.decided then v.clock else lastDecision vs

/-- The timer is as it was set for the running process when the clock had counted `decided` ticks,
and no time has been gathered since. -/
structure Armed (k : Kernel) (scale decided : Nat) (ss : List Stay) : Prop where
  left : (UInt32.ofNat decided - k.tickUntil).toNat < scale
  begun : ∀ stay ∈ ss.head?, stay.begun ≤ decided
  timer : ∀ stay ∈ ss.head?, ∃ micros,
    micros.toNat = min (k.config.quantum.toNat - (stay.extend decided).micros scale)
      k.untilTick.toNat ∧
    k.machine.read Bus.timer = Word.saturatingMul micros k.machine.timeScale

namespace Armed

theorem of_timerSet (ht : k.TimerSet (k.runsFor h)) (hh : k.current = some h)
    (hb : k.Billed scale clock ss) (hnow : k.machine.now = UInt32.ofNat clock)
    (hscale : k.machine.timeScale.toNat = scale) : k.Armed scale clock ss := by
  obtain ⟨stay, rest, rfl, -, hlast, -, hquantum⟩ := hb.running h hh
  have hbegun := (hb.span stay List.mem_cons_self).1
  refine ⟨?_, ?_, ?_⟩
  · rw [← hnow, ← hscale]
    exact ht.left
  · rintro _ ⟨⟩
    exact hlast ▸ hbegun
  · rintro _ ⟨⟩
    refine ⟨_, ?_, ht.timer⟩
    have hlt := k.config.quantum.toNat_lt
    have hsize : UInt32.size = 4294967296 := rfl
    rw [← hlast, stay.extend_last, runsFor, UInt32.toNat_min, Word.toNat_saturatingSub, hquantum]
    omega

theorem timePasses {ticks : Nat} (ha : k.Armed scale decided ss)
    (htime : k.machine.TimePasses ticks machine) :
    Armed { k with machine } scale decided ss where
  left := ha.left
  begun := ha.begun
  timer stay hstay := by
    obtain ⟨micros, hmicros, htimer⟩ := ha.timer stay hstay
    exact ⟨micros, hmicros, by rw [htime.timer, htime.timeScale, htimer]⟩

/-- A call that stops at a fault leaves the timer alone. -/
theorem sameTick (ha : k.Armed scale decided ss) (hk : k.SameTick k') (hstill : k.StandsStill k')
    (running : Option Pid) (clock : Nat) :
    k'.Armed scale decided (extendLatest running clock ss) where
  left := hk.tickUntil ▸ ha.left
  begun stay hstay := by
    cases ss with
    | nil => cases hstay
    | cons earlier ss =>
      obtain rfl := Option.some.inj hstay
      have hbegun := ha.begun earlier rfl
      split <;> exact hbegun
  timer stay hstay := by
    cases ss with
    | nil => cases hstay
    | cons earlier ss =>
      obtain rfl := Option.some.inj hstay
      obtain ⟨micros, hmicros, htimer⟩ := ha.timer earlier rfl
      refine ⟨micros, ?_, by rw [hk.timer, hstill.timeScale, htimer]⟩
      have huntil : k'.untilTick = k.untilTick := by
        unfold untilTick
        rw [hstill.config, hk.tickMicros]
      rw [huntil, hstill.config, hmicros]
      split <;> rfl

end Armed

/-- In a run that enters the nucleus often enough the timer is always as it was set by the last
decision. -/
theorem Started.armed (hstart : Started machine config k₀) (hrun : Diary k₀ clock vs k)
    (hgap : EntersWithin (UInt32.size - machine.timeScale.toNat) vs) :
    lastDecision vs ≤ clock ∧
      ∀ h, k.current = some h → k.Armed machine.timeScale.toNat (lastDecision vs) (stays vs) := by
  have hscale : k₀.machine.timeScale = machine.timeScale := congrArg (max · 1) hstart.scale
  refine (Diary.induction (P := fun clock vs k =>
    EntersWithin (UInt32.size - machine.timeScale.toNat) vs → lastDecision vs ≤ clock ∧
      ∀ h, k.current = some h → k.Armed machine.timeScale.toNat (lastDecision vs) (stays vs))
    hstart.sound hstart.vacant ?start ?machine ?turn hrun).2 hgap
  case start =>
    refine fun _ => ⟨Nat.zero_le _, fun h hh => ?_⟩
    cases hstart.nobody.symm.trans hh
  case machine =>
    intro clock ticks vs k machine' _ ih htime hgap
    obtain ⟨hle, ih⟩ := ih hgap
    exact ⟨Nat.le_trans hle (Nat.le_add_right _ _), fun h hh => (ih h hh).timePasses htime⟩
  case turn =>
    intro clock vs k k' o hk hnext ih hturn hs hgap
    obtain ⟨hle, ih⟩ := ih (List.IsChain.tail hgap)
    have hk' := hnext.underway hstart.sound hstart.vacant
    obtain ⟨-, hb⟩ := hstart.billed hnext hgap
    cases o with
    | ok decision s log =>
      obtain rfl := Option.some.inj hs
      obtain ⟨k₁, log₁, log₂, -, -, hschedule, rfl⟩ := hturn
      refine ⟨Nat.le_refl _, fun h hh => ?_⟩
      exact .of_timerSet (timerSet_of_schedule hschedule hh) hh hb hk'.now
        (congrArg UInt32.toNat (hk'.timeScale.trans hscale))
    | fault cause s log =>
      obtain rfl := Option.some.inj hs
      obtain ⟨hpace, htime⟩ := hturn
      refine ⟨hle, fun h hh => ?_⟩
      rcases htime with ⟨hsame, hquiet⟩ | hnobody
      · have hbefore : k.current = some h :=
          (Alike.charge k).current.symm.trans (hpace.current_of_quiet hquiet hh)
        have hstays : stays (k.visit clock (.fault cause s log) :: vs) =
            extendLatest (k.current.map k.pidAt) clock (stays vs) :=
          foldl_beginStay_of_quiet hquiet
        rw [hstays]
        exact (ih h hbefore).sameTick hsame ((charge_standsStill k).trans hpace.standsStill) _ _
      · cases hnobody.symm.trans hh
    | abort cause => cases hs

/-! ## The timer runs out -/

/-- If no tick is due, what has been gathered and what is still to be gathered fall short of it. -/
theorem lt_of_not_due (hdue : k.gatherTick.tickIsDue = false) :
    k.tickMicros.toNat + (k.machine.now - k.tickUntil).toNat / k.machine.timeScale.toNat <
      k.config.tickInterval.toNat := by
  have hlt : k.gatherTick.tickMicros.toNat < k.config.tickInterval.toNat :=
    UInt32.not_le.1 (of_decide_eq_false hdue)
  have hinterval := k.config.tickInterval.toNat_lt
  have hgathered : k.gatherTick.tickMicros.toNat = min (k.tickMicros.toNat +
      (k.machine.now - k.tickUntil).toNat / k.machine.timeScale.toNat) (UInt32.size - 1) := by
    rw [← UInt32.toNat_div]
    exact Word.toNat_saturatingAdd _ _
  rw [hgathered] at hlt
  change _ < 4294967296 at hinterval
  change min _ 4294967295 < _ at hlt
  omega

/-- If no tick is due when the timer has run out, the quantum is used up. -/
theorem Armed.used {stay : Stay} {rest : List Stay} (ha : k.Armed scale decided (stay :: rest))
    (hnow : k.machine.now = UInt32.ofNat clock) (hread : k.machine.read Bus.timeScale ≠ 0)
    (hscale : k.machine.timeScale.toNat = scale) (hdecided : decided ≤ clock)
    (hfit : (min k.config.quantum.toNat k.config.tickInterval.toNat + 1) * scale ≤ UInt32.size)
    (hsince : (k.config.quantum.toNat + 1) * scale ≤ UInt32.size ∨
      clock + (Call.deliver .timer).ticks k < decided + (UInt32.size - scale))
    (hout : k.machine.TimePasses ((Call.deliver .timer).ticks k) machine)
    (hdue : ({ k with machine } : Kernel).gatherTick.tickIsDue = false) :
    k.config.quantum.toNat ≤
      (stay.extend (clock + (Call.deliver .timer).ticks k)).micros scale := by
  have hpos : 0 < scale := hscale ▸ k.machine.timeScale_pos
  have huntil := k.toNat_untilTick
  obtain ⟨micros, hmicros, htimer⟩ := ha.timer stay rfl
  have hticks : (Call.deliver .timer).ticks k = micros.toNat * scale := by
    have hle : micros.toNat ≤ min k.config.quantum.toNat k.config.tickInterval.toNat := by omega
    have hwait := Nat.mul_le_mul_right scale hle
    rw [Nat.add_one_mul] at hfit
    have hleft := Machine.timerLeft_of_read htimer (by rw [hscale]; omega)
    show k.machine.timerLeft.toNat * (k.machine.read Bus.timeScale).toNat = _
    rw [hleft, ← Machine.timeScale_of_ne_zero hread, hscale]
  have hpassed : (machine.now - k.tickUntil).toNat =
      (clock + (Call.deliver .timer).ticks k - decided +
        (UInt32.ofNat decided - k.tickUntil).toNat) % UInt32.size := by
    have hsum : machine.now - k.tickUntil =
        UInt32.ofNat (clock + (Call.deliver .timer).ticks k - decided) +
          (UInt32.ofNat decided - k.tickUntil) := by
      rw [hout.now, hnow, ← UInt32.ofNat_add, UInt32.ofNat_sub (by omega)]
      grind
    rw [hsum, UInt32.toNat_add, UInt32.toNat_ofNat', Nat.mod_add_mod]
  have hshort := lt_of_not_due hdue
  replace hshort : k.tickMicros.toNat + (machine.now - k.tickUntil).toNat /
    machine.timeScale.toNat < k.config.tickInterval.toNat := hshort
  rw [hout.timeScale, hscale, hpassed] at hshort
  refine used_of_no_tick hpos ha.left (ha.begun stay rfl) hdecided ?_ hshort hsince
  rw [hticks, hmicros, huntil]
  rfl

/-- The processes that went back to the ready queue because their quantum was used up. -/
def preempted (log : List Notice) : List Pid :=
  log.filterMap fun
    | .quantumExpired pid => some pid
    | _ => none

theorem preempted_append (log log' : List Notice) :
    preempted (log ++ log') = preempted log ++ preempted log' := List.filterMap_append

theorem preempted_of_quiet (hquiet : Quiet log) : preempted log = [] := by
  refine List.filterMap_eq_nil_iff.2 fun notice hmem => ?_
  have hbeat := hquiet notice hmem
  cases notice with
  | quantumExpired pid => cases hbeat
  | _ => rfl

theorem preempted_schedule (k : Kernel) : preempted (schedule k).log = [] := by
  obtain ⟨notice, hlog, hdecision⟩ := k.log_schedule
  rw [hlog]
  cases notice with
  | quantumExpired => cases hdecision
  | _ => rfl

/-- The decision what runs next sends nobody back. -/
theorem preempted_after_schedule (hs : (schedule k).state? = some k') (log : List Notice) :
    preempted ((schedule k).after log).log = preempted log := by
  rw [log_after hs, preempted_append, preempted_schedule, List.append_nil]

theorem exists_state_of_mem_preempted {pid : Pid} (h : pid ∈ preempted o.log) :
    ∃ k, o.state? = some k := by
  cases o with
  | ok | fault => exact ⟨_, rfl⟩
  | abort => cases h

/-- What becomes of the running process when the timer runs out at `clock`. -/
structure KeepsQuantum (k : Kernel) (scale : Nat) (vs : List Visit) (clock : Nat) : Prop where
  /-- A process that goes back to the ready queue has used its quantum up during its stay. -/
  used : ∀ pid ∈ preempted ((Call.deliver .timer).run k).log,
    ∃ h stay rest, k.current = some h ∧ k.pidAt h = pid ∧ stays vs = stay :: rest ∧
      stay.pid = pid ∧ k.config.quantum.toNat ≤ (stay.extend clock).micros scale
  /-- And so its descriptor says when the interrupt is served. -/
  charged : ∀ pid ∈ preempted ((Call.deliver .timer).run k).log,
    ∀ h, k.current = some h → ∀ k₁, (Call.deliver .timer).trap? k = some (.interrupt, k₁) →
      k.config.quantum ≤ (k₁.charge.processes.get h).quantumTime
  /-- Any other goes on running. -/
  goesOn : preempted ((Call.deliver .timer).run k).log = [] →
    ∀ h, k.current = some h → ∀ k', ((Call.deliver .timer).run k).state? = some k' →
      k'.current = some h

/-- Only if no tick is due does the running process go back to the ready queue. -/
theorem Sound.not_due_of_preempted {pid : Pid} (hk : k.Sound)
    (hmem : pid ∈ preempted ((Call.deliver .timer).run k).log) :
    ∃ machine, (Call.deliver .timer).trap? k = some (.interrupt, { k with machine }) ∧
      k.machine.TimePasses ((Call.deliver .timer).ticks k) machine ∧
      ({ k with machine } : Kernel).gatherTick.tickIsDue = false ∧
      ∃ h, k.current = some h ∧ k.pidAt h = pid := by
  obtain ⟨k', hs⟩ := exists_state_of_mem_preempted hmem
  obtain ⟨machine, k₁, htrap, htime, -, henters, ⟨cause, habort⟩ | ⟨log, k₂, hserved, hrun⟩⟩ :=
    hk.timer_run
  · rw [habort] at hs
    cases hs
  rw [hrun, state?_after] at hs
  rw [hrun, preempted_after_schedule hs] at hmem
  refine ⟨machine, htrap, htime, ?_⟩
  rw [← henters.tickIsDue_gatherTick]
  cases hserved with
  | ticked _ _ hquiet =>
    rw [preempted_append, preempted_of_quiet hquiet] at hmem
    cases hmem
  | nobody => cases hmem
  | @expired h _ hdue hh =>
    obtain rfl := List.mem_singleton.1 hmem
    exact ⟨hdue, h, henters.alike.current.symm.trans hh, (henters.alike.pidAt h).symm⟩

/-- Otherwise it goes on running. -/
theorem Sound.current_of_not_preempted (hk : k.Sound) (hb : k.ClockBooks)
    (hh : k.current = some h) (hnone : preempted ((Call.deliver .timer).run k).log = [])
    (hs : ((Call.deliver .timer).run k).state? = some k') : k'.current = some h := by
  obtain ⟨machine, k₁, htrap, htime, htimer, henters, ⟨cause, habort⟩ | ⟨log, k₂, hserved, hrun⟩⟩ :=
    hk.timer_run
  · rw [habort] at hs
    cases hs
  cases hserved with
  | ticked hdue =>
    have huse := Call.use?_of_timer htrap htimer
      (of_decide_eq_true (henters.tickIsDue_gatherTick.symm.trans hdue))
    obtain ⟨k'', hs', hticked⟩ := hk.exists_ticked hb huse
    obtain rfl := Option.some.inj (hs'.symm.trans hs)
    exact (hticked.running h hh).1
  | nobody _ hnobody => cases (henters.alike.current.trans hh).symm.trans hnobody
  | expired =>
    rw [hrun, state?_after] at hs
    rw [hrun, preempted_after_schedule hs] at hnone
    cases hnone

/-- No process loses the processor before its quantum is used up: in every run that leaves the bus
alone and enters the nucleus often enough, a process that goes back to the ready queue when the
timer has run out has run for a quantum since it got the processor. For a quantum that does not fit
the clock, the clock must not have come around since the last call that did not fail. -/
theorem quantum_of_boot (hboot : boot (.new machine config) = .ok () k₀ log)
    (hread : machine.read Bus.timeScale ≠ 0) (hrun : Diary k₀ clock vs k)
    (hfit : (min config.quantum.toNat config.tickInterval.toNat + 1) *
      machine.timeScale.toNat ≤ UInt32.size)
    (hgap : EntersWithin (UInt32.size - machine.timeScale.toNat)
      (k.visit (clock + (Call.deliver .timer).ticks k) ((Call.deliver .timer).run k) :: vs))
    (hsince : (config.quantum.toNat + 1) * machine.timeScale.toNat ≤ UInt32.size ∨
      clock + (Call.deliver .timer).ticks k <
        lastDecision vs + (UInt32.size - machine.timeScale.toNat)) :
    KeepsQuantum k machine.timeScale.toNat vs (clock + (Call.deliver .timer).ticks k) := by
  have hstart := started_of_boot hboot
  have hk := hrun.underway hstart.sound hstart.vacant
  have hbooks := hrun.clockBooks hboot
  obtain ⟨hle, hb⟩ := hstart.billed hrun (List.IsChain.tail hgap)
  obtain ⟨hdecided, harmed⟩ := hstart.armed hrun (List.IsChain.tail hgap)
  have hscale : k.machine.timeScale = machine.timeScale :=
    hk.timeScale.trans (congrArg (max · 1) hstart.scale)
  have hused : ∀ pid ∈ preempted ((Call.deliver .timer).run k).log,
      ∀ stay rest, stays vs = stay :: rest → k.config.quantum.toNat ≤
        (stay.extend (clock + (Call.deliver .timer).ticks k)).micros machine.timeScale.toNat := by
    intro pid hmem stay rest hstays
    obtain ⟨machine', -, htime, hdue, h, hh, -⟩ := hk.sound.not_due_of_preempted hmem
    have ha := harmed h hh
    rw [hstays] at ha
    rw [← hstart.config, ← hk.config] at hfit hsince
    exact ha.used hk.now (hk.scale.trans hstart.scale ▸ hread) (congrArg UInt32.toNat hscale)
      hdecided hfit hsince htime hdue
  refine ⟨fun pid hmem => ?used, fun pid hmem h hh k₁ htrap => ?charged,
    fun hnone h hh k' hs => hk.sound.current_of_not_preempted hbooks hh hnone hs⟩
  case used =>
    obtain ⟨_, -, -, -, h, hh, hpid⟩ := hk.sound.not_due_of_preempted hmem
    obtain ⟨stay, rest, hstays, hstay, -⟩ := hb.running h hh
    exact ⟨h, stay, rest, hh, hpid, hstays, hstay.trans hpid, hused pid hmem stay rest hstays⟩
  case charged =>
    obtain ⟨machine', htrap', htime, -⟩ := hk.sound.not_due_of_preempted hmem
    obtain ⟨-, rfl⟩ := Prod.mk.inj (Option.some.inj (htrap.symm.trans htrap'))
    obtain ⟨stay, rest, hstays, hpid, -⟩ := hb.running h hh
    have hlater := hk.timePasses htime
    have hcharged := (hb.setMachine machine').charge hlater.sound.toAccounted hlater.now
      (congrArg UInt32.toNat (htime.timeScale.trans hscale))
      (Nat.le_trans hle (Nat.le_add_right _ _)) fun g hg => hb.clock_lt hgap hg
    obtain ⟨_, _, hnext, -, -, -, hquantum⟩ :=
      hcharged.running h ((Alike.charge _).current.trans hh)
    rw [show (({ k with machine := machine' } : Kernel).current.map _) = some stay.pid from
      hpid ▸ congrArg (Option.map k.pidAt) hh, hstays, extendLatest, if_pos rfl] at hnext
    cases hnext
    rw [UInt32.le_iff_toNat_le, hquantum]
    exact Nat.le_min.2 ⟨hused pid hmem stay rest hstays,
      Nat.le_sub_one_of_lt k.config.quantum.toNat_lt⟩

/-- A call that fails does not set the timer, so the root process runs for longer than a quantum
before it goes back to the ready queue. -/
theorem quantum_of_boot_failed : ∃ k₀ log clock vs k,
    boot (.new (Machine.new.withTimeScale 4) .usual) = .ok () k₀ log ∧ Diary k₀ clock vs k ∧
    clock + (Call.deliver .timer).ticks k = 28000 ∧
    preempted ((Call.deliver .timer).run k).log = [1] ∧
    KeepsQuantum k 4 vs (clock + (Call.deliver .timer).ticks k) := by
  obtain ⟨k₀, log, clock, vs, k, hboot, hcalls, htest⟩ := exists_replay
    (p := fun _ clock vs k =>
      clock + (Call.deliver .timer).ticks k = 28000 ∧
      preempted ((Call.deliver .timer).run k).log = [1] ∧
      EntersWithin (UInt32.size - 4) (k.visit (clock + (Call.deliver .timer).ticks k)
        ((Call.deliver .timer).run k) :: vs))
    (Machine.new.withTimeScale 4) .usual
    [(0, .schedule), (2000, .deliver (.request 8 1 0 0 false))] (by decide +kernel)
  have hrun := Diary.start.replay hcalls
  obtain ⟨hclock, hexpired, hgap⟩ := of_decide_eq_true htest
  exact ⟨k₀, log, clock, vs, k, hboot, hrun, hclock, hexpired,
    quantum_of_boot hboot (by decide) hrun (by decide) hgap (.inl (by decide))⟩

/-- If the clock comes around while calls fail, no tick is due when the timer has run out, and the
root process goes back to the ready queue before its quantum is used up. -/
theorem quantum_cut_short : ∃ k₀ log clock vs k k₁,
    boot (.new (Machine.new.withTimeScale 4) ⟨2147483648, 100, 0⟩) = .ok () k₀ log ∧
    (min k.config.quantum.toNat k.config.tickInterval.toNat + 1) * 4 ≤ UInt32.size ∧
    replayDiary [(0, .schedule), (536870912, .deliver (.request 8 1 0 0 false)),
      (536870862, .deliver (.request 8 1 0 0 false))] (k₀.machine.now.toNat, [], k₀) =
        some (clock, vs, k) ∧
    (Call.deliver .timer).OffBus k ∧
    EntersWithin (UInt32.size - 4) (k.visit (clock + (Call.deliver .timer).ticks k)
      ((Call.deliver .timer).run k) :: vs) ∧
    preempted ((Call.deliver .timer).run k).log = [1] ∧ k.lineAt .processor = [1] ∧
    (Call.deliver .timer).trap? k = some (.interrupt, k₁) ∧
    (k₁.charge.processes.get 0).pid = 1 ∧
    (k₁.charge.processes.get 0).quantumTime < k.config.quantum := by
  obtain ⟨k₀, log, clock, vs, k, hboot, hcalls, htest⟩ := exists_replay
    (p := fun _ clock vs k =>
      ((min k.config.quantum.toNat k.config.tickInterval.toNat + 1) * 4 ≤ UInt32.size ∧
        (Call.deliver .timer).OffBus k ∧
        EntersWithin (UInt32.size - 4) (k.visit (clock + (Call.deliver .timer).ticks k)
          ((Call.deliver .timer).run k) :: vs) ∧
        preempted ((Call.deliver .timer).run k).log = [1] ∧ k.lineAt .processor = [1]) &&
      ((Call.deliver .timer).trap? k).any fun trap => trap.1 = .interrupt ∧
        (trap.2.charge.processes.get 0).pid = 1 ∧
        (trap.2.charge.processes.get 0).quantumTime < k.config.quantum)
    (Machine.new.withTimeScale 4) ⟨2147483648, 100, 0⟩
    [(0, .schedule), (536870912, .deliver (.request 8 1 0 0 false)),
      (536870862, .deliver (.request 8 1 0 0 false))] (by decide +kernel)
  obtain ⟨hcall, hslice⟩ := (Bool.and_eq_true _ _).mp htest
  obtain ⟨hfit, hbus, hgap, hpreempted, hruns⟩ := of_decide_eq_true hcall
  obtain ⟨⟨vector, k₁⟩, htrap, hslice⟩ := (Option.any_eq_true _ _).1 hslice
  obtain ⟨rfl, hpid, hquantum⟩ := of_decide_eq_true hslice
  exact ⟨k₀, log, clock, vs, k, k₁, hboot, hfit, hcalls, hbus, hgap, hpreempted, hruns, htrap, hpid,
    hquantum⟩

end Kernel

end Nucleus
