import Mathlib.Logic.Equiv.Defs
import Nucleus.Proofs.Agreement
import Nucleus.Proofs.Kernel.Pace
import Nucleus.Proofs.Machine.Tape

/-!
# Kernels in lockstep

Two kernels may differ in what no call of the nucleus can tell: in the tape of the machine, or in
the slots that the processes happen to have. `Kernel.Lockstep` lists what a relation between kernels
has to say about the smallest changes of which the calls are composed, with the slots of one renamed
to those of the other. Every call then does the same on both and relates what it leaves
(`Lockstep.call`).
-/

namespace Nucleus

/-- The descriptor with its relatives renamed. -/
def Descriptor.rename (f : Slot → Slot) (d : Descriptor) : Descriptor :=
  { d with parent := d.parent.map f, children := d.children.map f }

namespace Kernel

open Outcome

/-- Two kernels agree on their configuration, the values of semaphores, and all that is counted or
measured. -/
structure SameFigures (k k' : Kernel) : Prop where
  config : k'.config = k.config
  values : k'.values = k.values
  liveCount : k'.liveCount = k.liveCount
  softCount : k'.softCount = k.softCount
  lastPid : k'.lastPid = k.lastPid
  chargedUntil : k'.chargedUntil = k.chargedUntil
  tickMicros : k'.tickMicros = k.tickMicros
  tickUntil : k'.tickUntil = k.tickUntil

/-- The running process goes back to the ready queue because its quantum is used up. -/
def expire (h : Slot) : Action Kernel Unit := do
  Action.change ({ · with current := none })
  Action.note (.quantumExpired (← Action.look (·.pidAt h)))
  Action.attempt (·.makeReady h)

/-- `R π` relates kernels of which the second has in slot `π h` what the first has in slot `h`, at
least for the slots that are `Live`, and it outlasts what the nucleus does to both. -/
structure Lockstep (R : Equiv.Perm Slot → Kernel → Kernel → Prop) (Live : Kernel → Slot → Prop) :
    Prop where
  machine : ∀ {π k k'}, R π k k' → ∃ t, k'.machine = k.machine.withTape t
  figures : ∀ {π k k'}, R π k k' → k.SameFigures k'
  current : ∀ {π k k'}, R π k k' → k'.current = k.current.map π
  ready : ∀ {π k k'}, R π k k' → k'.ready.items = k.ready.items.map π
  get : ∀ {π k k' h}, R π k k' → Live k h →
    k'.processes.get (π h) = (k.processes.get h).rename π
  live_of_current : ∀ {π k k' h}, R π k k' → k.current = some h → Live k h
  live_of_ready : ∀ {π k k' h}, R π k k' → h ∈ k.ready.items → Live k h
  live_of_parent : ∀ {π k k' h p}, R π k k' → Live k h → (k.processes.get h).parent = some p →
    Live k p
  live_congr : ∀ {k k₁ h}, k.SameBooks k₁ → Live k h → Live k₁ h
  /-- Memory may change in the same way on both sides. -/
  setMachine : ∀ {π k k'}, R π k k' → ∀ m : Machine,
    R π { k with machine := m.withTape k.machine.tape }
      { k' with machine := m.withTape k'.machine.tape }
  /-- Values and times may change to the same on both sides. -/
  setFigures : ∀ {π k k'}, R π k k' → ∀ values chargedUntil tickMicros tickUntil,
    R π { k with values, chargedUntil, tickMicros, tickUntil }
      { k' with values, chargedUntil, tickMicros, tickUntil }
  /-- So may what a descriptor keeps for the process itself. -/
  modify : ∀ {π k k' h}, R π k k' → Live k h → ∀ f : Descriptor → Descriptor,
    (∀ d : Descriptor, d.SameEntry (f d)) → (∀ d : Descriptor, f (d.rename π) = (f d).rename π) →
    R π (k.modify h f) (k'.modify (π h) f)
  dispatch : ∀ {π k k' h rest}, R π k k' → k.current = none → k.ready.items = h :: rest →
    R π { k with ready := ⟨rest⟩, current := some h }
      { k' with ready := ⟨rest.map π⟩, current := some (π h) }
  expire : ∀ {π k k' h}, R π k k' → k.current = some h →
    Agree (fun _ s _ t => R π s t) (R π) (expire h k) (expire (π h) k')
  suspend : ∀ {π k k' h}, R π k k' → k.current = some h → ∀ id : SemaphoreId,
    Agree (fun _ s _ t => R π s t) (R π) (suspend id id.waitKind k) (suspend id id.waitKind k')
  wakeNext : ∀ {π k k'}, R π k k' → ∀ id,
    Agree (fun a s b t => R π s t ∧ b = a.map π ∧ ∀ h ∈ a, Live s h) (R π) (wakeNext id k)
      (wakeNext id k')
  /-- A new process may have any slot on either side; the others keep theirs. -/
  create : ∀ {π k k' p}, R π k k' → Live k p → ∀ state,
    Agree (fun a s b t => ∃ ρ, R ρ s t ∧ ρ p = π p ∧ Live s p ∧ b = a.map ρ ∧ ∀ h ∈ a, Live s h)
      (R π) (create state (some p) k) (create state (some (π p)) k')
  terminate : ∀ {π k k'}, R π k k' → ∀ pid,
    Agree (fun a s b t => b = a ∧ R π s t) (R π) (terminate pid k) (terminate pid k')

namespace Lockstep

variable {R : Equiv.Perm Slot → Kernel → Kernel → Prop} {Live : Kernel → Slot → Prop}
  {π : Equiv.Perm Slot} {k k' : Kernel} {h : Slot}

/-- The two kernels are related in some way after two actions with the same value. -/
abbrev Twins (R : Equiv.Perm Slot → Kernel → Kernel → Prop) {α : Type} (o u : Outcome Kernel α) :
    Prop :=
  Agree (fun a s b t => b = a ∧ ∃ π, R π s t) (fun s t => ∃ π, R π s t) o u

theorem twins_of_same {α : Type} {o u : Outcome Kernel α}
    (h : Agree (fun a s b t => b = a ∧ R π s t) (R π) o u) : Twins R o u :=
  h.mono (fun _ _ _ _ h => ⟨h.1, π, h.2⟩) fun _ _ h => ⟨π, h⟩

/-- Nothing is known of the values of actions that have none. -/
theorem twins_of_done {o u : Outcome Kernel Unit}
    (h : Agree (fun _ s _ t => R π s t) (R π) o u) : Twins R o u :=
  twins_of_same (h.mono (fun _ _ _ _ h => ⟨rfl, h⟩) fun _ _ h => h)

variable (hl : Lockstep R Live)

include hl

/-! ## What is read -/

theorem loadState (hR : R π k k') (address : Word) :
    k'.machine.loadState address = k.machine.loadState address := by
  obtain ⟨t, ht⟩ := hl.machine hR
  rw [ht, Machine.loadState_withTape]

theorem readState (hR : R π k k') (address : Word) :
    k'.machine.readState address = k.machine.readState address := by
  obtain ⟨t, ht⟩ := hl.machine hR
  rw [ht, Machine.readState_withTape]

theorem read (hR : R π k k') (address : Word) :
    k'.machine.read address = k.machine.read address := by
  obtain ⟨t, ht⟩ := hl.machine hR
  rw [ht, Machine.read_withTape]

theorem now (hR : R π k k') : k'.machine.now = k.machine.now := hl.read hR Bus.clock

theorem timeScale (hR : R π k k') : k'.machine.timeScale = k.machine.timeScale :=
  congrArg (max · 1) (hl.read hR Bus.timeScale)

theorem value (hR : R π k k') (id : SemaphoreId) : k'.value id = k.value id := by
  have hvalues := (hl.figures hR).values
  cases id with
  | device d => exact congrArg (·.devices.get d.place) hvalues
  | clock => exact congrArg SemaphoreValues.clock hvalues
  | user address => exact congrArg UInt32.toInt32 (hl.read hR address)

theorem pidAt (hR : R π k k') (hh : Live k h) : k'.pidAt (π h) = k.pidAt h := by
  unfold Kernel.pidAt
  rw [hl.get hR hh]
  rfl

theorem tickIsDue (hR : R π k k') : k'.tickIsDue = k.tickIsDue := by
  unfold Kernel.tickIsDue
  rw [(hl.figures hR).config, (hl.figures hR).tickMicros]

theorem untilTick (hR : R π k k') : k'.untilTick = k.untilTick := by
  unfold Kernel.untilTick
  rw [(hl.figures hR).config, (hl.figures hR).tickMicros]

/-! ## What is changed -/

/-- A change of the machine that does not depend on its tape. -/
theorem mapMachine (hR : R π k k') {f : Machine → Machine} (hf : Machine.Blind f) :
    R π { k with machine := f k.machine } { k' with machine := f k'.machine } := by
  have hset := hl.setMachine hR (f k.machine)
  obtain ⟨t, ht⟩ := hl.machine hR
  have hsecond : (f k.machine).withTape k'.machine.tape = f k'.machine := by
    rw [ht, hf, Machine.tape_withTape]
  rwa [← hf.tape, Machine.withTape_tape, hsecond] at hset

theorem setValues (hR : R π k k') (values : SemaphoreValues) :
    R π { k with values } { k' with values } := by
  have hset := hl.setFigures hR values k.chargedUntil k.tickMicros k.tickUntil
  have hf := hl.figures hR
  simpa only [hf.chargedUntil, hf.tickMicros, hf.tickUntil] using hset

theorem setTick (hR : R π k k') (tickMicros tickUntil : Word) :
    R π { k with tickMicros, tickUntil } { k' with tickMicros, tickUntil } := by
  have hset := hl.setFigures hR k.values k.chargedUntil tickMicros tickUntil
  have hf := hl.figures hR
  simpa only [hf.values, hf.chargedUntil] using hset

theorem setCharged (hR : R π k k') (chargedUntil : Word) :
    R π { k with chargedUntil } { k' with chargedUntil } := by
  have hset := hl.setFigures hR k.values chargedUntil k.tickMicros k.tickUntil
  have hf := hl.figures hR
  simpa only [hf.values, hf.tickMicros, hf.tickUntil] using hset

theorem add (hR : R π k k') (id : SemaphoreId) (delta : Count) :
    R π (k.add id delta) (k'.add id delta) := by
  have hvalues := (hl.figures hR).values
  cases id with
  | device d =>
    have hset := hl.setValues hR (k.values.add k.machine (.device d) delta).1
    unfold Kernel.add
    rwa [hvalues]
  | clock =>
    have hset := hl.setValues hR (k.values.add k.machine .clock delta).1
    unfold Kernel.add
    rwa [hvalues]
  | user address =>
    have hread := hl.read hR address
    have hset := hl.mapMachine hR (Machine.blind_write address
      (Count.saturatingAdd (k.machine.read address).toInt32 delta).toUInt32)
    unfold Kernel.add SemaphoreValues.add SemaphoreValues.value
    dsimp only
    rwa [hread]

theorem setState (hR : R π k k') (hh : Live k h) (state : ProcessorState) :
    R π (k.modify h ({ · with state })) (k'.modify (π h) ({ · with state })) :=
  hl.modify hR hh _ (fun _ => ⟨rfl, rfl, rfl, rfl, rfl⟩) fun _ => rfl

theorem giveResult (hR : R π k k') (hh : Live k h) (value : Word) :
    R π (k.giveResult h value) (k'.giveResult (π h) value) :=
  hl.modify hR hh _ (fun _ => ⟨rfl, rfl, rfl, rfl, rfl⟩) fun _ => rfl

theorem charge (hR : R π k k') : R π k.charge k'.charge := by
  have hf := hl.figures hR
  have hcurrent := hl.current hR
  cases hh : k.current with
  | none =>
    have hnobody : k'.current = none := by rw [hcurrent, hh, Option.map_none]
    have hset := hl.setCharged hR k.machine.now
    have hnow := hl.now hR
    simp only [Kernel.charge, hh, hnobody, hnow]
    simpa only [hh, hnobody] using hset
  | some h =>
    have hh' : k'.current = some (π h) := by rw [hcurrent, hh, Option.map_some]
    rw [charge_eq hh, charge_eq hh', hl.now hR, hf.chargedUntil, hl.timeScale hR]
    generalize elapsed k.machine.now k.chargedUntil k.machine.timeScale = e
    have hsame : k.Alike { k with chargedUntil := e.2 } := .of_eq rfl rfl rfl rfl rfl rfl rfl
    have hlive := hl.live_congr hsame.toSameBooks (hl.live_of_current hR hh)
    exact hl.modify (hl.setCharged hR e.2) hlive (·.charge e.1)
      (fun _ => ⟨rfl, rfl, rfl, rfl, rfl⟩) fun _ => rfl

theorem gatherTick (hR : R π k k') : R π k.gatherTick k'.gatherTick := by
  have hf := hl.figures hR
  unfold Kernel.gatherTick
  dsimp only
  rw [hl.now hR, hl.timeScale hR, hf.tickUntil, hf.tickMicros]
  exact hl.setTick hR _ _

theorem setTimer (hR : R π k k') (micros : Word) :
    R π (k.setTimer micros) (k'.setTimer micros) := by
  unfold Kernel.setTimer Kernel.writeWord
  rw [hl.timeScale hR]
  exact hl.mapMachine hR (Machine.blind_write _ _)

/-! ## Services -/

theorem acquire (hR : R π k k') (hh : k.current = some h) (id : SemaphoreId) :
    Agree (fun a s b t => b = a ∧ R π s t ∧ (a = true → s.current = some h)) (R π)
      (acquire id id.waitKind k) (acquire id id.waitKind k') := by
  have hadd := hl.add hR id (-1)
  unfold Kernel.acquire
  rw [Action.change_bind_apply, Action.change_bind_apply, Action.look_bind_apply,
    Action.look_bind_apply, hl.value hadd]
  split
  · refine Action.agree_bind (hl.suspend hadd hh id) fun _ s _ t hst => ?_
    exact Action.agree_pure ⟨rfl, hst, nofun⟩
  · exact Action.agree_pure ⟨rfl, hadd, fun _ => hh⟩

theorem signal (hR : R π k k') (id : SemaphoreId) :
    Agree (fun _ s _ t => R π s t) (R π) (signal id k) (signal id k') := by
  unfold Kernel.signal
  rw [Action.change_bind_apply, Action.change_bind_apply]
  refine Action.agree_discard ((hl.wakeNext (hl.add hR id 1) id).mono ?_ fun _ _ h => h)
  exact fun _ _ _ _ h => h.1

theorem awaitDevice (hR : R π k k') (hh : k.current = some h) (line unit : Word) (read : Bool) :
    Agree (fun _ s _ t => R π s t) (R π) (awaitDevice h line unit read k)
      (awaitDevice (π h) line unit read k') := by
  unfold Kernel.awaitDevice
  cases (DeviceFamily.ofLine? line read).bind (Device.ofNumber? · unit) with
  | none => exact Action.agree_fail _ hR
  | some d =>
    refine Action.agree_bind (hl.acquire hR hh (.device d)) ?_
    rintro went s _ t ⟨heq, hst, hcurrent⟩
    rw [heq]
    cases went with
    | true =>
      have hlatched : t.latched d = s.latched d := by
        unfold Kernel.latched
        rw [(hl.figures hst).values]
      rw [if_pos rfl, if_pos rfl]
      refine Action.agree_change ?_
      rw [hlatched]
      exact hl.giveResult hst (hl.live_of_current hst (hcurrent rfl)) _
    | false => exact Action.agree_pure hst

theorem serveCreate (hR : R π k k') (hh : k.current = some h) (stateAddress : Word) :
    Twins R (serveCreate h stateAddress k) (serveCreate (π h) stateAddress k') := by
  unfold Kernel.serveCreate
  rw [Action.look_bind_apply, Action.look_bind_apply, hl.readState hR, Action.check_bind_apply,
    Action.check_bind_apply]
  cases k.machine.readState stateAddress with
  | error cause => exact .abort cause
  | ok state =>
    refine Action.agree_bind
      ((hl.create hR (hl.live_of_current hR hh) state).mono (fun _ _ _ _ h => h)
        fun _ _ h => ⟨π, h⟩) ?_
    rintro child s _ t ⟨ρ, hst, hcaller, hlive, rfl, hchild⟩
    rw [← hcaller]
    cases child with
    | some child =>
      refine Action.agree_change ⟨rfl, ρ, ?_⟩
      rw [hl.pidAt hst (hchild child rfl)]
      exact hl.giveResult hst hlive _
    | none =>
      dsimp only [Option.map_none]
      rw [Action.note_bind_apply, Action.note_bind_apply]
      refine Agree.after (Action.agree_change ⟨rfl, ρ, ?_⟩) _
      exact hl.giveResult hst hlive _

theorem serveTerminate (hR : R π k k') (hh : k.current = some h) (pid : Pid) :
    Agree (fun _ s _ t => R π s t) (R π) (serveTerminate h pid k)
      (serveTerminate (π h) pid k') := by
  unfold Kernel.serveTerminate
  rw [Action.look_bind_apply, Action.look_bind_apply, hl.pidAt hR (hl.live_of_current hR hh)]
  refine Action.agree_bind (hl.terminate hR _) ?_
  rintro _ s found t ⟨rfl, hst⟩
  refine Action.agree_change ?_
  have hiff : t.current = some (π h) ↔ s.current = some h := by
    rw [hl.current hst, Option.map_eq_some_iff]
    simp
  by_cases hcurrent : s.current = some h
  · rw [if_pos hcurrent, if_pos (hiff.2 hcurrent)]
    exact hl.giveResult hst (hl.live_of_current hst hcurrent) _
  · rw [if_neg hcurrent, if_neg fun hand => hcurrent (hiff.1 hand)]
    exact hst

theorem announceHandler (hR : R π k k') (hh : k.current = some h) (c : ExceptionClass)
    (handler : Handler) :
    Agree (fun _ s _ t => R π s t) (R π) (announceHandler h c handler k)
      (announceHandler (π h) c handler k') := by
  have hlive := hl.live_of_current hR hh
  unfold Kernel.announceHandler
  rw [Action.look_bind_apply, Action.look_bind_apply, hl.get hR hlive]
  dsimp only [Descriptor.rename]
  rw [Action.check_bind_apply, Action.check_bind_apply]
  cases Word.succ ((k.processes.get h).announced.get c.place) with
  | error cause => exact .abort cause
  | ok announced =>
    dsimp only
    rw [Action.change_bind_apply, Action.change_bind_apply]
    have hcount := hl.modify hR hlive
      (fun d => { d with announced := d.announced.set c.place announced })
      (fun _ => ⟨rfl, rfl, rfl, rfl, rfl⟩) fun _ => rfl
    split
    · rw [Action.note_bind_apply, Action.note_bind_apply]
      refine Agree.after (Action.agree_discard ((hl.terminate hcount _).mono ?_ fun _ _ h => h)) _
      exact fun _ _ _ _ h => h.2
    · refine Action.agree_change (hl.modify hcount ?_ _ (fun _ => ⟨rfl, rfl, rfl, rfl, rfl⟩)
        fun _ => rfl)
      exact hl.live_of_current hcount hh

theorem serve (hR : R π k k') (hh : k.current = some h) (service : Service) :
    Twins R (serve h service k) (serve (π h) service k') := by
  have hlive := hl.live_of_current hR hh
  cases service with
  | create stateAddress => exact hl.serveCreate hR hh stateAddress
  | terminate pid => exact twins_of_done (hl.serveTerminate hR hh pid)
  | signal address => exact twins_of_done (hl.signal hR _)
  | wait address =>
    refine twins_of_done (Action.agree_discard ((hl.acquire hR hh (.user address)).mono ?_
      fun _ _ h => h))
    exact fun _ _ _ _ h => h.2.1
  | pid =>
    simp only [Kernel.serve]
    refine twins_of_done (π := π) (Action.agree_change ?_)
    rw [hl.pidAt hR hlive]
    exact hl.giveResult hR hlive _
  | usedTime =>
    have hcharged := hl.charge hR
    have hlive' := hl.live_of_current hcharged ((Alike.charge k).current.trans hh)
    simp only [Kernel.serve, Action.change_bind_apply]
    refine twins_of_done (π := π) (Action.agree_change ?_)
    rw [hl.get hcharged hlive']
    exact hl.giveResult hcharged hlive' _
  | waitClock =>
    refine twins_of_done (Action.agree_discard ((hl.acquire hR hh .clock).mono ?_ fun _ _ h => h))
    exact fun _ _ _ _ h => h.2.1
  | waitDevice line unit read => exact twins_of_done (hl.awaitDevice hR hh line unit read)
  | parentPid =>
    simp only [Kernel.serve]
    refine twins_of_done (π := π) (Action.agree_change ?_)
    have hparent : ((k'.processes.get (π h)).parent.map k'.pidAt) =
        (k.processes.get h).parent.map k.pidAt := by
      rw [hl.get hR hlive]
      dsimp only [Descriptor.rename]
      rw [Option.map_map]
      refine Option.map_congr fun p hp => ?_
      exact hl.pidAt hR (hl.live_of_parent hR hlive hp)
    rw [hparent]
    exact hl.giveResult hR hlive _
  | announce c handler => exact twins_of_done (hl.announceHandler hR hh c handler)

/-! ## Interrupts -/

theorem releaseClock (hR : R π k k') (n : Nat) :
    Agree (fun _ s _ t => R π s t) (R π) (releaseClock n k) (releaseClock n k') := by
  induction n generalizing k k' with
  | zero => exact Action.agree_pure hR
  | succ n ih =>
    unfold Kernel.releaseClock
    have hwoken : Agree (fun _ s _ t => R π s t) (R π) (Kernel.wakeNext .clock k)
        (Kernel.wakeNext .clock k') :=
      (hl.wakeNext hR .clock).mono (fun _ _ _ _ h => h.1) fun _ _ h => h
    refine Action.agree_bind (Action.agree_discard hwoken) fun _ s _ t hst => ?_
    rw [Action.change_bind_apply, Action.change_bind_apply]
    exact ih (hl.add hst .clock 1)

theorem tickClock (hR : R π k k') :
    Agree (fun _ s _ t => R π s t) (R π) (tickClock k) (tickClock k') := by
  have hnote : ∀ {s t}, R π s t → Agree (fun _ s _ t => R π s t) (R π)
      (Action.note .clockTick s) (Action.note .clockTick t) := fun h => Action.agree_note h
  unfold Kernel.tickClock
  rw [Action.look_bind_apply, Action.look_bind_apply, (hl.figures hR).values]
  dsimp only
  split
  · exact Action.agree_bind (hl.releaseClock hR _) fun _ _ _ _ hst => hnote hst
  · refine Action.agree_bind (hl.wakeNext hR .clock) ?_
    rintro woken s _ t ⟨hst, rfl, -⟩
    cases woken with
    | some h =>
      dsimp only [Option.map_some]
      rw [Action.change_bind_apply, Action.change_bind_apply]
      exact hnote (hl.add hst .clock 1)
    | none =>
      dsimp only [Option.map_none]
      rw [Action.change_bind_apply, Action.change_bind_apply]
      exact hnote (hl.add hst .clock (-1))

theorem serveTimer (hR : R π k k') :
    Agree (fun _ s _ t => R π s t) (R π) (serveTimer k) (serveTimer k') := by
  have hgathered := hl.gatherTick hR
  unfold Kernel.serveTimer
  rw [Action.change_bind_apply, Action.change_bind_apply, Action.look_bind_apply,
    Action.look_bind_apply, hl.tickIsDue hgathered]
  split
  · refine Action.agree_bind (hl.tickClock hgathered) fun _ s _ t hst => ?_
    have hset := hl.setTick hst 0 s.tickUntil
    exact Action.agree_change (by simpa only [(hl.figures hst).tickUntil] using hset)
  · rw [Action.look_bind_apply, Action.look_bind_apply, hl.current hgathered]
    cases hh : k.gatherTick.current with
    | none => exact Action.agree_pure hgathered
    | some h => exact hl.expire hgathered hh

theorem handOver (hR : R π k k') (d : Device) (status : Word) :
    Agree (fun _ s _ t => R π s t) (R π) (handOver d status k) (handOver d status k') := by
  unfold Kernel.handOver
  rw [Action.change_bind_apply, Action.change_bind_apply]
  refine Action.agree_bind (hl.wakeNext (hl.add hR (.device d) 1) (.device d)) ?_
  rintro woken s _ t ⟨hst, rfl, hlive⟩
  cases woken with
  | some h => exact Action.agree_change (hl.giveResult hst (hlive h rfl) status)
  | none =>
    refine Action.agree_change ?_
    rw [(hl.figures hst).values]
    exact hl.setValues hst _

theorem serveCompleted (hR : R π k k') (d : Device) :
    Agree (fun _ s _ t => R π s t) (R π) (serveCompleted d k) (serveCompleted d k') := by
  unfold Kernel.serveCompleted
  rw [Action.look_bind_apply, Action.look_bind_apply, hl.read hR]
  refine Action.agree_bind (hl.handOver hR d _) fun _ s _ t hst => ?_
  exact Action.agree_change (hl.mapMachine hst (Machine.blind_write _ _))

theorem nextUnit (hR : R π k k') (line : Cause.Line) :
    Agree (fun a s b t => b = a ∧ R π s t) (R π) (nextUnit line k) (nextUnit line k') := by
  unfold Kernel.nextUnit
  rw [Action.look_bind_apply, Action.look_bind_apply, hl.read hR]
  dsimp only
  split
  · exact Agree.after (Action.agree_pure ⟨rfl, hR⟩) [_]
  · exact Action.agree_pure ⟨rfl, hR⟩

theorem serveInterrupt (hR : R π k k') (cause : Word) :
    Agree (fun _ s _ t => R π s t) (R π) (serveInterrupt cause k) (serveInterrupt cause k') := by
  unfold Kernel.serveInterrupt
  cases InterruptSource.ofCause cause with
  | timer => exact hl.serveTimer hR
  | device family =>
    refine Action.agree_bind (hl.nextUnit hR family.line) ?_
    rintro _ s unit t ⟨rfl, hst⟩
    cases unit with
    | none => exact Action.agree_pure hst
    | some unit => exact hl.serveCompleted hst ⟨family, unit⟩
  | terminal =>
    refine Action.agree_bind (hl.nextUnit hR .terminal) ?_
    rintro _ s unit t ⟨rfl, hst⟩
    cases unit with
    | none => exact Action.agree_pure hst
    | some unit =>
      have hcompleted : ∀ d, t.machine.hasCompleted d = s.machine.hasCompleted d := fun d =>
        congrArg isCompleted (hl.read hst d.statusRegister)
      dsimp only
      rw [Action.look_bind_apply, Action.look_bind_apply, hcompleted, hcompleted]
      split
      · exact hl.serveCompleted hst ⟨.terminalTransmit, unit⟩
      · split
        · exact hl.serveCompleted hst ⟨.terminalReceive, unit⟩
        · exact Action.agree_note hst
  | stray => exact Action.agree_note hR

/-! ## Decisions -/

theorem resumeCurrent (hR : R π k k') (hh : k.current = some h) :
    Agree (fun a s b t => b = a ∧ R π s t) (R π) (k.resumeCurrent h) (k'.resumeCurrent (π h)) := by
  have hgathered := hl.gatherTick (hl.charge hR)
  have hcurrent : k.charge.gatherTick.current = some h := (Alike.charge k).current.trans hh
  have hlive := hl.live_of_current hgathered hcurrent
  unfold Kernel.resumeCurrent
  dsimp only
  rw [hl.get hgathered hlive, (hl.figures hgathered).config, hl.untilTick hgathered]
  exact .ok _ ⟨rfl, hl.setTimer hgathered _⟩

theorem dispatchNext (hR : R π k k') {rest : List Slot} (hcurrent : k.current = none)
    (hready : k.ready.items = h :: rest) :
    Agree (fun a s b t => b = a ∧ R π s t) (R π) (k.dispatchNext h ⟨rest⟩)
      (k'.dispatchNext (π h) ⟨rest.map π⟩) := by
  have hgathered := hl.gatherTick (hl.setCharged (hl.dispatch hR hcurrent hready) k.machine.now)
  have hlive := hl.live_of_current (h := h) hgathered rfl
  have hrenewed := hl.modify hgathered hlive ({ · with quantumTime := 0 })
    (fun _ => ⟨rfl, rfl, rfl, rfl, rfl⟩) fun _ => rfl
  have hlive' := hl.live_of_current (h := h) hrenewed rfl
  have hnow := hl.now hR
  unfold Kernel.dispatchNext
  dsimp only
  rw [hnow]
  generalize hk₁ : Kernel.modify _ h _ = k₁ at hrenewed hlive' ⊢
  generalize hk₂ : Kernel.modify _ (π h) _ = k₂ at hrenewed ⊢
  rw [hl.get hrenewed hlive', (hl.figures hrenewed).config, hl.untilTick hrenewed]
  exact .ok _ ⟨rfl, hl.setTimer hrenewed _⟩

theorem schedule (hR : R π k k') :
    Agree (fun a s b t => b = a ∧ R π s t) (R π) (schedule k) (schedule k') := by
  have hf := hl.figures hR
  have hready := hl.ready hR
  unfold Kernel.schedule
  rw [hl.current hR]
  cases hh : k.current with
  | some h => exact hl.resumeCurrent hR hh
  | none =>
    dsimp only [Option.map_none]
    cases hitems : k.ready.items with
    | cons h rest =>
      have hdequeue : k.ready.dequeue = some (h, ⟨rest⟩) := Queue.dequeue_eq_some_iff.2 hitems
      have hdequeue' : k'.ready.dequeue = some (π h, ⟨rest.map π⟩) := by
        refine Queue.dequeue_eq_some_iff.2 ?_
        rw [hready, hitems, List.map_cons]
      rw [hdequeue, hdequeue']
      exact hl.dispatchNext hR hh hitems
    | nil =>
      have hdequeue : k.ready.dequeue = none := Queue.dequeue_eq_none_iff.2 hitems
      have hdequeue' : k'.ready.dequeue = none := by
        refine Queue.dequeue_eq_none_iff.2 ?_
        rw [hready, hitems, List.map_nil]
      rw [hdequeue, hdequeue']
      dsimp only
      unfold waitOrStop
      rw [hf.liveCount, hf.softCount]
      split
      · exact .ok _ ⟨rfl, hR⟩
      · split
        · exact .fault _ _ hR
        · have hgathered := hl.gatherTick hR
          have hset := hl.setTimer hgathered k.gatherTick.untilTick
          dsimp only
          rw [hl.untilTick hgathered, (hl.figures hgathered).softCount]
          exact .ok _ ⟨rfl, hset⟩

/-! ## Traps -/

/-- Whatever is done, a decision follows. -/
theorem then_schedule {x y : Action Kernel Unit} (h : Twins R (x k) (y k')) :
    Twins R ((x >>= fun _ => Kernel.schedule) k) ((y >>= fun _ => Kernel.schedule) k') := by
  refine Action.agree_bind h ?_
  rintro _ s _ t ⟨-, π, hst⟩
  exact twins_of_same (hl.schedule hst)

theorem saved (hR : R π k k') (hh : k.current = some h) (trap : ProcessorState) :
    R π (k.saved h trap) (k'.saved (π h) trap) :=
  hl.charge (hl.setState hR (hl.live_of_current hR hh) trap)

/-- The trap of the running process is captured on both sides. -/
theorem capture_bind {α : Type} (hR : R π k k') (vector : TrapVector)
    {f g : Slot × ProcessorState → Action Kernel α}
    (hf : ∀ h trap s t, R π s t → s.current = some h → Twins R (f (h, trap) s) (g (π h, trap) t)) :
    Twins R ((capture vector >>= f) k) ((capture vector >>= g) k') := by
  rw [capture_bind_apply, capture_bind_apply, hl.current hR, hl.loadState hR]
  cases hh : k.current with
  | none => exact .fault _ [] ⟨π, hR⟩
  | some h => exact hf _ _ _ _ (hl.saved hR hh _) ((Alike.capture k h _).current.trans hh)

theorem enterHandler (hR : R π k k') (hh : k.current = some h) (handler : Handler)
    (trap : ProcessorState) :
    Agree (fun _ s _ t => R π s t) (R π) (enterHandler h handler trap k)
      (enterHandler (π h) handler trap k') := by
  have hstored := hl.mapMachine hR (Machine.blind_storeState handler.oldArea trap)
  unfold Kernel.enterHandler
  refine Action.agree_bind (show Agree (fun _ s _ t => R π s t ∧ s.current = some h) (R π)
    (Action.attempt _ k) (Action.attempt _ k') from Action.agree_attempt ?_) ?_
  · unfold Machine.writeState
    cases Machine.stateFits handler.oldArea with
    | true => exact .inl ⟨_, _, rfl, rfl, hstored, hh⟩
    | false => exact .inr ⟨_, rfl, rfl⟩
  · rintro _ s _ t ⟨hst, hcurrent⟩
    rw [Action.look_bind_apply, Action.look_bind_apply, hl.readState hst, Action.check_bind_apply,
      Action.check_bind_apply]
    cases s.machine.readState handler.newArea with
    | error cause => exact .abort cause
    | ok state =>
      exact Action.agree_change (hl.setState hst (hl.live_of_current hst hcurrent) state)

theorem raiseException (hR : R π k k') (hh : k.current = some h) (c : ExceptionClass)
    (trap : ProcessorState) :
    Twins R (raiseException h c trap k) (raiseException (π h) c trap k') := by
  have hlive := hl.live_of_current hR hh
  have hhandler : (k'.processes.get (π h)).handler c = (k.processes.get h).handler c := by
    rw [hl.get hR hlive]
    rfl
  have hpid : (k'.processes.get (π h)).pid = (k.processes.get h).pid := hl.pidAt hR hlive
  unfold Kernel.raiseException
  rw [Action.look_bind_apply, Action.look_bind_apply, hhandler, hpid]
  cases (k.processes.get h).handler c with
  | some handler =>
    exact (twins_of_done (hl.enterHandler hR hh handler trap)).after _
  | none =>
    refine Agree.after (twins_of_done (π := π) (Action.agree_discard ?_)) [_]
    exact (hl.terminate hR _).mono (fun _ _ _ _ h => h.2) fun _ _ h => h

theorem handleProgramTrap (hR : R π k k') :
    Twins R (handleProgramTrap k) (handleProgramTrap k') :=
  hl.capture_bind hR _ fun _ _ _ _ hst hh => hl.then_schedule (hl.raiseException hst hh _ _)

theorem handleRequest (hR : R π k k') (hh : k.current = some h) (trap : ProcessorState) :
    Twins R (handleRequest h trap k) (handleRequest (π h) trap k') := by
  unfold Kernel.handleRequest
  cases Service.ofTrap? trap with
  | some service => exact hl.then_schedule (hl.serve hR hh service)
  | none => exact hl.then_schedule (hl.raiseException hR hh _ _)

theorem handleUserRequest (hR : R π k k') (hh : k.current = some h) (trap : ProcessorState) :
    Twins R (handleUserRequest h trap k) (handleUserRequest (π h) trap k') := by
  unfold Kernel.handleUserRequest
  split
  · dsimp only
    rw [Action.change_bind_apply, Action.change_bind_apply]
    exact hl.handleProgramTrap (hl.mapMachine hR (Machine.blind_storeState _ _))
  · exact hl.then_schedule (hl.raiseException hR hh _ _)

theorem handleSysBreak (hR : R π k k') : Twins R (handleSysBreak k) (handleSysBreak k') := by
  refine hl.capture_bind hR _ fun h trap s t hst hh => ?_
  have hskipped := hl.modify hst (hl.live_of_current hst hh) (·.skipInstruction)
    (fun _ => ⟨rfl, rfl, rfl, rfl, rfl⟩) fun _ => rfl
  dsimp only
  rw [Action.change_bind_apply, Action.change_bind_apply]
  cases trap.code? with
  | none => exact Action.agree_fail _ ⟨π, hskipped⟩
  | some code =>
    cases code with
    | syscall =>
      dsimp only
      split
      · exact hl.handleUserRequest hskipped hh trap
      · exact hl.handleRequest hskipped hh trap
    | breakpoint => exact hl.then_schedule (hl.raiseException hskipped hh _ _)
    | _ => exact Action.agree_fail _ ⟨π, hskipped⟩

theorem handleInterrupt (hR : R π k k') : Twins R (handleInterrupt k) (handleInterrupt k') := by
  unfold Kernel.handleInterrupt
  rw [Action.look_bind_apply, Action.look_bind_apply, hl.loadState hR]
  rw [Action.change_bind_apply, Action.change_bind_apply, hl.current hR]
  cases hh : k.current with
  | none => exact hl.then_schedule (twins_of_done (hl.serveInterrupt hR _))
  | some h => exact hl.then_schedule (twins_of_done (hl.serveInterrupt (hl.saved hR hh _) _))

/-- The handling of a trap is the same on both sides. -/
theorem dispatchTrap (hR : R π k k') (vector : TrapVector) :
    Twins R (Kernel.dispatch vector k) (Kernel.dispatch vector k') := by
  cases vector with
  | sysBreak => exact hl.handleSysBreak hR
  | programTrap => exact hl.handleProgramTrap hR
  | tlb =>
    exact hl.capture_bind hR _ fun _ _ _ _ hst hh => hl.then_schedule (hl.raiseException hst hh _ _)
  | interrupt => exact hl.handleInterrupt hR

theorem deliver (hR : R π k k') (event : Event) :
    Twins R (Kernel.deliver event k) (Kernel.deliver event k') := by
  obtain ⟨t, ht⟩ := hl.machine hR
  have hrunning : k'.currentDescriptor.map (·.state) = k.currentDescriptor.map (·.state) := by
    unfold currentDescriptor
    rw [hl.current hR]
    cases hh : k.current with
    | none => rfl
    | some h =>
      have hget := hl.get hR (hl.live_of_current hR hh)
      simp only [Option.map_some, hget, Descriptor.rename]
  rw [deliver_apply, deliver_apply, hrunning, ht, Machine.trap_withTape]
  cases htrap : k.machine.trap event (k.currentDescriptor.map (·.state)) with
  | error cause => exact .abort cause
  | ok trapped =>
    have hset := hl.setMachine hR trapped.2
    rw [← Machine.tape_of_trap htrap, Machine.withTape_tape, ht, Machine.tape_withTape] at hset
    exact hl.dispatchTrap hset trapped.1

/-- Every call does the same on both sides. -/
theorem call (hR : R π k k') (call : Call) : Twins R (call.run k) (call.run k') := by
  cases call with
  | deliver event => exact hl.deliver hR event
  | dispatch vector => exact hl.dispatchTrap hR vector
  | schedule => exact twins_of_same (hl.schedule hR)

end Lockstep

end Kernel

end Nucleus
