import Nucleus.Proofs.Kernel.Overtaking
import Nucleus.Proofs.Kernel.Turn

/-!
# Diaries

A run of the nucleus that leaves the registers of the bus alone, together with what is recorded of
it: how many ticks the clock has counted, wraps included, and of each call when it entered the
nucleus, who ran, and what the nucleus reported (`Kernel.Diary`). The kernel's own times are words;
a diary is what they are to be compared with.
-/

namespace Nucleus.Kernel

open Outcome

variable {k k' k₀ : Kernel} {log : List Notice} {machine : Machine} {config : Config} {call : Call}
  {clock ticks : Nat} {vs vs' : List Visit} {o : Outcome Kernel Decision}

/-- What is recorded of a call. -/
structure Visit where
  /-- The ticks that the clock had counted when the call entered the nucleus. -/
  clock : Nat
  /-- The process that ran. -/
  running : Option Pid
  /-- Whether it was decided what runs next; if not, the call stopped at a fault. -/
  decided : Bool
  /-- The notices given. -/
  log : List Notice

/-- The record of a call that enters the nucleus when the clock has counted `clock` ticks, and ends
so. -/
def visit (k : Kernel) (clock : Nat) (o : Outcome Kernel Decision) : Visit where
  clock
  running := k.current.map k.pidAt
  decided := match o with
    | .ok _ _ _ => true
    | .fault _ _ _ | .abort _ => false
  log := o.log

/-- A run that leaves the bus alone, the ticks that the clock has counted by now, and the calls
recorded, latest first. Between the calls time may pass, and anything may happen to the machine away
from the bus. -/
inductive Diary (k₀ : Kernel) : Nat → List Visit → Kernel → Prop
  | start : Diary k₀ k₀.machine.now.toNat [] k₀
  | call {clock : Nat} {vs : List Visit} {k k' : Kernel} (hrun : Diary k₀ clock vs k) (call : Call)
    (hbus : call.OffBus k) (h : (call.run k).state? = some k') :
    Diary k₀ (clock + call.ticks k) (k.visit (clock + call.ticks k) (call.run k) :: vs) k'
  | machine {clock ticks : Nat} {vs : List Visit} {k : Kernel} (hrun : Diary k₀ clock vs k)
    {machine : Machine} (htime : k.machine.TimePasses ticks machine) :
    Diary k₀ (clock + ticks) vs { k with machine }

/-! ## What a run keeps -/

/-- What every run keeps that leaves the bus alone. -/
structure Underway (k₀ : Kernel) (clock : Nat) (k : Kernel) : Prop where
  sound : k.Sound
  vacant : k.Vacant
  now : k.machine.now = UInt32.ofNat clock
  scale : k.machine.read Bus.timeScale = k₀.machine.read Bus.timeScale
  config : k.config = k₀.config

namespace Underway

theorem start (hk₀ : k₀.Sound) (hv : k₀.Vacant) : k₀.Underway k₀.machine.now.toNat k₀ where
  sound := hk₀
  vacant := hv
  now := UInt32.ofNat_toNat.symm
  scale := rfl
  config := rfl

theorem timeScale (hk : k₀.Underway clock k) : k.machine.timeScale = k₀.machine.timeScale :=
  congrArg (max · 1) hk.scale

theorem timePasses (hk : k₀.Underway clock k) (htime : k.machine.TimePasses ticks machine) :
    k₀.Underway (clock + ticks) { k with machine } where
  sound := hk.sound.congr (.setMachine k machine)
  vacant := hk.vacant
  now := by rw [htime.now, hk.now, UInt32.ofNat_add]
  scale := htime.scale.trans hk.scale
  config := hk.config

theorem standsStill (hk : k₀.Underway clock k) (hstill : k.StandsStill k') (hk' : k'.Sound) :
    k₀.Underway clock k' where
  sound := hk'
  vacant := hstill.vacant hk.vacant
  now := hstill.now.trans hk.now
  scale := hstill.scale.trans hk.scale
  config := hstill.config.trans hk.config

/-- A call lets some time pass and takes its turn. -/
theorem turn (hk : k₀.Underway clock k) (hbus : call.OffBus k)
    (h : (call.run k).state? = some k') :
    ∃ machine, k.machine.TimePasses (call.ticks k) machine ∧
      k₀.Underway (clock + call.ticks k) { k with machine } ∧
      Turn { k with machine } (call.run k) ∧ k₀.Underway (clock + call.ticks k) k' := by
  obtain ⟨machine, htime, hturn⟩ := hk.sound.call_turn hk.vacant hbus h
  have hlater := hk.timePasses htime
  refine ⟨machine, htime, hlater, hturn, ?_⟩
  have hcharged := hlater.standsStill (charge_standsStill _)
    (hlater.sound.congr (Alike.charge { k with machine }))
  exact hcharged.standsStill (hturn.pace h).standsStill (hk.sound.step (.call call h))

end Underway

/-- What holds at the start, and is kept while time passes and by every turn, holds in every
run. -/
theorem Diary.induction {P : Nat → List Visit → Kernel → Prop} (hk₀ : k₀.Sound) (hv : k₀.Vacant)
    (start : P k₀.machine.now.toNat [] k₀)
    (machine : ∀ {clock ticks vs k machine}, k₀.Underway clock k → P clock vs k →
      k.machine.TimePasses ticks machine → P (clock + ticks) vs { k with machine })
    (turn : ∀ {clock vs k k' o}, k₀.Underway clock k →
      Diary k₀ clock (k.visit clock o :: vs) k' → P clock vs k → Turn k o → o.state? = some k' →
      P clock (k.visit clock o :: vs) k')
    (hrun : Diary k₀ clock vs k) : k₀.Underway clock k ∧ P clock vs k := by
  induction hrun with
  | start => exact ⟨.start hk₀ hv, start⟩
  | call hrun call hbus h ih =>
    obtain ⟨hk, hp⟩ := ih
    obtain ⟨moved, htime, hk₁, hturn, hk'⟩ := hk.turn hbus h
    have hnext := turn hk₁ (hrun.call call hbus h) (machine hk hp htime) hturn h
    exact ⟨hk', hnext⟩
  | machine _ htime ih =>
    obtain ⟨hk, hp⟩ := ih
    exact ⟨hk.timePasses htime, machine hk hp htime⟩

theorem Diary.underway (hk₀ : k₀.Sound) (hv : k₀.Vacant) (hrun : Diary k₀ clock vs k) :
    k₀.Underway clock k :=
  (Diary.induction (P := fun _ _ _ => True) hk₀ hv trivial (fun _ _ _ => trivial)
    (fun _ _ _ _ _ => trivial) hrun).1

theorem Diary.reachable (hrun : Diary k₀ clock vs k) (hk₀ : k₀.Reachable) : k.Reachable := by
  induction hrun with
  | start => exact hk₀
  | call _ call _ h ih => exact ih.step (.call call h)
  | @machine clock ticks vs k _ machine _ ih => exact ih.step (.machine machine)

/-- All notices of a run, those of the start-up first. -/
def loggedIn (start : List Notice) : List Visit → List Notice
  | [] => start
  | v :: vs => loggedIn start vs ++ v.log

/-- A diary tells the log of its run. -/
theorem Diary.history (hrun : Diary k₀ clock vs k) (start : List Notice) :
    History logged start k₀ (loggedIn start vs) k := by
  induction hrun with
  | start => exact .start
  | call _ call _ h ih => exact ih.call call h
  | @machine clock ticks vs k _ machine _ ih => exact ih.machine machine

/-! ## The start-up -/

/-- A kernel in which no process has run and no time has been gathered. -/
structure Started (machine : Machine) (config : Config) (k : Kernel) : Prop where
  sound : k.Sound
  nobody : k.current = none
  unused : ∀ h, k.processes.isUsed h = true → (k.processes.get h).usedTime = 0
  vacant : k.Vacant
  config : k.config = config
  scale : k.machine.read Bus.timeScale = machine.read Bus.timeScale
  tickMicros : k.tickMicros = 0
  tickUntil : k.tickUntil = k.machine.now

theorem forM_report_calm (lines : List BootLine) (hk : k.Accounted) :
    Calm k (lines.forM report k) := by
  induction lines generalizing k with
  | nil => exact .pure hk ()
  | cons line lines ih => exact .note_bind rfl (ih hk)

theorem createRoot_calm (hk : k.Sound) (ramTop : Word) : Calm k (createRoot ramTop k) := by
  unfold createRoot
  rw [Action.look_bind_apply]
  refine (create_calm hk _ none nofun).bind fun result k₁ _ hk₁ => ?_
  cases result with
  | none => exact .note_bind rfl (.fail _)
  | some h => exact .note_bind rfl (.note hk₁ rfl)

theorem sameBus_foldl_storeState (s : Machine → TrapVector → ProcessorState)
    (vectors : List TrapVector) (m : Machine) :
    m.SameBus (vectors.foldl (fun m vector => m.storeState vector.newArea (s m vector)) m) := by
  induction vectors generalizing m with
  | nil => exact .refl m
  | cons vector vectors ih =>
    exact (Machine.sameBus_storeState (Machine.not_isBusRegister_newArea vector) m
      (s m vector)).trans (ih _)

theorem installHandlers_timeless (k : Kernel) (ramTop : Word) :
    k.Timeless (k.installHandlers ramTop) := by
  unfold installHandlers
  exact .setMachine (sameBus_foldl_storeState
    (fun m vector => handlerState m.board vector ramTop) TrapVector.all k.machine)

/-- Starting up takes no time until the pseudo-clock is started. -/
theorem boot_tells (hk : k.Sound) :
    (boot k).Tells
      (fun _ k' _ => ∃ k₁, k.Timeless k₁ ∧ k' = { k₁ with tickUntil := k₁.machine.now })
      fun _ _ _ => True := by
  unfold boot
  refine Action.tells_bind.2 (((forM_report _ k).tells (forM_report_calm _ hk.toAccounted)).mono ?_
    fun _ _ _ _ => trivial)
  rintro _ k _ ⟨rfl, -⟩
  rw [Action.look_bind_apply]
  refine Action.tells_if_note ?_
  beta_reduce
  rw [Action.look_bind_apply]
  cases ramTop? (k.machine.read Bus.ramBase) (k.machine.read Bus.ramSize) with
  | none =>
    refine Action.tells_note_bind ?_
    trivial
  | some ramTop =>
    have hinstall := installHandlers_timeless k ramTop
    have hk₁ : (k.installHandlers ramTop).Sound := hk.congr (.setMachine k _)
    dsimp only
    rw [Action.change_bind_apply]
    generalize k.installHandlers ramTop = k₁ at hinstall hk₁
    refine Action.tells_note_bind (Action.tells_note_bind (Action.tells_bind.2
      ((createRoot_calm hk₁ ramTop).mono ?_ fun _ _ _ _ => trivial)))
    rintro _ k₂ _ ⟨htime, -⟩
    exact ⟨k₂, hinstall.trans htime, rfl⟩

/-- A machine on which nothing has been done yet has started once it has booted. -/
theorem started_of_boot (h : boot (.new machine config) = .ok () k₀ log) :
    Started machine config k₀ := by
  have htells := boot_tells (sound_new machine config)
  rw [h] at htells
  obtain ⟨k₁, htime, rfl⟩ := htells
  have hboot : (boot (.new machine config)).state? = some { k₁ with tickUntil := k₁.machine.now } :=
    congrArg Outcome.state? h
  have hfree : ∀ g, (Kernel.new machine config).processes.isUsed g = false :=
    ProcessTable.isUsed_empty
  exact {
    sound := sound_of_boot hboot
    nobody := by
      rw [Option.eq_none_iff_forall_ne_some]
      intro g hg
      cases (htime.running g hg).1
    unused := fun g hg => by
      rcases htime.alive g hg with ⟨hused, -⟩ | hnew
      · cases (hfree g).symm.trans hused
      · exact hnew.usedTime
    vacant := htime.vacant fun _ _ => standing_new (.waitList _)
    config := htime.config
    scale := htime.bus _ Machine.isBusRegister_timeScale
    tickMicros := htime.tickMicros
    tickUntil := rfl }

theorem Diary.clockBooks (hrun : Diary k₀ clock vs k)
    (h : boot (.new machine config) = .ok () k₀ log) : k.ClockBooks := by
  have hboot : (boot (.new machine config)).state? = some k₀ := congrArg Outcome.state? h
  exact (hrun.reachable (.boot (.new machine config) hboot)).clockBooks

/-! ## Computed runs -/

theorem handlersOffBus_iff :
    k.HandlersOffBus ↔ ∀ h, k.processes.isUsed h = true → ∀ c : Fin ExceptionClass.count,
      ∀ handler ∈ (k.processes.get h).handlers.get c, ∀ i < stateWords,
        ¬ Bus.IsRegister (Machine.stateAddress handler.oldArea i) := by
  constructor
  · intro hspares h hh c handler hmem i hi haddress
    exact hspares _ haddress h hh c handler hmem i hi rfl
  · rintro hspares address haddress h hh c handler hmem i hi rfl
    exact hspares h hh c handler hmem i hi haddress

instance (k : Kernel) : Decidable k.HandlersOffBus := decidable_of_iff' _ handlersOffBus_iff

theorem Call.offBus_iff :
    call.OffBus k ↔ k.HandlersOffBus ∧ ∀ use ∈ call.use? k, use.1.OffBus := by
  constructor
  · rintro ⟨hhandlers, hsemaphores⟩
    refine ⟨hhandlers, fun (id, use) huse => ?_⟩
    cases id with
    | user address => exact fun haddress => hsemaphores address use haddress huse
    | device d => trivial
    | clock => trivial
  · rintro ⟨hhandlers, hsemaphores⟩
    exact ⟨hhandlers, fun address use haddress huse => hsemaphores _ huse haddress⟩

instance (call : Call) (k : Kernel) : Decidable (call.OffBus k) :=
  decidable_of_iff' _ Call.offBus_iff

/-- The diary and the state after a sequence of calls, each some microseconds after the one before,
if all of them leave the bus alone and none aborts. -/
def replayDiary (calls : List (Word × Call)) (start : Nat × List Visit × Kernel) :
    Option (Nat × List Visit × Kernel) :=
  calls.foldlM (fun (clock, vs, k) (micros, call) =>
    let clock := clock + micros.toNat * (k.machine.read Bus.timeScale).toNat
    let k := { k with machine := k.machine.advance micros }
    let later := clock + call.ticks k
    if call.OffBus k then
      (call.run k).state?.map fun k' => (later, k.visit later (call.run k) :: vs, k')
    else none) start

theorem Diary.replay {calls : List (Word × Call)} {clock' : Nat} (hrun : Diary k₀ clock vs k)
    (h : replayDiary calls (clock, vs, k) = some (clock', vs', k')) : Diary k₀ clock' vs' k' := by
  induction calls generalizing clock vs k with
  | nil =>
    cases h
    exact hrun
  | cons first calls ih =>
    obtain ⟨micros, call⟩ := first
    obtain ⟨⟨clock₁, vs₁, k₁⟩, hcall, hcalls⟩ := Option.bind_eq_some_iff.1 h
    dsimp only at hcall
    split at hcall
    · rename_i hbus
      obtain ⟨k₁, hk₁, heq⟩ := Option.map_eq_some_iff.1 hcall
      cases heq
      exact ih ((hrun.machine (Machine.timePasses_advance k.machine micros)).call call hbus hk₁)
        hcalls
    · cases hcall

/-- What a start-up and a sequence of calls are computed to lead to. -/
theorem exists_replay {p : List Notice → Nat → List Visit → Kernel → Bool} (machine : Machine)
    (config : Config) (calls : List (Word × Call))
    (h : (match boot (.new machine config) with
      | .ok () k₀ start => (replayDiary calls (k₀.machine.now.toNat, [], k₀)).any
          fun (clock, vs, k) => p start clock vs k
      | .fault _ _ _ | .abort _ => false) = true) :
    ∃ k₀ start clock vs k, boot (.new machine config) = .ok () k₀ start ∧
      replayDiary calls (k₀.machine.now.toNat, [], k₀) = some (clock, vs, k) ∧
      p start clock vs k = true := by
  split at h
  · rename_i k₀ start hboot
    obtain ⟨⟨clock, vs, k⟩, hcalls, hp⟩ := (Option.any_eq_true _ _).1 h
    exact ⟨k₀, start, clock, vs, k, hboot, hcalls, hp⟩
  · cases h
  · cases h

end Nucleus.Kernel
