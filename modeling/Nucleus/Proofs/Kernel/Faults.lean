import Nucleus.Proofs.Kernel.Spawning
import Nucleus.Proofs.Kernel.Turn

/-!
# Faults

Handling a trap stops at a fault for four reasons (`Kernel.Stops`): no process runs that could have
trapped, the trap has an exception code that means nothing to the nucleus, a wait names a device
that does not exist, or nobody is left who could ever run. The first three can be told from the trap
(`dispatch_eq_fault_iff`), and they come before anything has been done: the caller has been charged
and is to go on behind the instruction that trapped, and all else is as it was
(`Kernel.leftBehind`).
-/

namespace Nucleus

theorem ExceptionCode.ofNumber?_eq_some_iff {n : Word} {code : ExceptionCode} :
    ofNumber? n = some code ↔ n = code.number := by
  constructor
  · intro h
    have hnumbers : ∀ i : Fin all.length, (all.get i).1.number.toNat = i := by decide
    obtain ⟨entry, hentry, rfl⟩ := Option.map_eq_some_iff.1 h
    obtain ⟨hlt, rfl⟩ := List.getElem?_eq_some_iff.1 hentry
    exact UInt32.toNat_inj.1 (hnumbers ⟨n.toNat, hlt⟩).symm
  · rintro rfl
    exact ofNumber?_number code

/-- The line or the unit is none that there is. -/
def Device.Missing (line unit : Word) : Prop := line < 3 ∨ 7 < line ∨ 8 ≤ unit

theorem DeviceFamily.ofLine?_eq_none_iff {line : Word} {read : Bool} :
    ofLine? line read = none ↔ line < 3 ∨ 7 < line := by
  have hlow : line < 3 ↔ line.toNat < 3 := UInt32.lt_iff_toNat_lt
  have hhigh : 7 < line ↔ 7 < line.toNat := UInt32.lt_iff_toNat_lt
  rw [hlow, hhigh]
  unfold ofLine?
  split
  case h_6 =>
    rename_i h3 h4 h5 h6 h7
    refine iff_of_true rfl ?_
    change line.toNat ≠ _ at h3 h4 h5 h6 h7
    omega
  all_goals
    rename_i hline
    rw [hline]
    simp

theorem Device.ofNumber?_eq_none_iff {family : DeviceFamily} {unit : Word} :
    ofNumber? family unit = none ↔ 8 ≤ unit := by
  unfold ofNumber?
  rw [UInt32.le_iff_toNat_le]
  split
  · rename_i hlt
    exact iff_of_false (Option.some_ne_none _) (Nat.not_le.2 hlt)
  · rename_i hlt
    exact iff_of_true rfl (Nat.not_lt.1 hlt)

/-- A wait names a device unless its line or its unit is missing. -/
theorem Device.missing_iff {line unit : Word} {read : Bool} :
    (DeviceFamily.ofLine? line read).bind (Device.ofNumber? · unit) = none ↔
      Device.Missing line unit := by
  rw [Option.bind_eq_none_iff]
  constructor
  · intro h
    cases hfamily : DeviceFamily.ofLine? line read with
    | none =>
      rcases DeviceFamily.ofLine?_eq_none_iff.1 hfamily with hlow | hhigh
      · exact .inl hlow
      · exact .inr (.inl hhigh)
    | some family => exact .inr (.inr (ofNumber?_eq_none_iff.1 (h family hfamily)))
  · rintro (hlow | hhigh | hunit) family hfamily
    · cases hfamily.symm.trans (DeviceFamily.ofLine?_eq_none_iff.2 (.inl hlow))
    · cases hfamily.symm.trans (DeviceFamily.ofLine?_eq_none_iff.2 (.inr hhigh))
    · exact ofNumber?_eq_none_iff.2 hunit

theorem Service.ofRequest?_eq_waitDevice_iff {number a1 a2 a3 line unit : Word} :
    (∃ read, ofRequest? number a1 a2 a3 = some (.waitDevice line unit read)) ↔
      number = 8 ∧ a1 = line ∧ a2 = unit := by
  constructor
  · rintro ⟨read, h⟩
    unfold ofRequest? at h
    split at h <;> cases h
    rename_i hnumber
    exact ⟨UInt32.toNat_inj.1 hnumber, rfl, rfl⟩
  · rintro ⟨rfl, rfl, rfl⟩
    exact ⟨_, rfl⟩

namespace Outcome

variable {σ α : Type} {o : Outcome σ α}

/-- The action does not stop at a fault. -/
def Faultless (o : Outcome σ α) : Prop := o.Tells (fun _ _ _ => True) fun _ _ _ => False

theorem Ends.faultless {ok : α → σ → Prop} {abort : Abort → Prop}
    (h : o.Ends ok (fun _ _ => False) abort) : o.Faultless := by
  cases o with
  | ok value s log => trivial
  | fault cause s log => exact h
  | abort cause => trivial

/-- Of a fault that does not happen anything may be said. -/
theorem Faultless.tells {fault : Fault → σ → List Notice → Prop} (h : o.Faultless) :
    o.Tells (fun _ _ _ => True) fault :=
  Tells.mono h (fun _ _ _ h => h) fun _ _ _ => False.elim

end Outcome

namespace Kernel

open Outcome

variable {k k' k₁ : Kernel} {h caller : Slot} {vector : TrapVector} {cause : Fault}
  {log : List Notice} {α : Type}

/-! ## What is left behind -/

/-- The state in which a process asked for a service or came to a breakpoint. -/
def trapped (k : Kernel) : ProcessorState := k.machine.loadState TrapVector.sysBreak.oldArea

/-- The number of the exception code of a request or breakpoint. -/
def trapCode (k : Kernel) : Word := Cause.codeNumber k.trapped.cause

/-- A process in kernel mode asks to wait for a unit of a line. -/
def AsksForDevice (k : Kernel) (line unit : Word) : Prop :=
  k.trapCode = 8 ∧ k.trapped.fromUserMode = false ∧
    k.trapped.a0 = 8 ∧ k.trapped.a1 = line ∧ k.trapped.a2 = unit

instance (k : Kernel) (line unit : Word) : Decidable (k.AsksForDevice line unit) :=
  inferInstanceAs (Decidable (_ ∧ _))

/-- What is left by a trap of process `h` that stopped at a fault: the process is to go on behind
the instruction that trapped and has been charged up to now, and nothing else has changed. -/
def leftBehind (k : Kernel) (h : Slot) : Kernel :=
  let (micros, chargedUntil) := elapsed k.machine.now k.chargedUntil k.machine.timeScale
  { k with
    processes := k.processes.modify h fun d =>
      { d with
        state := { k.trapped with pc := k.trapped.pc + 4 }
        usedTime := d.usedTime + micros
        quantumTime := Word.saturatingAdd d.quantumTime micros }
    chargedUntil }

theorem requested_eq (hh : k.current = some h) : k.requested h = k.leftBehind h := by
  set e := elapsed k.machine.now k.chargedUntil k.machine.timeScale with he
  calc k.requested h
      = (({ k with chargedUntil := e.2 }.modify h (·.charge e.1)).modify h
          ({ · with state := k.trapped })).modify h (·.skipInstruction) := by
        rw [requested, saved_eq hh, charge_eq hh]
        rfl
    _ = k.leftBehind h := by
        unfold modify
        dsimp only
        rw [ProcessTable.modify_modify, ProcessTable.modify_modify]
        rfl

/-! ## Requests -/

theorem code?_eq_syscall_iff : k.trapped.code? = some .syscall ↔ k.trapCode = 8 :=
  ExceptionCode.ofNumber?_eq_some_iff

theorem code?_eq_breakpoint_iff : k.trapped.code? = some .breakpoint ↔ k.trapCode = 9 :=
  ExceptionCode.ofNumber?_eq_some_iff

/-- The nucleus serves a request or passes it up, and a breakpoint is passed up; nothing else is. -/
theorem unexpected_iff (hh : k.current ≠ none) :
    k.service? = none ∧ k.exception? .sysBreak = none ↔ k.trapCode ≠ 8 ∧ k.trapCode ≠ 9 := by
  rw [ne_eq, ne_eq, ← code?_eq_syscall_iff, ← code?_eq_breakpoint_iff, service?, exception?]
  unfold trapped
  generalize k.machine.loadState TrapVector.sysBreak.oldArea = trap
  dsimp only
  cases hcode : trap.code? with
  | none => simp
  | some code =>
    cases code with
    | syscall =>
      cases huser : trap.fromUserMode with
      | true =>
        have hraised : ∀ {c : Prop} [Decidable c] {a b : ExceptionClass × ProcessorState × Machine},
            (if c then some a else some b) ≠ none := by
          intro c _ a b
          split <;> exact Option.some_ne_none _
        simp [hraised]
      | false => simp [hh]
    | _ => simp

/-- A request to wait for a device asks for the service with its line and its unit. -/
theorem asksForDevice_iff (hh : k.current ≠ none) {line unit : Word} :
    (∃ read, k.service? = some (.waitDevice line unit read)) ↔ k.AsksForDevice line unit := by
  have hservice : k.service? = if k.current ≠ none ∧ k.trapped.code? = some .syscall ∧
      k.trapped.fromUserMode = false then Service.ofTrap? k.trapped else none := service?.eq_1 k
  rw [hservice]
  constructor
  · rintro ⟨read, h⟩
    split at h
    · rename_i htrap
      obtain ⟨-, hcode, hmode⟩ := htrap
      exact ⟨code?_eq_syscall_iff.1 hcode, hmode, Service.ofRequest?_eq_waitDevice_iff.1 ⟨read, h⟩⟩
    · cases h
  · rintro ⟨hcode, hmode, hrequest⟩
    obtain ⟨read, h⟩ := Service.ofRequest?_eq_waitDevice_iff.2 hrequest
    exact ⟨read, (if_pos ⟨hh, code?_eq_syscall_iff.2 hcode, hmode⟩).trans h⟩

/-! ## What stops -/

/-- The reasons for which handling a trap stops, and what is left then. -/
inductive Stops (k : Kernel) : TrapVector → Fault → Kernel → Prop
  /-- No process runs that could have trapped. -/
  | nobody {vector : TrapVector} (hv : vector ≠ .interrupt) (hh : k.current = none) :
    Stops k vector .noCurrentProcess k
  /-- The trap is neither a request nor a breakpoint. -/
  | unexpected {h : Slot} (hh : k.current = some h)
    (hcode : k.trapCode ≠ 8 ∧ k.trapCode ≠ 9) :
    Stops k .sysBreak (.unexpectedException k.trapCode) (k.leftBehind h)
  /-- A process waits for a device that does not exist. -/
  | invalidDevice {h : Slot} {line unit : Word} (hh : k.current = some h)
    (hwait : k.AsksForDevice line unit) (hmissing : Device.Missing line unit) :
    Stops k .sysBreak (.invalidDevice line unit) (k.leftBehind h)

/-- Only a deadlock stops the decision what runs next. -/
theorem tells_andSchedule {x : Action Kernel α} {fault : Fault → Kernel → List Notice → Prop}
    (hx : (x k).Tells (fun _ _ _ => True) fault) :
    ((x >>= fun _ => schedule) k).Tells (fun _ _ _ => True)
      fun cause k' log => fault cause k' log ∨ cause = .deadlock := by
  rw [Action.tells_bind]
  refine hx.mono (fun _ k₁ _ _ => ?_) fun _ _ _ => .inl
  have hschedule := schedule_view SemaphoreId.isOrdinary_clock k₁
  cases hrun : schedule k₁ with
  | ok decision k' rest => trivial
  | fault cause k' rest =>
    rw [hrun] at hschedule
    exact .inr hschedule.2
  | abort cause => trivial

theorem serveCreate_faultless (hk : k.Sound) (hh : k.current = some caller) (stateAddress : Word) :
    (serveCreate caller stateAddress k).Faultless := by
  unfold serveCreate Faultless
  rw [Action.look_bind_apply, Action.check_bind_apply]
  cases k.machine.readState stateAddress with
  | error cause => trivial
  | ok state =>
    have hcreate := hk.create state (some caller) (hk.used_of_caller hh)
    refine Action.tells_bind.2 (hcreate.faultless.mono ?_ ?_)
    · intro result k₁ _ _
      cases result <;> trivial
    · exact fun _ _ _ h => h

/-- A service stops only if it is a wait for a device that does not exist, and then nothing has
happened. -/
theorem serve_tells (hk : k.Sound) (hh : k.current = some caller) (service : Service) :
    (serve caller service k).Tells (fun _ _ _ => True) fun cause k' log =>
      ∃ line unit read, service = .waitDevice line unit read ∧ Device.Missing line unit ∧
        cause = .invalidDevice line unit ∧ k' = k ∧ log = [] := by
  have hacquire : ∀ id, (acquire id id.waitKind k).Faultless := fun id =>
    (acquire_finishes hk.toAccounted hh id).faultless
  cases service with
  | create stateAddress => exact (serveCreate_faultless hk hh stateAddress).tells
  | terminate pid => exact (hk.serveTerminate caller pid).faultless.tells
  | signal address => exact (hk.signal (.user address)).faultless.tells
  | wait address => exact Action.tells_discard.2 (hacquire (.user address)).tells
  | waitClock => exact Action.tells_discard.2 (hacquire .clock).tells
  | announce c handler =>
    exact (hk.announceHandler (hk.used_of_current hh) c handler).faultless.tells
  | pid | usedTime | parentPid => trivial
  | waitDevice line unit read =>
    unfold serve awaitDevice
    dsimp only
    cases hdevice : (DeviceFamily.ofLine? line read).bind (Device.ofNumber? · unit) with
    | none => exact ⟨line, unit, read, rfl, Device.missing_iff.1 hdevice, rfl, rfl, rfl⟩
    | some d =>
      refine Action.tells_bind.2 ((hacquire (.device d)).mono ?_ fun _ _ _ => False.elim)
      intro went k₁ _ _
      cases went <;> trivial

/-- Handling a trap stops for one of the reasons that are known, or because nobody can run. -/
theorem dispatch_tells (hk : k.Sound) (vector : TrapVector) :
    (dispatch vector k).Tells (fun _ _ _ => True) fun cause k' log =>
      k.Stops vector cause k' ∧ log = [] ∨ cause = .deadlock := by
  have hserve : ∀ {k₁ : Kernel}, k₁.Sound → ∀ cause, (serveInterrupt cause k₁).Faultless :=
    fun hk₁ cause => (steady_sound.serveInterrupt hk₁ cause).faultless
  have hhandled := k.dispatch_handled vector
  generalize dispatch vector k = o at hhandled ⊢
  cases hhandled with
  | nobody hv hh => exact .inl ⟨.nobody hv hh, rfl⟩
  | idle hh cause hcause => exact tells_andSchedule (hserve hk cause).tells
  | interrupt hh cause hcause hs hm =>
    exact tells_andSchedule (hserve (hk.congr hs.alike) cause).tells
  | @exception h vector c passed state machine k₁ hh hx hs hm =>
    have hraise := raiseException_faultless h c passed (hk.congr hs.alike).toAccounted
    exact tells_andSchedule (Faultless.tells hraise)
  | @service h service hh hservice =>
    have hs := saved_requested hh
    have hserved := serve_tells (hk.congr hs.alike) (hs.alike.current.trans hh) service
    refine (tells_andSchedule hserved).mono (fun _ _ _ h => h) ?_
    rintro cause k' log (⟨line, unit, read, rfl, hmissing, rfl, rfl, rfl⟩ | hdeadlock)
    · have hne : k.current ≠ none := hh ▸ Option.some_ne_none h
      have hasks := (asksForDevice_iff hne).1 ⟨read, hservice⟩
      exact .inl ⟨requested_eq hh ▸ .invalidDevice hh hasks hmissing, rfl⟩
    · exact .inr hdeadlock
  | @unexpected h code hh hservice hx hcode =>
    have hne : k.current ≠ none := hh ▸ Option.some_ne_none h
    have hunknown := (unexpected_iff hne).1 ⟨hservice, hx⟩
    exact .inl ⟨requested_eq hh ▸ hcode ▸ .unexpected hh hunknown, rfl⟩

/-- For each of the reasons handling a trap does stop. -/
theorem Stops.dispatch_eq (hstops : k.Stops vector cause k') :
    dispatch vector k = .fault cause k' [] := by
  have hhandled := k.dispatch_handled vector
  generalize dispatch vector k = o at hhandled ⊢
  cases hstops with
  | nobody hv hh =>
    cases hhandled with
    | nobody => rfl
    | idle | interrupt => exact absurd rfl hv
    | service hh' | exception hh' | unexpected hh' => cases hh.symm.trans hh'
  | @unexpected h hh hcode =>
    have hne : k.current ≠ none := hh ▸ Option.some_ne_none h
    obtain ⟨hservice, hx⟩ := (unexpected_iff hne).2 hcode
    cases hhandled with
    | nobody _ hh' => cases hh.symm.trans hh'
    | service _ hservice' => cases hservice.symm.trans hservice'
    | exception _ hx' => cases hx.symm.trans hx'
    | unexpected hh' _ _ hcode' =>
      obtain rfl := Option.some.inj (hh.symm.trans hh')
      rw [requested_eq hh, hcode']
      rfl
  | @invalidDevice h line unit hh hwait hmissing =>
    have hne : k.current ≠ none := hh ▸ Option.some_ne_none h
    obtain ⟨read, hservice⟩ := (asksForDevice_iff hne).2 hwait
    cases hhandled with
    | nobody _ hh' => cases hh.symm.trans hh'
    | exception _ hx => cases (exception?_of_service hservice).symm.trans hx
    | unexpected _ hnone => cases hservice.symm.trans hnone
    | service hh' hservice' =>
      obtain rfl := Option.some.inj (hh.symm.trans hh')
      obtain rfl := Option.some.inj (hservice.symm.trans hservice')
      unfold serve awaitDevice
      dsimp only
      rw [Device.missing_iff.2 hmissing, Action.fail_bind_apply, requested_eq hh]

/-- Handling a trap stops exactly for the reasons that are known, unless nobody can run. -/
theorem dispatch_eq_fault_iff (hk : k.Sound) (hcause : cause ≠ .deadlock) :
    dispatch vector k = .fault cause k' log ↔ k.Stops vector cause k' ∧ log = [] := by
  constructor
  · intro hrun
    have htells := dispatch_tells hk vector
    rw [hrun] at htells
    exact htells.resolve_right hcause
  · rintro ⟨hstops, rfl⟩
    exact hstops.dispatch_eq

/-! ## The law -/

/-- When handling a trap stops at a fault, and what it leaves. -/
structure FaultLaw (k : Kernel) (vector : TrapVector) : Prop where
  /-- A trap that is no interrupt needs a process that trapped; without one nothing changes. -/
  noCurrentProcess : ∀ k' log, dispatch vector k = .fault .noCurrentProcess k' log ↔
    (vector ≠ .interrupt ∧ k.current = none) ∧ k' = k ∧ log = []
  /-- A trap of the running process with another code than that of a request or a breakpoint. -/
  unexpectedException : ∀ code k' log,
    dispatch vector k = .fault (.unexpectedException code) k' log ↔
      ∃ h, (vector = .sysBreak ∧ k.current = some h ∧ code = k.trapCode ∧ code ≠ 8 ∧ code ≠ 9) ∧
        k' = k.leftBehind h ∧ log = []
  /-- A wait of the running process for a device on a line outside 3 to 7 or past unit 7. -/
  invalidDevice : ∀ line unit k' log,
    dispatch vector k = .fault (.invalidDevice line unit) k' log ↔
      ∃ h, (vector = .sysBreak ∧ k.current = some h ∧ k.AsksForDevice line unit ∧
          (line < 3 ∨ 7 < line ∨ 8 ≤ unit)) ∧
        k' = k.leftBehind h ∧ log = []
  /-- The process that trapped stays on the processor. -/
  current : ∀ h, (k.leftBehind h).current = k.current

/-- A trap that stops at a fault has changed nothing but the saved state of the running process and
what it has been charged. -/
theorem faultLaw_of_reachable (hk : k.Reachable) (vector : TrapVector) : k.FaultLaw vector where
  noCurrentProcess k' log := by
    rw [dispatch_eq_fault_iff hk.sound Fault.noConfusion]
    constructor
    · rintro ⟨⟨hv, hh⟩, hlog⟩
      exact ⟨⟨hv, hh⟩, rfl, hlog⟩
    · rintro ⟨⟨hv, hh⟩, rfl, hlog⟩
      exact ⟨.nobody hv hh, hlog⟩
  unexpectedException code k' log := by
    rw [dispatch_eq_fault_iff hk.sound Fault.noConfusion]
    constructor
    · rintro ⟨hstops, hlog⟩
      cases hstops with
      | unexpected hh hcode => exact ⟨_, ⟨rfl, hh, rfl, hcode⟩, rfl, hlog⟩
    · rintro ⟨h, ⟨rfl, hh, rfl, hcode⟩, rfl, hlog⟩
      exact ⟨.unexpected hh hcode, hlog⟩
  invalidDevice line unit k' log := by
    rw [dispatch_eq_fault_iff hk.sound Fault.noConfusion]
    constructor
    · rintro ⟨hstops, hlog⟩
      cases hstops with
      | invalidDevice hh hwait hmissing =>
        exact ⟨_, ⟨rfl, hh, hwait, hmissing⟩, rfl, hlog⟩
    · rintro ⟨h, ⟨rfl, hh, hwait, hmissing⟩, rfl, hlog⟩
      exact ⟨.invalidDevice hh hwait hmissing, hlog⟩
  current _ := rfl

/-- The root process waits for a unit of line 2, on which no devices are, and then once more: it has
only been charged and moved on. -/
theorem faultLaw_of_reachable_missingLine : ∃ (k : Kernel) (h : Slot), k.Reachable ∧
    k.current = some h ∧
    dispatch .sysBreak k = .fault (.invalidDevice 2 0) (k.leftBehind h) [] := by
  obtain ⟨k, hk, htest⟩ := exists_reachable
    (p := fun k => k.current = some 0 ∧ k.AsksForDevice 2 0)
    [.schedule, .deliver (.request 8 2 0 0 false)] (by decide +kernel)
  obtain ⟨hh, hasks⟩ := of_decide_eq_true htest
  have hlaw := (faultLaw_of_reachable hk .sysBreak).invalidDevice 2 0 (k.leftBehind 0) []
  exact ⟨k, 0, hk, hh, hlaw.2 ⟨0, ⟨rfl, hh, hasks, .inl (by decide)⟩, rfl, rfl⟩⟩

end Kernel

end Nucleus
