import Nucleus.Proofs.Kernel.Courses
import Nucleus.Proofs.Kernel.Survivors
import Nucleus.Proofs.Machine.Bus

/-!
# What takes no time

Whatever the nucleus does for a process or a device, apart from charging and from deciding what runs
next, takes no time: the clock stands still, no process is charged, and no time is gathered for the
next tick (`Kernel.Timeless`). An action that takes no time and reports nothing that has to do with
time is calm (`Kernel.Calm`). This needs that no register of the bus is a user semaphore.
-/

namespace Nucleus

/-- A process gets the processor or has used up its quantum, or the pseudo-clock ticks. -/
def Notice.isBeat : Notice → Bool
  | dispatching _ | quantumExpired _ | clockTick => true
  | created _ _ | terminated _ | blocked _ _ | woke _ _ | resuming _ | idle _ | nothingLeft
  | stuck _ | passedUp _ _ | unhandled _ _ | poolExhausted | secondHandler _ _ | strayInterrupt _
  | emptyBitmap _ | nothingCompleted _ | boot _ => false

/-- Notices that have nothing to do with time. -/
def Quiet (log : List Notice) : Prop := ∀ notice ∈ log, notice.isBeat = false

theorem quiet_nil : Quiet [] := fun _ h => nomatch h

theorem quiet_singleton {notice : Notice} (h : notice.isBeat = false) : Quiet [notice] :=
  fun _ hmem => List.mem_singleton.1 hmem ▸ h

theorem Quiet.append {log log' : List Notice} (h : Quiet log) (h' : Quiet log') :
    Quiet (log ++ log') := List.forall_mem_append.2 ⟨h, h'⟩

/-- The word of the semaphore is no register of the bus. -/
def SemaphoreId.OffBus : SemaphoreId → Prop
  | user address => ¬ Bus.IsRegister address
  | device _ | clock => True

theorem SemaphoreId.offBus_clock : clock.OffBus := trivial

theorem SemaphoreId.offBus_device (d : Device) : (device d).OffBus := trivial

instance (id : SemaphoreId) : Decidable id.OffBus :=
  match id with
  | .user _ => inferInstanceAs (Decidable (¬ _))
  | .device _ | .clock => inferInstanceAs (Decidable True)

/-- A deed that takes no time. -/
def Deed.IsTimeless : Deed → Prop
  | charge _ _ | dispatch _ => False
  | block _ id => id.OffBus
  | world | latch _ _ | save _ _ | result _ _ | announce _ _ _ | wake _ _ | expire _ | enroll _ _
  | retire _ => True

theorem Deed.times_act {deed : Deed} (hd : deed.IsTimeless) (g : Slot) (c : Context) :
    (deed.act g c).usedTime = c.usedTime ∧ (deed.act g c).quantumTime = c.quantumTime := by
  cases deed with
  | charge | dispatch => exact hd.elim
  | save | result | announce =>
    simp only [act]
    split <;> exact ⟨rfl, rfl⟩
  | _ => exact ⟨rfl, rfl⟩

namespace Kernel

open Outcome

variable {k k' k'' : Kernel} {g : Slot} {id : SemaphoreId} {α β : Type}

/-! ## Kernels between which no time passes -/

/-- The same process is in a slot and has used the same time. -/
structure SameBill (k : Kernel) (g : Slot) (k' : Kernel) : Prop where
  pid : k'.pidAt g = k.pidAt g
  usedTime : (k'.processes.get g).usedTime = (k.processes.get g).usedTime
  quantumTime : (k'.processes.get g).quantumTime = (k.processes.get g).quantumTime

/-- A new process is in a slot and has used no time. -/
structure NewBill (k : Kernel) (g : Slot) (k' : Kernel) : Prop where
  pid : k.lastPid < k'.pidAt g
  usedTime : (k'.processes.get g).usedTime = 0
  quantumTime : (k'.processes.get g).quantumTime = 0

/-- Nobody waits on a semaphore in a register of the bus. -/
def Vacant (k : Kernel) : Prop :=
  ∀ address, Bus.IsRegister address → k.waits.waiting (.user address) = []

/-- Two kernels agree on the registers of the bus, the configuration and the times of the
nucleus. -/
structure SameTimes (k k' : Kernel) : Prop where
  bus : k.machine.SameBus k'.machine
  config : k'.config = k.config
  chargedUntil : k'.chargedUntil = k.chargedUntil
  tickMicros : k'.tickMicros = k.tickMicros
  tickUntil : k'.tickUntil = k.tickUntil

theorem SameTimes.trans (hk : k.SameTimes k') (hk' : k'.SameTimes k'') : k.SameTimes k'' where
  bus := hk.bus.trans hk'.bus
  config := hk'.config.trans hk.config
  chargedUntil := hk'.chargedUntil.trans hk.chargedUntil
  tickMicros := hk'.tickMicros.trans hk.tickMicros
  tickUntil := hk'.tickUntil.trans hk.tickUntil

theorem sameTimes_add (hid : id.OffBus) (k : Kernel) (delta : Count) :
    k.SameTimes (k.add id delta) := by
  refine ⟨?_, rfl, rfl, rfl, rfl⟩
  cases id with
  | user address => exact Machine.sameBus_write hid k.machine _
  | device | clock => exact .refl k.machine

theorem SameClocks.sameTimes (hk : k.SameClocks k') : k.SameTimes k' where
  bus := hk.machine ▸ .refl k.machine
  config := hk.config
  chargedUntil := hk.chargedUntil
  tickMicros := hk.tickMicros
  tickUntil := hk.tickUntil

/-- No time has passed. The time up to which the running process has been charged matters only while
a process runs. -/
structure Timeless (k k' : Kernel) : Prop where
  bus : k.machine.SameBus k'.machine
  config : k'.config = k.config
  tickMicros : k'.tickMicros = k.tickMicros
  tickUntil : k'.tickUntil = k.tickUntil
  lastPid : k.lastPid ≤ k'.lastPid
  running : ∀ h, k'.current = some h →
    k.current = some h ∧ k.SameBill h k' ∧ k'.chargedUntil = k.chargedUntil
  alive : ∀ g, k'.processes.isUsed g = true →
    (k.processes.isUsed g = true ∧ k.SameBill g k') ∨ k.NewBill g k'
  vacant : k.Vacant → k'.Vacant

theorem SameBill.refl (k : Kernel) (g : Slot) : k.SameBill g k := ⟨rfl, rfl, rfl⟩

theorem SameBill.trans (hk : k.SameBill g k') (hk' : k'.SameBill g k'') : k.SameBill g k'' :=
  ⟨hk'.pid.trans hk.pid, hk'.usedTime.trans hk.usedTime, hk'.quantumTime.trans hk.quantumTime⟩

namespace Timeless

theorem refl (k : Kernel) : k.Timeless k where
  bus := .refl k.machine
  config := rfl
  tickMicros := rfl
  tickUntil := rfl
  lastPid := UInt32.le_refl _
  running h hh := ⟨hh, .refl k h, rfl⟩
  alive g hg := .inl ⟨hg, .refl k g⟩
  vacant hk := hk

theorem trans (hk : k.Timeless k') (hk' : k'.Timeless k'') : k.Timeless k'' where
  bus := hk.bus.trans hk'.bus
  config := hk'.config.trans hk.config
  tickMicros := hk'.tickMicros.trans hk.tickMicros
  tickUntil := hk'.tickUntil.trans hk.tickUntil
  lastPid := UInt32.le_trans hk.lastPid hk'.lastPid
  running h hh := by
    obtain ⟨hh', hbill', hcharged'⟩ := hk'.running h hh
    obtain ⟨hh, hbill, hcharged⟩ := hk.running h hh'
    exact ⟨hh, hbill.trans hbill', hcharged'.trans hcharged⟩
  alive g hg := by
    rcases hk'.alive g hg with ⟨hg', hbill'⟩ | hnew
    · rcases hk.alive g hg' with ⟨hg, hbill⟩ | hnew
      · exact .inl ⟨hg, hbill.trans hbill'⟩
      · exact .inr ⟨hbill'.pid ▸ hnew.pid, hbill'.usedTime.trans hnew.usedTime,
          hbill'.quantumTime.trans hnew.quantumTime⟩
    · exact .inr ⟨UInt32.lt_of_le_of_lt hk.lastPid hnew.pid, hnew.usedTime, hnew.quantumTime⟩
  vacant hv := hk'.vacant (hk.vacant hv)

/-- Kernels with the same books and the same bills. -/
theorem of_sameBooks (hk : k.SameBooks k') (ht : k.SameTimes k')
    (hbill : ∀ g, k.SameBill g k') : k.Timeless k' where
  bus := ht.bus
  config := ht.config
  tickMicros := ht.tickMicros
  tickUntil := ht.tickUntil
  lastPid := hk.lastPid ▸ UInt32.le_refl _
  running h hh := ⟨hk.current ▸ hh, hbill h, ht.chargedUntil⟩
  alive g hg := .inl ⟨hk.isUsed g ▸ hg, hbill g⟩
  vacant hv := by
    unfold Vacant
    rw [hk.waits]
    exact hv

theorem setMachine {machine : Machine} (hbus : k.machine.SameBus machine) :
    k.Timeless { k with machine } :=
  of_sameBooks (Alike.setMachine k machine).toSameBooks ⟨hbus, rfl, rfl, rfl, rfl⟩
    fun _ => ⟨rfl, rfl, rfl⟩

theorem add (hid : id.OffBus) (k : Kernel) (delta : Count) : k.Timeless (k.add id delta) :=
  of_sameBooks (Alike.add k id delta).toSameBooks (sameTimes_add hid k delta)
    fun _ => ⟨rfl, rfl, rfl⟩

/-- A change of a descriptor that leaves its entry and its times alone. -/
theorem modify {f : Descriptor → Descriptor} (hf : ∀ d : Descriptor, d.SameEntry (f d))
    (htimes : ∀ d : Descriptor, (f d).usedTime = d.usedTime ∧ (f d).quantumTime = d.quantumTime)
    (k : Kernel) (h : Slot) : k.Timeless (k.modify h f) := by
  refine of_sameBooks (.modify hf) ⟨.refl k.machine, rfl, rfl, rfl, rfl⟩ fun g => ?_
  have hget : (k.modify h f).processes.get g =
      if h = g then f (k.processes.get g) else k.processes.get g := by
    simp only [Kernel.modify, ProcessTable.get_modify]
    split
    · rename_i heq
      rw [heq]
    · rfl
  refine ⟨?_, ?_, ?_⟩
  · unfold Kernel.pidAt
    rw [hget]
    split
    · exact (hf _).pid
    · rfl
  · rw [hget]
    split
    · exact (htimes _).1
    · rfl
  · rw [hget]
    split
    · exact (htimes _).2
    · rfl

theorem setState (k : Kernel) (h : Slot) (state : ProcessorState) :
    k.Timeless (k.modify h ({ · with state })) :=
  modify (f := ({ · with state })) (fun _ => ⟨rfl, rfl, rfl, rfl, rfl⟩) (fun _ => ⟨rfl, rfl⟩) k h

theorem giveResult (k : Kernel) (h : Slot) (value : Word) : k.Timeless (k.giveResult h value) :=
  modify (f := (·.withResult value)) (fun _ => ⟨rfl, rfl, rfl, rfl, rfl⟩) (fun _ => ⟨rfl, rfl⟩) k h

end Timeless

/-- A deed that takes no time leaves the bills of those who survive it alone. -/
theorem Leads.sameBill {deed : Deed} (h : k.Leads deed k') (hd : deed.IsTimeless)
    (hg : k.processes.isUsed g = true) (hg' : k'.processes.isUsed g = true) : k.SameBill g k' := by
  have hcontext := h.context hg hg'
  obtain ⟨htime, hquantum⟩ := deed.times_act hd g (k.contextAt g)
  exact ⟨(congrArg Context.pid hcontext).trans (deed.pid_act g _),
    (congrArg Context.usedTime hcontext).trans htime,
    (congrArg Context.quantumTime hcontext).trans hquantum⟩

theorem Leads.vacant {deed : Deed} (h : k.Leads deed k') (hd : deed.IsTimeless)
    (hv : k.Vacant) : k'.Vacant := by
  intro address haddress
  have hempty := hv address haddress
  cases h with
  | world hk => rw [hk.room]; exact hempty
  | @block _ id _ hh hm hw =>
    have hne : Place.waitList (.user address) ≠ .waitList id := fun heq => by
      obtain rfl := Place.waitList.inj heq
      exact hd haddress
    exact (hm.others (.waitList (.user address)) Place.noConfusion hne).trans hempty
  | @wake _ id _ _ hq hm hw =>
    have hne : Place.waitList (.user address) ≠ .waitList id := fun heq => by
      obtain rfl := Place.waitList.inj heq
      cases hempty.symm.trans hq
    exact (hm.others (.waitList (.user address)) hne Place.noConfusion).trans hempty
  | enroll hlast he hl hw => rw [he.waits]; exact hempty
  | retire hh hchildren hr hs =>
    have herase := hr.standing (.waitList (.user address))
    change _ = (k.waits.waiting (.user address)).erase _ at herase
    rw [hempty] at herase
    exact herase
  | _ => exact hempty

/-- A deed takes no time if it changes no times, and a new process has used none. -/
theorem Leads.timeless {deed : Deed} (h : k.Leads deed k') (hk : k.Accounted)
    (hd : deed.IsTimeless) (ht : k.SameTimes k')
    (hnew : ∀ h parent, deed = .enroll h parent →
      (k'.processes.get h).usedTime = 0 ∧ (k'.processes.get h).quantumTime = 0) :
    k.Timeless k' where
  bus := ht.bus
  config := ht.config
  tickMicros := ht.tickMicros
  tickUntil := ht.tickUntil
  lastPid := h.lastPid_le
  running g hg := by
    have hcurrent : k.current = some g := by
      rcases h.current (fun h' heq => by subst heq; exact hd) with heq | hnone
      · exact heq ▸ hg
      · cases hnone.symm.trans hg
    have hused' := (hk.leads h).used_of_current hg
    exact ⟨hcurrent, h.sameBill hd (hk.used_of_current hcurrent) hused', ht.chargedUntil⟩
  alive g hg := by
    cases hused : k.processes.isUsed g with
    | true => exact .inl ⟨rfl, h.sameBill hd hused hg⟩
    | false =>
      obtain ⟨rfl, hpid⟩ := h.of_new hused hg
      obtain ⟨htime, hquantum⟩ := hnew g _ rfl
      refine .inr ⟨?_, htime, hquantum⟩
      cases h with
      | enroll hlast he hl hw =>
        rw [hpid]
        exact (Word.succ_of_ne hlast).2
  vacant := h.vacant hd

/-! ## Calm actions -/

/-- The action takes no time, keeps the books, and reports nothing that has to do with time. -/
def Calm (k : Kernel) (o : Outcome Kernel α) : Prop :=
  o.Tells (fun _ k' log => k.Timeless k' ∧ k'.Accounted ∧ Quiet log)
    fun _ k' log => k.Timeless k' ∧ Quiet log

namespace Calm

/-- What follows something that takes no time and reports nothing that has to do with it. -/
theorem following {o : Outcome Kernel α} {log : List Notice} (ho : Calm k' o) (hk : k.Timeless k')
    (hquiet : Quiet log) :
    o.Tells (fun _ k'' rest => k.Timeless k'' ∧ k''.Accounted ∧ Quiet (log ++ rest))
      fun _ k'' rest => k.Timeless k'' ∧ Quiet (log ++ rest) := by
  refine Tells.mono ho ?_ ?_
  · rintro _ k'' rest ⟨htime, hk'', hrest⟩
    exact ⟨hk.trans htime, hk'', hquiet.append hrest⟩
  · rintro _ k'' rest ⟨htime, hrest⟩
    exact ⟨hk.trans htime, hquiet.append hrest⟩

theorem of_timeless {o : Outcome Kernel α} (hk : k.Timeless k') (ho : Calm k' o) : Calm k o :=
  ho.following hk quiet_nil

theorem bind {x : Action Kernel α} {f : α → Action Kernel β} (hx : Calm k (x k))
    (hf : ∀ a k', k.Timeless k' → k'.Accounted → Calm k' (f a k')) : Calm k ((x >>= f) k) := by
  refine Action.tells_bind.2 (Tells.mono hx ?_ fun _ _ _ h => h)
  rintro a k₁ log ⟨htime, hk₁, hquiet⟩
  exact (hf a k₁ htime hk₁).following htime hquiet

theorem discard {x : Action Kernel α} (hx : Calm k (x k)) :
    Calm k ((Functor.discard x : Action Kernel Unit) k) := Action.tells_discard.2 hx

/-- Nothing happens. -/
theorem pure (hk : k.Accounted) (a : α) : Calm k ((Pure.pure a : Action Kernel α) k) :=
  ⟨.refl k, hk, quiet_nil⟩

theorem fail (cause : Fault) : Calm k ((Action.fail cause : Action Kernel α) k) :=
  ⟨.refl k, quiet_nil⟩

theorem note {notice : Notice} (hk : k.Accounted) (h : notice.isBeat = false) :
    Calm k (Action.note notice k) := ⟨.refl k, hk, quiet_singleton h⟩

theorem note_bind {notice : Notice} {f : Unit → Action Kernel α}
    (h : notice.isBeat = false) (hf : Calm k (f () k)) :
    Calm k ((Action.note notice >>= f) k) := by
  rw [Action.note_bind_apply]
  exact tells_after.2 (hf.following (.refl k) (quiet_singleton h))

theorem change {f : Kernel → Kernel} (hk : k.Timeless (f k)) (hf : (f k).Accounted) :
    Calm k (Action.change f k) := ⟨hk, hf, quiet_nil⟩

theorem attempt {f : Kernel → Except Abort Kernel}
    (h : ∀ k', f k = .ok k' → k.Timeless k' ∧ k'.Accounted) : Calm k (Action.attempt f k) :=
  Action.tells_attempt fun k' hk' => ⟨(h k' hk').1, (h k' hk').2, quiet_nil⟩

theorem check (hk : k.Accounted) (x : Except Abort α) : Calm k (Action.check x k) :=
  Action.tells_check fun _ _ => ⟨.refl k, hk, quiet_nil⟩

end Calm

end Kernel

end Nucleus
