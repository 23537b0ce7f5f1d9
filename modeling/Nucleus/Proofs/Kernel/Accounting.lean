import Nucleus.Kernel.Basic
import Nucleus.Proofs.Process.Family
import Nucleus.Proofs.Process.PidIndex
import Nucleus.Proofs.Semaphore.WaitRoom

/-!
# The books of the nucleus

A live process stands at exactly one place: on the processor, in the ready queue, or in the wait
list of one semaphore. `Kernel.Accounted` is the invariant that the queues, the pid index, the
process tree and the two counters agree on who is alive and where; it depends only on what
`Kernel.SameBooks` compares.
-/

namespace Nucleus

/-- What a process waits for while it is queued on a semaphore. -/
def SemaphoreId.waitKind : SemaphoreId → WaitKind
  | device _ => .device
  | clock => .clock
  | user _ => .semaphore

/-- Where a live process can be. -/
inductive Place where
  /-- It is running. -/
  | processor
  /-- It waits for the processor. -/
  | ready
  /-- It waits on a semaphore. -/
  | waitList (id : SemaphoreId)
  deriving DecidableEq

namespace Place

/-- The semaphore that a process at a place records. -/
def mark : Place → Option SemaphoreId
  | waitList id => some id
  | processor | ready => none

/-- What a process at a place waits for. -/
def wait : Place → WaitKind
  | waitList id => id.waitKind
  | processor | ready => .none

end Place

namespace Descriptor

/-- Two descriptors enter the same into the books. -/
structure SameEntry (d e : Descriptor) : Prop where
  pid : e.pid = d.pid
  parent : e.parent = d.parent
  children : e.children = d.children
  waitsOn : e.waitsOn = d.waitsOn
  wait : e.wait = d.wait

/-- Two descriptors have the same handlers. -/
structure SameHandlers (d e : Descriptor) : Prop where
  handlers : e.handlers = d.handlers
  announced : e.announced = d.announced

theorem SameHandlers.refl (d : Descriptor) : d.SameHandlers d := ⟨rfl, rfl⟩

theorem SameHandlers.handler {d e : Descriptor} (h : d.SameHandlers e) (c : ExceptionClass) :
    e.handler c = d.handler c := by
  simp only [Descriptor.handler, h.handlers]

/-- For each class of exceptions the process has announced no handler, or one that stands in its
descriptor. -/
def Registered (d : Descriptor) : Prop :=
  ∀ c : ExceptionClass, (d.announced.get c.place = 0 ∧ d.handler c = none) ∨
    (d.announced.get c.place = 1 ∧ (d.handler c).isSome = true)

theorem registered_blank : blank.Registered := fun c =>
  .inl ⟨Table.get_fill 0 c.place, Table.get_fill none c.place⟩

theorem Registered.congr {d e : Descriptor} (hd : d.Registered) (h : d.SameHandlers e) :
    e.Registered := fun c => by
  rw [h.handler, h.announced]
  exact hd c

end Descriptor

namespace Kernel

variable {k k' k'' : Kernel} {h g : Slot} {p q : Place} {pid : Pid}

/-- The processes at a place. -/
def standing (k : Kernel) : Place → List Slot
  | .processor => k.current.toList
  | .ready => k.ready.items
  | .waitList id => k.waits.waiting id

/-- A process stands at one place and nowhere else, and its descriptor says so. -/
structure At (k : Kernel) (h : Slot) (p : Place) : Prop where
  count : ∀ q, (k.standing q).count h = if q = p then 1 else 0
  mark : (k.processes.get h).waitsOn = p.mark
  wait : (k.processes.get h).wait = p.wait

/-- The pid index pairs the pids of the live processes, which are all different, with their
slots. -/
structure Indexed (k : Kernel) : Prop where
  nodup : (k.pids.toList.map Prod.fst).Nodup
  mem_iff : ∀ {pid h}, (pid, h) ∈ k.pids.toList ↔ k.processes.isUsed h = true ∧ k.pidAt h = pid
  positive : ∀ {h}, k.processes.isUsed h = true → 0 < k.pidAt h
  le_last : ∀ {h}, k.processes.isUsed h = true → k.pidAt h ≤ k.lastPid

/-- The books agree on who is alive and where. -/
structure Accounted (k : Kernel) : Prop where
  table : k.processes.Valid
  waits : k.waits.Valid
  linked : k.processes.Linked
  indexed : k.Indexed
  /-- A live process stands at one place. -/
  placed : ∀ {h}, k.processes.isUsed h = true → ∃ p, k.At h p
  /-- Nobody else stands anywhere. -/
  absent : ∀ {h}, k.processes.isUsed h = false → ∀ p, h ∉ k.standing p
  live : k.liveCount.toNat = countSlots k.processes.isUsed
  soft : k.softCount.toNat =
    countSlots fun h => k.processes.isUsed h && (k.processes.get h).wait.isSoft

/-- The invariant of the nucleus. -/
structure Sound (k : Kernel) : Prop extends Accounted k where
  registered : ∀ {h}, k.processes.isUsed h = true → (k.processes.get h).Registered

/-! ## Kernels with the same books -/

/-- Two kernels agree on who is alive and where: they may differ in the machine, in the values of
semaphores, in times, and in what a descriptor keeps for the process itself. -/
structure SameBooks (k k' : Kernel) : Prop where
  inUse : k'.processes.inUse = k.processes.inUse
  free : k'.processes.free = k.processes.free
  entry : ∀ h, (k.processes.get h).SameEntry (k'.processes.get h)
  waits : k'.waits = k.waits
  ready : k'.ready = k.ready
  pids : k'.pids = k.pids
  current : k'.current = k.current
  liveCount : k'.liveCount = k.liveCount
  softCount : k'.softCount = k.softCount
  lastPid : k'.lastPid = k.lastPid

/-- Two kernels have the same books, and their processes the same handlers. -/
structure Alike (k k' : Kernel) : Prop extends SameBooks k k' where
  handlers : ∀ h, (k.processes.get h).SameHandlers (k'.processes.get h)

namespace SameBooks

theorem isUsed (hk : k.SameBooks k') (h : Slot) :
    k'.processes.isUsed h = k.processes.isUsed h := by
  simp only [ProcessTable.isUsed, hk.inUse]

theorem pidAt (hk : k.SameBooks k') (h : Slot) : k'.pidAt h = k.pidAt h := (hk.entry h).pid

theorem standing (hk : k.SameBooks k') (p : Place) : k'.standing p = k.standing p := by
  cases p with
  | processor => exact congrArg Option.toList hk.current
  | ready => exact congrArg Queue.items hk.ready
  | waitList id => exact congrArg (WaitLists.waiting · id) hk.waits

theorem trans (hk : k.SameBooks k') (hk' : k'.SameBooks k'') : k.SameBooks k'' where
  inUse := hk'.inUse.trans hk.inUse
  free := hk'.free.trans hk.free
  entry := fun h =>
    ⟨(hk'.entry h).pid.trans (hk.entry h).pid, (hk'.entry h).parent.trans (hk.entry h).parent,
      (hk'.entry h).children.trans (hk.entry h).children,
      (hk'.entry h).waitsOn.trans (hk.entry h).waitsOn, (hk'.entry h).wait.trans (hk.entry h).wait⟩
  waits := hk'.waits.trans hk.waits
  ready := hk'.ready.trans hk.ready
  pids := hk'.pids.trans hk.pids
  current := hk'.current.trans hk.current
  liveCount := hk'.liveCount.trans hk.liveCount
  softCount := hk'.softCount.trans hk.softCount
  lastPid := hk'.lastPid.trans hk.lastPid

/-- A change of a descriptor that leaves its entry alone. -/
theorem modify {f : Descriptor → Descriptor} (hf : ∀ d : Descriptor, d.SameEntry (f d)) :
    k.SameBooks (k.modify h f) where
  inUse := rfl
  free := rfl
  entry := fun g => by
    simp only [Kernel.modify, ProcessTable.get_modify]
    split
    · rename_i heq
      subst heq
      exact hf _
    · exact ⟨rfl, rfl, rfl, rfl, rfl⟩
  waits := rfl
  ready := rfl
  pids := rfl
  current := rfl
  liveCount := rfl
  softCount := rfl
  lastPid := rfl

theorem at_iff (hk : k.SameBooks k') : k'.At h p ↔ k.At h p := by
  constructor
  · rintro ⟨hcount, hmark, hwait⟩
    refine ⟨fun q => ?_, ?_, ?_⟩
    · rw [← hk.standing]
      exact hcount q
    · rw [← (hk.entry h).waitsOn]
      exact hmark
    · rw [← (hk.entry h).wait]
      exact hwait
  · rintro ⟨hcount, hmark, hwait⟩
    refine ⟨fun q => ?_, ?_, ?_⟩
    · rw [hk.standing]
      exact hcount q
    · rw [(hk.entry h).waitsOn]
      exact hmark
    · rw [(hk.entry h).wait]
      exact hwait

end SameBooks

theorem Indexed.congr (hk : k.Indexed) (hused : ∀ h, k'.processes.isUsed h = k.processes.isUsed h)
    (hpid : ∀ h, k'.pidAt h = k.pidAt h) (hpids : k'.pids = k.pids)
    (hlast : k'.lastPid = k.lastPid) : k'.Indexed where
  nodup := hpids ▸ hk.nodup
  mem_iff := by
    intro pid h
    rw [hused, hpid, hpids]
    exact hk.mem_iff
  positive := fun {h} hh => by
    rw [hused] at hh
    rw [hpid]
    exact hk.positive hh
  le_last := fun {h} hh => by
    rw [hused] at hh
    rw [hpid, hlast]
    exact hk.le_last hh

/-- The invariant depends on the books only. -/
theorem Accounted.congr (ha : k.Accounted) (hk : k.SameBooks k') : k'.Accounted where
  table := ha.table.congr hk.inUse hk.free
  waits := hk.waits ▸ ha.waits
  linked := ha.linked.congr hk.isUsed fun h =>
    ⟨(hk.entry h).pid, (hk.entry h).parent, (hk.entry h).children⟩
  indexed := ha.indexed.congr hk.isUsed hk.pidAt hk.pids hk.lastPid
  placed := fun {h} hh => by
    rw [hk.isUsed] at hh
    obtain ⟨p, hp⟩ := ha.placed hh
    exact ⟨p, hk.at_iff.2 hp⟩
  absent := fun {h} hh p => by
    rw [hk.isUsed] at hh
    rw [hk.standing]
    exact ha.absent hh p
  live := by
    rw [hk.liveCount, ha.live]
    exact countSlots_congr fun h => (hk.isUsed h).symm
  soft := by
    rw [hk.softCount, ha.soft]
    refine countSlots_congr fun h => ?_
    rw [hk.isUsed, (hk.entry h).wait]

namespace Alike

/-- Kernels that differ outside the books and the process table are alike. -/
theorem of_eq (hroom : k'.toWaitRoom = k.toWaitRoom) (hready : k'.ready = k.ready)
    (hpids : k'.pids = k.pids) (hcurrent : k'.current = k.current)
    (hlive : k'.liveCount = k.liveCount) (hsoft : k'.softCount = k.softCount)
    (hlast : k'.lastPid = k.lastPid) : k.Alike k' where
  inUse := by rw [hroom]
  free := by rw [hroom]
  entry := fun h => by
    rw [hroom]
    exact ⟨rfl, rfl, rfl, rfl, rfl⟩
  waits := by rw [hroom]
  ready := hready
  pids := hpids
  current := hcurrent
  liveCount := hlive
  softCount := hsoft
  lastPid := hlast
  handlers := fun h => by
    rw [hroom]
    exact .refl _

theorem refl (k : Kernel) : k.Alike k := of_eq rfl rfl rfl rfl rfl rfl rfl

theorem trans (hk : k.Alike k') (hk' : k'.Alike k'') : k.Alike k'' where
  toSameBooks := hk.toSameBooks.trans hk'.toSameBooks
  handlers := fun h =>
    ⟨(hk'.handlers h).handlers.trans (hk.handlers h).handlers,
      (hk'.handlers h).announced.trans (hk.handlers h).announced⟩

/-- A change of a descriptor that leaves its entry and its handlers alone. -/
theorem modify {f : Descriptor → Descriptor} (hf : ∀ d : Descriptor, d.SameEntry (f d))
    (hf' : ∀ d : Descriptor, d.SameHandlers (f d)) : k.Alike (k.modify h f) where
  toSameBooks := .modify hf
  handlers := fun g => by
    simp only [Kernel.modify, ProcessTable.get_modify]
    split
    · rename_i heq
      subst heq
      exact hf' _
    · exact .refl _

theorem setState (k : Kernel) (h : Slot) (state : ProcessorState) :
    k.Alike (k.modify h ({ · with state })) :=
  modify (fun _ => ⟨rfl, rfl, rfl, rfl, rfl⟩) fun _ => ⟨rfl, rfl⟩

theorem giveResult (k : Kernel) (h : Slot) (value : Word) : k.Alike (k.giveResult h value) :=
  modify (fun _ => ⟨rfl, rfl, rfl, rfl, rfl⟩) fun _ => ⟨rfl, rfl⟩

theorem setMachine (k : Kernel) (machine : Machine) : k.Alike { k with machine } :=
  of_eq rfl rfl rfl rfl rfl rfl rfl

theorem add (k : Kernel) (id : SemaphoreId) (delta : Count) : k.Alike (k.add id delta) :=
  of_eq rfl rfl rfl rfl rfl rfl rfl

end Alike

theorem Sound.congr (hs : k.Sound) (hk : k.Alike k') : k'.Sound where
  toAccounted := hs.toAccounted.congr hk.toSameBooks
  registered := fun {h} hh => by
    rw [hk.isUsed] at hh
    exact (hs.registered hh).congr (hk.handlers h)

/-! ## Reading the invariant -/

namespace At

theorem mem_iff (hp : k.At h p) : h ∈ k.standing q ↔ q = p := by
  rw [← List.count_pos_iff, hp.count]
  split
  · rename_i heq
    exact iff_of_true Nat.one_pos heq
  · rename_i hne
    exact iff_of_false (Nat.lt_irrefl 0) hne

theorem mem (hp : k.At h p) : h ∈ k.standing p := hp.mem_iff.2 rfl

end At

namespace Indexed

theorem lookup_eq_some_iff (hk : k.Indexed) :
    k.pids.lookup pid = some h ↔ k.processes.isUsed h = true ∧ k.pidAt h = pid := by
  rw [PidIndex.lookup_eq_some_iff hk.nodup]
  exact hk.mem_iff

theorem pidAt_injective (hk : k.Indexed) (hh : k.processes.isUsed h = true)
    (hg : k.processes.isUsed g = true) (heq : k.pidAt h = k.pidAt g) : h = g := by
  have hl := hk.lookup_eq_some_iff.2 ⟨hh, heq⟩
  rw [hk.lookup_eq_some_iff.2 ⟨hg, rfl⟩] at hl
  exact (Option.some.inj hl).symm

/-- The index holds a pid for each live process. -/
theorem perm_used (hk : k.Indexed) :
    k.pids.toList.Perm (k.processes.used.map fun h => (k.pidAt h, h)) := by
  have hnodup : (k.processes.used.map fun h => (k.pidAt h, h)).Nodup :=
    k.processes.nodup_used.map fun _ _ heq => (Prod.mk.inj heq).2
  refine (List.perm_ext_iff_of_nodup (List.Nodup.of_map _ hk.nodup) hnodup).2 ?_
  rintro ⟨pid, h⟩
  rw [hk.mem_iff, List.mem_map]
  constructor
  · rintro ⟨hh, rfl⟩
    exact ⟨h, ProcessTable.mem_used.2 hh, rfl⟩
  · rintro ⟨g, hg, heq⟩
    obtain ⟨hpid, rfl⟩ := Prod.mk.inj heq
    exact ⟨ProcessTable.mem_used.1 hg, hpid⟩

theorem length_pids (hk : k.Indexed) : k.pids.length = countSlots k.processes.isUsed := by
  simp only [PidIndex.length, hk.perm_used.length_eq, List.length_map]
  exact k.processes.usedCount_eq

end Indexed

namespace Accounted

theorem used_of_mem (hk : k.Accounted) (hh : h ∈ k.standing p) :
    k.processes.isUsed h = true := by
  cases hused : k.processes.isUsed h with
  | true => rfl
  | false => exact absurd hh (hk.absent hused p)

theorem at_of_mem (hk : k.Accounted) (hh : h ∈ k.standing p) : k.At h p := by
  obtain ⟨q, hq⟩ := hk.placed (hk.used_of_mem hh)
  rw [hq.mem_iff.1 hh]
  exact hq

theorem at_processor (hk : k.Accounted) (hh : k.current = some h) : k.At h .processor := by
  refine hk.at_of_mem (p := .processor) ?_
  simp only [standing, hh]
  exact List.mem_singleton.2 rfl

theorem used_of_current (hk : k.Accounted) (hh : k.current = some h) :
    k.processes.isUsed h = true := by
  refine hk.used_of_mem (p := .processor) ?_
  simp only [standing, hh]
  exact List.mem_singleton.2 rfl

/-- The running process may become a parent. -/
theorem used_of_caller (hk : k.Accounted) (hh : k.current = some h) :
    ∀ p, some h = some p → k.processes.isUsed p = true :=
  fun _ hp => hk.used_of_current (hh.trans hp)

theorem nodup_standing (hk : k.Accounted) (p : Place) : (k.standing p).Nodup := by
  refine List.nodup_iff_count_eq_one.2 fun h hh => ?_
  rw [(hk.at_of_mem hh).count, if_pos rfl]

/-- There is room in the counter of live processes. -/
theorem liveCount_le (hk : k.Accounted) : k.liveCount.toNat ≤ maxProcesses := by
  rw [hk.live]
  exact countSlots_le

theorem softCount_le (hk : k.Accounted) : k.softCount.toNat ≤ maxProcesses := by
  rw [hk.soft]
  exact countSlots_le

/-- A process that waits for a device or the pseudo-clock is counted. -/
theorem softCount_pos (hk : k.Accounted) (hh : k.processes.isUsed h = true)
    (hsoft : (k.processes.get h).wait.isSoft = true) : 0 < k.softCount.toNat := by
  rw [hk.soft]
  exact countSlots_pos_iff.2 ⟨h, by rw [hh, hsoft]; rfl⟩

end Accounted

end Kernel

end Nucleus
