import Nucleus.Proofs.Kernel.Frame

/-!
# Deeds

All that the nucleus does is composed of a few kinds of deeds. `Kernel.Leads` says once what each of
them does, and a `Kernel.Course` is a sequence of them. So what one deed keeps, a course keeps: the
books (`Course.accounted`), and of the processes that survive it their pid, their parent, and the
rest of their context but for what the deeds say about it (`Leads.context`).
-/

namespace Nucleus

/-- A process comes to a place, or is gone for good. -/
structure Move where
  pid : Pid
  place : Option Place
  deriving DecidableEq

/-- The move that a notice reports. -/
def Notice.move? : Notice → Option Move
  | created pid _ | woke pid _ | quantumExpired pid => some ⟨pid, some .ready⟩
  | blocked pid id => some ⟨pid, some (.waitList id)⟩
  | dispatching pid => some ⟨pid, some .processor⟩
  | terminated pid => some ⟨pid, none⟩
  | resuming _ | idle _ | nothingLeft | stuck _ | passedUp _ _ | unhandled _ _ | poolExhausted
  | secondHandler _ _ | strayInterrupt _ | clockTick | emptyBitmap _ | nothingCompleted _
  | boot _ => none

/-- The moves that notices report, in order. -/
def moves (log : List Notice) : List Move := log.filterMap Notice.move?

@[simp] theorem moves_append (log log' : List Notice) :
    moves (log ++ log') = moves log ++ moves log' := List.filterMap_append

/-- What a descriptor keeps for its process, whatever place that is at. -/
structure Context where
  pid : Pid
  parent : Option Slot
  state : ProcessorState
  usedTime : Word
  quantumTime : Word
  handlers : Table ExceptionClass.count (Option Handler)
  announced : Table ExceptionClass.count Word
  deriving DecidableEq

/-- The context of the process with a descriptor. -/
def Descriptor.context (d : Descriptor) : Context where
  pid := d.pid
  parent := d.parent
  state := d.state
  usedTime := d.usedTime
  quantumTime := d.quantumTime
  handlers := d.handlers
  announced := d.announced

/-- What the nucleus can do in one piece. -/
inductive Deed where
  /-- The machine, the value of a semaphore or a time changes. -/
  | world
  /-- A status is latched. -/
  | latch (d : Device) (status : Word)
  /-- The running process gets another saved state. -/
  | save (h : Slot) (state : ProcessorState)
  /-- A process gets a result. -/
  | result (h : Slot) (value : Word)
  /-- The running process is charged. -/
  | charge (h : Slot) (micros : Word)
  /-- The running process changes its handlers. -/
  | announce (h : Slot) (handlers : Table ExceptionClass.count (Option Handler))
      (announced : Table ExceptionClass.count Word)
  /-- The running process is queued on a semaphore. -/
  | block (h : Slot) (id : SemaphoreId)
  /-- The oldest waiter of a semaphore becomes ready. -/
  | wake (h : Slot) (id : SemaphoreId)
  /-- The running process becomes ready. -/
  | expire (h : Slot)
  /-- The first ready process gets the processor and a new quantum. -/
  | dispatch (h : Slot)
  /-- A new process becomes ready. -/
  | enroll (h : Slot) (parent : Option Slot)
  /-- A process without children is removed. -/
  | retire (h : Slot)

/-- Whether a deed changes the handlers of a process. -/
def Deed.announces : Deed → Bool
  | announce _ _ _ => true
  | world | latch _ _ | save _ _ | result _ _ | charge _ _ | block _ _ | wake _ _ | expire _
  | dispatch _ | enroll _ _ | retire _ => false

/-- What a deed makes of the context of the process in slot `g`. -/
def Deed.act (g : Slot) : Deed → Context → Context
  | save h state, c => if h = g then { c with state } else c
  | result h value, c => if h = g then { c with state := c.state.withResult value } else c
  | charge h micros, c =>
    if h = g then
      { c with
        usedTime := c.usedTime + micros
        quantumTime := Word.saturatingAdd c.quantumTime micros }
    else c
  | announce h handlers announced, c => if h = g then { c with handlers, announced } else c
  | dispatch h, c => if h = g then { c with quantumTime := 0 } else c
  | world, c | latch _ _, c | block _ _, c | wake _ _, c | expire _, c | enroll _ _, c
  | retire _, c => c

@[simp] theorem Deed.pid_act (g : Slot) (deed : Deed) (c : Context) :
    (deed.act g c).pid = c.pid := by
  cases deed <;> simp only [act] <;> split <;> rfl

@[simp] theorem Deed.parent_act (g : Slot) (deed : Deed) (c : Context) :
    (deed.act g c).parent = c.parent := by
  cases deed <;> simp only [act] <;> split <;> rfl

namespace Kernel

variable {k k' k'' : Kernel} {h g : Slot} {deed : Deed} {allowed allowed' : Deed → Prop}
  {ms ms' : List Move}

/-- The context of the process in a slot. -/
def contextAt (k : Kernel) (g : Slot) : Context := (k.processes.get g).context

/-- Two kernels agree on the processes, their queues and the latched statuses. -/
structure SameProcesses (k k' : Kernel) : Prop where
  room : k'.toWaitRoom = k.toWaitRoom
  ready : k'.ready = k.ready
  pids : k'.pids = k.pids
  current : k'.current = k.current
  liveCount : k'.liveCount = k.liveCount
  softCount : k'.softCount = k.softCount
  lastPid : k'.lastPid = k.lastPid
  statuses : k'.values.statuses = k.values.statuses

theorem SameProcesses.alike (hk : k.SameProcesses k') : k.Alike k' :=
  .of_eq hk.room hk.ready hk.pids hk.current hk.liveCount hk.softCount hk.lastPid

theorem SameProcesses.trans (hk : k.SameProcesses k') (hk' : k'.SameProcesses k'') :
    k.SameProcesses k'' where
  room := hk'.room.trans hk.room
  ready := hk'.ready.trans hk.ready
  pids := hk'.pids.trans hk.pids
  current := hk'.current.trans hk.current
  liveCount := hk'.liveCount.trans hk.liveCount
  softCount := hk'.softCount.trans hk.softCount
  lastPid := hk'.lastPid.trans hk.lastPid
  statuses := hk'.statuses.trans hk.statuses

theorem sameProcesses_setMachine (k : Kernel) (machine : Machine) :
    k.SameProcesses { k with machine } := ⟨rfl, rfl, rfl, rfl, rfl, rfl, rfl, rfl⟩

theorem sameProcesses_gatherTick (k : Kernel) : k.SameProcesses k.gatherTick :=
  ⟨rfl, rfl, rfl, rfl, rfl, rfl, rfl, rfl⟩

/-- The process `h` is the child of `parent`, if that is one, and the others have kept all but their
children. -/
structure Linking (k : Kernel) (h : Slot) (parent : Option Slot) (k' : Kernel) : Prop where
  parent : (k'.processes.get h).parent = parent
  others : ∀ g, h ≠ g →
    ∃ children, k'.processes.get g = { k.processes.get g with children }

/-- What a deed does. -/
inductive Leads (k : Kernel) : Deed → Kernel → Prop
  | world {k' : Kernel} (hk : k.SameProcesses k') : Leads k .world k'
  | latch (d : Device) (status : Word) :
    Leads k (.latch d status) { k with values := k.values.latch d status }
  | save {h : Slot} (hh : k.current = some h) (state : ProcessorState) :
    Leads k (.save h state) (k.modify h ({ · with state }))
  | result {h : Slot} (hh : k.processes.isUsed h = true) (value : Word) :
    Leads k (.result h value) (k.giveResult h value)
  | charge {h : Slot} (hh : k.current = some h) (micros : Word) :
    Leads k (.charge h micros) (k.modify h (·.charge micros))
  | announce {h : Slot} (hh : k.current = some h)
    (handlers : Table ExceptionClass.count (Option Handler))
    (announced : Table ExceptionClass.count Word) :
    Leads k (.announce h handlers announced) (k.modify h ({ · with handlers, announced }))
  | block {h : Slot} {id : SemaphoreId} {k' : Kernel} (hh : k.current = some h)
    (hm : k.Moved h .processor (.waitList id) k') (hw : k.SameWorld k') : Leads k (.block h id) k'
  | wake {h : Slot} {id : SemaphoreId} {rest : List Slot} {k' : Kernel}
    (hq : k.waits.waiting id = h :: rest) (hm : k.Moved h (.waitList id) .ready k')
    (hw : k.SameWorld k') : Leads k (.wake h id) k'
  | expire {h : Slot} (hh : k.current = some h) :
    Leads k (.expire h) { k with current := none, ready := ⟨k.ready.items ++ [h]⟩ }
  | dispatch {h : Slot} {rest : Queue Slot} (hcurrent : k.current = none)
    (hready : k.ready.items = h :: rest.items) :
    Leads k (.dispatch h)
      ({ k with ready := rest, current := some h }.modify h ({ · with quantumTime := 0 }))
  | enroll {h : Slot} {parent : Option Slot} {k' : Kernel} (hlast : k.lastPid ≠ Word.allOnes)
    (he : k.Enrolled h (k.lastPid + 1) k') (hl : k.Linking h parent k') (hw : k.SameWorld k') :
    Leads k (.enroll h parent) k'
  | retire {h : Slot} {k' : Kernel} (hh : k.processes.isUsed h = true)
    (hchildren : k.processes.children h = []) (hr : k.Retired h k')
    (hs : k'.values.statuses = k.values.statuses) : Leads k (.retire h) k'

/-- The move that a deed is. -/
def moveOf (k : Kernel) : Deed → Option Move
  | .block h id => some ⟨k.pidAt h, some (.waitList id)⟩
  | .wake h _ | .expire h => some ⟨k.pidAt h, some .ready⟩
  | .dispatch h => some ⟨k.pidAt h, some .processor⟩
  | .enroll _ _ => some ⟨k.lastPid + 1, some .ready⟩
  | .retire h => some ⟨k.pidAt h, none⟩
  | .world | .latch _ _ | .save _ _ | .result _ _ | .charge _ _ | .announce _ _ _ => none

/-- A sequence of deeds of permitted kinds, and the moves among them. -/
inductive Course (allowed : Deed → Prop) : Kernel → List Move → Kernel → Prop
  | refl (k : Kernel) : Course allowed k [] k
  | cons {k k' k'' : Kernel} {deed : Deed} {ms : List Move} (hd : allowed deed)
    (h : k.Leads deed k') (hc : Course allowed k' ms k'') :
    Course allowed k ((k.moveOf deed).toList ++ ms) k''

namespace Course

theorem single (hd : allowed deed) (h : k.Leads deed k') :
    Course allowed k (k.moveOf deed).toList k' :=
  List.append_nil (k.moveOf deed).toList ▸ .cons hd h (.refl k')

theorem append (hc : Course allowed k ms k') (hc' : Course allowed k' ms' k'') :
    Course allowed k (ms ++ ms') k'' := by
  induction hc with
  | refl => exact hc'
  | cons hd h _ ih =>
    rw [List.append_assoc]
    exact .cons hd h (ih hc')

/-- A deed that is no move. -/
theorem quiet (deed : Deed) (hd : allowed deed) (h : k.Leads deed k')
    (hm : k.moveOf deed = none) : Course allowed k [] k' := by
  have hc := single hd h
  rwa [hm] at hc

theorem mono (hc : Course allowed k ms k') (himp : ∀ deed, allowed deed → allowed' deed) :
    Course allowed' k ms k' := by
  induction hc with
  | refl k => exact .refl k
  | cons hd h _ ih => exact .cons (himp _ hd) h ih

/-- A change of the machine, of values or of times. -/
theorem world (hd : allowed .world) (hk : k.SameProcesses k') : Course allowed k [] k' :=
  single hd (.world hk)

/-- A property of kernels that the deeds of a course keep. -/
theorem induction {P : Kernel → Prop} (hc : Course allowed k ms k') (hk : P k)
    (hstep : ∀ {k deed k'}, P k → allowed deed → k.Leads deed k' → P k') : P k' := by
  induction hc with
  | refl => exact hk
  | cons hd h _ ih => exact ih (hstep hk hd h)

end Course

/-! ## The books -/

theorem Accounted.leads (hk : k.Accounted) (h : k.Leads deed k') : k'.Accounted := by
  cases h with
  | world hsame => exact hk.congr hsame.alike.toSameBooks
  | latch d status =>
    have hsame : k.Alike { k with values := k.values.latch d status } :=
      .of_eq rfl rfl rfl rfl rfl rfl rfl
    exact hk.congr hsame.toSameBooks
  | save hh state => exact hk.congr (Alike.setState k _ state).toSameBooks
  | result hh value => exact hk.congr (Alike.giveResult k _ value).toSameBooks
  | charge hh micros => exact hk.congr (.modify fun _ => ⟨rfl, rfl, rfl, rfl, rfl⟩)
  | announce hh handlers announced => exact hk.congr (.modify fun _ => ⟨rfl, rfl, rfl, rfl, rfl⟩)
  | block hh hm hw => exact hk.moved (hk.at_processor hh) Place.noConfusion hm
  | wake hq hm hw =>
    have hmem : _ ∈ k.waits.waiting _ := hq ▸ List.mem_cons_self
    exact hk.moved (hk.at_of_mem (p := .waitList _) hmem) Place.noConfusion hm
  | expire hh => exact hk.moved (hk.at_processor hh) Place.noConfusion (moved_of_expiry hk hh)
  | dispatch hcurrent hready =>
    have hmem : _ ∈ k.ready.items := hready ▸ List.mem_cons_self
    have hmoved := hk.moved (hk.at_of_mem (p := .ready) hmem) Place.noConfusion
      (moved_of_dispatch hk hcurrent hready)
    exact hmoved.congr (.modify fun _ => ⟨rfl, rfl, rfl, rfl, rfl⟩)
  | enroll hlast he hl hw =>
    obtain ⟨-, hpos, hlater⟩ := hk.pidAt_lt_succ hlast
    exact hk.enrolled he hpos hlater
  | retire hh hchildren hr hs => exact hk.retired hh hchildren hr

theorem Course.accounted (hc : Course allowed k ms k') (hk : k.Accounted) : k'.Accounted :=
  hc.induction hk fun hk _ h => hk.leads h

/-! ## Who lives -/

namespace Leads

/-- Only removing a process frees a slot. -/
theorem used_after (h : k.Leads deed k') (hd : ∀ h, deed ≠ .retire h)
    (hg : k.processes.isUsed g = true) : k'.processes.isUsed g = true := by
  cases h with
  | world hsame => rw [hsame.room]; exact hg
  | block hh hm hw => rw [hm.isUsed]; exact hg
  | wake hq hm hw => rw [hm.isUsed]; exact hg
  | enroll hlast he hl hw => rw [he.used_iff (he.ne_of_used hg)]; exact hg
  | retire => exact absurd rfl (hd _)
  | _ => exact hg

/-- Only a new process takes a slot. -/
theorem used_before (h : k.Leads deed k') (hd : ∀ h parent, deed ≠ .enroll h parent)
    (hg : k'.processes.isUsed g = true) : k.processes.isUsed g = true := by
  cases h with
  | world hsame => rw [hsame.room] at hg; exact hg
  | block hh hm hw => rw [hm.isUsed] at hg; exact hg
  | wake hq hm hw => rw [hm.isUsed] at hg; exact hg
  | enroll => exact absurd rfl (hd _ _)
  | retire hh hchildren hr hs => exact (hr.used_iff.1 hg).1
  | _ => exact hg

/-- A deed does to the context of a process that survives it what it says. -/
theorem context (h : k.Leads deed k') (hg : k.processes.isUsed g = true)
    (hg' : k'.processes.isUsed g = true) : k'.contextAt g = deed.act g (k.contextAt g) := by
  have hmodify : ∀ {h : Slot} {f : Descriptor → Descriptor},
      (k.modify h f).contextAt g =
        if h = g then (f (k.processes.get g)).context else k.contextAt g := by
    intro h f
    simp only [contextAt, modify, ProcessTable.get_modify]
    split
    · rename_i heq
      rw [heq]
    · rfl
  cases h with
  | world hsame => simp only [contextAt, hsame.room, Deed.act]
  | latch | expire => rfl
  | save | result | charge | announce => exact hmodify
  | block hh hm hw | wake hq hm hw =>
    simp only [contextAt, hm.descriptor, Deed.act]
    split
    · rename_i heq
      rw [heq]
      rfl
    · rfl
  | dispatch hcurrent hready =>
    simp only [contextAt, modify, ProcessTable.get_modify, Deed.act]
    split
    · rename_i heq
      rw [heq]
      rfl
    · rfl
  | enroll hlast he hl hw =>
    obtain ⟨children, hget⟩ := hl.others g (he.ne_of_used hg)
    simp only [contextAt, hget, Deed.act]
    rfl
  | retire hh hchildren hr hs =>
    obtain ⟨-, hne⟩ := hr.used_iff.1 hg'
    simp only [contextAt, hr.kept g hg hne, Deed.act]
    rfl

/-- Whoever takes a slot is created in it, with the next pid. -/
theorem of_new (h : k.Leads deed k') (hg : k.processes.isUsed g = false)
    (hg' : k'.processes.isUsed g = true) :
    deed = .enroll g (k'.processes.get g).parent ∧ k'.pidAt g = k.lastPid + 1 := by
  by_cases hd : ∀ h parent, deed ≠ .enroll h parent
  · exact absurd (hg.symm.trans (h.used_before hd hg')) Bool.false_ne_true
  · push Not at hd
    obtain ⟨h', parent, rfl⟩ := hd
    cases h with
    | enroll hlast he hl hw =>
      have heq : h' = g := by
        by_contra hne
        rw [he.used_iff hne] at hg'
        exact Bool.false_ne_true (hg.symm.trans hg')
      subst heq
      exact ⟨by rw [hl.parent], he.grown.pid⟩

end Leads

end Kernel

end Nucleus
