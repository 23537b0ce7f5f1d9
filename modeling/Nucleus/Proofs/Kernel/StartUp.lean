import Nucleus.Proofs.Kernel.Boot
import Nucleus.Proofs.Kernel.Schedule
import Nucleus.Proofs.Machine.Areas

/-!
# What start-up leaves

Start-up is refused if the installed memory reaches past the address space or has no room for a
frame, and for no other reason (`startUp_of_new`). Otherwise each trap finds its handler's state in
its new area, memory is as it was everywhere else, and the nucleus holds one process, which is the
first to get the processor.
-/

namespace Nucleus

namespace TrapVector

variable {v w : TrapVector}

theorem mem_all (v : TrapVector) : v ∈ all := by
  cases v <;> decide

theorem isArea_newArea (v : TrapVector) : Machine.IsArea v.newArea := by
  cases v <;> decide +kernel

/-- The new areas lie 280 bytes from each other and take 140 each. -/
theorem apart_newArea (hne : v ≠ w) : Machine.Apart v.newArea w.newArea := by
  have hsplit : v.newArea.toNat + 4 * 34 < w.newArea.toNat ∨
      w.newArea.toNat + 4 * 34 < v.newArea.toNat := by
    revert hne
    cases v <;> cases w <;> decide
  rcases hsplit with hlt | hlt
  · exact Machine.apart_of_lt hlt
  · exact (Machine.apart_of_lt hlt).symm

end TrapVector

/-! ## Prepared states -/

namespace ProcessorState

/-- In `s` the procedure at `entry` is about to be entered with the stack at `stack`. But for that
and for the status it is `t`. -/
structure Enters (t : ProcessorState) (entry : Word) (stack : Nat) (s : ProcessorState) : Prop where
  pc : s.pc = entry
  t9 : s.reg .t9 = entry
  sp : s.sp.toNat = stack
  reg : ∀ r, r ≠ .t9 → r ≠ .sp → s.reg r = t.reg r
  entryHi : s.entryHi = t.entryHi
  cause : s.cause = t.cause
  hi : s.hi = t.hi
  lo : s.lo = t.lo

/-- It does not matter which of the two registers is set first. -/
theorem withStack_withEntry (t : ProcessorState) (entry stack : Word) :
    (t.withStack stack).withEntry entry = (t.withEntry entry).withStack stack := by
  apply ext_reg
  case reg =>
    intro r
    show ((t.setReg .sp stack).setReg .t9 entry).reg r =
      ((t.setReg .t9 entry).setReg .sp stack).reg r
    rw [reg_setReg, reg_setReg, reg_setReg, reg_setReg]
    by_cases hsp : Register.sp = r
    · subst hsp
      rfl
    · rw [if_neg hsp, if_neg hsp]
  all_goals rfl

theorem enters_withStack (t : ProcessorState) (entry stack status : Word) :
    t.Enters entry stack.toNat { (t.withEntry entry).withStack stack with status } := by
  have hreg : ∀ r, ((t.withEntry entry).withStack stack).reg r =
      if Register.sp = r then stack else if Register.t9 = r then entry else t.reg r := fun r =>
    (reg_setReg _ _ _ _).trans (congrArg _ (reg_setReg t _ _ _))
  exact {
    pc := rfl
    t9 := hreg .t9
    sp := congrArg UInt32.toNat (hreg .sp)
    reg := fun r ht9 hsp =>
      (hreg r).trans ((if_neg (Ne.symm hsp)).trans (if_neg (Ne.symm ht9)))
    entryHi := rfl
    cause := rfl
    hi := rfl
    lo := rfl }

end ProcessorState

/-- The flags without which a trap handler runs. -/
def Status.handlerOff : List Word :=
  [Status.iec, Status.kuc, Status.unmasked, Status.vmc, Status.vmp]

/-- The bits of some flags are off in `after`, and every other one is as in `before`. -/
def Status.Cleared (flags : List Word) (before after : Word) : Prop :=
  ∀ i, after.toBitVec.getLsbD i = true ↔
    before.toBitVec.getLsbD i = true ∧ ∀ flag ∈ flags, flag.toBitVec.getLsbD i = false

theorem Status.cleared_assign (bits : Word) :
    Status.Cleared Status.handlerOff bits
      (Status.assign bits
        (Status.iec ||| Status.kuc ||| Status.unmasked ||| Status.vmc ||| Status.vmp) false) := by
  intro i
  have hwidth : bits.toBitVec.getLsbD i = true → i < 32 := BitVec.lt_of_getLsbD
  simp only [assign, handlerOff, Bool.false_eq_true, if_false, UInt32.toBitVec_and,
    UInt32.toBitVec_not, UInt32.toBitVec_or, BitVec.getLsbD_and, BitVec.getLsbD_not,
    BitVec.getLsbD_or, List.forall_mem_cons, List.not_mem_nil, Bool.and_eq_true,
    Bool.not_eq_true', Bool.or_eq_false_iff, decide_eq_true_eq]
  tauto

namespace Machine

open Kernel

variable {m m' : Machine} {ramTop : Word} {installed : List TrapVector}

/-! ## The memory that the bus reports -/

/-- The address behind the memory; it may be too large for a word. -/
def memoryEnd (m : Machine) : Nat := (m.read Bus.ramBase).toNat + (m.read Bus.ramSize).toNat

/-- The memory goes past the address space, or the frame does not fit in. -/
def BadGeometry (m : Machine) : Prop :=
  UInt32.size ≤ m.memoryEnd ∨ (m.read Bus.ramSize).toNat < 4096

theorem ramTop?_eq_none_iff :
    ramTop? (m.read Bus.ramBase) (m.read Bus.ramSize) = none ↔ m.BadGeometry := by
  unfold ramTop? BadGeometry memoryEnd
  rw [ite_eq_right_iff, UInt32.le_iff_toNat_le]
  have hframe : frameSize.toNat = 4096 := rfl
  simp only [reduceCtorEq, imp_false]
  omega

/-- Nothing wraps where the frame is put. -/
theorem toNat_ramTop (h : ramTop? (m.read Bus.ramBase) (m.read Bus.ramSize) = some ramTop) :
    ramTop.toNat = m.memoryEnd ∧ 4096 ≤ ramTop.toNat := by
  unfold ramTop? at h
  split at h
  · rename_i hgeometry
    obtain ⟨hfits, hroom⟩ := hgeometry
    cases h
    have hroom : 4096 ≤ (m.read Bus.ramSize).toNat := UInt32.le_iff_toNat_le.1 hroom
    have hend : (m.read Bus.ramBase + m.read Bus.ramSize).toNat = m.memoryEnd :=
      (UInt32.toNat_add _ _).trans (Nat.mod_eq_of_lt hfits)
    rw [hend]
    exact ⟨rfl, Nat.le_add_left_of_le hroom⟩
  · cases h

/-! ## The handlers -/

/-- The handlers of some vectors have been installed on `m`. -/
structure Installed (m : Machine) (ramTop : Word) (installed : List TrapVector) (m' : Machine) :
    Prop where
  beside : m.SameBesideMemory m'
  handler : ∀ v ∈ installed, m'.loadState v.newArea = handlerState m.board v ramTop
  outside : ∀ a, (∀ v ∈ installed, ¬ Occupies v.newArea a) → m'.read a = m.read a

theorem installed_nil (m : Machine) (ramTop : Word) : m.Installed ramTop [] m where
  beside := ⟨m.memory, rfl⟩
  handler _ hv := absurd hv List.not_mem_nil
  outside _ _ := rfl

namespace Installed

/-- One more handler does not touch the areas of the others. -/
theorem storeState (hm : m.Installed ramTop installed m') (v : TrapVector) :
    m.Installed ramTop (installed ++ [v])
      (m'.storeState v.newArea (handlerState m'.board v ramTop)) := by
  have hboard : m'.board = m.board := by
    obtain ⟨memory, rfl⟩ := hm.beside
    rfl
  rw [hboard]
  have harea := v.isArea_newArea
  refine ⟨hm.beside.storeState _ _, fun w hw => ?_, fun a ha => ?_⟩
  · -- What belongs in an area depends on its vector only, so it may have been installed before.
    by_cases heq : w = v
    · rw [heq, loadState_storeState harea.plain]
    · have hw : w ∈ installed := (List.mem_append.1 hw).resolve_right fun h =>
        heq (List.mem_singleton.1 h)
      rw [← hm.handler w hw]
      refine loadState_congr fun i hi => ?_
      have hoccupies := w.isArea_newArea.occupies_stateAddress hi
      exact harea.read_storeState_of_not_occupies (TrapVector.apart_newArea heq _ hoccupies) _ _
  · rw [harea.read_storeState_of_not_occupies (ha v (List.mem_append_right _ (.head _)))]
    exact hm.outside a fun w hw => ha w (List.mem_append_left _ hw)

theorem foldl (hm : m.Installed ramTop installed m') (vectors : List TrapVector) :
    m.Installed ramTop (installed ++ vectors) (vectors.foldl
      (fun m vector => m.storeState vector.newArea (handlerState m.board vector ramTop)) m') := by
  induction vectors generalizing installed m' with
  | nil => rwa [List.append_nil]
  | cons v vectors ih =>
    have hrest := ih (hm.storeState v)
    rwa [List.append_assoc] at hrest

end Installed

end Machine

namespace Kernel

open Outcome ProcessorState

variable {k : Kernel} {machine : Machine} {config : Config} {h : Slot} {state : ProcessorState}

/-- Installing the handlers concerns the machine only. -/
theorem installHandlers_new (machine : Machine) (config : Config) (ramTop : Word) :
    ∃ machine', (Kernel.new machine config).installHandlers ramTop = .new machine' config ∧
      machine.Installed ramTop TrapVector.all machine' := by
  have hfold := (Machine.installed_nil machine ramTop).foldl TrapVector.all
  rw [List.nil_append] at hfold
  refine ⟨_, ?_, hfold⟩
  unfold installHandlers Kernel.new
  dsimp only

/-! ## The first process -/

/-- The process in `h` is the only one, it is ready and has no relatives, and nothing has happened
yet. -/
structure HoldsOnly (k : Kernel) (h : Slot) (state : ProcessorState) : Prop where
  isUsed : ∀ g, k.processes.isUsed g = true ↔ g = h
  descriptor : k.processes.get h = { Descriptor.blank with pid := 1, state }
  pids : k.pids.toList = [(1, h)]
  ready : k.ready.items = [h]
  current : k.current = none
  waits : k.waits = .empty
  values : k.values = .zero
  liveCount : k.liveCount = 1
  softCount : k.softCount = 0
  lastPid : k.lastPid = 1

/-- The first process to be created gets the first slot and the first pid. -/
theorem create_new (machine : Machine) (config : Config) (state : ProcessorState) :
    (create state none (.new machine config)).Finishes fun result k =>
      result = some 0 ∧ k.HoldsOnly 0 state ∧ k.machine = machine ∧ k.config = config := by
  obtain ⟨u, halloc⟩ : ∃ u, ProcessTable.empty.allocate = some (0, u) := ⟨_, rfl⟩
  obtain ⟨pids, hinsert, hperm⟩ : ∃ pids : PidIndex Slot,
      PidIndex.empty.insert 1 (0 : Slot) = some pids ∧ pids.toList = [(1, 0)] := ⟨_, rfl, rfl⟩
  have ha := ProcessTable.valid_empty.allocate halloc
  simp only [Kernel.create, Kernel.new, Finishes, Action.ends_bind, Action.ends_look, halloc,
    show Word.succ 0 = .ok 1 from rfl, Action.ends_check, Action.ends_change]
  refine Action.ends_attempt_ok (by dsimp only; rw [hinsert]) ?_
  refine Action.ends_attempt_ok (makeReady_of_not_mem List.not_mem_nil) ?_
  refine Action.ends_attempt_ok rfl ?_
  refine ⟨rfl, ?_, rfl, rfl⟩
  exact {
    isUsed := fun g => by
      show u.isUsed g = true ↔ g = 0
      rw [ha.isUsed, ProcessTable.isUsed_empty]
      by_cases hg : (0 : Slot) = g
      · exact iff_of_true (if_pos hg) hg.symm
      · rw [if_neg hg]
        exact iff_of_false Bool.false_ne_true (Ne.symm hg)
    descriptor := by
      show (u.modify 0 ({ · with pid := 1, state })).get 0 = _
      rw [ProcessTable.get_modify, if_pos rfl, ha.get_self]
    pids := hperm
    ready := rfl
    current := rfl
    waits := rfl
    values := rfl
    liveCount := rfl
    softCount := rfl
    lastPid := rfl }

/-- Whoever is dispatched is resumed with the state that was saved. -/
theorem dispatchNext_resumes (k : Kernel) (h : Slot) (rest : Queue Slot) : ∃ k' log,
    k.dispatchNext h rest =
      .ok (.resume (k.pidAt h) (k.processes.get h).state) k' log := by
  have hget : (k.processes.modify h ({ · with quantumTime := 0 })).get h =
      { k.processes.get h with quantumTime := 0 } := by
    rw [ProcessTable.get_modify, if_pos rfl]
  have hdispatch : ∃ k' log, k.dispatchNext h rest =
      .ok (.resume ((k.processes.modify h ({ · with quantumTime := 0 })).get h).pid
        ((k.processes.modify h ({ · with quantumTime := 0 })).get h).state) k' log := ⟨_, _, rfl⟩
  rwa [hget] at hdispatch

/-- A process that is alone gets the processor. -/
theorem HoldsOnly.schedule (hk : k.HoldsOnly h state) :
    ∃ k' log, Kernel.schedule k = .ok (.resume 1 state) k' log := by
  have hnext : Kernel.schedule k = k.dispatchNext h ⟨[]⟩ :=
    schedule_eq_dispatchNext hk.current hk.ready
  have hresumes := k.dispatchNext_resumes h ⟨[]⟩
  unfold pidAt at hresumes
  rwa [hk.descriptor, ← hnext] at hresumes

/-! ## Start-up -/

/-- The root process is created with nobody else about. -/
theorem createRoot_new (machine : Machine) (config : Config) (ramTop : Word) :
    (createRoot ramTop (.new machine config)).Finishes fun _ k =>
      k.HoldsOnly 0 (rootState config.rootEntry ramTop) ∧ k.machine = machine ∧
        k.config = config := by
  unfold Kernel.createRoot Finishes
  rw [Action.ends_bind, Action.ends_look, Action.ends_bind]
  refine (create_new machine config _).ends ?_
  rintro _ k ⟨rfl, hk⟩
  exact hk

/-- Start-up stops at the size of memory or goes through. -/
theorem boot_new (machine : Machine) (config : Config) :
    let base := machine.read Bus.ramBase
    let size := machine.read Bus.ramSize
    (boot (.new machine config)).Ends
      (fun _ k => ∃ ramTop, ramTop? base size = some ramTop ∧
        machine.Installed ramTop TrapVector.all k.machine ∧
        k.HoldsOnly 0 (rootState config.rootEntry ramTop) ∧ k.config = config)
      (fun cause k => ramTop? base size = none ∧ cause = .badRamGeometry base size ∧
        k = .new machine config)
      (fun _ => False) := by
  refine boot_ends (fun hbad => ⟨hbad, rfl, rfl⟩) fun ramTop hramTop => ?_
  obtain ⟨machine', hinstall, hinstalled⟩ := installHandlers_new machine config ramTop
  rw [hinstall]
  refine (createRoot_new machine' config ramTop).ends ?_
  rintro _ k ⟨hk, rfl, hconfig⟩
  exact ⟨ramTop, hramTop, hinstalled, { hk with }, hconfig⟩

theorem enters_rootState (entry : Word) {ramTop : Word} (hroom : 4096 ≤ ramTop.toNat) :
    ProcessorState.zero.Enters entry (ramTop.toNat - 4096) (rootState entry ramTop) := by
  have hstack : (ramTop - frameSize).toNat = ramTop.toNat - 4096 :=
    UInt32.toNat_sub_of_le _ _ (UInt32.le_iff_toNat_le.2 hroom)
  unfold rootState
  rw [withStack_withEntry, ← hstack]
  exact enters_withStack .zero entry (ramTop - frameSize) (Status.iep ||| Status.unmasked)

/-- What start-up leaves on a machine. -/
structure StartedOn (machine : Machine) (config : Config) (k : Kernel) : Prop where
  /-- The state that a trap loads is the stored one, about to enter the handler of the vector with
  the stack at the end of memory. -/
  handlers : ∀ v : TrapVector, ∃ s, k.machine.readState v.newArea = .ok s ∧
    machine.board.stored.Enters (machine.board.entry v) machine.memoryEnd s ∧
    Status.Cleared Status.handlerOff machine.board.stored.status s.status
  /-- The machine is as it was but for the new areas. -/
  outside : ∀ a, (∀ v : TrapVector, ¬ Machine.Occupies v.newArea a) →
    k.machine.read a = machine.read a
  beside : machine.SameBesideMemory k.machine
  /-- There is one process, a frame below the end of memory, and it is the first to run. -/
  root : ∃ h s, k.HoldsOnly h s ∧
    ProcessorState.zero.Enters config.rootEntry (machine.memoryEnd - 4096) s ∧
    s.status = Status.iep ||| Status.unmasked ∧
    ∃ k' log, schedule k = .ok (.resume 1 s) k' log
  config : k.config = config

/-- What start-up does on a machine. -/
structure StartUpLaw (machine : Machine) (config : Config) : Prop where
  /-- It fails for the geometry of memory and for nothing else. -/
  fails_iff : (∃ cause k log, boot (.new machine config) = .fault cause k log) ↔
    machine.BadGeometry
  /-- The failure shows what the bus has reported, and nothing has been done. -/
  fault : ∀ cause k log, boot (.new machine config) = .fault cause k log →
    cause = .badRamGeometry (machine.read Bus.ramBase) (machine.read Bus.ramSize) ∧
      k = .new machine config
  starts : ¬ machine.BadGeometry →
    ∃ k log, boot (.new machine config) = .ok () k log ∧ k.StartedOn machine config

/-- What start-up leaves, from its parts. -/
theorem startedOn_of_installed {ramTop : Word}
    (hramTop : ramTop? (machine.read Bus.ramBase) (machine.read Bus.ramSize) = some ramTop)
    (hinstalled : machine.Installed ramTop TrapVector.all k.machine)
    (hroot : k.HoldsOnly 0 (rootState config.rootEntry ramTop)) (hconfig : k.config = config) :
    k.StartedOn machine config := by
  obtain ⟨hend, hroom⟩ := Machine.toNat_ramTop hramTop
  exact {
    handlers := fun v => by
      refine ⟨_, v.isArea_newArea.readState_eq _, ?_⟩
      rw [hinstalled.handler v v.mem_all, ← hend]
      exact ⟨enters_withStack _ _ _ _, Status.cleared_assign _⟩
    outside := fun a ha => hinstalled.outside a fun v _ => ha v
    beside := hinstalled.beside
    root := by
      refine ⟨0, _, hroot, ?_, rfl, hroot.schedule⟩
      rw [← hend]
      exact enters_rootState _ hroom
    config := hconfig }

/-- Start-up fails on bad memory and on nothing else; otherwise the handlers are in place and the
root process is about to run. -/
theorem startUp_of_new (machine : Machine) (config : Config) : StartUpLaw machine config := by
  have hboot := boot_new machine config
  dsimp only at hboot
  cases hrun : boot (.new machine config) with
  | ok value k log =>
    rw [hrun] at hboot
    obtain ⟨ramTop, hramTop, hinstalled, hroot, hconfig⟩ := hboot
    have hgood : ¬ machine.BadGeometry := by
      rw [← Machine.ramTop?_eq_none_iff, hramTop]
      exact Option.some_ne_none _
    have hnever : ∀ cause k log, boot (.new machine config) ≠ .fault cause k log := by
      intro cause k log hfault
      rw [hrun] at hfault
      cases hfault
    exact {
      fails_iff := by
        refine iff_of_false ?_ hgood
        rintro ⟨cause, k, log, hfault⟩
        exact hnever cause k log hfault
      fault := fun _ _ _ hfault => absurd hfault (hnever _ _ _)
      starts := fun _ => ⟨k, log, hrun, startedOn_of_installed hramTop hinstalled hroot hconfig⟩ }
  | fault cause k log =>
    rw [hrun] at hboot
    obtain ⟨hramTop, rfl, rfl⟩ := hboot
    have hbad : machine.BadGeometry := Machine.ramTop?_eq_none_iff.1 hramTop
    exact {
      fails_iff := iff_of_true ⟨_, _, _, hrun⟩ hbad
      fault := fun cause k log hfault => by
        rw [hrun] at hfault
        cases hfault
        exact ⟨rfl, rfl⟩
      starts := fun hgood => absurd hbad hgood }
  | abort cause =>
    rw [hrun] at hboot
    exact hboot.elim

/-- Memory may end at the last address and not behind it, and it may be one frame and not less. -/
theorem startUp_of_new_edges :
    let machine (base size : Word) := (Machine.new.set Bus.ramBase base).set Bus.ramSize size
    (∃ k log, boot (.new (machine 0xffffefff 0x1000) .usual) = .ok () k log ∧
      k.StartedOn (machine 0xffffefff 0x1000) .usual) ∧
    (∃ cause k log, boot (.new (machine 0xfffff000 0x1000) .usual) = .fault cause k log) ∧
    ∃ cause k log, boot (.new (machine 0x20000000 0xfff) .usual) = .fault cause k log := by
  intro machine
  have hbad : ∀ base size, (machine base size).BadGeometry ↔
      UInt32.size ≤ base.toNat + size.toNat ∨ size.toNat < 4096 := by
    intro base size
    have hbase : (machine base size).read Bus.ramBase = base := by
      rw [Machine.read_set, if_neg (by decide), Machine.read_set, if_pos rfl]
    have hsize : (machine base size).read Bus.ramSize = size := by
      rw [Machine.read_set, if_pos rfl]
    unfold Machine.BadGeometry Machine.memoryEnd
    rw [hbase, hsize]
  refine ⟨(startUp_of_new _ _).starts ?_, (startUp_of_new _ _).fails_iff.2 ?_,
    (startUp_of_new _ _).fails_iff.2 ?_⟩
  · rw [hbad]
    decide
  · rw [hbad]
    decide
  · rw [hbad]
    decide

end Kernel

end Nucleus
