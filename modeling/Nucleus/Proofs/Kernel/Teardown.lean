import Nucleus.Proofs.Kernel.Courses
import Nucleus.Proofs.Kernel.PseudoClock

/-!
# Teardown

A process is terminated together with its descendants. Their slots, their pids, their places in the
queues and their shares of the counters are given up, each once, and whoever of them waits on a user
semaphore or the pseudo-clock gives back a unit. Of the rest nothing changes but the list of
children in which the process stood (`teardownLaw_of_reachable`).
-/

namespace Nucleus

namespace Kernel

open Outcome

variable {k k' k'' : Kernel} {h g : Slot} {p : Place} {id : SemaphoreId} {hs : List Slot}
  {pid : Pid}

/-! ## Around the books -/

/-- Two kernels agree on the times and the configuration, on the machine but for its memory, and on
the values but for that of the pseudo-clock. -/
structure SameSurroundings (k k' : Kernel) : Prop where
  machine : k'.machine = { k.machine with memory := k'.machine.memory }
  values : k'.values = { k.values with clock := k'.values.clock }
  config : k'.config = k.config
  chargedUntil : k'.chargedUntil = k.chargedUntil
  tickMicros : k'.tickMicros = k.tickMicros
  tickUntil : k'.tickUntil = k.tickUntil

namespace SameSurroundings

theorem refl (k : Kernel) : k.SameSurroundings k := ⟨rfl, rfl, rfl, rfl, rfl, rfl⟩

theorem trans (hk : k.SameSurroundings k') (hk' : k'.SameSurroundings k'') :
    k.SameSurroundings k'' where
  machine := by rw [hk'.machine, hk.machine]
  values := by rw [hk'.values, hk.values]
  config := hk'.config.trans hk.config
  chargedUntil := hk'.chargedUntil.trans hk.chargedUntil
  tickMicros := hk'.tickMicros.trans hk.tickMicros
  tickUntil := hk'.tickUntil.trans hk.tickUntil

theorem of_sameWorld (hk : k.SameSurroundings k') (hw : k'.SameWorld k'') :
    k.SameSurroundings k'' where
  machine := by rw [hw.machine]; exact hk.machine
  values := by rw [hw.values]; exact hk.values
  config := hw.config.trans hk.config
  chargedUntil := hw.chargedUntil.trans hk.chargedUntil
  tickMicros := hw.tickMicros.trans hk.tickMicros
  tickUntil := hw.tickUntil.trans hk.tickUntil

theorem add (hid : id.refunds = true) (k : Kernel) (delta : Count) :
    k.SameSurroundings (k.add id delta) := by
  cases id with
  | device d => cases hid
  | clock => exact ⟨rfl, rfl, rfl, rfl, rfl, rfl⟩
  | user address => exact ⟨Machine.write_eq k.machine address _, rfl, rfl, rfl, rfl, rfl⟩

end SameSurroundings

/-! ## What a process gives back -/

/-- A process that is retired has given back its unit, and nothing else around the books has
changed. -/
structure Repaid (k : Kernel) (h : Slot) (k' : Kernel) : Prop where
  surroundings : k.SameSurroundings k'
  value : ∀ id : SemaphoreId, id.OffRegisters → (k'.value id).toInt = min Count.greatest
    ((k.value id).toInt + if id.refunds then ((k.waits.waiting id).count h : Int) else 0)
  registers : (∀ a, Machine.InRegisterArea a → h ∉ k.waits.waiting (.user a)) →
    ∀ a, Machine.InRegisterArea a → k'.machine.read a = k.machine.read a

theorem repaid_refund (hp : k.At h p) : k.Repaid h (k.refund h) where
  surroundings := by
    rcases refund_cases hp with ⟨hsame, -⟩ | ⟨id, -, hid, hadd⟩
    · rw [hsame]
      exact .refl k
    · rw [hadd]
      exact .add hid k 1
  value id hid := value_refund hid hp
  registers hnowhere a ha := by
    rcases refund_cases hp with ⟨hsame, -⟩ | ⟨id, rfl, hid, hadd⟩
    · rw [hsame]
    · rw [hadd]
      cases id with
      | device d => cases hid
      | clock => rfl
      | user address =>
        have haddress : ¬ Machine.InRegisterArea address := fun haddress =>
          hnowhere address haddress hp.mem
        have hne : address ≠ a := Ne.symm (Machine.ne_of_inRegisterArea haddress ha)
        show (k.machine.write address _).read a = _
        rw [Machine.write_of_notInRegisterArea haddress, Machine.read_set, if_neg hne]

theorem retire_repaid (hk : k.Accounted) (hh : k.processes.isUsed h = true) :
    (retire h k).Always fun k' => k.Repaid h k' := by
  obtain ⟨p, hp⟩ := hk.placed hh
  have hrepaid := repaid_refund (hp.detach h)
  refine (retire_sameWorld h k).mono fun k' hw => ⟨?_, fun id hid => ?_, fun hnowhere a ha => ?_⟩
  · have hdetach : k.SameSurroundings { k with processes := k.processes.detach h } :=
      ⟨rfl, rfl, rfl, rfl, rfl, rfl⟩
    exact (hdetach.trans hrepaid.surroundings).of_sameWorld hw
  · rw [hw.value]
    exact hrepaid.value id hid
  · rw [hw.machine]
    exact hrepaid.registers hnowhere a ha

/-! ## Clearing a family -/

/-- The processes in a list have been struck off all the books, and those that waited have given
back their units. -/
structure Cleared (k : Kernel) (hs : List Slot) (k' : Kernel) : Prop extends Dismissed k hs k' where
  unused : ∀ g, k.processes.isUsed g = false → k'.processes.get g = k.processes.get g
  free : k'.processes.free.slots = k.processes.free.slots ++ hs
  pids : k.pids.toList.Perm (hs.map (fun h => (k.pidAt h, h)) ++ k'.pids.toList)
  live : k'.liveCount.toNat + hs.length = k.liveCount.toNat
  soft : k'.softCount.toNat + hs.countP (fun h => (k.processes.get h).wait.isSoft) =
    k.softCount.toNat
  without : k.waits.Without (hs.contains ·) k'.waits
  surroundings : k.SameSurroundings k'
  value : ∀ id : SemaphoreId, id.OffRegisters → (k'.value id).toInt = min Count.greatest
    ((k.value id).toInt +
      if id.refunds then ((k.waits.waiting id).countP (hs.contains ·) : Int) else 0)
  registers : (∀ a, Machine.InRegisterArea a → ∀ h ∈ hs, h ∉ k.waits.waiting (.user a)) →
    ∀ a, Machine.InRegisterArea a → k'.machine.read a = k.machine.read a

namespace Cleared

theorem nil (hk : k.Accounted) : k.Cleared [] k where
  toDismissed := .refl k
  unused _ _ := rfl
  free := (List.append_nil _).symm
  pids := List.Perm.refl _
  live := rfl
  soft := rfl
  without := .of_nobody hk.waits fun _ _ _ => rfl
  surroundings := .refl k
  value id _ := (Refunded.nil id k).value
  registers _ _ _ := rfl

/-- The rest of a list is cleared after its first process has been retired. -/
theorem cons (hk : k.Accounted) (hl : k.Retirable (h :: hs)) (hr : k.Retired h k')
    (hrepaid : k.Repaid h k') (hd : k'.Cleared hs k'') : k.Cleared (h :: hs) k'' where
  toDismissed := .cons hk hr hd.toDismissed
  unused g hg := by
    refine (hd.unused g ?_).trans (hr.unused g hg)
    rw [hr.isUsed, hg]
    exact ite_self _
  free := by rw [hd.free, hr.free, List.append_assoc, List.singleton_append]
  pids := by
    have hkept : hs.map (fun g => (k'.pidAt g, g)) = hs.map fun g => (k.pidAt g, g) := by
      refine List.map_congr_left fun g hg => ?_
      simp only [pidAt, hl.kept hr hg]
    refine hr.pids.trans ?_
    rw [List.map_cons, List.cons_append, ← hkept]
    exact hd.pids.cons _
  live := by
    rw [← hr.live, ← hd.live, List.length_cons]
    omega
  soft := by
    have hkept : hs.countP (fun g => (k'.processes.get g).wait.isSoft) =
        hs.countP fun g => (k.processes.get g).wait.isSoft := by
      refine List.countP_congr fun g hg => ?_
      rw [hl.kept hr hg]
    have hfirst := hr.soft
    have hrest := hd.soft
    rw [hkept] at hrest
    rw [List.countP_cons]
    cases hsoft : (k.processes.get h).wait.isSoft with
    | true =>
      rw [hsoft, Bool.toNat_true] at hfirst
      rw [if_pos rfl]
      omega
    | false =>
      rw [hsoft, Bool.toNat_false] at hfirst
      rw [if_neg Bool.false_ne_true]
      omega
  without := by
    have hboth : (fun g => decide (g = h) || hs.contains g) = ((h :: hs).contains ·) := by
      funext g
      rw [List.contains_cons]
      rfl
    rw [← hboth]
    exact hr.without.trans hd.without
  surroundings := hrepaid.surroundings.trans hd.surroundings
  value id hid := by
    have hrest : k'.Refunded id hs k'' := ⟨hd.toDismissed, hd.value id hid⟩
    exact (Refunded.cons hk hr (hrepaid.value id hid) hrest).value
  registers hnowhere a ha := by
    refine (hd.registers (fun b hb g hg hmem => ?_) a ha).trans
      (hrepaid.registers (fun b hb => hnowhere b hb h List.mem_cons_self) a ha)
    have hwaiting : k'.waits.waiting (.user b) = (k.waits.waiting (.user b)).erase h :=
      hr.standing (.waitList (.user b))
    rw [hwaiting] at hmem
    exact hnowhere b hb g (List.mem_cons_of_mem _ hg) (List.mem_of_mem_erase hmem)

end Cleared

/-- Processes that are listed after their children are cleared one after the other. -/
theorem retireAll_cleared (hk : k.Accounted) (hl : k.Retirable hs) :
    ∃ k', hs.forM retire k = .ok () k' (hs.map fun h => .terminated (k.pidAt h)) ∧
      k'.Accounted ∧ k.Cleared hs k' := by
  induction hs generalizing k with
  | nil => exact ⟨k, rfl, hk, .nil hk⟩
  | cons h hs ih =>
    have hfinishes := (retire_finishes hk hl.head).and_always (retire_repaid hk hl.head)
    obtain ⟨⟨⟩, k₁, log, hretire, hr, hrepaid⟩ := hfinishes.exists
    have hlog := retire_tells h k
    rw [hretire] at hlog
    obtain rfl : log = [.terminated (k.pidAt h)] := hlog
    obtain ⟨k₂, hrun, hk₂, hd⟩ := ih (hk.retired hl.head hl.children_head hr) (hl.tail hr)
    refine ⟨k₂, ?_, hk₂, .cons hk hl hr hrepaid hd⟩
    have hpids : hs.map (fun g => Notice.terminated (k₁.pidAt g)) =
        hs.map fun g => Notice.terminated (k.pidAt g) := by
      refine List.map_congr_left fun g hg => ?_
      simp only [pidAt, hl.kept hr hg]
    change (retire h >>= fun _ => hs.forM retire) k = _
    rw [Action.bind_apply, hretire]
    dsimp only
    rw [hrun, hpids]
    rfl

/-! ## The law -/

/-- The state after the process `victim` has been terminated with its descendants. -/
structure TornDown (k : Kernel) (victim : Slot) (family : List Slot) (k' : Kernel) : Prop where
  /-- The process and its descendants, each listed once. -/
  mem_iff : ∀ g, g ∈ family ↔ k.processes.isUsed g = true ∧ k.processes.Descends g victim
  nodup : family.Nodup
  /-- They are not alive any more, and all others are. -/
  used_iff : ∀ g, k'.processes.isUsed g = true ↔ k.processes.isUsed g = true ∧ g ∉ family
  /-- The slot of each is free again, once. -/
  free : k'.processes.free.slots = k.processes.free.slots ++ family
  /-- The pid of each is forgotten, once, and no other is. -/
  pids : k.pids.toList.Perm (family.map (fun h => (k.pidAt h, h)) ++ k'.pids.toList)
  live : k'.liveCount.toNat + family.length = k.liveCount.toNat
  /-- Of those who wait for a device or the pseudo-clock there are so many fewer. -/
  soft : k'.softCount.toNat + family.countP (fun h => (k.processes.get h).wait.isSoft) =
    k.softCount.toNat
  current : k'.current = k.current.filter (!family.contains ·)
  ready : k'.ready.items = k.ready.items.filter (!family.contains ·)
  waiting : ∀ id, k'.waits.waiting id = (k.waits.waiting id).filter (!family.contains ·)
  /-- The semaphores on which somebody still waits stay active in their order. -/
  ids : k'.waits.ids = k.waits.ids.filter fun id => k'.waits.waiting id ≠ []
  /-- The wait lists of the others are free again. -/
  lists : k.waits.Without (family.contains ·) k'.waits
  clock : (k'.value .clock).toInt =
    (k.value .clock).toInt + (k.waits.waiting .clock).countP (family.contains ·)
  /-- A word that is no register gains a unit for each of them that waited on it, up to the greatest
  value. -/
  word : ∀ a, ¬ Machine.InRegisterArea a → (k'.machine.read a).toInt32.toInt =
    min Count.greatest ((k.machine.read a).toInt32.toInt +
      (k.waits.waiting (.user a)).countP (family.contains ·))
  /-- A register stays as it is, unless one of them waited on a register. -/
  register : (∀ a, Machine.InRegisterArea a → ∀ h ∈ k.waits.waiting (.user a), h ∉ family) →
    ∀ a, Machine.InRegisterArea a → k'.machine.read a = k.machine.read a
  devices : k'.values.devices = k.values.devices
  statuses : k'.values.statuses = k.values.statuses
  /-- The process is no child of its parent any more. -/
  kept : ∀ g, k.processes.isUsed g = true → g ∉ family → k'.processes.get g =
    { k.processes.get g with children := (k.processes.children g).filter (· ≠ victim) }
  unused : ∀ g, k.processes.isUsed g = false → k'.processes.get g = k.processes.get g
  lastPid : k'.lastPid = k.lastPid
  surroundings : k.SameSurroundings k'

/-- The pseudo-clock never has more to give back than its value is below zero. -/
theorem ClockBooks.refunded (hb : k.ClockBooks) (hd : k.Cleared hs k') :
    (k'.value .clock).toInt =
      (k.value .clock).toInt + (k.waits.waiting .clock).countP (hs.contains ·) := by
  have hvalue : (k'.value .clock).toInt = min Count.greatest
      ((k.value .clock).toInt + (k.waits.waiting .clock).countP (hs.contains ·)) :=
    hd.value .clock trivial
  have hcount : (k.waits.waiting .clock).countP (hs.contains ·) ≤ k.waiterCount .clock :=
    List.countP_le_length
  have hgreatest : Count.greatest = 2147483647 := rfl
  unfold ClockBooks at hb
  omega

theorem Cleared.tornDown {victim : Slot} (hk : k.Accounted) (hb : k.ClockBooks)
    (hk' : k'.Accounted) (hvictim : k.processes.isUsed victim = true)
    (hd : k.Cleared (k.processes.family maxProcesses victim) k') :
    k.TornDown victim (k.processes.family maxProcesses victim) k' := by
  have hmem : ∀ g, g ∈ k.processes.family maxProcesses victim ↔
      k.processes.isUsed g = true ∧ k.processes.Descends g victim := fun g =>
    hk.linked.mem_family_iff hvictim (k.processes.youngerCount_lt victim)
  have hnodup : (k.processes.family maxProcesses victim).Nodup :=
    hk.linked.nodup_family hvictim
  generalize k.processes.family maxProcesses victim = family at hd hmem hnodup
  exact {
    mem_iff := hmem
    nodup := hnodup
    used_iff := hd.used_iff
    free := hd.free
    pids := hd.pids
    live := hd.live
    soft := hd.soft
    current := by
      have hstanding : k'.current.toList = k.current.toList.filter (!family.contains ·) :=
        hd.standing .processor
      rw [← Option.toList_filter] at hstanding
      exact Option.ext fun g => by rw [← Option.mem_toList, hstanding, Option.mem_toList]
    ready := hd.standing .ready
    waiting := fun id => hd.standing (.waitList id)
    ids := hk.waits.ids_eq_filter hk'.waits fun id hid hnil => hid <| by
      have hwaiting : k'.waits.waiting id = (k.waits.waiting id).filter (!family.contains ·) :=
        hd.standing (.waitList id)
      rw [hwaiting, hnil, List.filter_nil]
    lists := hd.without
    clock := hb.refunded hd
    word := fun a ha => hd.value (.user a) ha
    register := fun hnowhere => hd.registers fun a ha h hh hmem => hnowhere a ha h hmem hh
    devices := by rw [hd.surroundings.values]
    statuses := by rw [hd.surroundings.values]
    kept := fun g hg hnot => by
      rw [hd.kept g hg hnot, hk.linked.filter_children hmem hg hnot]
    unused := hd.unused
    lastPid := hd.lastPid
    surroundings := hd.surroundings }

/-- Terminating a pid that nobody has changes nothing; otherwise the process that has it and its
descendants are torn down. -/
structure TeardownLaw (k : Kernel) : Prop where
  dead : ∀ pid, (∀ h, k.processes.isUsed h = true → k.pidAt h ≠ pid) →
    terminate pid k = .ok false k []
  /-- The notices name the members of the family in the order in which their slots are freed. -/
  live : ∀ pid victim, k.processes.isUsed victim = true → k.pidAt victim = pid →
    ∃ family k', terminate pid k =
        .ok true k' (family.map fun h => .terminated (k.pidAt h)) ∧
      k.TornDown victim family k'

theorem terminate_dead (hk : k.Indexed)
    (hdead : ∀ h, k.processes.isUsed h = true → k.pidAt h ≠ pid) :
    terminate pid k = .ok false k [] := by
  apply terminate_of_dead
  apply Option.eq_none_iff_forall_ne_some.2
  intro h hh
  obtain ⟨hused, hpid⟩ := hk.lookup_eq_some_iff.1 hh
  exact hdead h hused hpid

theorem terminate_live {victim : Slot} (hk : k.Accounted)
    (hvictim : k.processes.isUsed victim = true) (hpid : k.pidAt victim = pid) :
    ∃ k', terminate pid k = .ok true k'
        ((k.processes.family maxProcesses victim).map fun h => .terminated (k.pidAt h)) ∧
      k'.Accounted ∧ k.Cleared (k.processes.family maxProcesses victim) k' := by
  have hlookup : k.pids.lookup pid = some victim := hk.indexed.lookup_eq_some_iff.2 ⟨hvictim, hpid⟩
  obtain ⟨k', hrun, hk', hd⟩ := retireAll_cleared hk (hk.retirable hvictim)
  refine ⟨k', ?_, hk', hd⟩
  rw [terminate_of_live hlookup, Action.bind_apply, hrun]
  dsimp only
  rw [Action.pure_apply, after, List.append_nil]

/-- In every run a process is torn down exactly with its descendants. -/
theorem teardownLaw_of_reachable (hk : k.Reachable) : k.TeardownLaw where
  dead _ hdead := terminate_dead hk.sound.indexed hdead
  live _ victim hvictim hpid := by
    have hsound := hk.sound
    obtain ⟨k', hrun, hk', hd⟩ := terminate_live hsound.toAccounted hvictim hpid
    exact ⟨_, k', hrun, hd.tornDown hsound.toAccounted hk.clockBooks hk' hvictim⟩

/-- The root process waits for a tick while its child runs. Terminating it ends both. -/
theorem teardownLaw_of_reachable_family : ∃ k k' log, k.Reachable ∧ k.TeardownLaw ∧
    k.current = some 1 ∧ (k.value .clock).toInt = -1 ∧ terminate 1 k = .ok true k' log ∧
    k'.liveCount = 0 ∧ k'.current = none ∧ (k'.value .clock).toInt = 0 := by
  obtain ⟨k, hk, htest⟩ := exists_reachable
    (p := fun k => k.processes.isUsed 0 ∧ k.pidAt 0 = 1 ∧ k.processes.isUsed 1 ∧
      k.processes.parentAt 1 = some 0 ∧ k.current = some 1 ∧ k.liveCount = 2 ∧
      (k.value .clock).toInt = -1 ∧ k.waits.waiting .clock = [0])
    [.schedule, .deliver (.request 1 0x20002000 0 0 false), .deliver (.request 7 0 0 0 false)]
    (by decide +kernel)
  obtain ⟨hroot, hpid, hchild, hparent, hcurrent, hlive, hvalue, hwaiting⟩ :=
    of_decide_eq_true htest
  have hlaw := teardownLaw_of_reachable hk
  obtain ⟨family, k', hrun, htorn⟩ := hlaw.live 1 0 hroot hpid
  have hmem₀ : 0 ∈ family := (htorn.mem_iff 0).2 ⟨hroot, .refl⟩
  have hmem₁ : 1 ∈ family := (htorn.mem_iff 1).2 ⟨hchild, .single hparent⟩
  refine ⟨k, k', _, hk, hlaw, hcurrent, hvalue, hrun, ?_, ?_, ?_⟩
  · have hboth : [0, 1].Subperm family :=
      List.subperm_of_subset (by decide) (by simp [hmem₀, hmem₁])
    have hlength : 2 ≤ family.length := hboth.length_le
    have hcount := htorn.live
    rw [hlive] at hcount
    apply UInt32.toNat_inj.1
    change k'.liveCount.toNat = 0
    change k'.liveCount.toNat + family.length = 2 at hcount
    omega
  · rw [htorn.current, hcurrent, Option.filter_some, List.contains_iff_mem.2 hmem₁]
    rfl
  · rw [htorn.clock, hvalue, hwaiting, List.countP_singleton, List.contains_iff_mem.2 hmem₀]
    rfl

end Kernel

end Nucleus
