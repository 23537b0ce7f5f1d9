import Nucleus.Kernel.Run
import Nucleus.Proofs.Kernel.Renaming

/-!
# Slots cannot be observed

Outside the nucleus a process is known by its pid. `Kernel.sight` is what can be seen of a kernel in
this way, and `Kernel.observe` lets calls and changes of the machine happen one after the other and
records what comes of each. Two reachable kernels that are the same but for the slots of their
processes show the same at once, in every call, in every such sequence and in every run of the loop
(`Kernel.Indistinguishable`).
-/

namespace Nucleus

/-- Two states with the same layout are equal. -/
theorem ProcessorState.ext_word {s t : ProcessorState}
    (h : ∀ i : Fin stateWords, s.word i = t.word i) : s = t := by
  have hwords : s.toWords = t.toWords := congrArg Table.ofFn (funext h)
  rw [← ofWords_toWords s, hwords, ofWords_toWords]

/-- Two descriptors are equal if their states are and all the rest is. -/
theorem Descriptor.ext_state {d e : Descriptor}
    (hrest : { d with state := .zero } = { e with state := .zero }) (hstate : d.state = e.state) :
    d = e := by
  cases d
  cases e
  simp_all

/-- The descriptor without its relatives. -/
def Descriptor.alone (d : Descriptor) : Descriptor := { d with parent := none, children := [] }

namespace Kernel

open Outcome

variable {π : Equiv.Perm Slot} {k k' : Kernel} {α β : Type}

/-- What can be seen of a kernel when processes are known by their pids only. -/
structure Sight where
  machine : Machine
  config : Config
  /-- The values of the semaphores of the nucleus and the latched statuses. -/
  values : SemaphoreValues
  liveCount : Word
  softCount : Word
  lastPid : Word
  chargedUntil : Word
  tickMicros : Word
  tickUntil : Word
  current : Option Pid
  ready : List Pid
  waiting : SemaphoreId → List Pid
  activeSemaphores : List (SemaphoreId × Count × Nat)
  /-- What the nucleus keeps of each live process. -/
  descriptor? : Pid → Option Descriptor
  parent : Pid → Option Pid
  children : Pid → List Pid

/-- What can be seen of a kernel. -/
def sight (k : Kernel) : Sight where
  machine := k.machine
  config := k.config
  values := k.values
  liveCount := k.liveCount
  softCount := k.softCount
  lastPid := k.lastPid
  chargedUntil := k.chargedUntil
  tickMicros := k.tickMicros
  tickUntil := k.tickUntil
  current := k.current.map k.pidAt
  ready := k.readyPids
  waiting id := (k.waits.waiting id).map k.pidAt
  activeSemaphores := k.activeSemaphores
  descriptor? pid := (k.descriptor? pid).map Descriptor.alone
  parent := k.parent
  children := k.children

namespace Renaming

theorem map_pidAt (hR : Renaming π k k') {hs : List Slot}
    (hused : ∀ h ∈ hs, k.processes.isUsed h = true) :
    (hs.map π).map k'.pidAt = hs.map k.pidAt := by
  rw [List.map_map]
  exact List.map_congr_left fun h hmem => hR.pidAt (hused h hmem)

theorem pids_standing (hR : Renaming π k k') (place : Place) :
    (k'.standing place).map k'.pidAt = (k.standing place).map k.pidAt := by
  rw [hR.standing]
  exact hR.map_pidAt fun _ => hR.books.used_of_mem

theorem descriptor?_eq (hR : Renaming π k k') (pid : Pid) :
    k'.descriptor? pid = (k.descriptor? pid).map (·.rename π) := by
  unfold Kernel.descriptor?
  rw [hR.lookup, Option.map_map, Option.map_map]
  refine Option.map_congr fun h hh => ?_
  exact hR.get h (hR.books.indexed.lookup_eq_some_iff.1 hh).1

theorem parent_eq (hR : Renaming π k k') (pid : Pid) : k'.parent pid = k.parent pid := by
  have hlookup' := hR.lookup pid
  cases hlookup : k.pids.lookup pid with
  | none =>
    unfold Kernel.parent Kernel.descriptor?
    rw [hlookup', hlookup]
    rfl
  | some h =>
    rw [hlookup] at hlookup'
    have hh := (hR.books.indexed.lookup_eq_some_iff.1 hlookup).1
    have hparent : (k'.contextAt (π h)).parent = (k.contextAt h).parent.map π :=
      congrArg Descriptor.parent (hR.get h hh)
    rw [parent_eq_map hlookup, parent_eq_map hlookup', hparent, Option.map_map]
    exact Option.map_congr fun p hp => hR.pidAt (hR.books.linked.parent hh hp).1

theorem children_eq (hR : Renaming π k k') (pid : Pid) : k'.children pid = k.children pid := by
  unfold Kernel.children Kernel.descriptor?
  rw [hR.lookup]
  cases hlookup : k.pids.lookup pid with
  | none => rfl
  | some h =>
    have hh := (hR.books.indexed.lookup_eq_some_iff.1 hlookup).1
    show (k'.processes.children (π h)).map k'.pidAt = (k.processes.children h).map k.pidAt
    rw [hR.children hh]
    exact hR.map_pidAt fun c hc => (hR.books.linked.child hh hc).1

theorem value_eq (hR : Renaming π k k') (id : SemaphoreId) : k'.value id = k.value id := by
  unfold Kernel.value
  rw [hR.machine, hR.figures.values]

/-- The wait lists in use belong to the same semaphores, whichever lists these are. -/
theorem ids_eq (hR : Renaming π k k') : k'.waits.ids = k.waits.ids := by
  have hmem (id : SemaphoreId) : id ∈ k'.waits.ids ↔ id ∈ k.waits.ids := by
    rw [hR.books'.waits.mem_ids_iff, hR.books.waits.mem_ids_iff, hR.renamed.waiting, Ne,
      List.map_eq_nil_iff]
  have hperm := (List.perm_ext_iff_of_nodup hR.books'.waits.nodup_ids
    hR.books.waits.nodup_ids).2 hmem
  refine hperm.eq_of_pairwise (fun a b _ _ hab hba => ?_) hR.books'.waits.pairwise_ids
    hR.books.waits.pairwise_ids
  exact absurd hba (Nat.lt_asymm hab)

theorem activeSemaphores_eq (hR : Renaming π k k') :
    k'.activeSemaphores = k.activeSemaphores := by
  have hcount (id : SemaphoreId) : k'.waiterCount id = k.waiterCount id :=
    (congrArg List.length (hR.renamed.waiting id)).trans (List.length_map π)
  unfold Kernel.activeSemaphores
  simp only [hR.ids_eq, hR.value_eq, hcount]

/-- Whichever slots the processes have, the same can be seen. -/
theorem sight_eq (hR : Renaming π k k') : k'.sight = k.sight := by
  have hf := hR.figures
  have hcurrent : k'.current.map k'.pidAt = k.current.map k.pidAt := by
    rw [hR.current, Option.map_map]
    exact Option.map_congr fun h hh => hR.pidAt (hR.books.used_of_current hh)
  have hready : k'.readyPids = k.readyPids := hR.pids_standing .ready
  have hwaiting (id : SemaphoreId) : (k'.waits.waiting id).map k'.pidAt =
      (k.waits.waiting id).map k.pidAt := hR.pids_standing (.waitList id)
  have hdescriptor (pid : Pid) : (k'.descriptor? pid).map Descriptor.alone =
      (k.descriptor? pid).map Descriptor.alone := by
    rw [hR.descriptor?_eq, Option.map_map]
    rfl
  simp only [sight, hR.machine, hf.config, hf.values, hf.liveCount, hf.softCount, hf.lastPid,
    hf.chargedUntil, hf.tickMicros, hf.tickUntil, hcurrent, hready, hwaiting, hdescriptor,
    hR.activeSemaphores_eq, funext hR.parent_eq, funext hR.children_eq]

end Renaming

/-! ## Actions that do not see slots -/

/-- An action that does the same whichever slots the processes have. -/
def Equivariant (x : Action Kernel α) : Prop :=
  ∀ π k k', Renaming π k k' → Lockstep.Twins Renaming (x k) (x k')

namespace Equivariant

variable {x : Action Kernel α}

theorem pure (a : α) : Equivariant (Pure.pure a : Action Kernel α) :=
  fun π _ _ hR => Action.agree_pure ⟨rfl, π, hR⟩

theorem bind {f : α → Action Kernel β} (hx : Equivariant x) (hf : ∀ a, Equivariant (f a)) :
    Equivariant (x >>= f) := by
  intro π k k' hR
  refine Action.agree_bind (hx π k k' hR) ?_
  rintro a s _ t ⟨rfl, ρ, hst⟩
  exact hf _ ρ s t hst

theorem discard (hx : Equivariant x) : Equivariant (discard x : Action Kernel Unit) := by
  intro π k k' hR
  have hdone := Action.agree_discard ((hx π k k' hR).mono (fun _ _ _ _ h => h.2) fun _ _ h => h)
  exact hdone.mono (fun _ _ _ _ h => ⟨rfl, h⟩) fun _ _ h => h

theorem recover (hx : Equivariant x) : Equivariant x.recover := by
  intro π k k' hR
  refine Action.agree_recover ((hx π k k' hR).mono ?_ ?_)
  · rintro a s _ t ⟨rfl, hst⟩
    exact ⟨rfl, hst⟩
  · exact fun s t hst cause => ⟨rfl, hst⟩

theorem look {f : Kernel → α} (hf : ∀ π k k', Renaming π k k' → f k' = f k) :
    Equivariant (Action.look f) := by
  intro π k k' hR
  show Lockstep.Twins Renaming (.ok (f k) k []) (.ok (f k') k' [])
  rw [hf π k k' hR]
  exact .ok [] ⟨rfl, π, hR⟩

theorem check (x : Except Abort α) : Equivariant (Action.check x) :=
  fun π _ _ hR => Action.agree_check fun _ _ => ⟨rfl, π, hR⟩

theorem note (notice : Notice) : Equivariant (Action.note notice) :=
  fun π _ _ hR => Action.agree_note ⟨rfl, π, hR⟩

theorem fail (cause : Fault) : Equivariant (Action.fail cause : Action Kernel α) :=
  fun π _ _ hR => Action.agree_fail cause ⟨π, hR⟩

/-- The machine is the same on both sides, so it may change in any way. -/
theorem changeMachine (f : Machine → Machine) :
    Equivariant (Action.change fun k => { k with machine := f k.machine }) :=
  fun π k k' hR => Action.agree_change ⟨rfl, π,
    hR.congr (Alike.setMachine k _).toSameBooks (Alike.setMachine k' _).toSameBooks
      (congrArg f hR.machine) { hR.figures with } hR.get⟩

theorem call (call : Call) : Equivariant call.run := fun _ _ _ hR => lockstep_renaming.call hR call

theorem untilTrap (run : Machine → Except Abort (TrapVector × Machine)) :
    Equivariant (untilTrap run) :=
  bind (look fun _ _ _ hR => hR.machine) fun m => bind (check (run m)) fun (vector, machine) =>
    bind (changeMachine fun _ => machine) fun _ => pure vector

/-- A decision is carried out alike, and so is the trap that follows it handled. -/
theorem round (decision : Except Fault Decision) : Equivariant (round decision) := by
  have hdispatch (vector : TrapVector) : Equivariant (do
      return some (← (dispatch vector).recover)) :=
    bind (recover (call (.dispatch vector))) fun result => pure (some result)
  match decision with
  | .ok (.resume _ state) => exact bind (untilTrap (·.resume state)) hdispatch
  | .ok .idle => exact bind (discard (untilTrap (·.wait))) fun _ => hdispatch .interrupt
  | .ok .halt =>
    exact bind (note _) fun _ => bind (changeMachine (·.halt)) fun _ => pure none
  | .error cause =>
    exact bind (note _) fun _ => bind (changeMachine (·.crash)) fun _ => fail cause

theorem runFrom (rounds : Nat) (decision : Except Fault Decision) :
    Equivariant (runFrom rounds decision) := by
  induction rounds generalizing decision with
  | zero => exact pure false
  | succ rounds ih =>
    refine bind (round decision) fun next => ?_
    cases next with
    | none => exact pure true
    | some next => exact ih next

theorem run (rounds : Nat) : Equivariant (run rounds) :=
  bind (recover (call .schedule)) (runFrom rounds)

end Equivariant

/-! ## Observations -/

/-- What can happen to a kernel. -/
inductive Stimulus where
  | call (call : Call)
  /-- Memory, registers and the clock change. -/
  | machine (change : Machine → Machine)

/-- Let something happen: the decision or the fault of a call. -/
def Stimulus.apply : Stimulus → Action Kernel (Option (Except Fault Decision))
  | call c => do return some (← c.run.recover)
  | machine change => do
    Action.change fun k => { k with machine := change k.machine }
    return none

/-- Let one thing happen after the other: what comes of each, and what can be seen then. -/
def observe : List Stimulus → Action Kernel (List (Option (Except Fault Decision) × Sight))
  | [] => return []
  | stimulus :: rest => do
    let result ← stimulus.apply
    let seen ← Action.look sight
    return (result, seen) :: (← observe rest)

namespace Equivariant

theorem stimulus (stimulus : Stimulus) : Equivariant stimulus.apply := by
  cases stimulus with
  | call c => exact bind (recover (call c)) fun result => pure (some result)
  | machine change => exact bind (changeMachine change) fun _ => pure none

theorem observe (stimuli : List Stimulus) : Equivariant (observe stimuli) := by
  induction stimuli with
  | nil => exact pure []
  | cons first rest ih =>
    exact bind (stimulus first) fun result => bind (look fun _ _ _ hR => hR.sight_eq) fun seen =>
      bind ih fun later => pure ((result, seen) :: later)

end Equivariant

/-! ## Kernels that cannot be told apart -/

/-- Two kernels are the same but for the slots of their processes. -/
def Equivalent (k k' : Kernel) : Prop := ∃ f, Renamed f k k'

/-- An action ends in the same way on both kernels, with equal values and after the same notices,
and leaves kernels that are again the same but for the slots. -/
def Coincides (x : Action Kernel α) (k k' : Kernel) : Prop :=
  Agree (fun a s b t => b = a ∧ s.Equivalent t) Equivalent (x k) (x k')

theorem Equivariant.coincides {x : Action Kernel α} (hx : Equivariant x)
    (hR : Renaming π k k') : Coincides x k k' := by
  have hsame : ∀ s t, (∃ ρ, Renaming ρ s t) → s.Equivalent t :=
    fun s t ⟨ρ, hst⟩ => ⟨ρ, hst.renamed⟩
  exact (hx π k k' hR).mono (fun _ s _ t h => ⟨h.1, hsame s t h.2⟩) hsame

/-- Nothing tells two kernels apart. -/
structure Indistinguishable (k k' : Kernel) : Prop where
  sight : k'.sight = k.sight
  call : ∀ call : Call, Coincides call.run k k'
  observe : ∀ stimuli, Coincides (observe stimuli) k k'
  run : ∀ rounds, Coincides (run rounds) k k'

/-- Reachable kernels that are the same but for the slots of their processes cannot be told
apart. -/
theorem indistinguishable_of_equivalent (hk : k.Reachable) (hk' : k'.Reachable)
    (he : k.Equivalent k') : Indistinguishable k k' := by
  obtain ⟨f, hf⟩ := he
  obtain ⟨π, hR⟩ := hf.exists_renaming hk.sound.toAccounted hk'.sound.toAccounted
  exact ⟨hR.sight_eq, fun call => (Equivariant.call call).coincides hR,
    fun stimuli => (Equivariant.observe stimuli).coincides hR,
    fun rounds => (Equivariant.run rounds).coincides hR⟩

/-- The two oldest children of the root process are terminated in either order. The third then
creates as many processes as there is room for and exits with all of them. The next process has the
slot of the first child or that of the second. -/
theorem indistinguishable_of_equivalent_recycled : ∃ k k' : Kernel, k.Reachable ∧ k'.Reachable ∧
    k.Equivalent k' ∧ k.pids.lookup 21 = some 1 ∧ k'.pids.lookup 21 = some 2 ∧
    Indistinguishable k k' := by
  let create : Call := .deliver (.request 1 0x20001000 0 0 false)
  let again : Call := .dispatch .sysBreak
  let kill (pid : Pid) : Call := .deliver (.request 2 pid 0 0 false)
  let calls (first second : Pid) : List Call :=
    [.schedule, create, again, kill first, kill second, create, .deliver .timer, create] ++
      List.replicate 15 again ++ [.deliver .exit, create]
  let π : Equiv.Perm Slot := Equiv.swap 1 2
  let test (k k' : Kernel) : Bool :=
    (k'.config = k.config ∧ k'.values = k.values ∧ k'.liveCount = k.liveCount ∧
      k'.softCount = k.softCount ∧ k'.lastPid = k.lastPid ∧ k'.chargedUntil = k.chargedUntil ∧
      k'.tickMicros = k.tickMicros ∧ k'.tickUntil = k.tickUntil) ∧
    (∀ h, k'.processes.isUsed (π h) = k.processes.isUsed h) ∧
    (∀ h, k.processes.isUsed h = true →
      { k'.processes.get (π h) with state := .zero } =
        { (k.processes.get h).rename π with state := .zero } ∧
      ∀ i : Fin stateWords,
        (k'.processes.get (π h)).state.word i = (k.processes.get h).state.word i) ∧
    k'.current = k.current.map π ∧ k'.ready.items = k.ready.items.map π ∧
    k.waits.active = [] ∧ k'.waits.active = [] ∧
    k.pids.lookup 21 = some 1 ∧ k'.pids.lookup 21 = some 2
  obtain ⟨k, hk, hinner⟩ := exists_reachable
    (p := fun k => (bootAndReplay (calls 3 2)).any (test k)) (calls 2 3) (by decide +kernel)
  obtain ⟨k', hk', htest⟩ := exists_reachable (p := test k) (calls 3 2) hinner
  obtain ⟨⟨hconfig, hvalues, hlive, hsoft, hlast, hcharged, hmicros, huntil⟩, hused, hget, hcurrent,
    hready, hactive, hactive', hslot, hslot'⟩ := of_decide_eq_true htest
  have hnobody {w : WaitLists} (hw : w.active = []) (id : SemaphoreId) : w.waiting id = [] := by
    simp [WaitLists.waiting, WaitLists.find, hw]
  have hk₁ : Reachable { k with machine := Machine.new } := hk.step (.machine Machine.new)
  have hk₁' : Reachable { k' with machine := Machine.new } := hk'.step (.machine Machine.new)
  have he : Equivalent { k with machine := Machine.new } { k' with machine := Machine.new } :=
    ⟨π, Renaming.renamed {
      books := hk₁.sound.toAccounted
      books' := hk₁'.sound.toAccounted
      machine := rfl
      figures := ⟨hconfig, hvalues, hlive, hsoft, hlast, hcharged, hmicros, huntil⟩
      isUsed := hused
      get := fun h hh => Descriptor.ext_state (hget h hh).1
        (ProcessorState.ext_word (hget h hh).2)
      standing := fun place => by
        cases place with
        | processor =>
          show k'.current.toList = k.current.toList.map π
          rw [hcurrent, Option.toList_map]
        | ready => exact hready
        | waitList id =>
          show k'.waits.waiting id = (k.waits.waiting id).map π
          rw [hnobody hactive, hnobody hactive', List.map_nil] }⟩
  exact ⟨_, _, hk₁, hk₁', he, hslot, hslot', indistinguishable_of_equivalent hk₁ hk₁' he⟩

end Kernel

end Nucleus
