import Mathlib.Logic.Equiv.Fintype
import Mathlib.Logic.Equiv.Set
import Nucleus.Proofs.Kernel.Lockstep
import Nucleus.Proofs.Kernel.Spawning

/-!
# Processes in other slots

`Kernel.Renamed` says that two kernels are the same but for the slots of their processes. Nothing
that the nucleus does tells them apart: a process is moved, created or terminated on both sides, and
what is left is the same again but for the slots (`lockstep_renaming`). Only a new process may get
a slot on one side that does not correspond to that on the other. The renaming is then changed by a
swap of two slots that are free, which no process can notice (`Renaming.rebase`).
-/

namespace Nucleus

/-- Renamings that agree on the relatives rename a descriptor alike. -/
theorem Descriptor.rename_congr {f g : Slot → Slot} {d : Descriptor}
    (hparent : ∀ p, d.parent = some p → g p = f p) (hchildren : ∀ c ∈ d.children, g c = f c) :
    d.rename g = d.rename f := by
  have hp : d.parent.map g = d.parent.map f := Option.map_congr hparent
  have hc : d.children.map g = d.children.map f := List.map_congr_left hchildren
  unfold rename
  rw [hp, hc]

/-- A bijection between some of the slots extends to all of them. -/
theorem exists_perm_of_bijOn {used used' : Set Slot} {f : Slot → Slot}
    (hf : Set.BijOn f used used') :
    ∃ π : Equiv.Perm Slot, (∀ h, π h ∈ used' ↔ h ∈ used) ∧ ∀ h ∈ used, π h = f h := by
  classical
  let e : {h // h ∈ used} ≃ {h // h ∈ used'} := hf.equiv f
  refine ⟨e.extendSubtype, fun h => ?_, fun h hh => e.extendSubtype_apply_of_mem h hh⟩
  by_cases hh : h ∈ used
  · exact iff_of_true (e.extendSubtype_mem h hh) hh
  · exact iff_of_false (e.extendSubtype_not_mem h hh) hh

namespace Kernel

open Outcome

variable {π ρ : Equiv.Perm Slot} {f : Slot → Slot} {k k' k₁ k₁' : Kernel} {h g c p : Slot}
  {id : SemaphoreId} {here there : Place} {pid : Pid}

/-- The second kernel is the first with its processes in other slots. Of the slots that are free
neither the order nor the contents matter, nor where the wait lists are kept. -/
structure Renamed (f : Slot → Slot) (k k' : Kernel) : Prop where
  machine : k'.machine = k.machine
  figures : k.SameFigures k'
  slots : Set.BijOn f {h | k.processes.isUsed h = true} {h | k'.processes.isUsed h = true}
  get : ∀ h, k.processes.isUsed h = true →
    k'.processes.get (f h) = (k.processes.get h).rename f
  lookup : ∀ pid, k'.pids.lookup pid = (k.pids.lookup pid).map f
  current : k'.current = k.current.map f
  ready : k'.ready.items = k.ready.items.map f
  waiting : ∀ id, k'.waits.waiting id = (k.waits.waiting id).map f

/-- Two kernels with their books in order are the same but for the slots of their processes, and
slots that are free correspond too. -/
structure Renaming (π : Equiv.Perm Slot) (k k' : Kernel) : Prop where
  books : k.Accounted
  books' : k'.Accounted
  machine : k'.machine = k.machine
  figures : k.SameFigures k'
  isUsed : ∀ h, k'.processes.isUsed (π h) = k.processes.isUsed h
  get : ∀ h, k.processes.isUsed h = true →
    k'.processes.get (π h) = (k.processes.get h).rename π
  standing : ∀ place, k'.standing place = (k.standing place).map π

/-- How the free slots correspond can be chosen. -/
theorem Renamed.exists_renaming (hr : Renamed f k k') (hk : k.Accounted) (hk' : k'.Accounted) :
    ∃ π, Renaming π k k' := by
  obtain ⟨π, hused, heq⟩ := exists_perm_of_bijOn hr.slots
  refine ⟨π, hk, hk', hr.machine, hr.figures, fun h => ?_, fun h hh => ?_, fun place => ?_⟩
  · rw [Bool.eq_iff_iff]
    exact hused h
  · rw [heq h hh, hr.get h hh]
    refine (Descriptor.rename_congr (fun p hp => ?_) fun c hc => ?_).symm
    · exact heq p (hk.linked.parent hh hp).1
    · exact heq c (hk.linked.child hh hc).1
  · have hmap : (k.standing place).map π = (k.standing place).map f :=
      List.map_congr_left fun h hmem => heq h (hk.used_of_mem hmem)
    rw [hmap]
    cases place with
    | processor =>
      show k'.current.toList = k.current.toList.map f
      rw [hr.current, Option.toList_map]
    | ready => exact hr.ready
    | waitList id => exact hr.waiting id

namespace Renaming

theorem pidAt (hR : Renaming π k k') (hh : k.processes.isUsed h = true) :
    k'.pidAt (π h) = k.pidAt h := by
  unfold Kernel.pidAt
  rw [hR.get h hh]
  rfl

theorem lookup (hR : Renaming π k k') (pid : Pid) :
    k'.pids.lookup pid = (k.pids.lookup pid).map π := by
  refine Option.ext fun g => ?_
  obtain ⟨h, rfl⟩ := π.surjective g
  rw [Option.map_eq_some_iff, hR.books'.indexed.lookup_eq_some_iff, hR.isUsed]
  constructor
  · rintro ⟨hh, hpid⟩
    exact ⟨h, hR.books.indexed.lookup_eq_some_iff.2 ⟨hh, (hR.pidAt hh).symm.trans hpid⟩, rfl⟩
  · rintro ⟨h', hlookup, heq⟩
    obtain rfl := π.injective heq
    obtain ⟨hh, hpid⟩ := hR.books.indexed.lookup_eq_some_iff.1 hlookup
    exact ⟨hh, (hR.pidAt hh).trans hpid⟩

theorem current (hR : Renaming π k k') : k'.current = k.current.map π := by
  have hstanding : k'.current.toList = k.current.toList.map π := hR.standing .processor
  cases hh : k.current with
  | none =>
    rw [hh] at hstanding
    exact Option.toList_eq_nil_iff.1 hstanding
  | some h =>
    rw [hh] at hstanding
    exact Option.toList_eq_singleton_iff.1 hstanding

theorem renamed (hR : Renaming π k k') : Renamed π k k' where
  machine := hR.machine
  figures := hR.figures
  slots := π.bijOn fun h => by
    show k'.processes.isUsed (π h) = true ↔ k.processes.isUsed h = true
    rw [hR.isUsed]
  get := hR.get
  lookup := hR.lookup
  current := hR.current
  ready := hR.standing .ready
  waiting := fun id => hR.standing (.waitList id)

theorem at_place (hR : Renaming π k k') (hp : k.At h here) : k'.At (π h) here := by
  refine hR.books'.at_of_mem ?_
  rw [hR.standing]
  exact List.mem_map_of_mem hp.mem

/-- What leaves the books alone may change on both sides if it changes to the same. -/
theorem congr (hR : Renaming π k k') (hsame : k.SameBooks k₁) (hsame' : k'.SameBooks k₁')
    (hmachine : k₁'.machine = k₁.machine) (hfigures : k₁.SameFigures k₁')
    (hget : ∀ h, k.processes.isUsed h = true →
      k₁'.processes.get (π h) = (k₁.processes.get h).rename π) : Renaming π k₁ k₁' where
  books := hR.books.congr hsame
  books' := hR.books'.congr hsame'
  machine := hmachine
  figures := hfigures
  isUsed := fun h => by rw [hsame.isUsed, hsame'.isUsed, hR.isUsed]
  get := fun h hh => hget h ((hsame.isUsed h).symm.trans hh)
  standing := fun place => by rw [hsame.standing, hsame'.standing, hR.standing]

/-! ## Moves -/

/-- A process may move to another place on both sides. -/
theorem moved (hR : Renaming π k k') (hp : k.At h here) (hne : here ≠ there)
    (hm : k.Moved h here there k₁) (hm' : k'.Moved (π h) here there k₁') (hw : k.SameWorld k₁)
    (hw' : k'.SameWorld k₁') : Renaming π k₁ k₁' where
  books := hR.books.moved hp hne hm
  books' := hR.books'.moved (hR.at_place hp) hne hm'
  machine := hw'.machine.trans (hR.machine.trans hw.machine.symm)
  figures := by
    have hf := hR.figures
    refine ⟨?_, ?_, ?_, ?_, ?_, ?_, ?_, ?_⟩
    · rw [hw'.config, hw.config, hf.config]
    · rw [hw'.values, hw.values, hf.values]
    · rw [hm'.live, hm.live, hf.liveCount]
    · have hsoft := hm.soft
      have hsoft' := hm'.soft
      rw [hf.softCount] at hsoft'
      exact UInt32.toNat_inj.1 (by omega)
    · rw [hm'.lastPid, hm.lastPid, hf.lastPid]
    · rw [hw'.chargedUntil, hw.chargedUntil, hf.chargedUntil]
    · rw [hw'.tickMicros, hw.tickMicros, hf.tickMicros]
    · rw [hw'.tickUntil, hw.tickUntil, hf.tickUntil]
  isUsed := fun g => by rw [hm'.isUsed, hm.isUsed, hR.isUsed]
  get := fun g hg => by
    rw [hm.isUsed] at hg
    rw [hm'.descriptor, hm.descriptor]
    by_cases heq : h = g
    · subst heq
      rw [if_pos rfl, if_pos rfl, hR.get h hg]
      rfl
    · rw [if_neg heq, if_neg fun hsame => heq (π.injective hsame), hR.get g hg]
  standing := fun place => by
    by_cases hhere : place = here
    · rw [hhere, hm'.leaves, hm.leaves, hR.standing, List.map_erase π.injective]
    · by_cases hthere : place = there
      · rw [hthere, hm'.joins, hm.joins, hR.standing, List.map_append, List.map_singleton]
      · rw [hm'.others place hhere hthere, hm.others place hhere hthere, hR.standing]

theorem dispatch {rest : List Slot} (hR : Renaming π k k') (hcurrent : k.current = none)
    (hready : k.ready.items = h :: rest) :
    Renaming π { k with ready := ⟨rest⟩, current := some h }
      { k' with ready := ⟨rest.map π⟩, current := some (π h) } := by
  have hmem : h ∈ k.standing .ready := by
    show h ∈ k.ready.items
    exact hready ▸ List.mem_cons_self
  have hready' : k'.ready.items = π h :: rest.map π := by
    rw [hR.renamed.ready, hready, List.map_cons]
  have hcurrent' : k'.current = none := by rw [hR.current, hcurrent, Option.map_none]
  exact hR.moved (hR.books.at_of_mem hmem) Place.noConfusion
    (moved_of_dispatch hR.books hcurrent hready) (moved_of_dispatch hR.books' hcurrent' hready')
    ⟨⟨rfl, rfl, rfl, rfl, rfl⟩, rfl⟩ ⟨⟨rfl, rfl, rfl, rfl, rfl⟩, rfl⟩

theorem expire_eq (hk : k.Accounted) (hh : k.current = some h) :
    expire h k = .ok () { k with current := none, ready := ⟨k.ready.items ++ [h]⟩ }
      [.quantumExpired (k.pidAt h)] := by
  have hready : h ∉ k.ready.items := fun hmem =>
    Place.noConfusion ((hk.at_processor hh).mem_iff (q := .ready) |>.1 hmem)
  unfold expire
  rw [Action.change_bind_apply, Action.look_bind_apply, Action.note_bind_apply]
  unfold Action.attempt
  beta_reduce
  rw [makeReady_of_not_mem (k := { k with current := none }) hready]
  rfl

theorem expire (hR : Renaming π k k') (hh : k.current = some h) :
    Agree (fun _ s _ t => Renaming π s t) (Renaming π) (expire h k) (expire (π h) k') := by
  have hh' : k'.current = some (π h) := by rw [hR.current, hh, Option.map_some]
  rw [expire_eq hR.books hh, expire_eq hR.books' hh', hR.pidAt (hR.books.used_of_current hh)]
  exact .ok _ (hR.moved (hR.books.at_processor hh) Place.noConfusion
    (moved_of_expiry hR.books hh) (moved_of_expiry hR.books' hh')
    ⟨⟨rfl, rfl, rfl, rfl, rfl⟩, rfl⟩ ⟨⟨rfl, rfl, rfl, rfl, rfl⟩, rfl⟩)

/-- While a process runs there is always a wait list for it, whichever are in use. -/
theorem suspend (hR : Renaming π k k') (hh : k.current = some h) (id : SemaphoreId) :
    Agree (fun _ s _ t => Renaming π s t) (Renaming π) (suspend id id.waitKind k)
      (suspend id id.waitKind k') := by
  have hh' : k'.current = some (π h) := by rw [hR.current, hh, Option.map_some]
  refine .of_finishes
    ((suspend_finishes hR.books hh (.inr (hR.books.exists_freeList hh))).and_always
      (suspend_sameWorld id _ k)) (suspend_tells hh id _)
    ((suspend_finishes hR.books' hh' (.inr (hR.books'.exists_freeList hh'))).and_always
      (suspend_sameWorld id _ k')) (suspend_tells hh' id _) ?_
  rintro _ s _ _ t _ ⟨hm, hw⟩ rfl ⟨hm', hw'⟩ rfl
  exact ⟨by rw [hR.pidAt (hR.books.used_of_current hh)],
    hR.moved (hR.books.at_processor hh) Place.noConfusion hm hm' hw hw'⟩

theorem wakeNext (hR : Renaming π k k') (id : SemaphoreId) :
    Agree (fun a s b t => Renaming π s t ∧ b = a.map π ∧ ∀ h ∈ a, s.processes.isUsed h = true)
      (Renaming π) (wakeNext id k) (wakeNext id k') := by
  have hwaiting := hR.standing (.waitList id)
  cases hq : k.waits.waiting id with
  | nil =>
    have hq' : k'.waits.waiting id = [] := by rw [hR.renamed.waiting, hq, List.map_nil]
    rw [wakeNext_of_empty hq, wakeNext_of_empty hq']
    exact .ok [] ⟨hR, rfl, nofun⟩
  | cons h rest =>
    have hq' : k'.waits.waiting id = π h :: rest.map π := by
      rw [hR.renamed.waiting, hq, List.map_cons]
    have hmem : h ∈ k.standing (.waitList id) := by
      show h ∈ k.waits.waiting id
      exact hq ▸ List.mem_cons_self
    refine .of_finishes
      ((wakeNext_finishes hR.books hq).and_always (wakeNext_sameWorld id k)) (wakeNext_tells id k)
      ((wakeNext_finishes hR.books' hq').and_always (wakeNext_sameWorld id k'))
      (wakeNext_tells id k') ?_
    rintro _ s _ _ t _ ⟨⟨rfl, hm⟩, hw⟩ rfl ⟨⟨rfl, hm'⟩, hw'⟩ rfl
    have hused := hR.books.used_of_mem hmem
    refine ⟨?_, hR.moved (hR.books.at_of_mem hmem) Place.noConfusion hm hm' hw hw', rfl, ?_⟩
    · simp only [Option.toList_some, List.map_singleton, hR.pidAt hused]
    · rintro _ ⟨⟩
      rwa [hm.isUsed]

/-! ## Families -/

/-- Of two free slots either may be taken for the other. -/
theorem rebase (hR : Renaming π k k') (hc : k.processes.isUsed c = false)
    (hg : k'.processes.isUsed g = false) : ∃ ρ, Renaming ρ k k' ∧ ρ c = g ∧
      ∀ h, k.processes.isUsed h = true → ρ h = π h := by
  let ρ : Equiv.Perm Slot := π.trans (Equiv.swap (π c) g)
  have hfree : k'.processes.isUsed (π c) = false := (hR.isUsed c).trans hc
  have hkept : ∀ h, k.processes.isUsed h = true → ρ h = π h := by
    intro h hh
    have hused : k'.processes.isUsed (π h) = true := (hR.isUsed h).trans hh
    refine Equiv.swap_apply_of_ne_of_ne (fun heq => ?_) fun heq => ?_
    · rw [heq, hfree] at hused
      cases hused
    · rw [heq, hg] at hused
      cases hused
  have hisUsed : ∀ h, k'.processes.isUsed (ρ h) = k.processes.isUsed h := by
    intro h
    cases hh : k.processes.isUsed h with
    | true => rw [hkept h hh, hR.isUsed, hh]
    | false =>
      have hfree' : k'.processes.isUsed (π h) = false := (hR.isUsed h).trans hh
      show k'.processes.isUsed (Equiv.swap (π c) g (π h)) = false
      rw [Equiv.swap_apply_def]
      split
      · exact hg
      · split
        · exact hfree
        · exact hfree'
  refine ⟨ρ, ⟨hR.books, hR.books', hR.machine, hR.figures, hisUsed, ?_, ?_⟩, ?_, hkept⟩
  · intro h hh
    rw [hkept h hh, hR.get h hh]
    refine (Descriptor.rename_congr (fun p hp => ?_) fun child hchild => ?_).symm
    · exact hkept p (hR.books.linked.parent hh hp).1
    · exact hkept child (hR.books.linked.child hh hchild).1
  · intro place
    rw [hR.standing]
    exact List.map_congr_left fun h hmem => (hkept h (hR.books.used_of_mem hmem)).symm
  · exact Equiv.swap_apply_left (π c) g

end Renaming

/-- The notice that a new process gives. -/
theorem create_notice (state : ProcessorState) (p : Slot) (k : Kernel) :
    (create state (some p) k).Tells
      (fun result k' log => log =
        result.toList.map fun _ => .created (k.lastPid + 1) (some (k'.pidAt p)))
      fun _ _ _ => True := by
  simp only [create, Action.tells_bind, Action.tells_look]
  cases k.processes.allocate with
  | none => exact rfl
  | some slotAndTable =>
    simp only [Action.tells_bind, Action.tells_look, Action.tells_change]
    refine Action.tells_check fun pid hpid => ?_
    obtain ⟨-, rfl⟩ := eq_succ_of_ok hpid
    exact Action.tells_attempt fun _ _ => Action.tells_attempt fun _ _ =>
      Action.tells_attempt fun _ _ => rfl

theorem create_of_full (state : ProcessorState) (parent : Option Slot)
    (halloc : k.processes.allocate = none) : create state parent k = .ok none k [] := by
  unfold create
  rw [Action.look_bind_apply, halloc]
  rfl

theorem create_of_last {u : ProcessTable} (state : ProcessorState) (parent : Option Slot)
    (halloc : k.processes.allocate = some (c, u)) (hlast : k.lastPid = Word.allOnes) :
    create state parent k = .abort .addOverflow := by
  unfold create
  rw [Action.look_bind_apply, halloc]
  dsimp only
  rw [Action.look_bind_apply, Action.check_bind_apply, hlast]
  rfl

/-- A new process has been entered in the books. -/
theorem Accounted.grow {u : ProcessTable} {pids : PidIndex Slot} (hk : k.Accounted)
    (halloc : k.processes.allocate = some (c, u)) (hlast : k.lastPid ≠ Word.allOnes)
    (hp : k.processes.isUsed p = true) (state : ProcessorState)
    (hpids : pids.toList.Perm ((k.lastPid + 1, c) :: k.pids.toList)) :
    Accounted { k with
      processes := Kernel.grow u c (k.lastPid + 1) state (some p)
      lastPid := k.lastPid + 1
      pids
      ready := ⟨k.ready.items ++ [c]⟩
      liveCount := k.liveCount + 1 } := by
  have ha := hk.table.allocate halloc
  obtain ⟨-, hpos, hlater⟩ := hk.pidAt_lt_succ hlast
  obtain ⟨-, hlive⟩ := Word.succ_of_lt
    (Nat.lt_of_le_of_lt (Nat.succ_le_succ hk.liveCount_le) (by decide))
  have hgrown := (ha.grown hk.linked (k.lastPid + 1) state).attach hp
    (ha.parentAt_modify _ state) hlater
  exact hk.enrolled ⟨hgrown, rfl, rfl, rfl, hpids, rfl, hlive, rfl⟩ hpos hlater

namespace Renaming

theorem children (hR : Renaming π k k') (hh : k.processes.isUsed h = true) :
    k'.processes.children (π h) = (k.processes.children h).map π :=
  congrArg Descriptor.children (hR.get h hh)

/-- There is room for another process on both sides or on neither. -/
theorem allocate_eq_none_iff (hR : Renaming π k k') :
    k'.processes.allocate = none ↔ k.processes.allocate = none := by
  rw [hR.books'.allocate_eq_none_iff, hR.books.allocate_eq_none_iff, hR.figures.liveCount]

/-- Descriptors correspond after a new process has got slots that do. -/
theorem get_grow {u u' : ProcessTable} (hR : Renaming π k k') (ha : k.processes.Allocated c u)
    (ha' : k'.processes.Allocated (π c) u') (hp : k.processes.isUsed p = true) (pid : Pid)
    (state : ProcessorState) (hg : u.isUsed g = true) :
    (Kernel.grow u' (π c) pid state (some (π p))).get (π g) =
      ((Kernel.grow u c pid state (some p)).get g).rename π := by
  have hne : p ≠ c := by
    rintro rfl
    exact Bool.false_ne_true (ha.wasFree.symm.trans hp)
  have hne' : π p ≠ π c := fun heq => hne (π.injective heq)
  rw [Kernel.get_grow ha' hne', Kernel.get_grow ha hne]
  simp only [π.injective.eq_iff]
  by_cases hcg : c = g
  · rw [if_pos hcg, if_pos hcg]
    rfl
  · rw [if_neg hcg, if_neg hcg]
    by_cases hpg : p = g
    · rw [if_pos hpg, if_pos hpg, hR.get p hp, hR.children hp]
      simp [Descriptor.rename]
    · rw [if_neg hpg, if_neg hpg]
      rw [ha.isUsed, if_neg hcg] at hg
      exact hR.get g hg

/-- A process is created on both sides in slots that correspond. -/
theorem grow {u u' : ProcessTable} {pids pids' : PidIndex Slot} (hR : Renaming π k k')
    (halloc : k.processes.allocate = some (c, u))
    (halloc' : k'.processes.allocate = some (π c, u')) (hlast : k.lastPid ≠ Word.allOnes)
    (hp : k.processes.isUsed p = true) (state : ProcessorState)
    (hpids : pids.toList.Perm ((k.lastPid + 1, c) :: k.pids.toList))
    (hpids' : pids'.toList.Perm ((k'.lastPid + 1, π c) :: k'.pids.toList)) :
    Renaming π
      { k with
        processes := Kernel.grow u c (k.lastPid + 1) state (some p)
        lastPid := k.lastPid + 1
        pids
        ready := ⟨k.ready.items ++ [c]⟩
        liveCount := k.liveCount + 1 }
      { k' with
        processes := Kernel.grow u' (π c) (k'.lastPid + 1) state (some (π p))
        lastPid := k'.lastPid + 1
        pids := pids'
        ready := ⟨k'.ready.items ++ [π c]⟩
        liveCount := k'.liveCount + 1 } := by
  have hf := hR.figures
  have ha := hR.books.table.allocate halloc
  have ha' := hR.books'.table.allocate halloc'
  have hp' : k'.processes.isUsed (π p) = true := (hR.isUsed p).trans hp
  have hlast' : k'.lastPid ≠ Word.allOnes := hf.lastPid.symm ▸ hlast
  refine ⟨hR.books.grow halloc hlast hp state hpids, hR.books'.grow halloc' hlast' hp' state hpids',
    hR.machine, ?_, fun g => ?_, fun g hg => ?_, fun place => ?_⟩
  · exact { hf with
      liveCount := congrArg (· + 1) hf.liveCount
      lastPid := congrArg (· + 1) hf.lastPid }
  · refine (ha'.isUsed (π g)).trans (Eq.trans ?_ (ha.isUsed g).symm)
    simp only [π.injective.eq_iff, hR.isUsed]
  · dsimp only
    rw [hf.lastPid]
    exact hR.get_grow ha ha' hp _ state hg
  · cases place with
    | processor => exact hR.standing .processor
    | waitList id => exact hR.standing (.waitList id)
    | ready =>
      show k'.ready.items ++ [π c] = (k.ready.items ++ [c]).map π
      rw [hR.renamed.ready, List.map_append, List.map_singleton]

/-- A new process may get any free slot on either side. -/
theorem create (hR : Renaming π k k') (hp : k.processes.isUsed p = true)
    (state : ProcessorState) :
    Agree (fun a s b t => ∃ ρ, Renaming ρ s t ∧ ρ p = π p ∧ s.processes.isUsed p = true ∧
        b = a.map ρ ∧ ∀ h ∈ a, s.processes.isUsed h = true)
      (Renaming π) (create state (some p) k) (create state (some (π p)) k') := by
  cases halloc : k.processes.allocate with
  | none =>
    have halloc' := hR.allocate_eq_none_iff.2 halloc
    rw [create_of_full state _ halloc, create_of_full state _ halloc']
    exact .ok [] ⟨π, hR, rfl, hp, rfl, nofun⟩
  | some slotAndTable =>
    obtain ⟨c, u⟩ := slotAndTable
    have hroom' : k'.processes.allocate ≠ none := by
      rw [Ne, hR.allocate_eq_none_iff, halloc]
      exact Option.some_ne_none _
    obtain ⟨⟨c', u'⟩, halloc'⟩ := Option.ne_none_iff_exists'.1 hroom'
    by_cases hlast : k.lastPid = Word.allOnes
    · have hlast' := hR.figures.lastPid.trans hlast
      rw [create_of_last state _ halloc hlast, create_of_last state _ halloc' hlast']
      exact .abort _
    · have ha := hR.books.table.allocate halloc
      have hlast' : k'.lastPid ≠ Word.allOnes := hR.figures.lastPid.symm ▸ hlast
      obtain ⟨ρ, hρ, rfl, hkept⟩ :=
        hR.rebase ha.wasFree (hR.books'.table.allocate halloc').wasFree
      rw [← hkept p hp]
      refine .of_finishes (hR.books.create_eq halloc hlast state p) (create_notice state p k)
        (hR.books'.create_eq halloc' hlast' state (ρ p)) (create_notice state (ρ p) k') ?_
      rintro _ s _ _ t _ ⟨rfl, pids, hpids, rfl⟩ rfl ⟨rfl, pids', hpids', rfl⟩ rfl
      have hgrown := hρ.grow halloc halloc' hlast hp state hpids hpids'
      have hused : ∀ h, (Kernel.grow u c (k.lastPid + 1) state (some p)).isUsed h =
        if c = h then true else k.processes.isUsed h := ha.isUsed
      have hpused : (Kernel.grow u c (k.lastPid + 1) state (some p)).isUsed p = true := by
        rw [hused, hp, ite_self]
      refine ⟨?_, ρ, hgrown, rfl, hpused, rfl, ?_⟩
      · have hpid := hgrown.pidAt hpused
        show [Notice.created (k'.lastPid + 1) (some _)] =
          [Notice.created (k.lastPid + 1) (some _)]
        rw [hpid, hR.figures.lastPid]
      · rintro _ ⟨⟩
        exact (hused c).trans (if_pos rfl)

/-- A process gives back the same on both sides when it is retired. -/
theorem refund (hR : Renaming π k k') (hh : k.processes.isUsed h = true) : ∃ values machine,
    Kernel.refund { k with processes := k.processes.detach h } h =
      { k with processes := k.processes.detach h, values, machine } ∧
    Kernel.refund { k' with processes := k'.processes.detach (π h) } (π h) =
      { k' with processes := k'.processes.detach (π h), values, machine } := by
  obtain ⟨_, _, hget⟩ := k.processes.exists_get_detach h h
  obtain ⟨_, _, hget'⟩ := k'.processes.exists_get_detach (π h) (π h)
  have hadd : ∀ id, ∃ values machine,
      Kernel.add { k with processes := k.processes.detach h } id 1 =
        { k with processes := k.processes.detach h, values, machine } ∧
      Kernel.add { k' with processes := k'.processes.detach (π h) } id 1 =
        { k' with processes := k'.processes.detach (π h), values, machine } := by
    intro id
    refine ⟨_, _, rfl, ?_⟩
    unfold Kernel.add
    dsimp only
    rw [hR.machine, hR.figures.values]
    cases id <;> rfl
  have hnothing : ∃ values machine, { k with processes := k.processes.detach h } =
        { k with processes := k.processes.detach h, values, machine } ∧
      { k' with processes := k'.processes.detach (π h) } =
        { k' with processes := k'.processes.detach (π h), values, machine } := by
    refine ⟨k.values, k.machine, rfl, ?_⟩
    rw [← hR.machine, ← hR.figures.values]
  unfold Kernel.refund
  dsimp only
  rw [hget, hget', hR.get h hh]
  dsimp only [Descriptor.rename]
  cases (k.processes.get h).wait with
  | none => exact hnothing
  | device => exact hnothing
  | clock => exact hadd .clock
  | semaphore =>
    cases (k.processes.get h).waitsOn with
    | none => exact hnothing
    | some id => exact hadd id

theorem retired (hR : Renaming π k k') (hh : k.processes.isUsed h = true)
    (hchildren : k.processes.children h = []) (hr : k.Retired h k₁)
    (hr' : k'.Retired (π h) k₁')
    (hw : (Kernel.refund { k with processes := k.processes.detach h } h).SameWorld k₁)
    (hw' : (Kernel.refund { k' with processes := k'.processes.detach (π h) } (π h)).SameWorld
      k₁') : Renaming π k₁ k₁' := by
  have hf := hR.figures
  have hh' : k'.processes.isUsed (π h) = true := (hR.isUsed h).trans hh
  have hchildren' : k'.processes.children (π h) = [] := by
    rw [hR.children hh, hchildren, List.map_nil]
  obtain ⟨values, machine, hrefund, hrefund'⟩ := hR.refund hh
  rw [hrefund] at hw
  rw [hrefund'] at hw'
  refine ⟨hR.books.retired hh hchildren hr, hR.books'.retired hh' hchildren' hr',
    hw'.machine.trans hw.machine.symm, ⟨?_, ?_, ?_, ?_, ?_, ?_, ?_, ?_⟩, fun g => ?_,
    fun g hg => ?_, fun place => ?_⟩
  · exact hw'.config.trans (hf.config.trans hw.config.symm)
  · exact hw'.values.trans hw.values.symm
  · have hlive := hr.live
    have hlive' := hr'.live
    rw [hf.liveCount] at hlive'
    exact UInt32.toNat_inj.1 (by omega)
  · have hsoft := hr.soft
    have hsoft' := hr'.soft
    have hwait : (k'.processes.get (π h)).wait = (k.processes.get h).wait := by
      rw [hR.get h hh]
      rfl
    rw [hf.softCount, hwait] at hsoft'
    exact UInt32.toNat_inj.1 (by omega)
  · exact hr'.lastPid.trans (hf.lastPid.trans hr.lastPid.symm)
  · exact hw'.chargedUntil.trans (hf.chargedUntil.trans hw.chargedUntil.symm)
  · exact hw'.tickMicros.trans (hf.tickMicros.trans hw.tickMicros.symm)
  · exact hw'.tickUntil.trans (hf.tickUntil.trans hw.tickUntil.symm)
  · rw [hr'.isUsed, hr.isUsed]
    simp only [π.injective.eq_iff, hR.isUsed]
  · obtain ⟨hg, hne⟩ := hr.used_iff.1 hg
    have hg' : k'.processes.isUsed (π g) = true := (hR.isUsed g).trans hg
    have hne' : π h ≠ π g := fun heq => hne (π.injective heq)
    have hfilter : ((k.processes.children g).map π).filter (· ≠ π h) =
        ((k.processes.children g).filter (· ≠ h)).map π := by
      rw [List.filter_map]
      refine congrArg (List.map π) (List.filter_congr fun c _ => ?_)
      simp
    rw [hr'.kept (π g) hg' hne', hr.kept g hg hne, hR.children hg, hfilter, hR.get g hg]
    rfl
  · rw [hr'.standing, hr.standing, hR.standing, List.map_erase π.injective]

/-- A process without children is retired on both sides. -/
theorem retire (hR : Renaming π k k') (hh : k.processes.isUsed h = true)
    (hchildren : k.processes.children h = []) :
    Agree (fun _ s _ t => Renaming π s t ∧ k.Retired h s) (Renaming π) (retire h k)
      (retire (π h) k') := by
  have hh' : k'.processes.isUsed (π h) = true := (hR.isUsed h).trans hh
  refine .of_finishes
    ((retire_finishes hR.books hh).and_always (retire_sameWorld h k)) (retire_tells h k)
    ((retire_finishes hR.books' hh').and_always (retire_sameWorld (π h) k'))
    (retire_tells (π h) k') ?_
  rintro _ s _ _ t _ ⟨hr, hw⟩ rfl ⟨hr', hw'⟩ rfl
  exact ⟨by rw [hR.pidAt hh], hR.retired hh hchildren hr hr' hw hw', hr⟩

theorem retireAll {hs : List Slot} (hR : Renaming π k k') (hl : k.Retirable hs) :
    Agree (fun _ s _ t => Renaming π s t) (Renaming π) (hs.forM Kernel.retire k)
      ((hs.map π).forM Kernel.retire k') := by
  induction hs generalizing k k' with
  | nil => exact .ok [] hR
  | cons h hs ih =>
    refine Action.agree_bind (hR.retire hl.head hl.children_head) ?_
    rintro _ s _ t ⟨hst, hr⟩
    exact ih hst (hl.tail hr)

theorem family (hR : Renaming π k k') (depth : Nat) (hh : k.processes.isUsed h = true) :
    k'.processes.family depth (π h) = (k.processes.family depth h).map π := by
  induction depth generalizing h with
  | zero => rfl
  | succ depth ih =>
    unfold ProcessTable.family
    rw [hR.children hh, List.flatMap_map, List.map_append, List.map_flatMap, List.map_singleton]
    refine congrArg (· ++ [π h]) (List.flatMap_congr fun c hc => ?_)
    exact ih (hR.books.linked.child hh hc).1

theorem terminate (hR : Renaming π k k') (pid : Pid) :
    Agree (fun a s b t => b = a ∧ Renaming π s t) (Renaming π) (terminate pid k)
      (terminate pid k') := by
  have hlookup' := hR.lookup pid
  cases hlookup : k.pids.lookup pid with
  | none =>
    rw [hlookup] at hlookup'
    rw [terminate_of_dead hlookup, terminate_of_dead hlookup']
    exact Action.agree_pure ⟨rfl, hR⟩
  | some victim =>
    obtain ⟨hvictim, -⟩ := hR.books.indexed.lookup_eq_some_iff.1 hlookup
    rw [hlookup] at hlookup'
    rw [terminate_of_live hlookup, terminate_of_live hlookup', hR.family maxProcesses hvictim]
    refine Action.agree_bind (hR.retireAll (hR.books.retirable hvictim)) ?_
    exact fun _ s _ t hst => Action.agree_pure ⟨rfl, hst⟩

end Renaming

/-! ## Lockstep -/

/-- Kernels that are the same but for the slots of their processes go in lockstep. -/
theorem lockstep_renaming : Lockstep Renaming fun k h => k.processes.isUsed h = true where
  machine := fun {π k k'} hR => ⟨k.machine.tape, by rw [hR.machine, Machine.withTape_tape]⟩
  figures := Renaming.figures
  current := Renaming.current
  ready := fun hR => hR.renamed.ready
  get := fun hR hh => hR.get _ hh
  live_of_current := fun hR hh => hR.books.used_of_current hh
  live_of_ready := fun hR hmem => hR.books.used_of_mem (p := .ready) hmem
  live_of_parent := fun hR hh hp => (hR.books.linked.parent hh hp).1
  live_congr := fun hsame hh => (hsame.isUsed _).trans hh
  setMachine := fun {π k k'} hR m =>
    hR.congr (Alike.setMachine k _).toSameBooks (Alike.setMachine k' _).toSameBooks
      (by rw [hR.machine]) ⟨hR.figures.config, hR.figures.values, hR.figures.liveCount,
        hR.figures.softCount, hR.figures.lastPid, hR.figures.chargedUntil, hR.figures.tickMicros,
        hR.figures.tickUntil⟩ hR.get
  setFigures := fun {π k k'} hR values chargedUntil tickMicros tickUntil =>
    have hsame (k : Kernel) : k.Alike { k with values, chargedUntil, tickMicros, tickUntil } :=
      .of_eq rfl rfl rfl rfl rfl rfl rfl
    hR.congr (hsame k).toSameBooks (hsame k').toSameBooks hR.machine
      { hR.figures with values := rfl, chargedUntil := rfl, tickMicros := rfl, tickUntil := rfl }
      hR.get
  modify := fun {π k k' h} hR hh f hentry hrename =>
    hR.congr (.modify hentry) (.modify hentry) hR.machine
      { hR.figures with } fun g hg => by
        unfold Kernel.modify
        dsimp only
        rw [ProcessTable.get_modify, ProcessTable.get_modify]
        simp only [π.injective.eq_iff]
        split
        · rw [hR.get h hh, hrename]
        · exact hR.get g hg
  dispatch := Renaming.dispatch
  expire := Renaming.expire
  suspend := Renaming.suspend
  wakeNext := Renaming.wakeNext
  create := Renaming.create
  terminate := Renaming.terminate

end Kernel

end Nucleus
