import Nucleus.Kernel.Family
import Nucleus.Proofs.Kernel.Moves

/-!
# Creating a process

A new process takes a free slot, the next pid and the tail of the ready queue, and it becomes the
youngest child of its parent. `create` keeps the invariant; it breaks a check only when the pids are
used up.
-/

namespace Nucleus

/-- A word that is not the greatest is followed by a greater one. -/
theorem Word.succ_of_ne {w : Word} (hw : w ≠ allOnes) : succ w = .ok (w + 1) ∧ w < w + 1 := by
  have hlt : w.toNat + 1 < UInt32.size := by
    have hne : w.toNat ≠ allOnes.toNat := fun heq => hw (UInt32.toNat_inj.1 heq)
    have hbound := w.toNat_lt_size
    have hones : allOnes.toNat = UInt32.size - 1 := rfl
    omega
  obtain ⟨hsucc, hn⟩ := succ_of_lt hlt
  refine ⟨hsucc, ?_⟩
  rw [UInt32.lt_iff_toNat_lt, hn]
  exact Nat.lt_succ_self _

namespace ProcessTable

variable {t u : ProcessTable} {h p : Slot} {pid : Pid}

/-- A table with a new process in slot `h`, which waits for nothing and has no handlers. The other
processes differ only in their children. -/
structure Grown (t : ProcessTable) (h : Slot) (pid : Pid) (u : ProcessTable) : Prop where
  wasFree : t.isUsed h = false
  isUsed : ∀ i, u.isUsed i = if h = i then true else t.isUsed i
  valid : u.Valid
  linked : u.Linked
  pid : u.pidAt h = pid
  waitsOn : (u.get h).waitsOn = none
  wait : (u.get h).wait = .none
  handlers : Descriptor.blank.SameHandlers (u.get h)
  kept : ∀ i, h ≠ i → u.pidAt i = t.pidAt i ∧ (u.get i).waitsOn = (t.get i).waitsOn ∧
    (u.get i).wait = (t.get i).wait ∧ (t.get i).SameHandlers (u.get i)

theorem Allocated.get_self (ha : t.Allocated h u) : u.get h = .blank := by
  rw [ha.get, if_pos rfl]

theorem Allocated.get_of_ne (ha : t.Allocated h u) {i : Slot} (hi : h ≠ i) :
    u.get i = t.get i := by
  rw [ha.get, if_neg hi]

/-- The process in a slot that was handed out, before it has a parent. -/
theorem Allocated.grown (ha : t.Allocated h u) (ht : t.Linked) (pid : Pid)
    (state : ProcessorState) : t.Grown h pid (u.modify h ({ · with pid, state })) := by
  have hself : (u.modify h ({ · with pid, state })).get h =
      { Descriptor.blank with pid, state } := by
    rw [get_modify, if_pos rfl, ha.get_self]
  have hother : ∀ i, h ≠ i → (u.modify h ({ · with pid, state })).get i = t.get i := fun i hi => by
    rw [get_modify, if_neg hi, ha.get_of_ne hi]
  refine ⟨ha.wasFree, ha.isUsed, ha.valid.congr rfl rfl, ?_, ?_, ?_, ?_, ?_, ?_⟩
  · refine ht.add ha.wasFree ?_ ?_ ha.isUsed fun i hi => ?_
    · unfold parentAt
      rw [hself]
      rfl
    · unfold children
      rw [hself]
      rfl
    · refine ⟨?_, ?_, ?_⟩
      · unfold pidAt
        rw [hother i hi]
      · unfold parentAt
        rw [hother i hi]
      · unfold children
        rw [hother i hi]
  · unfold pidAt
    rw [hself]
  · rw [hself]
    rfl
  · rw [hself]
    rfl
  · rw [hself]
    exact ⟨rfl, rfl⟩
  · intro i hi
    unfold pidAt
    rw [hother i hi]
    exact ⟨rfl, rfl, rfl, .refl _⟩

theorem Allocated.parentAt_modify (ha : t.Allocated h u) (pid : Pid) (state : ProcessorState) :
    (u.modify h ({ · with pid, state })).parentAt h = none := by
  unfold parentAt
  rw [get_modify, if_pos rfl, ha.get_self]
  rfl

/-- A new process with the latest pid gets a parent. -/
theorem Grown.attach (hu : t.Grown h pid u) (hp : t.isUsed p = true)
    (hparent : u.parentAt h = none) (hlast : ∀ i, t.isUsed i = true → t.pidAt i < pid) :
    t.Grown h pid (u.attach p h) := by
  have hne : p ≠ h := fun heq => by
    rw [heq, hu.wasFree] at hp
    exact Bool.false_ne_true hp
  have hself : (u.attach p h).get h = { u.get h with parent := some p } := by
    rw [get_attach hne, if_pos rfl]
  refine ⟨hu.wasFree, hu.isUsed, hu.valid.congr rfl rfl, ?_, ?_, ?_, ?_, ?_, ?_⟩
  · refine hu.linked.attach ?_ ?_ hne hparent fun i hi hih => ?_
    · rw [hu.isUsed, if_neg (Ne.symm hne)]
      exact hp
    · rw [hu.isUsed, if_pos rfl]
    · rw [hu.isUsed, if_neg (Ne.symm hih)] at hi
      rw [hu.pid, (hu.kept i (Ne.symm hih)).1]
      exact hlast i hi
  · unfold pidAt
    rw [hself]
    exact hu.pid
  · rw [hself]
    exact hu.waitsOn
  · rw [hself]
    exact hu.wait
  · rw [hself]
    exact ⟨hu.handlers.handlers, hu.handlers.announced⟩
  · intro i hi
    obtain ⟨hpid, hwaitsOn, hwait, hhandlers⟩ := hu.kept i hi
    have hget : (u.attach p h).get i =
        if p = i then { u.get p with children := u.children p ++ [h] } else u.get i := by
      rw [get_attach hne, if_neg hi]
    simp only [pidAt, hget]
    split
    · rename_i heq
      rw [heq]
      exact ⟨hpid, hwaitsOn, hwait, hhandlers.handlers, hhandlers.announced⟩
    · exact ⟨hpid, hwaitsOn, hwait, hhandlers⟩

end ProcessTable

namespace Kernel

open Outcome

variable {k k' : Kernel} {h g : Slot} {pid : Pid}

theorem Accounted.pidAt_lt_succ (hk : k.Accounted) (hlast : k.lastPid ≠ Word.allOnes) :
    Word.succ k.lastPid = .ok (k.lastPid + 1) ∧ 0 < k.lastPid + 1 ∧
      ∀ h, k.processes.isUsed h = true → k.pidAt h < k.lastPid + 1 := by
  obtain ⟨hsucc, hlt⟩ := Word.succ_of_ne hlast
  refine ⟨hsucc, ?_, fun h hh => ?_⟩
  · exact UInt32.lt_of_le_of_lt (UInt32.zero_le) hlt
  · exact UInt32.lt_of_le_of_lt (hk.indexed.le_last hh) hlt

/-- The new process `h` has been entered in all the books, at the tail of the ready queue. -/
structure Enrolled (k : Kernel) (h : Slot) (pid : Pid) (k' : Kernel) : Prop where
  grown : k.processes.Grown h pid k'.processes
  waits : k'.waits = k.waits
  ready : k'.ready.items = k.ready.items ++ [h]
  current : k'.current = k.current
  pids : k'.pids.toList.Perm ((pid, h) :: k.pids.toList)
  lastPid : k'.lastPid = pid
  live : k'.liveCount.toNat = k.liveCount.toNat + 1
  soft : k'.softCount = k.softCount

namespace Enrolled

theorem used_self (he : k.Enrolled h pid k') : k'.processes.isUsed h = true := by
  rw [he.grown.isUsed, if_pos rfl]

theorem used_iff (he : k.Enrolled h pid k') (hne : h ≠ g) :
    k'.processes.isUsed g = k.processes.isUsed g := by
  rw [he.grown.isUsed, if_neg hne]

theorem ne_of_used (he : k.Enrolled h pid k') (hg : k.processes.isUsed g = true) : h ≠ g := by
  rintro rfl
  rw [he.grown.wasFree] at hg
  exact Bool.false_ne_true hg

theorem pidAt_of_ne (he : k.Enrolled h pid k') (hne : h ≠ g) : k'.pidAt g = k.pidAt g :=
  (he.grown.kept g hne).1

theorem indexed (he : k.Enrolled h pid k') (hk : k.Indexed) (hpos : 0 < pid)
    (hlast : ∀ g, k.processes.isUsed g = true → k.pidAt g < pid) : k'.Indexed where
  nodup := by
    rw [(he.pids.map Prod.fst).nodup_iff]
    refine List.nodup_cons.2 ⟨fun hmem => ?_, hk.nodup⟩
    obtain ⟨⟨pid', g⟩, hmem, hpid⟩ := List.mem_map.1 hmem
    obtain ⟨hg, hgp⟩ := hk.mem_iff.1 hmem
    have hlt := hlast g hg
    rw [hgp, show pid' = pid from hpid] at hlt
    exact UInt32.lt_irrefl _ hlt
  mem_iff := by
    intro pid' g
    rw [he.pids.mem_iff, List.mem_cons, hk.mem_iff, Prod.mk.injEq]
    by_cases heq : h = g
    · subst heq
      constructor
      · rintro (⟨rfl, -⟩ | ⟨hused, -⟩)
        · exact ⟨he.used_self, he.grown.pid⟩
        · exact absurd rfl (he.ne_of_used hused)
      · rintro ⟨-, hpid⟩
        exact .inl ⟨hpid.symm.trans he.grown.pid, rfl⟩
    · rw [he.used_iff heq, he.pidAt_of_ne heq]
      exact or_iff_right fun hg => heq hg.2.symm
  positive := fun {g} hg => by
    by_cases heq : h = g
    · rw [← heq, show k'.pidAt h = pid from he.grown.pid]
      exact hpos
    · rw [he.used_iff heq] at hg
      rw [he.pidAt_of_ne heq]
      exact hk.positive hg
  le_last := fun {g} hg => by
    rw [he.lastPid]
    by_cases heq : h = g
    · rw [← heq, show k'.pidAt h = pid from he.grown.pid]
      exact UInt32.le_refl pid
    · rw [he.used_iff heq] at hg
      rw [he.pidAt_of_ne heq]
      exact UInt32.le_of_lt (hlast g hg)

/-- The others stand where they stood. -/
theorem count_of_ne (he : k.Enrolled h pid k') (hne : h ≠ g) (q : Place) :
    (k'.standing q).count g = (k.standing q).count g := by
  unfold standing
  cases q with
  | processor => dsimp only; rw [he.current]
  | ready =>
    have hsingle : [h].count g = 0 :=
      List.count_eq_zero_of_not_mem fun hmem => hne (List.mem_singleton.1 hmem).symm
    dsimp only
    rw [he.ready, List.count_append, hsingle, Nat.add_zero]
  | waitList id => dsimp only; rw [he.waits]

theorem at_of_ne (he : k.Enrolled h pid k') (hne : h ≠ g) {q : Place} (hq : k.At g q) :
    k'.At g q := by
  obtain ⟨-, hwaitsOn, hwait, -⟩ := he.grown.kept g hne
  exact ⟨fun r => (he.count_of_ne hne r).trans (hq.count r), hwaitsOn.trans hq.mark,
    hwait.trans hq.wait⟩

theorem at_self (he : k.Enrolled h pid k') (hk : k.Accounted) : k'.At h .ready := by
  refine ⟨fun q => ?_, he.grown.waitsOn, he.grown.wait⟩
  have hout : (k.standing q).count h = 0 :=
    List.count_eq_zero_of_not_mem (hk.absent he.grown.wasFree q)
  cases q with
  | processor =>
    change k'.current.toList.count h = 0
    rw [he.current]
    exact hout
  | ready =>
    change k'.ready.items.count h = 1
    have hout : k.ready.items.count h = 0 := hout
    rw [he.ready, List.count_append, hout, List.count_singleton_self]
  | waitList id =>
    change (k'.waits.waiting id).count h = 0
    rw [he.waits]
    exact hout

theorem registered (he : k.Enrolled h pid k') (hk : k.Sound) (hg : k'.processes.isUsed g = true) :
    (k'.processes.get g).Registered := by
  by_cases heq : h = g
  · rw [← heq]
    exact Descriptor.registered_blank.congr he.grown.handlers
  · obtain ⟨-, -, -, hhandlers⟩ := he.grown.kept g heq
    rw [he.used_iff heq] at hg
    exact (hk.registered hg).congr hhandlers

end Enrolled

/-- The books agree after a process has been entered in all of them. -/
theorem Accounted.enrolled (hk : k.Accounted) (he : k.Enrolled h pid k') (hpos : 0 < pid)
    (hlast : ∀ g, k.processes.isUsed g = true → k.pidAt g < pid) : k'.Accounted where
  table := he.grown.valid
  waits := he.waits ▸ hk.waits
  linked := he.grown.linked
  indexed := he.indexed hk.indexed hpos hlast
  placed := fun {g} hg => by
    by_cases heq : h = g
    · exact ⟨.ready, heq ▸ he.at_self hk⟩
    · rw [he.used_iff heq] at hg
      obtain ⟨q, hq⟩ := hk.placed hg
      exact ⟨q, he.at_of_ne heq hq⟩
  absent := fun {g} hg q hmem => by
    have heq : h ≠ g := by
      rintro rfl
      exact Bool.false_ne_true (hg.symm.trans he.used_self)
    rw [he.used_iff heq] at hg
    rw [← List.count_pos_iff, he.count_of_ne heq q, List.count_pos_iff] at hmem
    exact hk.absent hg q hmem
  live := by
    have hupdate := countSlots_update (h := h) (p := k.processes.isUsed)
      (q := k'.processes.isUsed) fun g hg => he.used_iff (Ne.symm hg)
    rw [he.grown.wasFree, he.used_self, ← hk.live] at hupdate
    exact he.live.trans hupdate.symm
  soft := by
    have hupdate := countSlots_update (h := h)
      (p := fun g => k.processes.isUsed g && (k.processes.get g).wait.isSoft)
      (q := fun g => k'.processes.isUsed g && (k'.processes.get g).wait.isSoft) fun g hg => by
        rw [he.used_iff (Ne.symm hg), (he.grown.kept g (Ne.symm hg)).2.2.1]
    rw [he.soft, hk.soft]
    rw [he.grown.wasFree, he.used_self, he.grown.wait] at hupdate
    exact hupdate.symm

theorem Sound.enrolled (hk : k.Sound) (he : k.Enrolled h pid k') (hpos : 0 < pid)
    (hlast : ∀ g, k.processes.isUsed g = true → k.pidAt g < pid) : k'.Sound where
  toAccounted := hk.toAccounted.enrolled he hpos hlast
  registered := he.registered hk

/-- What `create` leaves: nothing has happened because no slot is free, or a process has been
enrolled. -/
def CreateResult (k : Kernel) (result : Option Slot) (k' : Kernel) : Prop :=
  (result = none ∧ k' = k ∧ ∀ h, k.processes.isUsed h = true) ∨
    ∃ h, result = some h ∧ k.Enrolled h (k.lastPid + 1) k'

theorem Sound.createResult (hk : k.Sound) (hlast : k.lastPid ≠ Word.allOnes)
    (he : k.Enrolled h (k.lastPid + 1) k') : k'.Sound ∧ k.CreateResult (some h) k' := by
  obtain ⟨-, hpos, hlater⟩ := hk.pidAt_lt_succ hlast
  exact ⟨hk.enrolled he hpos hlater, .inr ⟨h, rfl, he⟩⟩

/-- Creating a process keeps the invariant. -/
theorem Sound.create (hk : k.Sound) (state : ProcessorState) (parent : Option Slot)
    (hparent : ∀ p, parent = some p → k.processes.isUsed p = true) :
    (create state parent k).Ends (fun result k' => k'.Sound ∧ k.CreateResult result k')
      (fun _ _ => False) (fun _ => k.lastPid = Word.allOnes) := by
  simp only [Kernel.create, Action.ends_bind, Action.ends_look]
  cases halloc : k.processes.allocate with
  | none => exact ⟨hk, .inl ⟨rfl, rfl, hk.table.allocate_eq_none_iff.1 halloc⟩⟩
  | some slotAndTable =>
    obtain ⟨h, u⟩ := slotAndTable
    have ha := hk.table.allocate halloc
    dsimp only
    rw [Action.ends_bind, Action.ends_look, Action.ends_bind, Action.ends_check]
    by_cases hlast : k.lastPid = Word.allOnes
    · unfold Word.succ
      rw [if_pos hlast]
      exact hlast
    · obtain ⟨hsucc, -, hlater⟩ := hk.pidAt_lt_succ hlast
      have hgrown := ha.grown hk.linked (k.lastPid + 1) state
      have hroom : k.pids.length < maxProcesses := by
        rw [hk.indexed.length_pids]
        exact countSlots_lt ha.wasFree
      obtain ⟨pids, hinsert, hperm⟩ := PidIndex.insert_of_lt (k.lastPid + 1) h hroom
      have hready : h ∉ k.ready.items := hk.absent ha.wasFree .ready
      obtain ⟨hlive, hn⟩ := Word.succ_of_lt
        (Nat.lt_of_le_of_lt (Nat.succ_le_succ hk.liveCount_le) (by decide))
      rw [hsucc]
      dsimp only
      rw [Action.ends_bind, Action.ends_change, Action.ends_bind]
      refine Action.ends_attempt_ok (by dsimp only; rw [hinsert]) ?_
      cases parent with
      | none =>
        simp only [Action.ends_bind]
        refine Action.ends_attempt_ok (makeReady_of_not_mem hready) ?_
        refine Action.ends_attempt_ok (by dsimp only; rw [hlive]; rfl) ?_
        exact hk.createResult hlast ⟨hgrown, rfl, rfl, rfl, hperm, rfl, hn, rfl⟩
      | some p =>
        have hattached := hgrown.attach (hparent p rfl) (ha.parentAt_modify _ state) hlater
        simp only [Action.ends_bind]
        refine Action.ends_attempt_ok (makeReady_of_not_mem hready) ?_
        refine Action.ends_attempt_ok (by dsimp only; rw [hlive]; rfl) ?_
        exact hk.createResult hlast ⟨hattached, rfl, rfl, rfl, hperm, rfl, hn, rfl⟩

end Kernel

end Nucleus
