import Nucleus.Kernel.Service
import Nucleus.Proofs.Kernel.Creation
import Nucleus.Proofs.Kernel.Schedule
import Nucleus.Proofs.Kernel.Termination

/-!
# Services

Every service keeps the invariant. The only check that a service can break is on the address of the
state of a new process (`Service.Overruns`), apart from the pids, which may be used up.
-/

namespace Nucleus

/-- The state that the service reads does not end before the end of the address space. -/
def Service.Overruns : Service → Prop
  | .create stateAddress => Machine.stateFits stateAddress = false
  | _ => False

/-- A descriptor that has no handler for a class yet takes one down. -/
theorem Descriptor.Registered.announce {d : Descriptor} (hd : d.Registered) (c : ExceptionClass)
    (handler : Handler) :
    Descriptor.Registered { d with
      announced := d.announced.set c.place 1
      handlers := d.handlers.set c.place (some handler) } := by
  intro e
  unfold Descriptor.handler
  dsimp only
  rw [Table.get_set, Table.get_set]
  by_cases heq : c.place = e.place
  · rw [if_pos heq, if_pos heq]
    exact .inr ⟨rfl, rfl⟩
  · rw [if_neg heq, if_neg heq]
    exact hd e

namespace Kernel

open Outcome

variable {k k' : Kernel} {h caller : Slot} {id : SemaphoreId} {α : Type} {broken : Prop}

/-- An action on a kernel leaves it sound unless it breaks a check, and it breaks one if `broken`
holds, and otherwise only when the pids are used up. It does not report a deadlock. -/
def Keeps (k : Kernel) (broken : Prop) (o : Outcome Kernel α) : Prop :=
  o.Ends (fun _ k' => k'.Sound ∧ ¬ broken) (fun c k' => (k'.Sound ∧ ¬ broken) ∧ c ≠ .deadlock)
    (fun _ => broken ∨ k.lastPid = Word.allOnes)

theorem Keeps.of_finishes {o : Outcome Kernel α} (ho : o.Finishes fun _ k' => k'.Sound) :
    k.Keeps False o :=
  ho.ends fun _ _ hk' => ⟨hk', fun h => h⟩

theorem Sound.wakeNext (hk : k.Sound) (id : SemaphoreId) :
    (wakeNext id k).Finishes fun _ k' => k'.Sound := by
  cases hq : k.waits.waiting id with
  | nil =>
    rw [wakeNext_of_empty hq]
    exact hk
  | cons h rest =>
    refine (wakeNext_finishes hk.toAccounted hq).mono fun _ k' hm => ?_
    have hmem : h ∈ k.waits.waiting id := hq ▸ List.mem_cons_self
    exact hk.moved (hk.at_of_mem (p := .waitList id) hmem) Place.noConfusion hm.2

theorem Sound.signal (hk : k.Sound) (id : SemaphoreId) :
    (signal id k).Finishes fun _ k' => k'.Sound := by
  simp only [Kernel.signal, Finishes, Action.ends_bind, Action.ends_change, Action.ends_discard]
  exact (hk.congr (.add k id 1)).wakeNext id

/-- Taking a unit from a semaphore either goes on or blocks the running process, unless no wait
list is left. -/
theorem Sound.acquire (hk : k.Sound) (hh : k.current = some h) (id : SemaphoreId) :
    (acquire id id.waitKind k).Ends (fun _ k' => k'.Sound)
      (fun c k' => k'.Sound ∧ c = .semaphorePoolExhausted) (fun _ => False) := by
  have hadd := hk.congr (.add k id (-1))
  have hcurrent : (k.add id (-1)).current = some h := hh
  simp only [Kernel.acquire, Action.ends_bind, Action.ends_change, Action.ends_look]
  split
  · rw [Action.ends_bind]
    refine (suspend_ends hadd.toAccounted hcurrent).mono ?_ ?_ fun _ => False.elim
    · intro _ k' hm
      exact hadd.moved (hadd.at_processor hcurrent) Place.noConfusion hm
    · rintro c k' ⟨rfl, rfl⟩
      exact ⟨hadd, rfl⟩
  · exact hadd

/-- Waiting can only fail for want of a wait list. -/
theorem Sound.keeps_acquire (hk : k.Sound) (hh : k.current = some h) (id : SemaphoreId) :
    k.Keeps False ((discard (Kernel.acquire id id.waitKind) : Action Kernel Unit) k) := by
  refine Action.ends_discard.2 ((hk.acquire hh id).mono ?_ ?_ fun _ => False.elim)
  · exact fun _ k' hk' => ⟨hk', fun h => h⟩
  · rintro c k' ⟨hk', rfl⟩
    exact ⟨⟨hk', fun h => h⟩, Fault.noConfusion⟩

theorem Sound.serveCreate (hk : k.Sound) (hh : k.current = some caller) (stateAddress : Word) :
    k.Keeps (Machine.stateFits stateAddress = false) (serveCreate caller stateAddress k) := by
  unfold Kernel.serveCreate Keeps
  rw [Action.ends_bind, Action.ends_look, Action.ends_bind, Action.ends_check]
  unfold Machine.readState
  cases hfits : Machine.stateFits stateAddress with
  | false => exact .inl rfl
  | true =>
    rw [if_pos rfl]
    dsimp only
    rw [Action.ends_bind]
    refine (hk.create _ (some caller) (hk.used_of_caller hh)).mono ?_ (fun _ _ => False.elim)
      fun _ => .inr
    rintro result k' ⟨hk', -⟩
    cases result with
    | none =>
      rw [Action.ends_bind, Action.ends_note]
      exact ⟨hk'.congr (.giveResult k' caller _), Bool.noConfusion⟩
    | some child => exact ⟨hk'.congr (.giveResult k' caller _), Bool.noConfusion⟩

theorem Sound.serveTerminate (hk : k.Sound) (caller : Slot) (pid : Pid) :
    (serveTerminate caller pid k).Finishes fun _ k' => k'.Sound := by
  simp only [Kernel.serveTerminate, Finishes, Action.ends_bind, Action.ends_look]
  refine (hk.terminate _).ends fun found k' hk' => ?_
  rw [Action.ends_change]
  split
  · exact hk'.1.congr (.giveResult k' caller _)
  · exact hk'.1

theorem Sound.awaitDevice (hk : k.Sound) (hh : k.current = some caller) (line unit : Word)
    (read : Bool) : k.Keeps False (awaitDevice caller line unit read k) := by
  unfold Kernel.awaitDevice Keeps
  cases (DeviceFamily.ofLine? line read).bind (Device.ofNumber? · unit) with
  | none => exact ⟨⟨hk, fun h => h⟩, Fault.noConfusion⟩
  | some d =>
    dsimp only
    rw [Action.ends_bind]
    refine (hk.acquire hh (.device d)).mono ?_ ?_ fun _ => False.elim
    · intro went k' hk'
      cases went with
      | true => exact ⟨hk'.congr (.giveResult k' caller _), fun h => h⟩
      | false => exact ⟨hk', fun h => h⟩
    · rintro c k' ⟨hk', rfl⟩
      exact ⟨⟨hk', fun h => h⟩, Fault.noConfusion⟩

/-! ## Announcing a handler -/

/-- Announcing a handler changes nothing that is in the books. -/
theorem sameBooks_announced (k : Kernel) (h : Slot)
    (f : Descriptor → Table ExceptionClass.count Word) :
    k.SameBooks (k.modify h fun d => { d with announced := f d }) :=
  .modify fun _ => ⟨rfl, rfl, rfl, rfl, rfl⟩

theorem sameBooks_handlers (k : Kernel) (h : Slot)
    (f : Descriptor → Table ExceptionClass.count (Option Handler)) :
    k.SameBooks (k.modify h fun d => { d with handlers := f d }) :=
  .modify fun _ => ⟨rfl, rfl, rfl, rfl, rfl⟩

/-- The first handler for a class is taken down, the second one terminates the caller. -/
theorem Sound.announceHandler (hk : k.Sound) (hh : k.processes.isUsed caller = true)
    (c : ExceptionClass) (handler : Handler) :
    (announceHandler caller c handler k).Finishes fun _ k' => k'.Sound := by
  have hbooks := sameBooks_announced k caller
  unfold Kernel.announceHandler Finishes
  rw [Action.ends_bind, Action.ends_look, Action.ends_bind, Action.ends_check]
  rcases hk.registered hh c with ⟨hzero, hnone⟩ | ⟨hone, hsome⟩
  · rw [hzero, show Word.succ 0 = .ok 1 from rfl]
    dsimp only
    rw [Action.ends_bind, Action.ends_change, if_neg (by decide), Action.ends_change]
    have hsame := (hbooks fun d => d.announced.set c.place 1).trans
      (sameBooks_handlers _ caller fun d => d.handlers.set c.place (some handler))
    refine ⟨hk.toAccounted.congr hsame, fun {g} hg => ?_⟩
    rw [hsame.isUsed] at hg
    unfold modify
    simp only [ProcessTable.get_modify, if_true]
    split
    · rename_i heq
      subst heq
      exact (hk.registered hg).announce c handler
    · exact hk.registered hg
  · rw [hone, show Word.succ 1 = .ok 2 from rfl]
    dsimp only
    rw [Action.ends_bind, Action.ends_change, if_pos (by decide), Action.ends_bind,
      Action.ends_note, Action.ends_discard]
    have hsame := hbooks fun d => d.announced.set c.place 2
    refine ((hk.toAccounted.congr hsame).terminate _).ends fun found k' hk' => ?_
    -- only the caller has announced too often, and it does not survive
    refine .of_terminated hk'.1 hk'.2 fun g hg hne => ?_
    rw [hsame.isUsed] at hg
    have hcaller : caller ≠ g := by
      rintro rfl
      exact hne (hk.indexed.lookup_eq_some_iff.2 ⟨hg, rfl⟩)
    unfold modify
    dsimp only
    rw [ProcessTable.get_modify, if_neg hcaller]
    exact hk.registered hg

/-- Every service keeps the invariant. -/
theorem Sound.serve (hk : k.Sound) (hh : k.current = some caller) (service : Service) :
    k.Keeps service.Overruns (serve caller service k) := by
  have hused := hk.used_of_current hh
  cases service with
  | create stateAddress => exact hk.serveCreate hh stateAddress
  | terminate pid => exact .of_finishes (hk.serveTerminate caller pid)
  | signal address => exact .of_finishes (hk.signal _)
  | wait address => exact hk.keeps_acquire hh (.user address)
  | pid => exact .of_finishes (hk.congr (.giveResult k caller _))
  | usedTime => exact .of_finishes ((hk.congr (.charge k)).congr (.giveResult _ caller _))
  | waitClock => exact hk.keeps_acquire hh .clock
  | waitDevice line unit read => exact hk.awaitDevice hh line unit read
  | parentPid => exact .of_finishes (hk.congr (.giveResult k caller _))
  | announce c handler => exact .of_finishes (hk.announceHandler hused c handler)

end Kernel

end Nucleus
