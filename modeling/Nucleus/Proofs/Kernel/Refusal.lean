import Nucleus.Proofs.Kernel.PassingUp

/-!
# Requests from user mode

A process in user mode reaches no service of the nucleus. If it asks for one by its number, all
happens as if it had met a reserved instruction (`RefusalLaw.reserved`); any other request goes to
its own handler for requests and breakpoints, or ends it. Unless it is ended, only its own saved
state, the times and the machine change (`refusalLaw_of_reachable`).
-/

namespace Nucleus

theorem Word.and_or_and_not_mask {mask value : Word} (hvalue : value &&& ~~~mask = 0)
    (bits : Word) : ((bits &&& ~~~mask) ||| value) &&& ~~~mask = bits &&& ~~~mask := by
  have hkept : ~~~mask &&& (bits &&& ~~~mask) = bits &&& ~~~mask := by
    rw [UInt32.and_comm, UInt32.and_assoc, UInt32.and_self]
  rw [UInt32.and_comm] at hvalue
  rw [UInt32.and_comm, and_or_distrib_left, hkept, hvalue, UInt32.or_zero]

/-- Only the exception code is replaced. -/
theorem Cause.withCode_and_not_mask (cause : Word) (code : ExceptionCode) :
    withCode cause code &&& ~~~codeMask = cause &&& ~~~codeMask :=
  Word.and_or_and_not_mask (by cases code <;> decide) cause

namespace Kernel

open Outcome

variable {k k' : Kernel} {h : Slot} {c : ExceptionClass} {handler : Handler}
  {vector : TrapVector} {passed : ProcessorState} {machine : Machine}

/-- What becomes of a request of the running process `h` from user mode. -/
structure RefusalLaw (k : Kernel) (h : Slot) : Prop where
  /-- A request for a service is the same as a program trap with the state of the request in its old
  area, the exception code being that of a reserved instruction and every other bit as it is. -/
  reserved : 1 ≤ k.trapped.a0.toNat ∧ k.trapped.a0.toNat ≤ 12 →
    k.trapped.refused.code? = some .reservedInstruction ∧
      k.trapped.refused.cause &&& ~~~Cause.codeMask = k.trapped.cause &&& ~~~Cause.codeMask ∧
      dispatch .sysBreak k = dispatch .programTrap
        { k with
          machine := k.machine.storeState TrapVector.programTrap.oldArea k.trapped.refused }
  /-- The handler gets any other request: it is stored in the old area, and the process goes on with
  the state that then stands in the new area. -/
  handled : ¬ (1 ≤ k.trapped.a0.toNat ∧ k.trapped.a0.toNat ≤ 12) →
    ∀ handler, (k.processes.get h).handler .sysBreak = some handler →
      handler.oldArea ≤ 0xffffff77 → handler.newArea ≤ 0xffffff77 →
      ∃ machine timer k' log, machine = k.machine.storeState handler.oldArea k.trapped ∧
        dispatch .sysBreak k =
          .ok (.resume (k.pidAt h) (machine.loadState handler.newArea)) k' log ∧
        (k'.processes.get h).state = machine.loadState handler.newArea ∧
        k.Touched h (machine.write Bus.timer timer) k' ∧
        ((∀ i < stateWords,
            ¬ Machine.InRegisterArea (Machine.stateAddress handler.oldArea i)) →
          k'.machine.loadState handler.oldArea = k.trapped)
  /-- An area that runs past the end of the address space breaks a check. -/
  overruns : ¬ (1 ≤ k.trapped.a0.toNat ∧ k.trapped.a0.toNat ≤ 12) →
    ∀ handler, (k.processes.get h).handler .sysBreak = some handler →
      0xffffff77 < handler.oldArea ∨ 0xffffff77 < handler.newArea →
      dispatch .sysBreak k = .abort .addOverflow
  /-- Without a handler exactly the process and its descendants are terminated. -/
  unhandled : ¬ (1 ≤ k.trapped.a0.toNat ∧ k.trapped.a0.toNat ≤ 12) →
    (k.processes.get h).handler .sysBreak = none →
    ∃ k', k.Perishes h .sysBreak k.machine (dispatch .sysBreak k) k'
  /-- While the process lives, nothing but its saved state, the times and the machine changes. -/
  survives : ∀ k', (dispatch .sysBreak k).state? = some k' → k'.processes.isUsed h = true →
    ∃ machine, k.Touched h machine k'

/-- If the process that raised an exception lives on, it has been passed up. -/
theorem touched_of_exception (hk : k.Reachable) (hh : k.current = some h)
    (hx : k.exception? vector = some (c, passed, machine))
    (hs : (dispatch vector k).state? = some k') (hused : k'.processes.isUsed h = true) :
    ∃ machine', k.Touched h machine' k' := by
  cases hhandler : (k.processes.get h).handler c with
  | none =>
    obtain ⟨k'', hperishes⟩ :=
      dispatch_perishes hk.sound.toAccounted hk.clockBooks hh hx hhandler
    obtain rfl := Option.some.inj (hperishes.state.symm.trans hs)
    exact absurd Relation.ReflTransGen.refl ((hperishes.used_iff h).1 hused).2
  | some handler =>
    by_cases hover : handler.Overruns
    · rw [dispatch_overruns hh hx hhandler hover] at hs
      cases hs
    · obtain ⟨timer, k'', log, hrun, -, ht⟩ :=
        dispatch_enters hk.sound.toAccounted hh hx hhandler hover
      rw [hrun] at hs
      obtain rfl := Option.some.inj hs
      exact ⟨_, ht⟩

/-- A request from user mode that is not reserved is an exception of its own class. -/
theorem exception?_of_foreign (hcode : k.trapped.code? = some .syscall)
    (huser : k.trapped.fromUserMode = true)
    (hforeign : ¬ (1 ≤ k.trapped.a0.toNat ∧ k.trapped.a0.toNat ≤ 12)) :
    k.exception? .sysBreak = some (.sysBreak, k.trapped, k.machine) := by
  rw [← Service.isReserved_iff] at hforeign
  unfold trapped at hcode huser hforeign
  simp only [exception?, hcode, huser, if_true, if_neg hforeign]
  rfl

/-- In every run a process in user mode reaches no service. -/
theorem refusalLaw_of_reachable (hk : k.Reachable) (hh : k.current = some h)
    (hcode : k.trapped.code? = some .syscall) (huser : k.trapped.fromUserMode = true) :
    k.RefusalLaw h where
  reserved hreserved := by
    have hr : k.Refuses .sysBreak := ⟨hcode, huser, Service.isReserved_iff.2 hreserved⟩
    exact ⟨Cause.code?_withCode _ _, Cause.withCode_and_not_mask _ _, dispatch_refused hh hr⟩
  handled hforeign handler hhandler hold hnew := by
    have hfits : ¬ handler.Overruns := by
      rintro (h | h)
      · exact UInt32.not_lt.2 hold (Machine.stateFits_eq_false_iff.1 h)
      · exact UInt32.not_lt.2 hnew (Machine.stateFits_eq_false_iff.1 h)
    obtain ⟨timer, k', log, hrun, hstate, ht⟩ := dispatch_enters hk.sound.toAccounted hh
      (exception?_of_foreign hcode huser hforeign) hhandler hfits
    refine ⟨_, timer, k', log, rfl, hrun, hstate, ht, fun hclear => ?_⟩
    rw [ht.machine_eq, Machine.loadState_setTimer hclear]
    exact Machine.loadState_storeState (Machine.plain_of_notInRegisterArea hclear) _ _
  overruns hforeign handler hhandler hover :=
    dispatch_overruns hh (exception?_of_foreign hcode huser hforeign) hhandler
      (hover.imp Machine.stateFits_eq_false_iff.2 Machine.stateFits_eq_false_iff.2)
  unhandled hforeign hnone :=
    dispatch_perishes hk.sound.toAccounted hk.clockBooks hh
      (exception?_of_foreign hcode huser hforeign) hnone
  survives k' hs hused := by
    by_cases hreserved : 1 ≤ k.trapped.a0.toNat ∧ k.trapped.a0.toNat ≤ 12
    · have hr : k.Refuses .sysBreak := ⟨hcode, huser, Service.isReserved_iff.2 hreserved⟩
      exact touched_of_exception hk hh (exception?_of_refuses hr) hs hused
    · exact touched_of_exception hk hh (exception?_of_foreign hcode huser hreserved) hs hused

/-- The root process has a handler for program traps and asks from user mode for its pid. -/
theorem refusalLaw_of_reachable_pid : ∃ k : Kernel, k.Reachable ∧ k.current = some 0 ∧
    k.RefusalLaw 0 ∧ k.trapped.a0 = 5 ∧ k.trapped.fromUserMode = true ∧
    dispatch .sysBreak k = dispatch .programTrap
      { k with
        machine := k.machine.storeState TrapVector.programTrap.oldArea k.trapped.refused } := by
  obtain ⟨k, hk, htest⟩ := exists_reachable
    (p := fun k => k.current = some 0 ∧ k.trapped.code? = some .syscall ∧
      k.trapped.fromUserMode = true ∧ k.trapped.a0 = 5)
    [.schedule, .deliver (.request 11 0x20002000 0x20003000 0 false),
      .deliver (.request 5 0 0 0 true)] (by decide +kernel)
  obtain ⟨hh, hcode, huser, hpid⟩ := of_decide_eq_true htest
  have hlaw := refusalLaw_of_reachable hk hh hcode huser
  have hreserved : 1 ≤ k.trapped.a0.toNat ∧ k.trapped.a0.toNat ≤ 12 := by
    rw [hpid]
    decide
  obtain ⟨-, -, hrun⟩ := hlaw.reserved hreserved
  exact ⟨k, hk, hh, hlaw, hpid, huser, hrun⟩

/-- A request from user mode that is not reserved, with all other registers zero. -/
def foreignRequest : ProcessorState :=
  { ProcessorState.zero.setReg .a0 13 with
    cause := Cause.withCode 0 .syscall
    status := Status.kup }

/-- The new area of a handler runs past the end of the address space, so its process neither gets a
foreign request nor is terminated. -/
theorem foreignRequest_overran : ∃ k : Kernel, k.Reachable ∧ k.current = some 0 ∧
    k.trapped = foreignRequest ∧ k.trapped.code? = some .syscall ∧
    k.trapped.fromUserMode = true ∧ k.trapped.a0 = 13 ∧
    (k.processes.get 0).handler .sysBreak = some ⟨0x20002000, 0xffffff78⟩ ∧
    dispatch .sysBreak k = .abort .addOverflow := by
  obtain ⟨k, hk, htest⟩ := exists_reachable
    (p := fun k => k.current = some 0 ∧
      (k.processes.get 0).handler .sysBreak = some ⟨0x20002000, 0xffffff78⟩)
    [.schedule, .deliver (.request 12 0x20002000 0xffffff78 0 false)] (by decide +kernel)
  obtain ⟨hh, hhandler⟩ := of_decide_eq_true htest
  obtain ⟨m, hm⟩ : ∃ m : Machine, m.loadState TrapVector.sysBreak.oldArea = foreignRequest :=
    ⟨_, Machine.loadState_storeState (Machine.plain_oldArea .sysBreak) k.machine _⟩
  have hk' : Reachable { k with machine := m } := .step hk (.machine m)
  have htrapped : trapped { k with machine := m } = foreignRequest := hm
  have hcode : foreignRequest.code? = some .syscall := by decide
  have huser : foreignRequest.fromUserMode = true := by decide
  have ha0 : foreignRequest.a0 = 13 := by decide
  rw [← htrapped] at hcode huser ha0
  have hlaw := dispatch_overruns (k := { k with machine := m }) hh
    (exception?_of_foreign hcode huser (by rw [ha0]; decide)) hhandler (.inr (by decide))
  exact ⟨_, hk', hh, htrapped, hcode, huser, ha0, hhandler, hlaw⟩

end Kernel

end Nucleus
