import Nucleus.Proofs.Kernel.Replies
import Nucleus.Proofs.Kernel.Roster

/-!
# Exchanges with a device

What is recorded of a run by one device: the requests for it, with the result with which each caller
went on, and the statuses of its completions (`Kernel.exchanged`). Once a request is answered its
caller keeps the answer until it is resumed (`Kernel.Settled.enter`).
-/

namespace Nucleus

/-- A request for a device, and what has come of it. -/
structure Request where
  caller : Pid
  /-- What stood in the result register of the caller's saved state when it did not wait any
  more. -/
  answer : Option Word
  /-- The result with which the caller was resumed next. -/
  result : Option Word
  deriving DecidableEq

/-- What has been exchanged with a device. -/
structure Exchange where
  /-- The requests, in order. -/
  requests : List Request
  /-- The statuses of the completions, in order. -/
  statuses : List Word
  /-- The greatest value of the semaphore of the device. -/
  peak : Int
  /-- The number of processes that were terminated while they waited for the device. -/
  lost : Nat
  deriving DecidableEq

/-- Nothing has been exchanged. -/
def Exchange.empty : Exchange := ⟨[], [], 0, 0⟩

namespace Kernel

open Outcome

variable {k k' : Kernel} {h g : Slot} {d : Device} {call : Call} {r : Request}
  {status value : Word}

/-! ## What is recorded -/

/-- The result register in the saved state of a live process. -/
def savedResult (k : Kernel) (pid : Pid) : Option Word :=
  (k.pids.lookup pid).map fun h => (k.contextAt h).state.v0

/-- The request for a device that a call makes, if it makes one. -/
def asked (d : Device) (call : Call) (k : Kernel) : List Request :=
  if call.use? k = some (.device d, .take) then k.current.toList.map (⟨k.pidAt ·, none, none⟩)
  else []

/-- The status of a device that completes at a call, if it does. -/
def served (d : Device) (call : Call) (k : Kernel) : List Word :=
  ((call.completion? k).filter (·.1 = d)).toList.map Prod.snd

/-- What is seen of a request after a call. -/
def seen (d : Device) (call : Call) (k k' : Kernel) (r : Request) : Request where
  caller := r.caller
  answer := r.answer.or
    (if r.caller ∈ k'.lineAt (.waitList (.device d)) then none else k'.savedResult r.caller)
  result := r.result.or (resumedWith (call.run k) r.caller)

/-- What is recorded of a call by the exchange with a device. -/
def exchanged (d : Device) (call : Call) (k k' : Kernel) (x : Exchange) : Exchange where
  requests := (x.requests ++ asked d call k).map (seen d call k k')
  statuses := x.statuses ++ served d call k
  peak := max x.peak (k'.value (.device d)).toInt
  lost := x.lost + (k.view (.device d)).lost (k'.view (.device d))

theorem asked_of_take (hh : k.current = some h) (huse : call.use? k = some (.device d, .take)) :
    asked d call k = [⟨k.pidAt h, none, none⟩] := by
  rw [asked, if_pos huse, hh]
  rfl

theorem asked_of_ne (huse : call.use? k ≠ some (.device d, .take)) : asked d call k = [] :=
  if_neg huse

theorem served_of_completion (hcompletion : call.completion? k = some (d, status)) :
    served d call k = [status] := by
  simp [served, hcompletion]

theorem served_of_ne (huse : call.use? k ≠ some (.device d, .give)) : served d call k = [] := by
  have hnone : (call.completion? k).filter (·.1 = d) = none := by
    rw [Option.filter_eq_none_iff]
    rintro ⟨e, status⟩ hcompletion heq
    obtain rfl : e = d := of_decide_eq_true heq
    exact huse (Call.use?_eq_give_iff.2 ⟨status, hcompletion⟩)
  rw [served, hnone]
  rfl

theorem asked_of_give (huse : call.use? k = some (.device d, .give)) : asked d call k = [] :=
  asked_of_ne fun htake => by cases huse.symm.trans htake

theorem served_of_take (huse : call.use? k = some (.device d, .take)) : served d call k = [] :=
  served_of_ne fun hgive => by cases huse.symm.trans hgive

theorem answer_of_mem_asked (hr : r ∈ asked d call k) : r.answer = none := by
  unfold asked at hr
  split at hr
  · obtain ⟨_, -, rfl⟩ := List.mem_map.1 hr
    rfl
  · cases hr

/-! ## One request -/

/-- Where the caller of a request is once that is answered. -/
structure Settled (k : Kernel) (r : Request) : Prop where
  known : r.caller ≤ k.lastPid
  /-- Whoever has been resumed was resumed with the answer. -/
  resumed : ∀ value, r.result = some value → r.answer = some value
  /-- Whoever has not been resumed since is ready, with the answer in its saved state. -/
  pending : ∀ value g, r.result = none → r.answer = some value → k.pids.lookup r.caller = some g →
    g ∈ k.ready.items ∧ (k.contextAt g).state.v0 = value

theorem settled_of_mem_asked (hk : k.Sound) (hr : r ∈ asked d call k) : k.Settled r := by
  unfold asked at hr
  split at hr
  · obtain ⟨h, hh, rfl⟩ := List.mem_map.1 hr
    have hused := hk.used_of_current (Option.mem_toList.1 hh)
    exact ⟨hk.indexed.le_last hused, nofun, nofun⟩
  · cases hr

theorem seen_answer_of_some (hr : r.answer = some value) :
    (seen d call k k' r).answer = some value := by
  simp [seen, hr]

theorem seen_answer_of_mem (hr : r.answer = none)
    (hmem : r.caller ∈ k'.lineAt (.waitList (.device d))) : (seen d call k k' r).answer = none := by
  simp [seen, hr, hmem]

theorem seen_answer_of_not_mem (hr : r.answer = none)
    (hmem : r.caller ∉ k'.lineAt (.waitList (.device d))) :
    (seen d call k k' r).answer = k'.savedResult r.caller := by
  simp [seen, hr, hmem]

/-- The running process does not wait. -/
theorem Accounted.not_mem_lineAt_of_current (hk : k.Accounted) (hg : k.current = some g)
    (id : SemaphoreId) : k.pidAt g ∉ k.lineAt (.waitList id) := fun hmem =>
  Place.noConfusion ((hk.at_processor hg).mem_iff.1 (hk.mem_standing (hk.used_of_current hg) hmem))

/-- A caller that has been answered and not been resumed keeps the answer until it is. -/
theorem Settled.kept (hr : k.Settled r) (hk : k.Sound) (hs : (call.run k).state? = some k')
    (hresult : r.result = none) (hanswer : r.answer = some value)
    (hg : k'.pids.lookup r.caller = some g) :
    (g ∈ k'.ready.items ∨ resumedWith (call.run k) r.caller ≠ none) ∧
      (k'.contextAt g).state.v0 = value := by
  have hk' := hk.step (.call call hs)
  obtain ⟨hused', hpid⟩ := hk'.indexed.lookup_eq_some_iff.1 hg
  obtain ⟨hready, hv0⟩ := hr.pending value g hresult hanswer (hk.lookup_before hs hr.known hg)
  rw [hk.state_of_ready hs hready hused', ← hpid]
  exact ⟨hk.ready_or_resumed hs hready hused', hv0⟩

/-- Whoever is resumed is resumed with the answer, if there is one. -/
theorem Settled.resumed_seen (hr : k.Settled r) (hk : k.Sound)
    (hs : (call.run k).state? = some k') (hvalue : (seen d call k k' r).result = some value) :
    (seen d call k k' r).answer = some value := by
  cases hold : r.result with
  | some old =>
    have heq : old = value := by simpa [seen, hold] using hvalue
    exact heq ▸ seen_answer_of_some (hr.resumed old hold)
  | none =>
    have hresumed : resumedWith (call.run k) r.caller = some value := by
      simpa [seen, hold] using hvalue
    obtain ⟨g, hcurrent, hg, hv0⟩ := hk.current_of_resumedWith hs hresumed
    cases hanswer : r.answer with
    | some answer =>
      rw [(hr.kept hk hs hold hanswer hg).2] at hv0
      exact hv0 ▸ seen_answer_of_some hanswer
    | none =>
      have hk' := hk.step (.call call hs)
      have hout := hk'.not_mem_lineAt_of_current hcurrent (.device d)
      rw [(hk'.indexed.lookup_eq_some_iff.1 hg).2] at hout
      rw [seen_answer_of_not_mem hanswer hout, savedResult, hg, ← hv0]
      rfl

/-- A call keeps a request settled if its caller, when it stops waiting, becomes ready or is
resumed. -/
theorem Settled.enter (hr : k.Settled r) (hk : k.Sound) (hs : (call.run k).state? = some k')
    (hfree : r.answer = none → r.caller ∉ k'.lineAt (.waitList (.device d)) →
      ∀ g, k'.pids.lookup r.caller = some g →
        g ∈ k'.ready.items ∨ resumedWith (call.run k) r.caller ≠ none) :
    k'.Settled (seen d call k k' r) := by
  refine ⟨UInt32.le_trans hr.known (hk.lastPid_le hs), fun _ => hr.resumed_seen hk hs,
    fun value g hnone hanswer hg => ?_⟩
  replace hg : k'.pids.lookup r.caller = some g := hg
  obtain ⟨hold, hnot⟩ : r.result = none ∧ resumedWith (call.run k) r.caller = none :=
    Option.or_eq_none_iff.1 hnone
  cases hbefore : r.answer with
  | some answer =>
    rw [seen_answer_of_some hbefore] at hanswer
    obtain ⟨hready, hv0⟩ := hr.kept hk hs hold hbefore hg
    exact ⟨hready.resolve_right (absurd hnot), hv0.trans (Option.some.inj hanswer)⟩
  | none =>
    have hout : r.caller ∉ k'.lineAt (.waitList (.device d)) := fun hmem => by
      rw [seen_answer_of_mem hbefore hmem] at hanswer
      cases hanswer
    rw [seen_answer_of_not_mem hbefore hout, savedResult, hg] at hanswer
    exact ⟨(hfree hbefore hout g hg).resolve_right (absurd hnot), Option.some.inj hanswer⟩

end Kernel

end Nucleus
