import Nucleus.Proofs.Kernel.Calls

/-!
# Transitions of one semaphore

Seen from one semaphore a call does one of a few things (`Transition`): it gives a unit, takes one
or waits for one, lets the pseudo-clock tick, or uses another semaphore or none, and then it can
only terminate waiters. How many are terminated can be read off the two views (`View.lost`).
-/

namespace Nucleus

theorem length_le_countSlots {l : List Slot} {p : Slot → Bool} (hl : l.Nodup)
    (hp : ∀ h ∈ l, p h = true) : l.length ≤ countSlots p := by
  have hsub : l ⊆ (List.finRange maxProcesses).filter p := fun h hmem =>
    List.mem_filter.2 ⟨List.mem_finRange h, hp h hmem⟩
  have hlength := (hl.subperm hsub).length_le
  rwa [← List.countP_eq_length_filter] at hlength

namespace View

variable {v w : View} {refunds soft : Bool}

/-- The number of waiters in `v` that are dead in `w`. -/
def lost (v w : View) : Nat := v.waiting.countP (!w.isUsed ·)

theorem lost_eq_zero (hv : ∀ h ∈ v.waiting, v.isUsed h = true) (hused : w.isUsed = v.isUsed) :
    v.lost w = 0 := by
  rw [lost, List.countP_eq_zero]
  intro h hmem
  simp [hused, hv h hmem]

namespace Thinned

/-- If all waiters are alive the dead ones are exactly those that are gone. -/
theorem exists_lost (ht : v.Thinned refunds w) (hw : ∀ h ∈ w.waiting, w.isUsed h = true) :
    w.waiting.length + v.lost w = v.waiting.length ∧
      w.value.toInt =
        min Count.greatest (v.value.toInt + if refunds then (v.lost w : Int) else 0) := by
  obtain ⟨gone, hdead, hwaiting, hvalue⟩ := ht
  have hlost : v.lost w = v.waiting.countP (gone.contains ·) := by
    apply List.countP_congr
    intro h hmem
    by_cases hgone : h ∈ gone
    · simp [hdead h hgone, hgone]
    · have hstays : h ∈ w.waiting := by simp [hwaiting, hmem, hgone]
      simp [hw h hstays, hgone]
  refine ⟨?_, hlost ▸ hvalue⟩
  have hsplit := List.length_eq_countP_add_countP (gone.contains ·) (l := v.waiting)
  rw [hlost, hwaiting, ← List.countP_eq_length_filter]
  simp only [Bool.not_eq_true, Bool.decide_eq_false] at hsplit
  omega

end Thinned

end View

namespace Use

theorem isUsed_act (u : Use) (soft : Bool) (v : View) : (u.act soft v).isUsed = v.isUsed := by
  cases u with
  | give => rfl
  | take =>
    simp only [act]
    split <;> rfl
  | tick =>
    simp only [act]
    split <;> rfl

/-- What a tick does to the value. -/
theorem toInt_tick (soft : Bool) (v : View) :
    (tick.act soft v).value.toInt =
      if v.value.toInt < 0 then 0
      else if v.waiting.length = 0 then max Count.least (v.value.toInt - 1)
      else min Count.greatest (v.value.toInt + 1) := by
  simp only [act, List.length_eq_zero_iff]
  by_cases hneg : v.value.toInt < 0
  · rw [if_pos hneg, if_pos hneg]
    rfl
  · rw [if_neg hneg, if_neg hneg]
    by_cases hempty : v.waiting = []
    · rw [if_pos hempty, if_pos hempty]
      exact Count.toInt_add_neg_one _
    · rw [if_neg hempty, if_neg hempty]
      exact Count.toInt_add_one _

/-- How many waiters a tick leaves. -/
theorem length_tick (soft : Bool) (v : View) :
    (tick.act soft v).waiting.length =
      v.waiting.length - if v.value.toInt < 0 then (-v.value.toInt).toNat else 1 := by
  simp only [act]
  split
  · exact List.length_drop
  · exact List.length_drop

end Use

namespace Kernel

variable {k k' : Kernel} {h : Slot} {id : SemaphoreId} {call : Call} {u : Use}

namespace Accounted

theorem used_of_waiting (hk : k.Accounted) (id : SemaphoreId) :
    ∀ h ∈ (k.view id).waiting, (k.view id).isUsed h = true := fun _ hmem =>
  hk.used_of_mem (p := .waitList id) hmem

theorem length_waiting_le (hk : k.Accounted) (id : SemaphoreId) :
    (k.view id).waiting.length ≤ maxProcesses :=
  Nat.le_trans (length_le_countSlots (p := fun _ => true) (hk.nodup_standing (.waitList id))
    fun _ _ => rfl) countSlots_le

/-- The processes that wait on a device or the pseudo-clock are counted. -/
theorem length_waiting_le_softCount (hk : k.Accounted) (hsoft : id.isSoft = true) :
    (k.view id).waiting.length ≤ (k.view id).softCount := by
  show (k.standing (.waitList id)).length ≤ k.softCount.toNat
  rw [hk.soft]
  apply length_le_countSlots (hk.nodup_standing (.waitList id))
  intro h hmem
  have hwait : (k.processes.get h).wait = id.waitKind := (hk.at_of_mem hmem).wait
  rw [hk.used_of_mem hmem, hwait, Bool.true_and]
  exact hsoft

end Accounted

/-! ## Uses -/

/-- What has to be the case for a use of a semaphore. -/
def Fits (k : Kernel) (id : SemaphoreId) : Use → Prop
  | .give => id ≠ .clock
  | .take => k.current ≠ none
  | .tick => id = .clock

theorem fits_of_service {service : Service} (hh : k.current ≠ none)
    (huse : service.use? = some (id, u)) : k.Fits id u := by
  cases service with
  | signal address => cases huse; exact nofun
  | wait address => cases huse; exact hh
  | waitClock => cases huse; exact hh
  | waitDevice line unit read =>
    obtain ⟨d, -, heq⟩ := Option.map_eq_some_iff.1 huse
    cases heq
    exact hh
  | _ => cases huse

theorem fits_of_interrupt {source : InterruptSource}
    (huse : k.interruptUse? source = some (id, u)) : k.Fits id u := by
  unfold interruptUse? at huse
  split at huse
  · split at huse
    · cases huse; exact rfl
    · cases huse
  · obtain ⟨d, -, heq⟩ := Option.map_eq_some_iff.1 huse
    cases heq
    exact nofun

theorem Call.fits_of_use? (huse : call.use? k = some (id, u)) : k.Fits id u := by
  obtain ⟨⟨vector, k₁⟩, htrap, huse⟩ := Option.bind_eq_some_iff.1 huse
  obtain ⟨⟨machine, rfl⟩, -⟩ := Call.run_eq_of_trap? htrap
  cases vector with
  | sysBreak =>
    obtain ⟨service, hservice, huse⟩ := Option.bind_eq_some_iff.1 huse
    unfold service? at hservice
    dsimp only at hservice
    split at hservice
    · rename_i hand
      exact fits_of_service (k := { k with machine }) hand.1 huse
    · cases hservice
  | interrupt => exact fits_of_interrupt (k := { k with machine }) huse
  | programTrap => cases huse
  | tlb => cases huse

/-! ## Transitions -/

/-- What a call does to a semaphore. -/
inductive Transition (id : SemaphoreId) (call : Call) (k k' : Kernel) : Prop
  /-- A unit is given and the oldest waiter released. -/
  | give (huse : call.use? k = some (id, .give)) (hid : id ≠ .clock)
      (hview : k'.view id = ((k.view id).add 1).release id.isSoft 1)
  /-- The running process takes a unit that is there. -/
  | take (huse : call.use? k = some (id, .take)) (hpos : 0 < (k.value id).toInt)
      (hview : k'.view id = (k.view id).add (-1))
  /-- The running process takes a unit that is not there, and waits. -/
  | block {h : Slot} (huse : call.use? k = some (id, .take)) (hpos : ¬ 0 < (k.value id).toInt)
      (hh : k.current = some h) (hview : k'.view id = ((k.view id).add (-1)).block id.isSoft)
  /-- The pseudo-clock ticks. -/
  | tick (huse : call.use? k = some (id, .tick)) (hid : id = .clock)
      (hview : k'.view id = Use.tick.act id.isSoft (k.view id))
  /-- The semaphore is not used; waiters may be terminated. -/
  | other (huse : ∀ u, call.use? k ≠ some (id, u))
      (hthinned : (k.view id).Thinned id.refunds (k'.view id))

theorem Effect.transition (heffect : Effect id (call.use? k) k k') : Transition id call k k' := by
  by_cases huse : ∃ u, call.use? k = some (id, u)
  · obtain ⟨u, huse⟩ := huse
    have hview := heffect.used u huse
    have hfits := Call.fits_of_use? huse
    cases u with
    | give => exact .give huse hfits hview
    | take =>
      obtain ⟨h, hh⟩ := Option.ne_none_iff_exists'.1 hfits
      by_cases hpos : 0 < (k.value id).toInt
      · exact .take huse hpos (hview.trans (if_pos hpos))
      · exact .block huse hpos hh (hview.trans (if_neg hpos))
    | tick => exact .tick huse hfits hview
  · have hother : ∀ u, call.use? k ≠ some (id, u) := fun u heq => huse ⟨u, heq⟩
    exact .other hother (heffect.unused hother)

/-- Every call that leaves a state makes one transition. -/
theorem Sound.transition (hk : k.Sound) (hid : id.IsOrdinary) (hspares : k.Spares id)
    (h : (call.run k).state? = some k') : Transition id call k k' :=
  ((hk.call_performs hid hspares call).effect h).transition

/-- A call that uses a semaphore leaves a state, and the processor goes to the first process that
can run. -/
theorem Sound.exists_transition (hk : k.Sound) (hid : id.IsOrdinary) (hspares : k.Spares id)
    (huse : call.use? k = some (id, u)) :
    ∃ k', (call.run k).state? = some k' ∧ k'.view id = u.act id.isSoft (k.view id) ∧
      k'.Dispatched := by
  have hne : call.use? k ≠ none := huse ▸ Option.some_ne_none _
  obtain ⟨k', hk', heffect, hdispatched⟩ := (hk.call_performs hid hspares call).exists_state? hne
  exact ⟨k', hk', heffect.used u huse, hdispatched⟩

/-- If the line has grown at its end the running process goes on. -/
theorem Dispatched.append {gs : List Slot} (hd : k'.Dispatched) (hh : k.current = some h)
    (hline : k'.line = k.line ++ gs) :
    k'.current = some h ∧ k'.ready.items = k.ready.items ++ gs := by
  rw [line_of_current hh, List.cons_append] at hline
  have hh' : k'.current = some h := by rw [hd, hline, List.head?_cons]
  rw [line_of_current hh'] at hline
  exact ⟨hh', List.tail_eq_of_cons_eq hline⟩

/-- A process that takes a unit goes on if the value was positive, and else waits behind the
others. -/
theorem Sound.exists_take (hk : k.Sound) (hid : id.IsOrdinary) (hspares : k.Spares id)
    (hh : k.current = some h) (huse : call.use? k = some (id, .take)) :
    ∃ k', (call.run k).state? = some k' ∧
      (k'.current = some h ↔ 0 < (k.value id).toInt) ∧
      (¬ 0 < (k.value id).toInt → k'.waits.waiting id = k.waits.waiting id ++ [h]) := by
  obtain ⟨k', hk', hview, hd⟩ := hk.exists_transition hid hspares huse
  have hhead := line_of_current hh
  refine ⟨k', hk', ?_⟩
  by_cases hpos : 0 < (k.value id).toInt
  · replace hview : k'.view id = (k.view id).add (-1) := hview.trans (if_pos hpos)
    have hline : k'.line = k.line ++ [] :=
      (congrArg View.line hview).trans (List.append_nil _).symm
    exact ⟨iff_of_true (hd.append hh hline).1 hpos, absurd hpos⟩
  · replace hview : k'.view id = ((k.view id).add (-1)).block id.isSoft :=
      hview.trans (if_neg hpos)
    have hline : k'.line = k.line.drop 1 := congrArg View.line hview
    have hwaiting : k'.waits.waiting id = k.waits.waiting id ++ k.line.take 1 :=
      congrArg View.waiting hview
    rw [hhead] at hline hwaiting
    refine ⟨iff_of_false (fun hh' => ?_) hpos, fun _ => hwaiting⟩
    have hready : h ∈ k.ready.items := by
      have hmem : h ∈ k'.line := line_of_current hh' ▸ List.mem_cons_self
      rwa [hline] at hmem
    exact Place.noConfusion ((hk.at_processor hh).mem_iff (q := .ready) |>.1 hready)

/-- If a process waits, giving a unit makes the oldest waiter ready, and the running process goes
on. -/
theorem Sound.exists_give {g : Slot} {rest : List Slot} (hk : k.Sound) (hid : id.IsOrdinary)
    (hspares : k.Spares id) (hh : k.current = some h) (huse : call.use? k = some (id, .give))
    (hq : k.waits.waiting id = g :: rest) :
    ∃ k', (call.run k).state? = some k' ∧ k'.current = some h ∧
      k'.ready.items = k.ready.items ++ [g] ∧ k'.waits.waiting id = rest := by
  obtain ⟨k', hk', hview, hd⟩ := hk.exists_transition hid hspares huse
  have hline : k'.line = k.line ++ (k.waits.waiting id).take 1 := congrArg View.line hview
  have hwaiting : k'.waits.waiting id = (k.waits.waiting id).drop 1 := congrArg View.waiting hview
  rw [hq] at hline hwaiting
  obtain ⟨hh', hready⟩ := hd.append hh hline
  exact ⟨k', hk', hh', hready, hwaiting⟩

/-- No waiter is terminated by a call that uses the semaphore. -/
theorem Transition.lost_eq_zero (ht : Transition id call k k') (hk : k.Accounted)
    (huse : call.use? k = some (id, u)) : (k.view id).lost (k'.view id) = 0 := by
  apply View.lost_eq_zero (hk.used_of_waiting id)
  cases ht with
  | give _ _ hview => rw [hview]; rfl
  | take _ _ hview => rw [hview]; rfl
  | block _ _ _ hview => rw [hview]; rfl
  | tick _ _ hview => rw [hview, Use.isUsed_act]
  | other hother => exact absurd huse (hother u)

end Kernel

end Nucleus
