import Nucleus.Kernel.Boot
import Nucleus.Proofs.Kernel.Creation

/-!
# Start-up

The nucleus starts with empty books, which are in order, and the bootstrap keeps them so.
-/

namespace Nucleus.Kernel

open Outcome

variable {k : Kernel} {machine : Machine} {config : Config}

theorem indexed_new : (Kernel.new machine config).Indexed where
  nodup := List.nodup_nil
  mem_iff := by
    intro pid h
    have hfree : ¬ (Kernel.new machine config).processes.isUsed h = true := by
      rw [show (Kernel.new machine config).processes.isUsed h = false from
        ProcessTable.isUsed_empty h]
      exact Bool.false_ne_true
    exact iff_of_false List.not_mem_nil fun hand => hfree hand.1
  positive := fun {h} hh => Bool.noConfusion ((ProcessTable.isUsed_empty h).symm.trans hh)
  le_last := fun {h} hh => Bool.noConfusion ((ProcessTable.isUsed_empty h).symm.trans hh)

theorem standing_new (p : Place) : (Kernel.new machine config).standing p = [] := by
  cases p with
  | processor => rfl
  | ready => rfl
  | waitList id => rfl

/-- A new nucleus has nobody to account for. -/
theorem sound_new (machine : Machine) (config : Config) : (Kernel.new machine config).Sound where
  table := ProcessTable.valid_empty
  waits := WaitLists.valid_empty
  linked := ProcessTable.linked_empty
  indexed := indexed_new
  placed := fun {h} hh => Bool.noConfusion ((ProcessTable.isUsed_empty h).symm.trans hh)
  absent := by
    intro h _ p
    rw [standing_new]
    exact List.not_mem_nil
  live := (countSlots_eq_zero_iff.2 ProcessTable.isUsed_empty).symm
  soft := by
    refine (countSlots_eq_zero_iff.2 fun h => ?_).symm
    rw [show (Kernel.new machine config).processes.isUsed h = false from
      ProcessTable.isUsed_empty h]
    rfl
  registered := fun {h} hh => Bool.noConfusion ((ProcessTable.isUsed_empty h).symm.trans hh)

theorem forM_report (lines : List BootLine) (k : Kernel) :
    (lines.forM report k).Finishes fun _ k' => k' = k := by
  induction lines with
  | nil => exact rfl
  | cons line lines ih =>
    show ((report line >>= fun _ => lines.forM report) k).Finishes _
    exact Action.ends_bind.2 ih

theorem Sound.createRoot (hk : k.Sound) (ramTop : Word) :
    (createRoot ramTop k).Ends (fun _ k' => k'.Sound) (fun _ k' => k'.Sound)
      (fun _ => k.lastPid = Word.allOnes) := by
  unfold Kernel.createRoot
  rw [Action.ends_bind, Action.ends_look, Action.ends_bind]
  refine (hk.create _ none nofun).mono ?_ (fun _ _ => False.elim) fun _ h => h
  intro result k' hk'
  cases result with
  | none => exact hk'.1
  | some h => exact hk'.1

/-- The bootstrap stops at the size of memory, or it ends as the creation of the root process does
once the handlers are in place. -/
theorem boot_ends {ok : Unit → Kernel → Prop} {fault : Fault → Kernel → Prop}
    {abort : Abort → Prop}
    (hbad : ramTop? (k.machine.read Bus.ramBase) (k.machine.read Bus.ramSize) = none →
      fault (.badRamGeometry (k.machine.read Bus.ramBase) (k.machine.read Bus.ramSize)) k)
    (hroot : ∀ ramTop, ramTop? (k.machine.read Bus.ramBase) (k.machine.read Bus.ramSize) =
        some ramTop →
      (createRoot ramTop (k.installHandlers ramTop)).Ends
        (fun _ k' => ok () { k' with tickUntil := k'.machine.now }) fault abort) :
    (boot k).Ends ok fault abort := by
  unfold Kernel.boot
  rw [Action.ends_bind]
  refine (forM_report BootLine.bannerLines k).ends ?_
  rintro _ k rfl
  rw [Action.ends_bind, Action.ends_look]
  refine Action.ends_if_note ?_
  rw [Action.ends_bind, Action.ends_look]
  cases hramTop : ramTop? (k.machine.read Bus.ramBase) (k.machine.read Bus.ramSize) with
  | none => exact hbad hramTop
  | some ramTop =>
    simp only [Action.ends_bind, Action.ends_change]
    exact hroot ramTop hramTop

/-- The bootstrap keeps the invariant. -/
theorem Sound.boot (hk : k.Sound) :
    (boot k).Ends (fun _ k' => k'.Sound) (fun _ k' => k'.Sound)
      (fun _ => k.lastPid = Word.allOnes) := by
  refine boot_ends (fun _ => hk) fun ramTop _ => ?_
  have hinstall : k.Alike (k.installHandlers ramTop) := .setMachine k _
  refine ((hk.congr hinstall).createRoot ramTop).mono ?_ (fun _ _ h => h) fun _ h =>
    hinstall.lastPid.symm.trans h
  intro _ k' hk'
  exact hk'.congr (.of_eq rfl rfl rfl rfl rfl rfl rfl)

end Nucleus.Kernel
