import Nucleus.Proofs.Kernel.Deeds

/-!
# Survivors

A course that only creates processes, or only removes some, does not hand a slot from one process to
another (`Kernel.OneWay`). So a process that is alive at both of its ends is alive all along in the
same slot (`Course.slot_eq`), and has at its end a context that every deed on the way may have made
of the first (`Course.context`).
-/

namespace Nucleus.Kernel

variable {k k' k₁ : Kernel} {h g : Slot} {deed : Deed} {allowed : Deed → Prop}
  {ms ms' : List Move}
  {pid : Pid}

/-- Processes are created or removed, not both. -/
def OneWay (allowed : Deed → Prop) : Prop :=
  (∀ h, ¬ allowed (.retire h)) ∨ ∀ h parent, ¬ allowed (.enroll h parent)

namespace Course

theorem used_after (hc : Course allowed k ms k') (hno : ∀ h, ¬ allowed (.retire h))
    (hg : k.processes.isUsed g = true) : k'.processes.isUsed g = true :=
  hc.induction hg fun hg hd h => h.used_after (fun h' heq => hno h' (heq ▸ hd)) hg

theorem used_before (hc : Course allowed k ms k') (hno : ∀ h parent, ¬ allowed (.enroll h parent))
    (hg : k'.processes.isUsed g = true) : k.processes.isUsed g = true := by
  induction hc with
  | refl => exact hg
  | cons hd h _ ih => exact h.used_before (fun h' parent heq => hno h' parent (heq ▸ hd)) (ih hg)

/-- A process that is alive at both ends is alive in between. -/
theorem used_between (hc : Course allowed k ms k₁) (hone : OneWay allowed)
    (hc' : Course allowed k₁ ms' k') (hg : k.processes.isUsed g = true)
    (hg' : k'.processes.isUsed g = true) : k₁.processes.isUsed g = true := by
  rcases hone with hno | hno
  · exact hc.used_after hno hg
  · exact hc'.used_before hno hg'

/-- What the deeds make of the context of a process that survives them. -/
theorem context {P : Context → Prop} (hc : Course allowed k ms k') (hone : OneWay allowed)
    (hg : k.processes.isUsed g = true) (hg' : k'.processes.isUsed g = true)
    (hact : ∀ deed c, allowed deed → P c → P (deed.act g c)) (hP : P (k.contextAt g)) :
    P (k'.contextAt g) := by
  induction hc with
  | refl => exact hP
  | @cons k k₁ k' deed ms hd h hc ih =>
    have hmid := (Course.single hd h).used_between hone hc hg hg'
    refine ih hmid hg' ?_
    rw [h.context hg hmid]
    exact hact deed _ hd hP

theorem pidAt (hc : Course allowed k ms k') (hone : OneWay allowed)
    (hg : k.processes.isUsed g = true) (hg' : k'.processes.isUsed g = true) :
    k'.pidAt g = k.pidAt g :=
  hc.context (P := fun c => c.pid = k.pidAt g) hone hg hg'
    (fun deed c _ hc => (deed.pid_act g c).trans hc) rfl

/-- A process stays in its slot. -/
theorem slot_eq (hc : Course allowed k ms k') (hone : OneWay allowed) (hk : k.Accounted)
    (hg : k.pids.lookup pid = some g) (hh : k'.pids.lookup pid = some h) : h = g := by
  have hk' := hc.accounted hk
  obtain ⟨hgused, hgpid⟩ := hk.indexed.lookup_eq_some_iff.1 hg
  obtain ⟨hhused, hhpid⟩ := hk'.indexed.lookup_eq_some_iff.1 hh
  rcases hone with hno | hno
  · have hgused' := hc.used_after hno hgused
    have hpid := hc.pidAt (.inl hno) hgused hgused'
    have hlookup := hk'.indexed.lookup_eq_some_iff.2 ⟨hgused', hpid.trans hgpid⟩
    exact Option.some.inj (hh.symm.trans hlookup)
  · have hhused' := hc.used_before hno hhused
    have hpid := hc.pidAt (.inr hno) hhused' hhused
    have hlookup := hk.indexed.lookup_eq_some_iff.2 ⟨hhused', hpid.symm.trans hhpid⟩
    exact Option.some.inj (hlookup.symm.trans hg)

end Course

/-! ## Pids -/

theorem Leads.lastPid_le (h : k.Leads deed k') : k.lastPid ≤ k'.lastPid := by
  have hsame : ∀ {pid}, pid = k.lastPid → k.lastPid ≤ pid := fun heq => heq ▸ UInt32.le_refl _
  cases h with
  | world hk => exact hsame hk.lastPid
  | block hh hm hw => exact hsame hm.lastPid
  | wake hq hm hw => exact hsame hm.lastPid
  | enroll hlast he hl hw =>
    rw [he.lastPid]
    exact UInt32.le_of_lt (Word.succ_of_ne hlast).2
  | retire hh hchildren hr hs => exact hsame hr.lastPid
  | _ => exact UInt32.le_refl _

theorem Course.lastPid_le (hc : Course allowed k ms k') : k.lastPid ≤ k'.lastPid :=
  hc.induction (P := fun k' => k.lastPid ≤ k'.lastPid) (UInt32.le_refl _) fun hle _ h =>
    UInt32.le_trans hle h.lastPid_le

/-- Whoever has a pid from before a course was alive then, with the same pid. -/
theorem Course.used_of_pid_le (hc : Course allowed k ms k') (hg : k'.processes.isUsed g = true)
    (hpid : k'.pidAt g ≤ k.lastPid) : k.processes.isUsed g = true ∧ k.pidAt g = k'.pidAt g := by
  induction hc with
  | refl => exact ⟨hg, rfl⟩
  | @cons k k₁ k' deed ms hd h hc ih =>
    obtain ⟨hg₁, hpid₁⟩ := ih hg (UInt32.le_trans hpid h.lastPid_le)
    cases hused : k.processes.isUsed g with
    | true =>
      have hcontext := h.context hused hg₁
      have hsame : k₁.pidAt g = k.pidAt g :=
        (congrArg Context.pid hcontext).trans (deed.pid_act g _)
      exact ⟨rfl, hsame.symm.trans hpid₁⟩
    | false =>
      -- The process would be new, and its pid past the last one.
      obtain ⟨rfl, hnew⟩ := h.of_new hused hg₁
      cases h with
      | enroll hlast he hl hw =>
        rw [← hpid₁, hnew] at hpid
        exact absurd (Word.succ_of_ne hlast).2 (UInt32.not_lt.2 hpid)

/-! ## The processor, the ready queue and the latches -/

theorem current_of_sublist (hsub : (k'.standing .processor).Sublist (k.standing .processor)) :
    k'.current = k.current ∨ k'.current = none := by
  cases hcurrent : k'.current with
  | none => exact .inr rfl
  | some g =>
    have hmem : g ∈ k'.standing .processor := Option.mem_toList.2 hcurrent
    exact .inl (Option.mem_toList.1 (hsub.subset hmem)).symm

/-- Only giving the processor to a process makes one run that did not. -/
theorem Leads.current (h : k.Leads deed k') (hd : ∀ h, deed ≠ .dispatch h) :
    k'.current = k.current ∨ k'.current = none := by
  cases h with
  | world hsame => exact .inl hsame.current
  | block hh hm hw => exact current_of_sublist (hm.leaves ▸ List.erase_sublist)
  | wake hq hm hw =>
    have hothers := hm.others .processor Place.noConfusion Place.noConfusion
    exact current_of_sublist (hothers ▸ List.Sublist.refl _)
  | expire => exact .inr rfl
  | dispatch => exact absurd rfl (hd _)
  | enroll hlast he hl hw => exact .inl he.current
  | retire hh hchildren hr hs => exact current_of_sublist (hr.standing _ ▸ List.erase_sublist)
  | _ => exact .inl rfl

theorem Course.current (hc : Course allowed k ms k') (hno : ∀ h, ¬ allowed (.dispatch h)) :
    k'.current = k.current ∨ k'.current = none := by
  refine hc.induction (P := fun k' => k'.current = k.current ∨ k'.current = none) (.inl rfl) ?_
  intro k₁ deed k₂ hcurrent hd h
  rcases h.current fun h' heq => hno h' (heq ▸ hd) with heq | hnone
  · rwa [heq]
  · exact .inr hnone

/-- A ready process stays ready until it gets the processor. -/
theorem Leads.ready (h : k.Leads deed k') (hd : ∀ h, deed ≠ .dispatch h) (hg : g ∈ k.ready.items)
    (hg' : k'.processes.isUsed g = true) : g ∈ k'.ready.items := by
  cases h with
  | world hsame => exact hsame.ready ▸ hg
  | block hh hm hw =>
    have hothers : k'.ready.items = k.ready.items := hm.others .ready nofun nofun
    exact hothers ▸ hg
  | wake hq hm hw =>
    have hjoins : k'.ready.items = k.ready.items ++ [_] := hm.joins
    exact hjoins ▸ List.mem_append_left _ hg
  | expire => exact List.mem_append_left _ hg
  | dispatch => exact absurd rfl (hd _)
  | enroll hlast he hl hw => exact he.ready ▸ List.mem_append_left _ hg
  | retire hh hchildren hr hs =>
    have hleaves : k'.ready.items = k.ready.items.erase _ := hr.standing .ready
    exact hleaves ▸ (List.mem_erase_of_ne (Ne.symm (hr.used_iff.1 hg').2)).2 hg
  | _ => exact hg

theorem Course.ready (hc : Course allowed k ms k') (hone : OneWay allowed)
    (hno : ∀ h, ¬ allowed (.dispatch h)) (hused : k.processes.isUsed g = true)
    (hg : g ∈ k.ready.items) (hg' : k'.processes.isUsed g = true) : g ∈ k'.ready.items := by
  induction hc with
  | refl => exact hg
  | @cons k k₁ k' deed ms hd h hc ih =>
    have hmid := (Course.single hd h).used_between hone hc hused hg'
    exact ih hmid (h.ready (fun h' heq => hno h' (heq ▸ hd)) hg hmid) hg'

/-- Only a latch changes what is latched. -/
theorem Leads.latched {d : Device} (h : k.Leads deed k') (hd : ∀ status, deed ≠ .latch d status) :
    k'.latched d = k.latched d := by
  have heq : ∀ {k' : Kernel}, k'.values.statuses = k.values.statuses → k'.latched d = k.latched d :=
    fun heq => by simp only [Kernel.latched, SemaphoreValues.latched, heq]
  cases h with
  | world hsame => exact heq hsame.statuses
  | latch e status =>
    refine (k.values.latched_latch e d status).trans (if_neg ?_)
    rintro rfl
    exact hd status rfl
  | block hh hm hw => exact heq (congrArg SemaphoreValues.statuses hw.values)
  | wake hq hm hw => exact heq (congrArg SemaphoreValues.statuses hw.values)
  | enroll hlast he hl hw => exact heq (congrArg SemaphoreValues.statuses hw.values)
  | retire hh hchildren hr hs => exact heq hs
  | _ => rfl

theorem Course.latched {d : Device} (hc : Course allowed k ms k')
    (hno : ∀ status, ¬ allowed (.latch d status)) : k'.latched d = k.latched d :=
  hc.induction (P := fun k' => k'.latched d = k.latched d) rfl fun heq hd h =>
    (h.latched fun status hlatch => hno status (hlatch ▸ hd)).trans heq

end Nucleus.Kernel
