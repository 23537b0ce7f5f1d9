import Mathlib.Data.List.Chain
import Nucleus.Proofs.Kernel.Contexts
import Nucleus.Proofs.Kernel.Diary

/-!
# The time of the processes

A process stays on the processor from when it is taken off the ready queue until it blocks, is
preempted or ends. The nucleus charges it at each entry, with whole microseconds of a clock that
wraps, and carries over what is left of one. Over any run that enters the nucleus often enough, what
is charged adds up to exactly the whole microseconds of each stay (`cpuTime_of_boot`).
-/

namespace Nucleus

/-- A stay of a process on the processor. -/
structure Stay where
  pid : Pid
  /-- The ticks that the clock had counted when the process got the processor. -/
  begun : Nat
  /-- The ticks that the clock had counted when the nucleus was last entered during the stay. -/
  last : Nat

namespace Stay

/-- The whole microseconds of a stay. -/
def micros (scale : Nat) (stay : Stay) : Nat := (stay.last - stay.begun) / scale

/-- The count of ticks up to which the whole microseconds of a stay account for it. -/
def accounted (scale : Nat) (stay : Stay) : Nat := stay.begun + stay.micros scale * scale

/-- The stay goes on until the nucleus is entered at `clock`. -/
def extend (stay : Stay) (clock : Nat) : Stay := { stay with last := clock }

variable {stay : Stay} {clock : Nat} {scale : Word}

theorem extend_last (stay : Stay) : stay.extend stay.last = stay := rfl

/-- The whole microseconds add up however often a stay is accounted for, and nothing is lost when
the clock wraps. -/
theorem elapsed_extend (hspan : stay.begun ≤ stay.last) (hlast : stay.last ≤ clock)
    (hscale : 0 < scale.toNat) (hgap : clock < stay.last + (UInt32.size - scale.toNat)) :
    stay.micros scale.toNat ≤ (stay.extend clock).micros scale.toNat ∧
      (stay.extend clock).micros scale.toNat - stay.micros scale.toNat < UInt32.size ∧
      elapsed (UInt32.ofNat clock) (UInt32.ofNat (stay.accounted scale.toNat)) scale =
        (UInt32.ofNat ((stay.extend clock).micros scale.toNat - stay.micros scale.toNat),
          UInt32.ofNat ((stay.extend clock).accounted scale.toNat)) := by
  have hsize : scale.toNat < UInt32.size := scale.toNat_lt
  have hmicros : (stay.extend clock).micros scale.toNat = (clock - stay.begun) / scale.toNat := rfl
  have hmono : stay.micros scale.toNat ≤ (stay.extend clock).micros scale.toNat :=
    Nat.div_le_div_right (Nat.sub_le_sub_right hlast _)
  have hbelow : stay.accounted scale.toNat ≤ stay.last := by
    have := Nat.div_mul_le_self (stay.last - stay.begun) scale.toNat
    unfold accounted micros
    omega
  have habove : stay.last < stay.accounted scale.toNat + scale.toNat := by
    have := Nat.lt_div_mul_add (a := stay.last - stay.begun) hscale
    unfold accounted micros
    omega
  have hgained : (clock - stay.accounted scale.toNat) % UInt32.size / scale.toNat =
      (stay.extend clock).micros scale.toNat - stay.micros scale.toNat := by
    rw [Nat.mod_eq_of_lt (by omega), hmicros, ← Nat.sub_mul_div, accounted, Nat.sub_sub,
      Nat.mul_comm scale.toNat]
  have hsum : stay.accounted scale.toNat +
      ((stay.extend clock).micros scale.toNat - stay.micros scale.toNat) * scale.toNat =
        (stay.extend clock).accounted scale.toNat := by
    show stay.begun + stay.micros scale.toNat * scale.toNat + _ =
      stay.begun + (stay.extend clock).micros scale.toNat * scale.toNat
    rw [Nat.add_assoc, ← Nat.add_mul, Nat.add_sub_cancel' hmono]
  refine ⟨hmono, ?_, ?_⟩
  · rw [← hgained]
    exact Nat.lt_of_le_of_lt (Nat.div_le_self _ _) (Nat.mod_lt _ (by decide))
  · rw [elapsed_ofNat (Nat.le_trans hbelow hlast), hgained, hsum]

end Stay

namespace Kernel

open Outcome

variable {k k' k₀ k₁ : Kernel} {h : Slot} {pid : Pid} {clock entry scale : Nat} {stay : Stay}
  {ss : List Stay} {v : Visit} {vs : List Visit} {log : List Notice} {machine : Machine}
  {config : Config} {call : Call}

/-! ## Stays -/

/-- The latest stay goes on if its process still ran when the nucleus was entered. -/
def extendLatest (running : Option Pid) (clock : Nat) : List Stay → List Stay
  | [] => []
  | stay :: ss => (if running = some stay.pid then stay.extend clock else stay) :: ss

/-- A process that gets the processor begins a stay. -/
def beginStay (clock : Nat) (ss : List Stay) : Notice → List Stay
  | .dispatching pid => ⟨pid, clock, clock⟩ :: ss
  | _ => ss

/-- The stays of all processes, latest first. -/
def stays : List Visit → List Stay
  | [] => []
  | v :: vs => v.log.foldl (beginStay v.clock) (extendLatest v.running v.clock (stays vs))

/-- The whole microseconds that a process has stayed on the processor in all. -/
def usedMicros (scale : Nat) (pid : Pid) : List Stay → Nat
  | [] => 0
  | stay :: ss => (if stay.pid = pid then stay.micros scale else 0) + usedMicros scale pid ss

/-- The count of ticks at the last entry of the nucleus. -/
def lastEntry : List Visit → Nat
  | [] => 0
  | v :: _ => v.clock

/-- Fewer than `gap` ticks pass between an entry of the nucleus and the next. -/
def EntersWithin (gap : Nat) (vs : List Visit) : Prop :=
  vs.IsChain fun later earlier => later.clock < earlier.clock + gap

instance (gap : Nat) (vs : List Visit) : Decidable (EntersWithin gap vs) :=
  inferInstanceAs (Decidable (List.IsChain _ vs))

/-- Every process has been charged for the whole microseconds of its stays up to the last entry of
the nucleus. -/
structure Billed (k : Kernel) (scale entry : Nat) (ss : List Stay) : Prop where
  used : ∀ h, k.processes.isUsed h = true →
    (k.processes.get h).usedTime = UInt32.ofNat (usedMicros scale (k.pidAt h) ss)
  issued : ∀ stay ∈ ss, stay.pid ≤ k.lastPid
  span : ∀ stay ∈ ss, stay.begun ≤ stay.last ∧ stay.last ≤ entry
  /-- The stays follow one another. -/
  apart : ss.Pairwise fun later earlier => earlier.last ≤ later.begun
  /-- The latest stay is that of the running process, and it lasts. -/
  running : ∀ h, k.current = some h → ∃ stay rest, ss = stay :: rest ∧ stay.pid = k.pidAt h ∧
    stay.last = entry ∧ k.chargedUntil = UInt32.ofNat (stay.accounted scale) ∧
    (k.processes.get h).quantumTime.toNat = min (stay.micros scale) (UInt32.size - 1)

theorem foldl_beginStay_of_quiet (hquiet : Quiet log) :
    log.foldl (beginStay clock) ss = ss := by
  induction log with
  | nil => rfl
  | cons notice log ih =>
    obtain ⟨hnotice, hlog⟩ := List.forall_mem_cons.1 hquiet
    cases notice with
    | dispatching pid => cases hnotice
    | _ => exact ih hlog

/-- The running process is charged for what its stay has gained since it was last charged. -/
theorem charge_eq_of_stay (hh : k.current = some h) (hnow : k.machine.now = UInt32.ofNat clock)
    (hcharged : k.chargedUntil = UInt32.ofNat (stay.accounted k.machine.timeScale.toNat))
    (hspan : stay.begun ≤ stay.last) (hlast : stay.last ≤ clock)
    (hgap : clock < stay.last + (UInt32.size - k.machine.timeScale.toNat)) :
    ∃ gained < UInt32.size, stay.micros k.machine.timeScale.toNat + gained =
        (stay.extend clock).micros k.machine.timeScale.toNat ∧
      k.charge = { k with
        chargedUntil := UInt32.ofNat
          ((stay.extend clock).accounted k.machine.timeScale.toNat) }.modify h
        (·.charge (UInt32.ofNat gained)) := by
  obtain ⟨hmono, hlt, helapsed⟩ :=
    stay.elapsed_extend hspan hlast k.machine.timeScale_pos hgap
  refine ⟨_, hlt, Nat.add_sub_cancel' hmono, ?_⟩
  rw [charge_eq hh, hnow, hcharged, helapsed]

namespace Billed

/-- A process that has not been created yet has no stays. -/
theorem usedMicros_of_fresh (hb : k.Billed scale entry ss) (hpid : k.lastPid < pid) :
    usedMicros scale pid ss = 0 := by
  have hissued := hb.issued
  clear hb
  induction ss with
  | nil => rfl
  | cons stay ss ih =>
    obtain ⟨hle, hissued⟩ := List.forall_mem_cons.1 hissued
    have hne : stay.pid ≠ pid := fun heq => UInt32.not_lt.2 hle (heq ▸ hpid)
    rw [usedMicros, if_neg hne, ih hissued]

theorem setMachine (hb : k.Billed scale entry ss) (machine : Machine) :
    Billed { k with machine } scale entry ss :=
  ⟨hb.used, hb.issued, hb.span, hb.apart, hb.running⟩

theorem timeless (hb : k.Billed scale entry ss) (hk : k.Timeless k') :
    k'.Billed scale entry ss where
  used h hh := by
    rcases hk.alive h hh with ⟨hused, hbill⟩ | hnew
    · rw [hbill.usedTime, hbill.pid, hb.used h hused]
    · rw [hnew.usedTime, hb.usedMicros_of_fresh hnew.pid]
      rfl
  issued stay hmem := UInt32.le_trans (hb.issued stay hmem) hk.lastPid
  span := hb.span
  apart := hb.apart
  running h hh := by
    obtain ⟨hcurrent, hbill, hcharged⟩ := hk.running h hh
    rw [hbill.pid, hcharged, hbill.quantumTime]
    exact hb.running h hcurrent

/-- Without a running process nobody is charged. -/
theorem charge_of_nobody (hb : k.Billed scale entry ss) (hh : k.current = none)
    (hentry : entry ≤ clock) : k.charge.Billed scale clock ss := by
  have hcharge : k.charge = { k with chargedUntil := k.machine.now } := by
    simp only [Kernel.charge, hh]
  rw [hcharge]
  exact {
    used := hb.used
    issued := hb.issued
    span := fun stay hmem => ⟨(hb.span stay hmem).1, Nat.le_trans (hb.span stay hmem).2 hentry⟩
    apart := hb.apart
    running := fun h hh' => by cases hh.symm.trans hh' }

/-- When the running process is charged, its stay goes on until now. -/
theorem charge (hb : k.Billed scale entry ss) (hk : k.Accounted)
    (hnow : k.machine.now = UInt32.ofNat clock) (hscale : k.machine.timeScale.toNat = scale)
    (hentry : entry ≤ clock)
    (hgap : ∀ h, k.current = some h → clock < entry + (UInt32.size - scale)) :
    k.charge.Billed scale clock (extendLatest (k.current.map k.pidAt) clock ss) := by
  have hsame := Alike.charge k
  cases hh : k.current with
  | none =>
    have hss : extendLatest (none : Option Pid) clock ss = ss := by cases ss <;> rfl
    rw [Option.map_none, hss]
    exact hb.charge_of_nobody hh hentry
  | some h =>
    obtain ⟨stay, rest, rfl, hpid, rfl, hcharged, hquantum⟩ := hb.running h hh
    have hspan := hb.span stay List.mem_cons_self
    subst hscale
    obtain ⟨gained, hlt, hsum, hcharge⟩ :=
      charge_eq_of_stay hh hnow hcharged hspan.1 hentry (hgap h hh)
    have hss : extendLatest (some (k.pidAt h)) clock (stay :: rest) =
        stay.extend clock :: rest := by
      rw [extendLatest, if_pos (congrArg some hpid.symm)]
    have hget : ∀ g, k.charge.processes.get g =
        if h = g then (k.processes.get h).charge (UInt32.ofNat gained)
        else k.processes.get g := fun g => by
      rw [hcharge]
      exact ProcessTable.get_modify _ _ _ _
    rw [Option.map_some, hss]
    exact {
      used := fun g hg => by
        rw [hsame.isUsed] at hg
        have hpid' : (stay.extend clock).pid = k.pidAt h := hpid
        rw [hget, hsame.pidAt, usedMicros, ← hsum, hpid']
        have hused := hb.used g hg
        rw [usedMicros, hpid] at hused
        split
        · rename_i heq
          subst heq
          rw [if_pos rfl] at hused
          show (k.processes.get h).usedTime + UInt32.ofNat gained = _
          rw [hused, if_pos rfl, ← UInt32.ofNat_add, Nat.add_right_comm]
        · rename_i hne
          have hother : k.pidAt h ≠ k.pidAt g := fun heq =>
            hne (hk.indexed.pidAt_injective (hk.used_of_current hh) hg heq)
          rw [hused, if_neg hother, if_neg hother]
      issued := fun other hmem => by
        rw [hsame.lastPid]
        rcases List.mem_cons.1 hmem with rfl | hrest
        · exact hb.issued stay List.mem_cons_self
        · exact hb.issued other (List.mem_cons_of_mem _ hrest)
      span := fun other hmem => by
        rcases List.mem_cons.1 hmem with rfl | hrest
        · exact ⟨Nat.le_trans hspan.1 hentry, Nat.le_refl _⟩
        · obtain ⟨hbegun, hended⟩ := hb.span other (List.mem_cons_of_mem _ hrest)
          exact ⟨hbegun, Nat.le_trans hended hentry⟩
      apart := by
        obtain ⟨hhead, hrest⟩ := List.pairwise_cons.1 hb.apart
        exact List.pairwise_cons.2 ⟨hhead, hrest⟩
      running := fun g hg => by
        obtain rfl := Option.some.inj (hh.symm.trans (hsame.current.symm.trans hg))
        refine ⟨stay.extend clock, rest, rfl, hpid.trans (hsame.pidAt h).symm, rfl,
          congrArg Kernel.chargedUntil hcharge, ?_⟩
        have hmicros : (UInt32.ofNat gained).toNat = gained := UInt32.toNat_ofNat_of_lt' hlt
        rw [hget, if_pos rfl, ← hsum]
        show (Word.saturatingAdd _ _).toNat = _
        rw [Word.toNat_saturatingAdd, hquantum, hmicros]
        omega }

/-- A second charge at the same entry finds nothing more. -/
theorem charge_again (hb : k.Billed scale clock ss) (hnow : k.machine.now = UInt32.ofNat clock)
    (hscale : k.machine.timeScale.toNat = scale) : k.charge.Billed scale clock ss := by
  cases hh : k.current with
  | none => exact hb.charge_of_nobody hh (Nat.le_refl _)
  | some h =>
    obtain ⟨stay, rest, rfl, hpid, rfl, hcharged, hquantum⟩ := hb.running h hh
    subst hscale
    have hsize : k.machine.timeScale.toNat < UInt32.size := k.machine.timeScale.toNat_lt
    obtain ⟨gained, -, hsum, hcharge⟩ := charge_eq_of_stay hh hnow hcharged
      (hb.span stay List.mem_cons_self).1 (Nat.le_refl _) (by omega)
    obtain rfl : gained = 0 := Nat.add_eq_left.1 hsum
    have hself : k.charge = k := by
      rw [hcharge, stay.extend_last, ← hcharged]
      exact modify_self (f := (·.charge 0)) (Descriptor.charge_zero _)
    rwa [hself]

/-- A process that is taken off the ready queue begins a stay. -/
theorem dispatch {rest : Queue Slot} (hb : k.Billed scale clock ss)
    (hnow : k.machine.now = UInt32.ofNat clock) (hk : k.Accounted)
    (hready : k.ready.items = h :: rest.items) :
    Billed ({ k with ready := rest, current := some h, chargedUntil := k.machine.now }.modify h
      ({ · with quantumTime := 0 })) scale clock (⟨k.pidAt h, clock, clock⟩ :: ss) := by
  set k' := { k with ready := rest, current := some h, chargedUntil := k.machine.now }.modify h
    ({ · with quantumTime := 0 }) with hk'
  have hget : ∀ g, k'.processes.get g =
      if h = g then { k.processes.get h with quantumTime := 0 } else k.processes.get g :=
    fun _ => ProcessTable.get_modify _ _ _ _
  have hpid : ∀ g, k'.pidAt g = k.pidAt g := fun g => by
    unfold pidAt
    rw [hget]
    split
    · rename_i heq
      rw [heq]
    · rfl
  have hused : k.processes.isUsed h = true := by
    refine hk.used_of_mem (p := .ready) ?_
    rw [standing, hready]
    exact List.mem_cons_self
  have hmicros : ∀ pid, Stay.micros scale ⟨pid, clock, clock⟩ = 0 := fun _ => by
    rw [Stay.micros, Nat.sub_self, Nat.zero_div]
  exact {
    used := fun g hg => by
      rw [hpid, usedMicros, hmicros, ite_self, Nat.zero_add, ← hb.used g hg, hget]
      split
      · rename_i heq
        rw [heq]
      · rfl
    issued := List.forall_mem_cons.2 ⟨hk.indexed.le_last hused, hb.issued⟩
    span := List.forall_mem_cons.2 ⟨⟨Nat.le_refl _, Nat.le_refl _⟩, hb.span⟩
    apart := List.pairwise_cons.2 ⟨fun earlier hmem => (hb.span earlier hmem).2, hb.apart⟩
    running := fun g hg => by
      obtain rfl := Option.some.inj hg
      refine ⟨_, ss, rfl, (hpid h).symm, rfl, ?_, ?_⟩
      · rw [Stay.accounted, hmicros, Nat.zero_mul]
        exact hnow
      · rw [hget, if_pos rfl, hmicros]
        rfl }

theorem beat (hb : k.Billed scale clock ss) (hnow : k.machine.now = UInt32.ofNat clock)
    (hscale : k.machine.timeScale.toNat = scale) (h : k.Beat log k') :
    k'.Billed scale clock (log.foldl (beginStay clock) ss) := by
  cases h with
  | rest hk hlog =>
    rw [foldl_beginStay_of_quiet hlog]
    exact hb.timeless hk
  | charge => exact hb.charge_again hnow hscale
  | gather => exact ⟨hb.used, hb.issued, hb.span, hb.apart, hb.running⟩
  | tick => exact ⟨hb.used, hb.issued, hb.span, hb.apart, hb.running⟩
  | expire hh hk => exact hb.timeless hk
  | dispatch hk hcurrent hready => exact hb.dispatch hnow hk hready
  | arm micros => exact hb.setMachine _

theorem pace (hb : k.Billed scale clock ss) (hnow : k.machine.now = UInt32.ofNat clock)
    (hscale : k.machine.timeScale.toNat = scale) (hp : k.Pace log k') :
    k'.Billed scale clock (log.foldl (beginStay clock) ss) := by
  induction hp generalizing ss with
  | refl => exact hb
  | cons h _ ih =>
    have hstill := h.standsStill
    rw [List.foldl_append]
    exact ih (hb.beat hnow hscale h) (hstill.now.trans hnow)
      ((congrArg UInt32.toNat hstill.timeScale).trans hscale)

/-- A process that runs has run since an entry of the nucleus, and that is not long ago. -/
theorem clock_lt {gap : Nat} (hb : k.Billed scale entry (stays vs))
    (hgap : EntersWithin gap (v :: vs)) (hh : k.current = some h) :
    v.clock < lastEntry vs + gap := by
  cases vs with
  | nil =>
    obtain ⟨stay, rest, hnil, -⟩ := hb.running h hh
    cases hnil
  | cons earlier vs => exact (List.isChain_cons_cons.1 hgap).1

end Billed

/-- In a run that enters the nucleus often enough, every process is charged for its stays. -/
theorem Started.billed (hstart : Started machine config k₀) (hrun : Diary k₀ clock vs k)
    (hgap : EntersWithin (UInt32.size - machine.timeScale.toNat) vs) :
    lastEntry vs ≤ clock ∧ k.Billed machine.timeScale.toNat (lastEntry vs) (stays vs) := by
  have hscale : k₀.machine.timeScale = machine.timeScale := congrArg (max · 1) hstart.scale
  refine (Diary.induction (P := fun clock vs k =>
    EntersWithin (UInt32.size - machine.timeScale.toNat) vs →
      lastEntry vs ≤ clock ∧ k.Billed machine.timeScale.toNat (lastEntry vs) (stays vs))
    hstart.sound hstart.vacant ?start ?machine ?turn hrun).2 hgap
  case start =>
    exact fun _ => ⟨Nat.zero_le _, {
      used := hstart.unused
      issued := nofun
      span := nofun
      apart := .nil
      running := fun h hh => by cases hstart.nobody.symm.trans hh }⟩
  case machine =>
    intro clock ticks vs k machine _ ih _ hgap
    obtain ⟨hle, hb⟩ := ih hgap
    exact ⟨Nat.le_trans hle (Nat.le_add_right _ _), hb.setMachine machine⟩
  case turn =>
    intro clock vs k k' o hk _ ih hturn h hgap
    obtain ⟨hle, hb⟩ := ih (List.IsChain.tail hgap)
    have hscale' : k.machine.timeScale.toNat = machine.timeScale.toNat :=
      congrArg UInt32.toNat (hk.timeScale.trans hscale)
    have hcharged := hb.charge hk.sound.toAccounted hk.now hscale' hle fun h hh =>
      hb.clock_lt hgap hh
    have hstill := charge_standsStill k
    exact ⟨Nat.le_refl _, hcharged.pace (hstill.now.trans hk.now)
      ((congrArg UInt32.toNat hstill.timeScale).trans hscale') (hturn.pace h)⟩

/-! ## Calls that only ask -/

/-- The call changes nothing but what the running process knows: it decides again what runs next, or
tells the process how much time it has used. -/
def Call.OnlyAsks (call : Call) (k : Kernel) : Prop :=
  call = .schedule ∨
    ∃ k₁, call.trap? k = some (.sysBreak, k₁) ∧ k₁.service? = some .usedTime

/-- A running process goes on. -/
theorem schedule_resumes (hh : k.current = some h) :
    ∃ decision k', schedule k = .ok decision k' [.resuming (k.pidAt h)] ∧ k.Alike k' := by
  have hsame : k.Alike k.charge.gatherTick := (Alike.charge k).trans (.gatherTick _)
  have hrun : schedule k = k.resumeCurrent h := schedule_eq_resumeCurrent hh
  unfold resumeCurrent at hrun
  rw [hrun, ← hsame.pidAt h]
  generalize k.charge.gatherTick = k₁ at hsame
  exact ⟨_, _, rfl, hsame.trans (.setTimer _ _)⟩

theorem resumes_of_onlyAsks (hasks : call.OnlyAsks k) (hh : k.current = some h) :
    ∃ decision k', call.run k = .ok decision k' [.resuming (k.pidAt h)] ∧ k.Alike k' := by
  rcases hasks with rfl | ⟨k₁, htrap, hservice⟩
  · exact schedule_resumes hh
  · obtain ⟨⟨machine, hk₁⟩, hrun⟩ := Call.run_eq_of_trap? htrap
    have hsame₁ : k.Alike k₁ := hk₁ ▸ .setMachine k machine
    obtain ⟨g, hg, hdispatch⟩ := dispatch_of_service hservice
    obtain rfl := Option.some.inj (hh.symm.trans (hsame₁.current.symm.trans hg))
    have hsame₂ : k.Alike (k₁.requested h) := hsame₁.trans (saved_requested hg).alike
    rw [hrun, hdispatch]
    generalize k₁.requested h = k₂ at hsame₂
    have hserved : k.Alike (k₂.charge.giveResult h (k₂.charge.processes.get h).usedTime) :=
      (hsame₂.trans (.charge k₂)).trans (.giveResult _ _ _)
    have hnext : (serve h .usedTime >>= fun _ => schedule) k₂ =
        schedule (k₂.charge.giveResult h (k₂.charge.processes.get h).usedTime) := by
      simp only [serve, bind_assoc, Action.change_bind_apply]
    rw [hnext]
    generalize k₂.charge.giveResult h _ = k₃ at hserved
    obtain ⟨decision, k', hdecided, hlast⟩ := schedule_resumes (hserved.current.trans hh)
    rw [hserved.pidAt] at hdecided
    exact ⟨decision, k', hdecided, hserved.trans hlast⟩

/-! ## The law -/

theorem extendLatest_extendLatest (running : Option Pid) (earlier later : Nat) (ss : List Stay) :
    extendLatest running later (extendLatest running earlier ss) =
      extendLatest running later ss := by
  cases ss with
  | nil => rfl
  | cons stay ss =>
    by_cases hrunning : running = some stay.pid
    · simp only [extendLatest, if_pos hrunning, Stay.extend]
    · simp only [extendLatest, if_neg hrunning]

/-- A call at which nobody gets the processor does not show in the stays if the same process runs at
the next. -/
theorem stays_cons_of_quiet {quiet : Visit} (hquiet : Quiet quiet.log)
    (hrunning : v.running = quiet.running) : stays (v :: quiet :: vs) = stays (v :: vs) := by
  rw [stays, stays, foldl_beginStay_of_quiet hquiet, ← hrunning, extendLatest_extendLatest, stays]

/-- The law of the time of the processes: each is charged for the whole microseconds of its stays,
from when it got the processor until the last entry of the nucleus, and for nothing else. -/
structure CpuTimeLaw (scale : Nat) (vs : List Visit) (k : Kernel) : Prop where
  exact : ∀ h, k.processes.isUsed h = true →
    (k.processes.get h).usedTime.toNat =
      usedMicros scale (k.pidAt h) (stays vs) % UInt32.size
  /-- The stays follow one another, so no time is charged twice. -/
  apart : (stays vs).Pairwise fun later earlier => earlier.last ≤ later.begun
  span : ∀ stay ∈ stays vs, stay.begun ≤ stay.last ∧ stay.last ≤ lastEntry vs
  /-- A call charges nobody but the process that ran. -/
  bystander : ∀ (call : Call) (k' : Kernel), (call.run k).state? = some k' →
    ∀ g, k.processes.isUsed g = true → k'.processes.isUsed g = true → k.current ≠ some g →
      (k'.processes.get g).usedTime = (k.processes.get g).usedTime
  /-- To decide again what runs next, or to tell the running process its time, does not change the
  stays that are charged in the end. -/
  asks : ∀ call : Call, call.OnlyAsks k → ∀ h, k.current = some h →
    ∃ k', (call.run k).state? = some k' ∧ k'.current = some h ∧ k'.pidAt h = k.pidAt h ∧
      ∀ (clock : Nat) (v : Visit), v.running = some (k.pidAt h) →
        stays (v :: k.visit clock (call.run k) :: vs) = stays (v :: vs)

/-- The law holds in every run that leaves the bus alone and enters the nucleus often enough for the
clock not to be overtaken between two entries. -/
theorem cpuTime_of_boot (hboot : boot (.new machine config) = .ok () k₀ log)
    (hrun : Diary k₀ clock vs k)
    (hgap : EntersWithin (UInt32.size - machine.timeScale.toNat) vs) :
    CpuTimeLaw machine.timeScale.toNat vs k := by
  have hstart := started_of_boot hboot
  have hsound := (hrun.underway hstart.sound hstart.vacant).sound
  obtain ⟨-, hb⟩ := hstart.billed hrun hgap
  exact {
    exact := fun h hh => by
      rw [hb.used h hh]
      exact UInt32.toNat_ofNat'
    apart := hb.apart
    span := hb.span
    bystander := fun call k' hs g hg hg' hcurrent =>
      congrArg Context.usedTime (hsound.contextAt_bystander hs hg hg' hcurrent)
    asks := fun call hasks h hh => by
      obtain ⟨decision, k', hresumes, hsame⟩ := resumes_of_onlyAsks hasks hh
      refine ⟨k', congrArg Outcome.state? hresumes, hsame.current.trans hh, hsame.pidAt h,
        fun clock v hv => stays_cons_of_quiet ?_ ?_⟩
      · show Quiet (call.run k).log
        rw [hresumes]
        exact quiet_singleton rfl
      · rw [hv]
        exact (congrArg (Option.map k.pidAt) hh).symm }

/-- With three ticks in a microsecond the clock wraps while the root process runs, which asks for
its time on the way. -/
theorem cpuTime_of_boot_wrapped : ∃ k₀ log clock vs k,
    boot (.new (Machine.new.withTimeScale 3) .usual) = .ok () k₀ log ∧
    Diary k₀ clock vs k ∧ UInt32.size < clock ∧
    (k.processes.get 0).usedTime = 1431655774 ∧ CpuTimeLaw 3 vs k := by
  obtain ⟨k₀, log, clock, vs, k, hboot, hcalls, htest⟩ := exists_replay
    (p := fun _ clock vs k => UInt32.size < clock ∧ (k.processes.get 0).usedTime = 1431655774 ∧
      EntersWithin (UInt32.size - 3) vs)
    (Machine.new.withTimeScale 3) .usual
    [(0, .schedule), (1431655764, .deliver (.request 6 0 0 0 false)), (10, .schedule)]
    (by decide +kernel)
  have hrun := Diary.start.replay hcalls
  obtain ⟨hclock, hused, hgap⟩ := of_decide_eq_true htest
  exact ⟨k₀, log, clock, vs, k, hboot, hrun, hclock, hused, cpuTime_of_boot hboot hrun hgap⟩

end Kernel

end Nucleus
