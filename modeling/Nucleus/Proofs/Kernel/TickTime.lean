import Nucleus.Proofs.Kernel.Diary

/-!
# Ticks are never early

The nucleus gathers the microseconds since it last did so, and a tick of the pseudo-clock spends
what has been gathered. No interval is gathered twice and nothing is gathered ahead of the clock, so
the ticks of a run never get ahead of the time it has taken, whatever interrupts arrive and however
often the clock wraps (`ticks_of_boot`).
-/

namespace Nucleus

/-- The pseudo-clock ticks. -/
def Notice.isTick : Notice → Bool
  | clockTick => true
  | _ => false

theorem countP_isTick_of_quiet {log : List Notice} (hquiet : Quiet log) :
    log.countP Notice.isTick = 0 := by
  rw [List.countP_eq_zero]
  intro notice hmem htick
  have hbeat := hquiet notice hmem
  cases notice with
  | clockTick => cases hbeat
  | _ => cases htick

namespace Kernel

open Outcome

variable {k k' k₀ : Kernel} {scale clock start n : Nat} {vs : List Visit} {log : List Notice}
  {machine : Machine} {config : Config}

/-- How often the pseudo-clock has ticked. -/
def ticks : List Visit → Nat
  | [] => 0
  | v :: vs => ticks vs + v.log.countP Notice.isTick

/-- Of the time from the start until some moment, `n` ticks and what has been gathered since then
take no more than there is, and what comes after that moment is still to be gathered. -/
def Gathered (k : Kernel) (scale start n clock : Nat) : Prop :=
  ∃ since ≤ clock, k.tickUntil = UInt32.ofNat since ∧
    start + (n * k.config.tickInterval.toNat + k.tickMicros.toNat) * scale ≤ since

namespace Gathered

/-- A step that does not touch what has been gathered. -/
theorem congr (hg : k.Gathered scale start n clock) (hconfig : k'.config = k.config)
    (hmicros : k'.tickMicros = k.tickMicros) (huntil : k'.tickUntil = k.tickUntil) :
    k'.Gathered scale start n clock := by
  unfold Gathered
  rwa [hconfig, hmicros, huntil]

/-- What is gathered has passed since the last time, and the clock may have wrapped in between. -/
theorem gatherTick (hg : k.Gathered scale start n clock)
    (hnow : k.machine.now = UInt32.ofNat clock) (hscale : k.machine.timeScale.toNat = scale) :
    k.gatherTick.Gathered scale start n clock := by
  obtain ⟨since, hle, huntil, hbound⟩ := hg
  have helapsed : elapsed k.machine.now k.tickUntil k.machine.timeScale = _ :=
    hnow ▸ huntil ▸ elapsed_ofNat hle k.machine.timeScale
  rw [hscale] at helapsed
  generalize hm : (clock - since) % UInt32.size / scale = micros at helapsed
  have hpassed : micros * scale ≤ clock - since := by
    rw [← hm]
    exact Nat.le_trans (Nat.div_mul_le_self _ _) (Nat.mod_le _ _)
  have hmicros : k.gatherTick.tickMicros.toNat ≤ k.tickMicros.toNat + micros := by
    show (Word.saturatingAdd _ (elapsed _ _ _).1).toNat ≤ _
    rw [helapsed, Word.toNat_saturatingAdd]
    have hword : (UInt32.ofNat micros).toNat ≤ micros := UInt32.toNat_ofNat' ▸ Nat.mod_le _ _
    exact Nat.le_trans (Nat.min_le_left _ _) (Nat.add_le_add_left hword _)
  refine ⟨since + micros * scale, by omega, congrArg Prod.snd helapsed, ?_⟩
  calc start + (n * k.config.tickInterval.toNat + k.gatherTick.tickMicros.toNat) * scale
      ≤ start + (n * k.config.tickInterval.toNat + (k.tickMicros.toNat + micros)) * scale :=
        Nat.add_le_add_left (Nat.mul_le_mul_right _ (Nat.add_le_add_left hmicros _)) _
    _ = start + (n * k.config.tickInterval.toNat + k.tickMicros.toNat) * scale +
          micros * scale := by rw [← Nat.add_assoc, Nat.add_mul _ micros, ← Nat.add_assoc]
    _ ≤ since + micros * scale := Nat.add_le_add_right hbound _

/-- A tick spends what has been gathered for it, and drops what was more. -/
theorem tick (hg : k.Gathered scale start n clock) (hdue : k.tickIsDue = true) :
    Gathered { k with tickMicros := 0 } scale start (n + 1) clock := by
  obtain ⟨since, hle, huntil, hbound⟩ := hg
  have hdue : k.config.tickInterval.toNat ≤ k.tickMicros.toNat :=
    UInt32.le_iff_toNat_le.1 (of_decide_eq_true hdue)
  refine ⟨since, hle, huntil, Nat.le_trans (Nat.add_le_add_left ?_ _) hbound⟩
  refine Nat.mul_le_mul_right _ ?_
  rw [Nat.add_one_mul]
  exact Nat.add_le_add_left hdue _

theorem beat (hg : k.Gathered scale start n clock) (hnow : k.machine.now = UInt32.ofNat clock)
    (hscale : k.machine.timeScale.toNat = scale) (h : k.Beat log k') :
    k'.Gathered scale start (n + log.countP Notice.isTick) clock := by
  cases h with
  | rest hk hlog =>
    rw [countP_isTick_of_quiet hlog]
    exact hg.congr hk.config hk.tickMicros hk.tickUntil
  | charge =>
    have hsame := charge_sameTick k
    exact hg.congr (charge_standsStill k).config hsame.tickMicros hsame.tickUntil
  | gather => exact hg.gatherTick hnow hscale
  | tick hdue => exact hg.tick hdue
  | expire hh hk => exact hg.congr hk.config hk.tickMicros hk.tickUntil
  | dispatch => exact hg
  | arm micros => exact hg

theorem pace (hg : k.Gathered scale start n clock) (hnow : k.machine.now = UInt32.ofNat clock)
    (hscale : k.machine.timeScale.toNat = scale) (hp : k.Pace log k') :
    k'.Gathered scale start (n + log.countP Notice.isTick) clock := by
  induction hp generalizing n with
  | refl => exact hg
  | cons h _ ih =>
    have hstill := h.standsStill
    rw [List.countP_append, ← Nat.add_assoc]
    exact ih (hg.beat hnow hscale h) (hstill.now.trans hnow)
      ((congrArg UInt32.toNat hstill.timeScale).trans hscale)

end Gathered

/-- In a run that leaves the bus alone the ticks and what has been gathered for the next one never
get ahead of the clock. -/
theorem Started.gathered (hstart : Started machine config k₀) (hrun : Diary k₀ clock vs k) :
    k.Gathered machine.timeScale.toNat k₀.machine.now.toNat (ticks vs) clock := by
  have hscale : k₀.machine.timeScale = machine.timeScale := congrArg (max · 1) hstart.scale
  refine (Diary.induction (P := fun clock vs k =>
    k.Gathered machine.timeScale.toNat k₀.machine.now.toNat (ticks vs) clock)
    hstart.sound hstart.vacant ?start ?machine ?turn hrun).2
  case start =>
    refine ⟨_, Nat.le_refl _, hstart.tickUntil.trans UInt32.ofNat_toNat.symm, ?_⟩
    rw [hstart.tickMicros, ticks, Nat.zero_mul]
    simp
  case machine =>
    rintro clock ticks vs k machine _ ⟨since, hle, huntil, hbound⟩ _
    exact ⟨since, Nat.le_trans hle (Nat.le_add_right _ _), huntil, hbound⟩
  case turn =>
    intro clock vs k k' o hk _ hg hturn h
    have hsame := charge_sameTick k
    have hstill := charge_standsStill k
    have hcharged := hg.congr hstill.config hsame.tickMicros hsame.tickUntil
    exact hcharged.pace (hstill.now.trans hk.now)
      (congrArg UInt32.toNat (hstill.timeScale.trans (hk.timeScale.trans hscale))) (hturn.pace h)

/-- Ticks are never early: in every run that leaves the bus alone, the ticks since the start-up and
the time that has been gathered for the next one take no more than the time that has passed. -/
theorem ticks_of_boot (hboot : boot (.new machine config) = .ok () k₀ log)
    (hrun : Diary k₀ clock vs k) :
    k₀.machine.now.toNat + (ticks vs * config.tickInterval.toNat + k.tickMicros.toNat) *
      machine.timeScale.toNat ≤ clock := by
  have hstart := started_of_boot hboot
  obtain ⟨since, hle, -, hbound⟩ := hstart.gathered hrun
  rw [(hrun.underway hstart.sound hstart.vacant).config, hstart.config] at hbound
  exact Nat.le_trans hbound hle

/-- An interrupt of the timer that comes late makes one tick, and one that comes soon after it
none. -/
theorem ticks_of_boot_late : ∃ k₀ log clock vs k,
    boot (.new (Machine.new.withTimeScale 3) ⟨5000, 100, 0⟩) = .ok () k₀ log ∧
    Diary k₀ clock vs k ∧ clock = 960 ∧ ticks vs = 1 ∧ k.tickMicros = 70 ∧
    k₀.machine.now.toNat + (1 * 100 + 70) * 3 ≤ 960 := by
  obtain ⟨k₀, log, clock, vs, k, hboot, hcalls, htest⟩ := exists_replay
    (p := fun _ clock vs k => clock = 960 ∧ ticks vs = 1 ∧ k.tickMicros = 70)
    (Machine.new.withTimeScale 3) ⟨5000, 100, 0⟩
    [(0, .schedule), (250, .deliver (.interrupt 2)), (70, .deliver (.interrupt 2))]
    (by decide +kernel)
  have hrun := Diary.start.replay hcalls
  obtain ⟨rfl, hticks, hmicros⟩ := of_decide_eq_true htest
  have hbound := ticks_of_boot hboot hrun
  rw [hticks, hmicros] at hbound
  exact ⟨k₀, log, _, vs, k, hboot, hrun, rfl, hticks, hmicros, hbound⟩

end Kernel

end Nucleus
