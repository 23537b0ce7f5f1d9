import Nucleus.Proofs.Machine.OrdinaryWord

/-!
# The registers of the bus

The clock, the timer and the time scale are words among the bus registers, where no device has a
register and no trap vector an area. A write to another address leaves them alone, also when it
reaches a device, and of all events only the timer moves the clock: it runs out by letting the time
pass that was left (`Machine.timePasses_of_trap`).
-/

namespace Nucleus

/-- An address among the registers of the bus. -/
def Bus.IsRegister (address : Word) : Prop := 0x10000000 ≤ address ∧ address ≤ 0x10000027

instance (address : Word) : Decidable (Bus.IsRegister address) :=
  inferInstanceAs (Decidable (_ ∧ _))

namespace Machine

variable {m m' m'' : Machine} {a b : Word} {ticks ticks' : Nat}

theorem isBusRegister_clock : Bus.IsRegister Bus.clock := by decide

theorem isBusRegister_timer : Bus.IsRegister Bus.timer := by decide

theorem isBusRegister_timeScale : Bus.IsRegister Bus.timeScale := by decide

/-- The registers of the bus end before the registers of the devices begin. -/
theorem ne_of_isBusRegister (ha : Bus.IsRegister a) (hb : 0x10000028 ≤ b) : b ≠ a := by
  rintro rfl
  exact absurd (UInt32.le_trans hb ha.2) (by decide)

/-! ## Machines with the same bus -/

/-- Two machines agree on the registers of the bus. -/
def SameBus (m m' : Machine) : Prop := ∀ a, Bus.IsRegister a → m'.read a = m.read a

namespace SameBus

theorem refl (m : Machine) : m.SameBus m := fun _ _ => rfl

theorem trans (h : m.SameBus m') (h' : m'.SameBus m'') : m.SameBus m'' := fun a ha =>
  (h' a ha).trans (h a ha)

theorem now (h : m.SameBus m') : m'.now = m.now := h _ isBusRegister_clock

theorem timeScale (h : m.SameBus m') : m'.timeScale = m.timeScale :=
  congrArg (max · 1) (h _ isBusRegister_timeScale)

end SameBus

theorem sameBus_acknowledge (m : Machine) (d : Device) : m.SameBus (m.acknowledge d) := by
  intro a ha
  have hregisters : 0x10000028 ≤ d.statusRegister ∧ 0x10000028 ≤ d.bitmap := by
    obtain ⟨family, unit⟩ := d
    cases family <;> revert unit <;> decide +kernel
  have hstatus := ne_of_isBusRegister ha hregisters.1
  have hbitmap := ne_of_isBusRegister ha hregisters.2
  unfold acknowledge
  dsimp only
  split
  · rw [read_set, if_neg hstatus]
  · rw [lowerBit, read_set, if_neg hbitmap, read_set, if_neg hstatus]

theorem read_write_of_isBusRegister (ha : Bus.IsRegister a) (hne : b ≠ a) (m : Machine)
    (value : Word) : (m.write b value).read a = m.read a := by
  have hset : (m.set b value).read a = m.read a := by rw [read_set, if_neg hne]
  unfold write
  dsimp only
  split
  · split
    · rw [sameBus_acknowledge _ _ a ha, hset]
    · exact hset
  · exact hset

theorem sameBus_write (hb : ¬ Bus.IsRegister b) (m : Machine) (value : Word) :
    m.SameBus (m.write b value) := by
  intro a ha
  apply read_write_of_isBusRegister ha
  rintro rfl
  exact hb ha

/-- Storing a state leaves the bus alone if none of its words is a register of the bus. -/
theorem sameBus_storeState (hb : ∀ i < stateWords, ¬ Bus.IsRegister (stateAddress b i))
    (m : Machine) (s : ProcessorState) : m.SameBus (m.storeState b s) := by
  have hwords : ∀ n ≤ stateWords, m.SameBus (m.storeWords b s n) := by
    intro n hn
    induction n with
    | zero => exact .refl m
    | succ n ih =>
      rw [storeWords_succ]
      exact (ih (Nat.le_of_lt hn)).trans (sameBus_write (hb n hn) _ _)
  exact hwords stateWords (Nat.le_refl _)

theorem not_isBusRegister_oldArea (vector : TrapVector) :
    ∀ i < stateWords, ¬ Bus.IsRegister (stateAddress vector.oldArea i) := by
  cases vector <;> decide +kernel

theorem not_isBusRegister_newArea (vector : TrapVector) :
    ∀ i < stateWords, ¬ Bus.IsRegister (stateAddress vector.newArea i) := by
  cases vector <;> decide +kernel

theorem sameBus_enterTrap (m : Machine) (vector : TrapVector) (code : ExceptionCode)
    (s : ProcessorState) : m.SameBus (m.enterTrap vector code s).2 :=
  sameBus_storeState (not_isBusRegister_oldArea vector) m _

/-! ## Time -/

theorem timeScale_pos (m : Machine) : 0 < m.timeScale.toNat := by
  unfold timeScale
  rw [show ∀ a : Word, max a 1 = if a ≤ 1 then 1 else a from fun _ => rfl]
  split
  · decide
  · rename_i hlarge
    rw [UInt32.le_iff_toNat_le] at hlarge
    exact Nat.zero_lt_of_lt (Nat.not_le.1 hlarge)

theorem timeScale_of_ne_zero {m : Machine} (h : m.read Bus.timeScale ≠ 0) :
    m.timeScale = m.read Bus.timeScale := by
  have hpos : ¬ m.read Bus.timeScale ≤ 1 ∨ m.read Bus.timeScale = 1 := by
    have hne : (m.read Bus.timeScale).toNat ≠ 0 := fun heq => h (UInt32.toNat_inj.1 heq)
    rw [UInt32.le_iff_toNat_le, ← UInt32.toNat_inj]
    change ¬ _ ≤ 1 ∨ _ = 1
    omega
  unfold timeScale
  rw [show ∀ a : Word, max a 1 = if a ≤ 1 then 1 else a from fun _ => rfl]
  rcases hpos with hlarge | hone
  · rw [if_neg hlarge]
  · rw [hone]
    rfl

/-- The timer runs out after the time for which it was set, if that fits the clock. -/
theorem timerLeft_of_read {m : Machine} {micros : Word}
    (h : m.read Bus.timer = Word.saturatingMul micros m.timeScale)
    (hfit : micros.toNat * m.timeScale.toNat < UInt32.size) : m.timerLeft = micros := by
  apply UInt32.toNat_inj.1
  rw [timerLeft, h, UInt32.toNat_div, Word.toNat_saturatingMul, Nat.min_eq_left (by omega),
    Nat.mul_div_cancel _ m.timeScale_pos]

/-- The clock has gone on by some ticks, and the other registers of the bus are as they were. -/
structure TimePasses (m : Machine) (ticks : Nat) (m' : Machine) : Prop where
  now : m'.now = m.now + UInt32.ofNat ticks
  kept : ∀ a, Bus.IsRegister a → a ≠ Bus.clock → m'.read a = m.read a

theorem SameBus.timePasses (h : m.SameBus m') : m.TimePasses 0 m' where
  now := h.now.trans (UInt32.add_zero _).symm
  kept a ha _ := h a ha

namespace TimePasses

theorem timer (h : m.TimePasses ticks m') : m'.read Bus.timer = m.read Bus.timer :=
  h.kept _ isBusRegister_timer (by decide)

theorem scale (h : m.TimePasses ticks m') : m'.read Bus.timeScale = m.read Bus.timeScale :=
  h.kept _ isBusRegister_timeScale (by decide)

theorem timeScale (h : m.TimePasses ticks m') : m'.timeScale = m.timeScale :=
  congrArg (max · 1) h.scale

theorem timerLeft (h : m.TimePasses ticks m') : m'.timerLeft = m.timerLeft := by
  unfold Machine.timerLeft
  rw [h.timer, h.timeScale]

theorem trans_sameBus (h : m.TimePasses ticks m') (h' : m'.SameBus m'') :
    m.TimePasses ticks m'' where
  now := h'.now.trans h.now
  kept a ha hne := (h' a ha).trans (h.kept a ha hne)

theorem trans (h : m.TimePasses ticks m') (h' : m'.TimePasses ticks' m'') :
    m.TimePasses (ticks + ticks') m'' where
  now := by rw [h'.now, h.now, UInt32.ofNat_add, UInt32.add_assoc]
  kept a ha hne := (h'.kept a ha hne).trans (h.kept a ha hne)

end TimePasses

theorem timePasses_advance (m : Machine) (micros : Word) :
    m.TimePasses (micros.toNat * (m.read Bus.timeScale).toNat) (m.advance micros) where
  now := by
    have hticks : UInt32.ofNat (micros.toNat * (m.read Bus.timeScale).toNat) =
        micros * m.read Bus.timeScale := by
      rw [UInt32.ofNat_mul, UInt32.ofNat_toNat, UInt32.ofNat_toNat]
    rw [hticks]
    exact read_write_self m Bus.clock _
  kept _ ha hne := read_write_of_isBusRegister ha (Ne.symm hne) m _

/-- The ticks that pass when an event happens. -/
def eventTicks (m : Machine) : Event → Nat
  | .timer => m.timerLeft.toNat * (m.read Bus.timeScale).toNat
  | .request _ _ _ _ _ | .breakpoint | .tlb | .programTrap _ | .device _ _ _ | .terminal _ _ _
  | .interrupt _ => 0

theorem sameBus_of_raiseBit {line : Nat} {unit : UInt8} (hline : line < 256)
    (h : m.raiseBit line unit = .ok m') : m.SameBus m' := by
  unfold raiseBit at h
  split at h
  · cases h
    refine sameBus_write (fun hreg => ne_of_isBusRegister hreg ?_ rfl) m _
    rw [UInt32.le_iff_toNat_le, bitmapOf, firstBitmap, UInt32.toNat_ofNat']
    change 0x10000028 ≤ _
    omega
  · cases h

theorem sameBus_write_registersOf (m : Machine) (line unit : UInt8) (offset value : Word)
    (hoffset : offset.toNat < 16) :
    m.SameBus (m.write (registersOf line.toNat unit.toNat + offset) value) := by
  refine sameBus_write (fun hreg => ne_of_isBusRegister hreg ?_ rfl) m _
  have hline := line.toNat_lt
  have hunit := unit.toNat_lt
  rw [UInt32.le_iff_toNat_le, registersOf, firstRegister, UInt32.toNat_add, UInt32.toNat_ofNat']
  change 0x10000028 ≤ _
  omega

theorem sameBus_write_terminal (m : Machine) (unit : UInt8) (offset : Word)
    (hoffset : offset.toNat < 16) (status : Option Word) :
    m.SameBus
      ((status.map (m.write (registersOf Cause.Line.terminal unit.toNat + offset))).getD m) := by
  cases status with
  | none => exact .refl m
  | some value => exact sameBus_write_registersOf m 7 unit offset value hoffset

/-- Of all events only the timer lets time pass. -/
theorem timePasses_of_trap {event : Event} {running : Option ProcessorState} {vector : TrapVector}
    (h : m.trap event running = .ok (vector, m')) : m.TimePasses (m.eventTicks event) m' := by
  unfold trap at h
  cases event with
  | request | breakpoint | tlb | programTrap =>
    cases h
    exact (sameBus_enterTrap m _ _ _).timePasses
  | timer =>
    cases h
    exact (timePasses_advance m m.timerLeft).trans_sameBus (sameBus_enterTrap _ _ _ _)
  | device line unit status =>
    obtain ⟨base, hbase, h⟩ := exists_of_bind_eq_ok h
    obtain ⟨raised, hraise, h⟩ := exists_of_bind_eq_ok h
    obtain ⟨l, -, h⟩ := exists_of_bind_eq_ok h
    cases h
    have hwrite : m.SameBus (m.write base status) := by
      unfold registersAt at hbase
      split at hbase
      · cases hbase
      · cases hbase
        have hbus := sameBus_write_registersOf m line unit 0 status (by decide)
        rwa [UInt32.add_zero] at hbus
    exact ((hwrite.trans (sameBus_of_raiseBit line.toNat_lt hraise)).trans
      (sameBus_enterTrap raised _ _ _)).timePasses
  | terminal unit transmitted received =>
    obtain ⟨raised, hraise, h⟩ := exists_of_bind_eq_ok h
    cases h
    have htransmit := sameBus_write_terminal m unit 0x8 (by decide) transmitted
    have hreceive := fun m' => sameBus_write_terminal m' unit 0 (by decide) received
    simp only [UInt32.add_zero] at hreceive
    exact (((htransmit.trans (hreceive _)).trans (sameBus_of_raiseBit (by decide) hraise)).trans
      (sameBus_enterTrap raised _ _ _)).timePasses
  | interrupt line =>
    obtain ⟨l, -, h⟩ := exists_of_bind_eq_ok h
    cases h
    exact (sameBus_enterTrap m _ _ _).timePasses

end Machine

end Nucleus
