import Nucleus.Proofs.Machine.Terminals

/-!
# What is due on a line

The devices of a line are served in ascending order, of a terminal the transmitter before the
receiver (`Device.Before`). One is due if its bit is raised and, as half of a terminal, it has
completed; `Machine.due` lists those that are. Acknowledging the first of them takes it off the list
(`Machine.due_acknowledge`), and as long as no terminal hangs, the bits that are raised are those of
the devices that are due (`Machine.raised_iff_due`).
-/

namespace Nucleus

/-! ## Bitmaps -/

/-- The bits of a bitmap that belong to units. -/
def unitBits : Word := 0xff

/-- If no unit has its bit raised, the bits of the units are zero. -/
theorem and_unitBits_eq_zero {bitmap : Word} (h : ∀ u, bitmap &&& unitBit u = 0) :
    bitmap &&& unitBits = 0 := by
  have hbits : unitBits = (List.finRange unitsPerLine).foldl (· ||| unitBit ·) 0 := by decide
  have hfold : ∀ (us : List (Fin unitsPerLine)) (bits : Word), bitmap &&& bits = 0 →
      bitmap &&& us.foldl (· ||| unitBit ·) bits = 0 := by
    intro us
    induction us with
    | nil => exact fun _ hbits => hbits
    | cons u us ih =>
      intro bits hbits
      refine ih _ ?_
      rw [Word.and_or_distrib_left, hbits, h u, UInt32.or_zero]
  rw [hbits]
  exact hfold _ 0 UInt32.and_zero

/-- Lowering the bit of a unit leaves the rest of the register alone. -/
theorem and_not_unitBits_of_lowered (bitmap : Word) (u : Fin unitsPerLine) :
    bitmap &&& ~~~unitBit u &&& ~~~unitBits = bitmap &&& ~~~unitBits := by
  have hkept : ∀ u : Fin unitsPerLine, ~~~unitBit u &&& ~~~unitBits = ~~~unitBits := by decide
  rw [UInt32.and_assoc, hkept]

/-! ## The order of service -/

theorem DeviceFamily.exists_line {line : Cause.Line} (hlow : 3 ≤ line) (hhigh : line ≤ 7) :
    ∃ family : DeviceFamily, family.line = line := by
  have hall : ∀ line : Cause.Line, 3 ≤ line → line ≤ 7 →
      ∃ family ∈ DeviceFamily.all, family.line = line := by decide
  obtain ⟨family, -, hline⟩ := hall line hlow hhigh
  exact ⟨family, hline⟩

/-- Only terminals share their line with another family. -/
theorem DeviceFamily.eq_of_line {f g : DeviceFamily} (hf : f.isTerminal = false)
    (h : g.line = f.line) : g = f := by
  cases f <;> cases g <;> first | rfl | exact absurd h (by decide) | cases hf

theorem DeviceFamily.line_eq_terminal {f : DeviceFamily} :
    f.line = .terminal ↔ f.isTerminal = true := by
  cases f <;> decide

namespace Device

variable {c d e : Device} {line : Cause.Line}

/-- The order in which the devices of a line are served. -/
def Before (d e : Device) : Prop :=
  d.unit < e.unit ∨
    d.unit = e.unit ∧ d.family = .terminalTransmit ∧ e.family = .terminalReceive

instance : DecidableRel Before := fun d e =>
  inferInstanceAs (Decidable (d.unit < e.unit ∨
    d.unit = e.unit ∧ d.family = .terminalTransmit ∧ e.family = .terminalReceive))

theorem Before.asymm (h : d.Before e) : ¬ e.Before d := by
  rintro (hlt | ⟨heq, he, -⟩)
  · rcases h with hlt' | ⟨heq', -, -⟩
    · exact absurd hlt (Nat.lt_asymm hlt')
    · exact absurd (heq' ▸ hlt) (Nat.lt_irrefl _)
  · rcases h with hlt' | ⟨-, -, he'⟩
    · exact absurd (heq ▸ hlt') (Nat.lt_irrefl _)
    · cases he.symm.trans he'

theorem Before.ne (h : d.Before e) : d ≠ e := by
  rintro rfl
  exact h.asymm h

/-- The devices of a line in the order in which they are served. -/
def onLine (line : Cause.Line) : List Device :=
  (List.finRange unitsPerLine).flatMap fun unit =>
    (DeviceFamily.all.filter (·.line = line)).map (⟨·, unit⟩)

theorem mem_onLine_iff : d ∈ onLine line ↔ d.family.line = line := by
  obtain ⟨family, unit⟩ := d
  have hall : family ∈ DeviceFamily.all := by cases family <;> decide
  simp [onLine, List.mem_finRange, hall]

theorem isBitmapOrRegister_bitmapOf (line : Cause.Line) : IsBitmapOrRegister (bitmapOf line) := by
  revert line
  decide

theorem isBitmapOrRegister_bitmap (d : Device) : IsBitmapOrRegister d.bitmap :=
  isBitmapOrRegister_bitmapOf _

theorem pairwise_onLine (line : Cause.Line) : (onLine line).Pairwise Before := by
  revert line
  decide +kernel

end Device

namespace Machine

variable {m m' : Machine} {d e : Device} {line : Cause.Line} {u : Fin unitsPerLine} {a : Word}

/-! ## What is due -/

/-- A device is due: its bit is raised, and if it is half of a terminal, it has completed. -/
@[mk_iff]
structure IsDue (m : Machine) (d : Device) : Prop where
  raised : m.read d.bitmap &&& d.bit ≠ 0
  completed : d.family.isTerminal = true → m.hasCompleted d = true

instance (m : Machine) (d : Device) : Decidable (m.IsDue d) :=
  decidable_of_iff (m.read d.bitmap &&& d.bit ≠ 0 ∧
    (d.family.isTerminal = true → m.hasCompleted d = true)) (m.isDue_iff d).symm

/-- The devices of a line that are due, in the order in which they are served. -/
def due (m : Machine) (line : Cause.Line) : List Device :=
  (Device.onLine line).filter (m.IsDue ·)

/-- No terminal of the line has its bit raised without a half that has completed. -/
def Responds (m : Machine) (line : Cause.Line) : Prop := line = .terminal → ∀ u, ¬ m.Hangs u

theorem mem_due_iff : d ∈ m.due line ↔ d.family.line = line ∧ m.IsDue d := by
  rw [due, List.mem_filter, Device.mem_onLine_iff, decide_eq_true_iff]

theorem pairwise_due (m : Machine) (line : Cause.Line) : (m.due line).Pairwise Device.Before :=
  (Device.pairwise_onLine line).filter _

theorem nodup_due (m : Machine) (line : Cause.Line) : (m.due line).Nodup :=
  (m.pairwise_due line).imp Device.Before.ne

/-- A device that is due and comes before all others that are is the first on the list. -/
theorem due_eq_cons (hd : d ∈ m.due line) (hfirst : ∀ e ∈ m.due line, d = e ∨ d.Before e) :
    ∃ rest, m.due line = d :: rest := by
  have hsorted := m.pairwise_due line
  cases hdue : m.due line with
  | nil =>
    rw [hdue] at hd
    exact absurd hd List.not_mem_nil
  | cons c rest =>
    rw [hdue] at hd hfirst hsorted
    rcases hfirst c List.mem_cons_self with rfl | hbefore
    · exact ⟨rest, rfl⟩
    · rcases List.mem_cons.1 hd with rfl | hmem
      · exact ⟨rest, rfl⟩
      · exact absurd hbefore ((List.pairwise_cons.1 hsorted).1 d hmem).asymm

theorem isDue_iff_awaits (hd : d.family.isTerminal = true) : m.IsDue d ↔ m.Awaits d := by
  rw [isDue_iff, awaits_iff, Raised, Device.bitmap_of_isTerminal hd, Device.bit]
  exact ⟨fun h => ⟨hd, h.1, h.2 hd⟩, fun h => ⟨h.2.1, fun _ => h.2.2⟩⟩

/-- If no terminal hangs, a bit is raised exactly for the units of which a device is due. -/
theorem raised_iff_due {family : DeviceFamily} (hm : m.Responds family.line) :
    m.read (bitmapOf family.line) &&& unitBit u ≠ 0 ↔ ∃ d ∈ m.due family.line, d.unit = u := by
  constructor
  · intro hraised
    cases hterminal : family.isTerminal with
    | false =>
      refine ⟨⟨family, u⟩, mem_due_iff.2 ⟨rfl, hraised, fun h => ?_⟩, rfl⟩
      cases hterminal.symm.trans h
    | true =>
      have hline := DeviceFamily.line_eq_terminal.2 hterminal
      rw [hline] at hraised hm ⊢
      have hreports : m.Reports u := not_not.1 fun hsilent => hm rfl u ⟨hraised, hsilent⟩
      obtain ⟨d, hd, rfl, hcompleted⟩ := reports_iff.1 hreports
      exact ⟨d, mem_due_iff.2 ⟨DeviceFamily.line_eq_terminal.2 hd,
        (isDue_iff_awaits hd).2 ⟨hd, hraised, hcompleted⟩⟩, rfl⟩
  · rintro ⟨d, hd, rfl⟩
    obtain ⟨hline, hdue⟩ := mem_due_iff.1 hd
    exact hline ▸ hdue.raised

/-- Of plain devices the lowest one that is raised is the first that is due. -/
theorem due_of_lowestRaised {family : DeviceFamily} (hplain : family.isTerminal = false)
    (hu : lowestRaised (m.read (bitmapOf family.line)) = some u) :
    ∃ rest, m.due family.line = ⟨family, u⟩ :: rest := by
  obtain ⟨hraised, hlowest⟩ := lowestRaised_eq_some_iff.1 hu
  refine due_eq_cons (mem_due_iff.2 ⟨rfl, hraised, fun h => ?_⟩) fun e he => ?_
  · cases hplain.symm.trans h
  · obtain ⟨hline, hdue⟩ := mem_due_iff.1 he
    obtain ⟨f, v⟩ := e
    obtain rfl : f = family := DeviceFamily.eq_of_line hplain hline
    rcases Nat.lt_trichotomy u v with hlt | heq | hgt
    · exact .inr (.inl hlt)
    · exact .inl (congrArg _ (Fin.ext heq))
    · exact absurd (hlowest v hgt) hdue.raised

/-- Of terminals the half that comes next is the first that is due. -/
theorem IsNext.due (h : m.IsNext d) : ∃ rest, m.due .terminal = d :: rest := by
  refine due_eq_cons (mem_due_iff.2 ⟨DeviceFamily.line_eq_terminal.2 h.terminal,
    (isDue_iff_awaits h.terminal).2 h.toAwaits⟩) fun e he => ?_
  obtain ⟨hline, hdue⟩ := mem_due_iff.1 he
  have hterminal := DeviceFamily.line_eq_terminal.1 hline
  rcases h.before ((isDue_iff_awaits hterminal).1 hdue) with hlt | ⟨hunit, hfirst | heq⟩
  · exact .inr (.inl hlt)
  · obtain ⟨f, u⟩ := d
    obtain ⟨g, v⟩ := e
    obtain rfl : u = v := hunit
    obtain rfl : f = .terminalTransmit := hfirst
    cases g with
    | terminalTransmit => exact .inl rfl
    | terminalReceive => exact .inr (.inr ⟨rfl, rfl, rfl⟩)
    | _ => cases hterminal
  · exact .inl heq

/-! ## Machines with the same devices -/

theorem SameDevices.isDue (h : m.SameDevices m') (d : Device) : m'.IsDue d ↔ m.IsDue d := by
  rw [isDue_iff, isDue_iff, h _ d.isBitmapOrRegister_bitmap, h.hasCompleted]

theorem SameDevices.due (h : m.SameDevices m') (line : Cause.Line) : m'.due line = m.due line :=
  List.filter_congr fun d _ => decide_eq_decide.2 (h.isDue d)

theorem SameDevices.responds (h : m.SameDevices m') : m'.Responds line ↔ m.Responds line :=
  forall_congr' fun _ => forall_congr' fun u => not_congr (h.hangs u)

/-! ## Acknowledging -/

/-- Besides its bitmap and its status register an acknowledged device changes no register. -/
theorem read_write_acknowledge (hbitmap : a ≠ d.bitmap) (hstatus : a ≠ d.statusRegister)
    (hcommand : a ≠ d.commandRegister) (m : Machine) :
    (m.write d.commandRegister acknowledgeCommand).read a = m.read a := by
  rw [write_acknowledgeCommand, acknowledge]
  split
  · rw [read_set, if_neg hstatus.symm, read_set, if_neg hcommand.symm]
  · rw [lowerBit, read_set, if_neg hbitmap.symm, read_set, if_neg hstatus.symm, read_set,
      if_neg hcommand.symm]

/-- In the bitmap an acknowledgement lowers at most the bit of the device. -/
theorem bitmap_acknowledge (m : Machine) (d : Device) :
    (m.write d.commandRegister acknowledgeCommand).read d.bitmap = m.read d.bitmap &&& ~~~d.bit ∨
      d.family.isTerminal = true ∧
        (m.write d.commandRegister acknowledgeCommand).read d.bitmap = m.read d.bitmap := by
  have hread : ((m.set d.commandRegister acknowledgeCommand).set d.statusRegister readyStatus).read
      d.bitmap = m.read d.bitmap := by
    rw [read_set, if_neg (Device.statusRegister_ne_bitmap d d), read_set,
      if_neg (Device.bitmap_ne_commandRegister d d).symm]
  rw [write_acknowledgeCommand, acknowledge]
  split
  · rename_i hleft
    exact .inr ⟨(Bool.and_eq_true_iff.1 hleft).1, hread⟩
  · rw [lowerBit, read_set, if_pos rfl, hread]
    exact .inl rfl

theorem highBits_acknowledge (m : Machine) (d : Device) :
    (m.write d.commandRegister acknowledgeCommand).read d.bitmap &&& ~~~unitBits =
      m.read d.bitmap &&& ~~~unitBits := by
  rcases m.bitmap_acknowledge d with hlowered | ⟨-, hkept⟩
  · rw [hlowered, Device.bit, and_not_unitBits_of_lowered]
  · rw [hkept]

/-- Of the devices of its line acknowledging one that is due takes away this one only. -/
theorem isDue_acknowledge (hd : m.IsDue d) (hline : e.family.line = d.family.line) :
    (m.write d.commandRegister acknowledgeCommand).IsDue e ↔ m.IsDue e ∧ e ≠ d := by
  cases hterminal : d.family.isTerminal with
  | true =>
    have he : e.family.isTerminal = true :=
      DeviceFamily.line_eq_terminal.1 (hline.trans (DeviceFamily.line_eq_terminal.2 hterminal))
    rw [isDue_iff_awaits he, isDue_iff_awaits he,
      awaits_acknowledge ((isDue_iff_awaits hterminal).1 hd)]
  | false =>
    obtain ⟨f, v⟩ := e
    obtain rfl : f = d.family := DeviceFamily.eq_of_line hterminal hline
    obtain ⟨family, u⟩ := d
    have hlowered := (m.bitmap_acknowledge ⟨family, u⟩).resolve_right fun h => by
      cases hterminal.symm.trans h.1
    have hvacuous : ∀ {P : Prop}, family.isTerminal = true → P := fun h => by
      cases hterminal.symm.trans h
    have hbitmap : Device.bitmap ⟨family, v⟩ = Device.bitmap ⟨family, u⟩ := rfl
    have hne : (⟨family, v⟩ : Device) ≠ ⟨family, u⟩ ↔ v ≠ u := by simp
    rw [isDue_iff, isDue_iff, hbitmap, hlowered, Device.bit, Device.bit, and_unitBit_of_lowered,
      hne]
    split
    · rename_i heq
      exact iff_of_false (fun h => h.1 rfl) fun h => h.2 heq
    · rename_i hother
      exact ⟨fun h => ⟨⟨h.1, hvacuous⟩, hother⟩, fun h => ⟨h.1.1, hvacuous⟩⟩

/-- Acknowledging the first device that is due leaves those behind it. -/
theorem due_acknowledge {rest : List Device} (h : m.due line = d :: rest) :
    (m.write d.commandRegister acknowledgeCommand).due line = rest := by
  obtain ⟨hline, hd⟩ := mem_due_iff.1 (h ▸ List.mem_cons_self : d ∈ m.due line)
  have hnodup : d ∉ rest := (List.nodup_cons.1 (h ▸ m.nodup_due line)).1
  calc (m.write d.commandRegister acknowledgeCommand).due line
      = (Device.onLine line).filter fun e => decide (e ≠ d) && decide (m.IsDue e) := by
        refine List.filter_congr fun e he => ?_
        rw [← Bool.decide_and]
        refine decide_eq_decide.2 ?_
        rw [isDue_acknowledge hd ((Device.mem_onLine_iff.1 he).trans hline.symm), and_comm]
    _ = (d :: rest).filter fun e => decide (e ≠ d) := by
        rw [← List.filter_filter, ← h]
        rfl
    _ = rest := by
        rw [List.filter_cons_of_neg (by simp), List.filter_eq_self]
        exact fun e he => decide_eq_true fun heq => hnodup (heq ▸ he)

/-- Acknowledging a device that is due makes no terminal hang. -/
theorem responds_acknowledge (hm : m.Responds line) (hd : d ∈ m.due line) :
    (m.write d.commandRegister acknowledgeCommand).Responds line := by
  rintro rfl u hhangs
  obtain ⟨hline, hdue⟩ := mem_due_iff.1 hd
  have hterminal := DeviceFamily.line_eq_terminal.1 hline
  exact hm rfl u ((hangs_acknowledge ((isDue_iff_awaits hterminal).1 hdue) u).1 hhangs)

/-- The devices of the list have been acknowledged on their line, and no others. -/
structure Acknowledged (line : Cause.Line) (ds : List Device) (m m' : Machine) : Prop where
  /-- They are ready for a command. -/
  ready : ∀ d ∈ ds, m'.read d.statusRegister = readyStatus
  /-- The bitmap of the line has changed only in bits of units. -/
  highBits :
    m'.read (bitmapOf line) &&& ~~~unitBits = m.read (bitmapOf line) &&& ~~~unitBits
  /-- All other registers of devices are as they were. -/
  registers : ∀ a, Device.IsBitmapOrRegister a → a ≠ bitmapOf line →
    (∀ d ∈ ds, a ≠ d.statusRegister ∧ a ≠ d.commandRegister) → m'.read a = m.read a

theorem SameDevices.acknowledged (h : m.SameDevices m') (line : Cause.Line) :
    Acknowledged line [] m m' where
  ready _ hd := absurd hd List.not_mem_nil
  highBits := by rw [h _ (Device.isBitmapOrRegister_bitmapOf line)]
  registers a ha _ _ := h a ha

theorem acknowledged_write (m : Machine) (d : Device) :
    Acknowledged d.family.line [d] m (m.write d.commandRegister acknowledgeCommand) where
  ready e he := by rw [status_acknowledge, if_pos (List.mem_singleton.1 he).symm]
  highBits := m.highBits_acknowledge d
  registers a _ hbitmap hothers := by
    obtain ⟨hstatus, hcommand⟩ := hothers d List.mem_cons_self
    exact read_write_acknowledge hbitmap hstatus hcommand m

namespace Acknowledged

variable {m₁ : Machine} {family : DeviceFamily} {ds es : List Device}

/-- A device that has not been acknowledged has kept its status. -/
theorem status (h : Acknowledged family.line ds m m') (hd : d ∉ ds) :
    m'.read d.statusRegister = m.read d.statusRegister := by
  refine h.registers _ d.isBitmapOrRegister_statusRegister
    (Device.statusRegister_ne_bitmap d ⟨family, 0⟩) fun e he => ⟨fun heq => ?_, ?_⟩
  · exact hd (Device.statusRegister_injective heq ▸ he)
  · exact Device.statusRegister_ne_commandRegister d e

theorem trans (h : Acknowledged family.line ds m m₁) (h' : Acknowledged family.line es m₁ m') :
    Acknowledged family.line (ds ++ es) m m' where
  ready d hd := by
    by_cases he : d ∈ es
    · exact h'.ready d he
    · rw [h'.status he]
      exact h.ready d ((List.mem_append.1 hd).resolve_right he)
  highBits := h'.highBits.trans h.highBits
  registers a ha hbitmap hothers := by
    rw [h'.registers a ha hbitmap fun d hd => hothers d (List.mem_append_right ds hd),
      h.registers a ha hbitmap fun d hd => hothers d (List.mem_append_left es hd)]

end Acknowledged

end Machine

end Nucleus
