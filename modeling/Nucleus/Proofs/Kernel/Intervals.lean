import Mathlib.Data.List.Chain
import Nucleus.Proofs.Kernel.Pace

/-!
# Intervals

The nucleus measures time in pieces: at each reading of the clock it counts the whole microseconds
since the last one, and what is left of a microsecond is counted with the next piece. The clock is a
word and wraps, so here the readings are counts of ticks without a bound. What has been counted
never runs ahead of the clock. While no gap between two readings takes the clock round, it stays
behind by less than a microsecond, and so the sum does not depend on how an interval is cut into
pieces (`tally_of_cut`).
-/

namespace Nucleus

/-- The microseconds counted at some readings of the clock in turn, and the reading up to which they
are accounted for. -/
def tally (scale since : Word) : List Nat → Nat × Word
  | [] => (0, since)
  | clock :: clocks =>
    let (micros, since) := elapsed (UInt32.ofNat clock) since scale
    let (total, since) := tally scale since clocks
    (micros.toNat + total, since)

/-- The readings of an interval in order. -/
def Ascending (clocks : List Nat) : Prop := clocks.IsChain fun earlier later => earlier ≤ later

/-- Fewer than `gap` ticks pass between a reading and the next. -/
def GapsBelow (gap : Nat) (clocks : List Nat) : Prop :=
  clocks.IsChain fun earlier later => later - earlier < gap

instance (clocks : List Nat) : Decidable (Ascending clocks) :=
  inferInstanceAs (Decidable (List.IsChain _ clocks))

instance (gap : Nat) (clocks : List Nat) : Decidable (GapsBelow gap clocks) :=
  inferInstanceAs (Decidable (List.IsChain _ clocks))

variable {scale : Word} {mark clock start : Nat} {clocks others : List Nat}

/-! ## One piece -/

/-- What is counted at a reading moves the mark up to which the time is accounted for towards the
reading, and not past it. -/
theorem elapsed_mark (scale : Word) (hmark : mark ≤ clock) : ∃ micros < UInt32.size,
    elapsed (UInt32.ofNat clock) (UInt32.ofNat mark) scale =
      (UInt32.ofNat micros, UInt32.ofNat (mark + scale.toNat * micros)) ∧
    mark + scale.toNat * micros ≤ clock ∧
    (clock - mark < UInt32.size → micros = (clock - mark) / scale.toNat) := by
  have hseen : (clock - mark) % UInt32.size ≤ clock - mark := Nat.mod_le _ _
  have hmicros := Nat.mul_div_le ((clock - mark) % UInt32.size) scale.toNat
  refine ⟨(clock - mark) % UInt32.size / scale.toNat, ?_, ?_, by omega, fun hlt => ?_⟩
  · exact Nat.lt_of_le_of_lt (Nat.div_le_self _ _) (Nat.mod_lt _ (by decide))
  · rw [elapsed_ofNat hmark, Nat.mul_comm scale.toNat]
  · rw [Nat.mod_eq_of_lt hlt]

theorem tally_cons {since : Word} {micros : Nat} (hmicros : micros < UInt32.size)
    (h : elapsed (UInt32.ofNat clock) (UInt32.ofNat mark) scale = (UInt32.ofNat micros, since)) :
    tally scale (UInt32.ofNat mark) (clock :: clocks) =
      (micros + (tally scale since clocks).1, (tally scale since clocks).2) := by
  have hword : (UInt32.ofNat micros).toNat = micros := UInt32.toNat_ofNat_of_lt' hmicros
  simp only [tally, h, hword]

/-! ## All pieces -/

/-- The mark moves by what is counted and never gets ahead of the clock. -/
theorem tally_behind (scale : Word) (hmark : mark ≤ clock) (horder : Ascending (clock :: clocks)) :
    (tally scale (UInt32.ofNat mark) clocks).2 =
        UInt32.ofNat (mark + scale.toNat * (tally scale (UInt32.ofNat mark) clocks).1) ∧
      mark + scale.toNat * (tally scale (UInt32.ofNat mark) clocks).1 ≤ clocks.getLastD clock := by
  induction clocks generalizing mark clock with
  | nil => exact ⟨by simp [tally], by simpa [tally] using hmark⟩
  | cons next clocks ih =>
    obtain ⟨hnext, horder⟩ := List.isChain_cons_cons.1 horder
    obtain ⟨micros, hlt, helapsed, hbehind, -⟩ := elapsed_mark scale (hmark.trans hnext)
    obtain ⟨hsince, hlast⟩ := ih hbehind horder
    rw [tally_cons hlt helapsed, List.getLastD_cons, Nat.mul_add, ← Nat.add_assoc]
    exact ⟨hsince, hlast⟩

/-- While no gap takes the clock round, less than a microsecond is left to be counted. -/
theorem tally_close (hscale : 0 < scale.toNat) (hmark : mark ≤ clock)
    (hclose : clock < mark + scale.toNat) (horder : Ascending (clock :: clocks))
    (hgaps : GapsBelow (UInt32.size - scale.toNat) (clock :: clocks)) :
    clocks.getLastD clock <
      mark + scale.toNat * (tally scale (UInt32.ofNat mark) clocks).1 + scale.toNat := by
  induction clocks generalizing mark clock with
  | nil => simpa [tally] using hclose
  | cons next clocks ih =>
    obtain ⟨hnext, horder⟩ := List.isChain_cons_cons.1 horder
    obtain ⟨hgap, hgaps⟩ := List.isChain_cons_cons.1 hgaps
    obtain ⟨micros, hlt, helapsed, hbehind, hexact⟩ :=
      elapsed_mark scale (hmark.trans hnext)
    -- The clock has not gone round since the mark: the gap and what was left before it fit a word.
    have hmicros : micros = (next - mark) / scale.toNat := hexact (by omega)
    have hleft : next < mark + scale.toNat * micros + scale.toNat := by
      have := Nat.lt_mul_div_succ (next - mark) hscale
      rw [hmicros, Nat.mul_add, Nat.mul_one] at *
      omega
    have hlast := ih hbehind hleft horder hgaps
    rw [tally_cons hlt helapsed, List.getLastD_cons, Nat.mul_add, ← Nat.add_assoc]
    exact hlast

/-- While no gap takes the clock round, exactly the whole microseconds have been counted. -/
theorem tally_eq (hscale : 0 < scale.toNat) (horder : Ascending (start :: clocks))
    (hgaps : GapsBelow (UInt32.size - scale.toNat) (start :: clocks)) :
    (tally scale (UInt32.ofNat start) clocks).1 =
      (clocks.getLastD start - start) / scale.toNat := by
  obtain ⟨-, hbehind⟩ := tally_behind scale (Nat.le_refl start) horder
  have hclose := tally_close hscale (Nat.le_refl start) (Nat.lt_add_of_pos_right hscale) horder
    hgaps
  refine (Nat.div_eq_of_lt_le ?_ ?_).symm
  · rw [Nat.mul_comm]
    omega
  · rw [Nat.succ_mul, Nat.mul_comm]
    omega

/-- However an interval is cut into pieces, the mark moves by what is counted, and that is never
more than the whole microseconds of the interval. If no piece takes the clock round it is exactly
these, so any two ways to cut the interval come to the same. -/
theorem tally_of_cut (hscale : 1 ≤ scale) (horder : Ascending (start :: clocks)) :
    (tally scale (UInt32.ofNat start) clocks).2 =
        UInt32.ofNat (start + scale.toNat * (tally scale (UInt32.ofNat start) clocks).1) ∧
      (tally scale (UInt32.ofNat start) clocks).1 ≤
        (clocks.getLastD start - start) / scale.toNat ∧
      (GapsBelow (UInt32.size - scale.toNat) (start :: clocks) →
        (tally scale (UInt32.ofNat start) clocks).1 =
            (clocks.getLastD start - start) / scale.toNat ∧
        ∀ others, Ascending (start :: others) →
          GapsBelow (UInt32.size - scale.toNat) (start :: others) →
          others.getLastD start = clocks.getLastD start →
          tally scale (UInt32.ofNat start) others = tally scale (UInt32.ofNat start) clocks) := by
  have hpos : 0 < scale.toNat := UInt32.le_iff_toNat_le.1 hscale
  obtain ⟨hsince, hbehind⟩ := tally_behind scale (Nat.le_refl start) horder
  refine ⟨hsince, ?_, fun hgaps => ⟨tally_eq hpos horder hgaps, ?_⟩⟩
  · rw [Nat.le_div_iff_mul_le hpos, Nat.mul_comm]
    omega
  · intro others horder' hgaps' hlast
    have htotal : (tally scale (UInt32.ofNat start) others).1 =
        (tally scale (UInt32.ofNat start) clocks).1 := by
      rw [tally_eq hpos horder' hgaps', tally_eq hpos horder hgaps, hlast]
    refine Prod.ext htotal ?_
    rw [(tally_behind scale (Nat.le_refl start) horder').1, hsince, htotal]

/-- Ten ticks, four to a microsecond, are two microseconds in one piece and in pieces of two, three,
no and five ticks, the last across a wrap of the clock. A gap that takes the clock round counts for
nothing. -/
theorem tally_of_cut_wrapped :
    (1 : Word) ≤ 4 ∧ Ascending [4294967289, 4294967299] ∧
      Ascending [4294967289, 4294967291, 4294967294, 4294967294, 4294967299] ∧
      tally 4 4294967289 [4294967299] = (2, 1) ∧
      tally 4 4294967289 [4294967291, 4294967294, 4294967294, 4294967299] = (2, 1) ∧
      (tally 4 0 [4294967296]).1 = 0 ∧ (tally 4 0 [4294967296]).1 ≤ 4294967296 / 4 := by
  have hscale : (1 : Word) ≤ 4 := by decide
  have hwhole : Ascending [4294967289, 4294967299] := by decide
  have hcut : Ascending [4294967289, 4294967291, 4294967294, 4294967294, 4294967299] := by decide
  have hgaps : GapsBelow (UInt32.size - (4 : Word).toNat) [4294967289, 4294967299] := by decide
  have hgaps' : GapsBelow (UInt32.size - (4 : Word).toNat)
      [4294967289, 4294967291, 4294967294, 4294967294, 4294967299] := by decide
  have hround : Ascending [0, 4294967296] := by decide
  have htally : tally 4 4294967289 [4294967299] = (2, 1) := by decide +kernel
  obtain ⟨-, -, hexact⟩ := tally_of_cut hscale hwhole
  obtain ⟨-, hbound, -⟩ := tally_of_cut hscale hround
  refine ⟨hscale, hwhole, hcut, htally, ?_, by decide +kernel, hbound⟩
  exact ((hexact hgaps).2 _ hcut hgaps' rfl).trans htally

end Nucleus
