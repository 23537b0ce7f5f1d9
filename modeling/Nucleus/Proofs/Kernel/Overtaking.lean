import Nucleus.Proofs.Kernel.Contexts
import Nucleus.Proofs.Kernel.History
import Nucleus.Proofs.Kernel.Roster

/-!
# Overtaking

The log of a run tells when processes block, become ready and are dispatched. Who blocked first on a
semaphore is woken first, and who became ready first is dispatched first, unless they leave by
themselves or are terminated (`inOrder_of_boot`).
-/

namespace Nucleus.Kernel

open Outcome

variable {k k' k₀ : Kernel} {call : Call} {log : List Notice} {ms : List Move} {machine : Machine}
  {config : Config}

/-- What is recorded of a call by its notices. -/
def logged (call : Call) (k _k' : Kernel) (log : List Notice) : List Notice :=
  log ++ (call.run k).log

/-! ## Runs -/

theorem roster_new (machine : Machine) (config : Config) : Roster [] (.new machine config) where
  line := fun place => by
    rw [lineAt, standing_new]
    rfl
  orderly := orderly_nil

/-- The roster after the start-up. -/
theorem roster_of_boot (hboot : (boot (.new machine config)).state? = some k₀) :
    Roster (moves (boot (.new machine config)).log) k₀ := by
  have hk := sound_new machine config
  exact (roster_new machine config).course hk.toAccounted ((boot_along hk).course hboot)

theorem Roster.calls (hr : Roster (moves log) k) (hk : k.Sound)
    (hs : (call.run k).state? = some k') : Roster (moves (logged call k k' log)) k' := by
  obtain ⟨creates, hended⟩ := hk.call_ended call
  rw [logged, moves_append]
  exact hr.course hk.toAccounted (hended.course hs)

/-- The queues are all along as the log says. -/
theorem roster_of_history (hboot : (boot (.new machine config)).state? = some k₀)
    (hrun : History logged (boot (.new machine config)).log k₀ log k) : Roster (moves log) k := by
  induction hrun with
  | start => exact roster_of_boot hboot
  | call hrun call h ih => exact ih.calls (hrun.sound (sound_of_boot hboot)) h
  | machine hrun machine ih => exact ⟨ih.line, ih.orderly⟩

/-! ## The order of service -/

/-- A notice reports that a process moves. -/
def Moves (pid : Pid) (notice : Notice) : Prop := ∃ m ∈ notice.move?, m.pid = pid

/-- The order in which processes are woken and dispatched. -/
structure InOrder (log : List Notice) (k : Kernel) : Prop where
  /-- Every queue holds who has come to it and has not left it, in the order of arrival. -/
  line : ∀ place, k.lineAt place = standingAfter (moves log) place
  /-- Of two processes that are blocked on a semaphore, the one that blocked later is not made
  ready. -/
  woken : ∀ id p q a b c rest, p ≠ q →
    log = a ++ .blocked p id :: (b ++ .blocked q id :: (c ++ rest)) →
    (∀ n ∈ b ++ c, ¬ Moves p n) → (∀ n ∈ c, ¬ Moves q n) →
    ∀ out, out.move? = some ⟨q, some .ready⟩ → rest.head? ≠ some out
  /-- Of two ready processes, the one that became ready later is not dispatched. -/
  dispatched : ∀ m n p q a b c rest, p ≠ q → m.move? = some ⟨p, some .ready⟩ →
    n.move? = some ⟨q, some .ready⟩ → log = a ++ m :: (b ++ n :: (c ++ rest)) →
    (∀ n ∈ b ++ c, ¬ Moves p n) → (∀ n ∈ c, ¬ Moves q n) → rest.head? ≠ some (.dispatching q)
  /-- Those who stay at a place keep their order, whatever happens to the others. -/
  kept : ∀ place earlier later (stay : List Pid), log = earlier ++ later →
    stay.Sublist (standingAfter (moves earlier) place) → (∀ n ∈ later, ∀ p ∈ stay, ¬ Moves p n) →
    stay.Sublist (k.lineAt place)

theorem pid_ne_of_not_moves {pid : Pid} {log : List Notice} (h : ∀ n ∈ log, ¬ Moves pid n) :
    ∀ m ∈ moves log, m.pid ≠ pid := by
  intro m hm heq
  obtain ⟨n, hn, hmove⟩ := List.mem_filterMap.1 hm
  exact h n hn ⟨m, hmove, heq⟩

/-- Nobody leaves a queue before one who came earlier and is still there. -/
theorem not_called_of_orderly {a b c rest : List Notice} {m n out : Notice} {p q : Pid}
    {dest : Option Place} (place : Place)
    (h : Orderly (moves (a ++ m :: (b ++ n :: (c ++ rest))))) (hplace : place ≠ .processor)
    (hne : p ≠ q) (hm : m.move? = some ⟨p, some place⟩) (hn : n.move? = some ⟨q, some place⟩)
    (hp : ∀ n ∈ b ++ c, ¬ Moves p n) (hq : ∀ n ∈ c, ¬ Moves q n)
    (hout : out.move? = some ⟨q, dest⟩) (hdest : dest ≠ none) : rest.head? ≠ some out := by
  intro hhead
  obtain ⟨rest, rfl⟩ := List.head?_eq_some_iff.1 hhead
  have hmoves : moves (a ++ m :: (b ++ n :: (c ++ out :: rest))) = moves a ++ ⟨p, some place⟩ ::
      (moves b ++ ⟨q, some place⟩ :: (moves c ++ ⟨q, dest⟩ :: moves rest)) := by
    simp only [moves, List.filterMap_append, List.filterMap_cons, hm, hn, hout]
  rw [hmoves] at h
  refine h.not_overtaken hplace hdest hne ?_ (pid_ne_of_not_moves hq)
  rw [← moves_append]
  exact pid_ne_of_not_moves hp

/-- In every run from the start-up processes are woken and dispatched in the order in which they
came. -/
theorem inOrder_of_boot (hboot : (boot (.new machine config)).state? = some k₀) :
    (∀ k, Relation.ReflTransGen Step k₀ k →
      ∃ log, History logged (boot (.new machine config)).log k₀ log k) ∧
    ∀ log k, History logged (boot (.new machine config)).log k₀ log k → InOrder log k := by
  refine ⟨fun k => exists_history_of_steps logged _, fun log k hrun => ?_⟩
  have hr := roster_of_history hboot hrun
  have horderly := hr.orderly
  refine ⟨hr.line, ?_, ?_, ?_⟩
  · rintro id p q a b c rest hne rfl hp hq out hout
    exact not_called_of_orderly (.waitList id) horderly Place.noConfusion hne rfl rfl hp hq
      hout (Option.some_ne_none _)
  · rintro m n p q a b c rest hne hm hn rfl hp hq
    exact not_called_of_orderly .ready horderly Place.noConfusion hne hm hn hp hq rfl
      (Option.some_ne_none _)
  · rintro place earlier later stay rfl hsub hstay
    rw [hr.line, moves_append, standingAfter_append]
    refine sublist_foldl_apply (moves later) hsub fun m hm hmem => ?_
    exact pid_ne_of_not_moves (fun n hn => hstay n hn m.pid hmem) m hm rfl

/-- The root process and its child ask for the same unit and the second child gives one: it goes to
the root process. -/
theorem inOrder_of_boot_signalled : ∃ k₀ log k,
    (boot (.new Machine.new .usual)).state? = some k₀ ∧
    History logged (boot (.new Machine.new .usual)).log k₀ log k ∧
    moves log = [⟨1, some .ready⟩, ⟨1, some .processor⟩, ⟨2, some .ready⟩, ⟨3, some .ready⟩,
      ⟨1, some (.waitList (.user 0x20000100))⟩, ⟨2, some .processor⟩,
      ⟨2, some (.waitList (.user 0x20000100))⟩, ⟨3, some .processor⟩, ⟨1, some .ready⟩] ∧
    InOrder log k := by
  obtain ⟨k₀, log, k, hboot, hrun, htest⟩ := exists_history
    (p := fun log _ => moves log = [⟨1, some .ready⟩, ⟨1, some .processor⟩, ⟨2, some .ready⟩,
      ⟨3, some .ready⟩, ⟨1, some (.waitList (.user 0x20000100))⟩, ⟨2, some .processor⟩,
      ⟨2, some (.waitList (.user 0x20000100))⟩, ⟨3, some .processor⟩, ⟨1, some .ready⟩])
    logged (boot (.new Machine.new .usual)).log
    [.schedule, .deliver (.request 1 0x20001000 0 0 false),
      .deliver (.request 1 0x20001000 0 0 false), .deliver (.request 4 0x20000100 0 0 false),
      .deliver (.request 4 0x20000100 0 0 false), .deliver (.request 3 0x20000100 0 0 false)]
    (by decide +kernel)
  exact ⟨k₀, log, k, hboot, hrun, of_decide_eq_true htest, (inOrder_of_boot hboot).2 log k hrun⟩

end Nucleus.Kernel
