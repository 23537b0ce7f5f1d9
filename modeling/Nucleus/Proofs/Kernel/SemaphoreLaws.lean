import Nucleus.Proofs.Kernel.Ledger

/-!
# Laws of semaphores

From the start-up on, the value of a semaphore in memory says how many processes wait there, and the
ledger accounts for it (`userLaw_of_run`). A process that is terminated while it waits for a device
gives nothing back, so there the value only bounds the number of waiters, and the ledger bounds the
difference (`deviceLaw_of_boot`).
-/

namespace Nucleus.Kernel

open Outcome

variable {k k' k₀ : Kernel} {h : Slot} {id : SemaphoreId} {call : Call} {l l' : Ledger} {a : Word}
  {initial : Int} {d : Device} {machine : Machine} {config : Config}

/-! ## Start-up -/

/-- After the start-up nobody waits, and the values of all semaphores are those of the new
nucleus. -/
theorem untouched_of_boot (hid : id.IsOrdinary)
    (hboot : (boot (.new machine config)).state? = some k₀) :
    k₀.value id = (Kernel.new machine config).value id ∧ k₀.waiterCount id = 0 := by
  have huntouched := (sound_new machine config).untouched_of_boot hid hboot
  exact ⟨huntouched.value, congrArg List.length huntouched.waiting⟩

/-! ## Semaphores in memory -/

/-- How the ledger of a semaphore in memory accounts for its value and for its waiters. -/
structure UserBooks (a : Word) (initial : Int) (l : Ledger) (k : Kernel) : Prop where
  waiters : (k.waiterCount (.user a) : Int) = max 0 (-(k.value (.user a)).toInt)
  balance : (k.value (.user a)).toInt + l.wasted = initial + l.given - l.taken + l.lost

theorem UserBooks.enter (hb : UserBooks a initial l k) (hk : k.Accounted)
    (hentry : Entry (.user a) k k' l l') : UserBooks a initial l' k' := by
  obtain ⟨hwaiters, hbalance⟩ := hb
  have hmost : k.waiterCount (.user a) ≤ 20 := hk.length_waiting_le (.user a)
  have hhigh := (k.value (.user a)).toInt_lt
  cases hentry with
  | give hid hvalue hwaiters' =>
    -- A unit is wasted if the value is at its greatest; nobody waits then.
    rw [Count.greatest] at hvalue
    constructor
    · omega
    · dsimp only
      rw [Count.greatest]
      split <;> omega
  | take hpos hvalue hwaiters' =>
    constructor
    · omega
    · dsimp only
      omega
  | block hpos hvalue hwaiters' =>
    rw [Count.least] at hvalue
    constructor
    · omega
    · dsimp only
      omega
  | tick hid => cases hid
  | lose n hvalue hwaiters' =>
    -- With each terminated waiter a unit comes back, so the value stays at most zero.
    rw [Count.greatest] at hvalue
    replace hvalue : _ = min 2147483647 ((k.value (.user a)).toInt + n) := hvalue
    constructor
    · omega
    · dsimp only
      omega

/-- The law of a semaphore in memory: its value is not negative exactly if nobody waits, and else
says how many wait; the units given and taken and those of terminated waiters account for it. A
process that asks for a unit blocks exactly if the value is not positive, and giving a unit releases
exactly one waiter if there is any. -/
structure UserLaw (a : Word) (initial : Int) (l : Ledger) (k : Kernel) : Prop
    extends UserBooks a initial l k where
  wait : ∀ h a2 a3, k.Spares (.user a) → k.current = some h →
    ∃ k', ((Call.deliver (.request 4 a a2 a3 false)).run k).state? = some k' ∧
      (k'.current = some h ↔ 0 < (k.value (.user a)).toInt) ∧
      (¬ 0 < (k.value (.user a)).toInt →
        k'.waits.waiting (.user a) = k.waits.waiting (.user a) ++ [h])
  signal : ∀ h a2 a3 g rest, k.Spares (.user a) → k.current = some h →
    k.waits.waiting (.user a) = g :: rest →
    ∃ k', ((Call.deliver (.request 3 a a2 a3 false)).run k).state? = some k' ∧
      k'.current = some h ∧ k'.ready.items = k.ready.items ++ [g] ∧
      k'.waits.waiting (.user a) = rest

/-- Every run from the start-up keeps the law of a semaphore whose word it leaves alone. -/
theorem userLaw_of_run (ha : Machine.IsOrdinary a) (hword : 0 ≤ (machine.read a).toInt32.toInt)
    (hboot : (boot (.new machine config)).state? = some k₀) (hrun : Run (.user a) k₀ l k) :
    UserLaw a (machine.read a).toInt32.toInt l k := by
  have hk₀ := sound_of_boot hboot
  have hk := hrun.sound hk₀
  have hid : (SemaphoreId.user a).IsOrdinary := ha
  obtain ⟨hvalue, hwaiters⟩ := untouched_of_boot hid hboot
  have hbooks : UserBooks a (machine.read a).toInt32.toInt l k := by
    refine hrun.induction hk₀ hid ?_ (fun _ _ _ _ hk _ he hb => hb.enter hk.toAccounted he) ?_
    · have hinitial : (k₀.value (.user a)).toInt = (machine.read a).toInt32.toInt :=
        congrArg Int32.toInt hvalue
      constructor
      · omega
      · simp [Ledger.empty, hinitial]
    · intro l k k' hview hb
      have hsame : k'.value (.user a) = k.value (.user a) := congrArg View.value hview
      have hcount : k'.waiterCount (.user a) = k.waiterCount (.user a) :=
        congrArg (·.waiting.length) hview
      exact ⟨by rw [hcount, hsame, hb.waiters], by rw [hsame, hb.balance]⟩
  exact
    { hbooks with
      wait := fun h a2 a3 hspares hh =>
        hk.exists_take hid hspares hh (Call.use?_request hh 4 a a2 a3)
      signal := fun h a2 a3 g rest hspares hh hq =>
        hk.exists_give hid hspares hh (Call.use?_request hh 3 a a2 a3) hq }

/-- Of two processes that wait for the same unit one is terminated. -/
theorem userLaw_of_run_terminated : ∃ k₀ l k, (boot (.new Machine.new .usual)).state? = some k₀ ∧
    Run (.user 0x20000500) k₀ l k ∧ l = ⟨0, 0, 2, 1⟩ ∧ k.waiterCount (.user 0x20000500) = 1 ∧
    UserLaw 0x20000500 (Machine.new.read 0x20000500).toInt32.toInt l k := by
  obtain ⟨k₀, l, k, hboot, hrun, htest⟩ := exists_run
    (p := fun l k => l = ⟨0, 0, 2, 1⟩ ∧ k.waiterCount (.user 0x20000500) = 1)
    (.user 0x20000500) [.schedule, .deliver (.request 1 0x20001000 0 0 false),
      .deliver (.request 1 0x20001000 0 0 false), .deliver .timer,
      .deliver (.request 4 0x20000500 0 0 false), .deliver (.request 4 0x20000500 0 0 false),
      .deliver (.request 2 2 0 0 false)] (by decide +kernel)
  obtain ⟨hledger, hwaiters⟩ := of_decide_eq_true htest
  have ha : Machine.IsOrdinary 0x20000500 := by decide
  have hlaw := userLaw_of_run ha (by decide +kernel) hboot hrun
  exact ⟨k₀, l, k, hboot, hrun, hledger, hwaiters, hlaw⟩

/-! ## Semaphores of devices -/

/-- How the ledger of the semaphore of a device accounts for its value, and how far the number of
waiters may be from it. -/
structure DeviceBooks (d : Device) (l : Ledger) (k : Kernel) : Prop where
  balance : (k.value (.device d)).toInt = l.given - l.taken
  waiters_le : (k.waiterCount (.device d) : Int) ≤ max 0 (-(k.value (.device d)).toInt)
  slack : max 0 (-(k.value (.device d)).toInt) - k.waiterCount (.device d) ≤ l.lost

theorem DeviceBooks.enter (hb : DeviceBooks d l k) (hentry : Entry (.device d) k k' l l')
    (hcount : l'.given + l'.taken < 2147483648) : DeviceBooks d l' k' := by
  obtain ⟨hbalance, hwaiters, hslack⟩ := hb
  -- The bound on the uses keeps the value off its least and its greatest.
  cases hentry with
  | give hid hvalue hwaiters' =>
    rw [Count.greatest] at hvalue
    dsimp only at hcount
    constructor
    · dsimp only
      omega
    · omega
    · dsimp only
      omega
  | take hpos hvalue hwaiters' =>
    constructor
    · dsimp only
      omega
    · omega
    · dsimp only
      omega
  | block hpos hvalue hwaiters' =>
    rw [Count.least] at hvalue
    dsimp only at hcount
    constructor
    · dsimp only
      omega
    · omega
    · dsimp only
      omega
  | tick hid => cases hid
  | lose n hvalue hwaiters' =>
    -- The value stays, and each terminated waiter adds one to the slack.
    rw [Count.greatest] at hvalue
    replace hvalue : _ = min 2147483647 ((k.value (.device d)).toInt + 0) := hvalue
    dsimp only at hcount
    constructor
    · dsimp only
      omega
    · omega
    · dsimp only
      omega

/-- The law of the semaphore of a device: its value is the number of completions less the number of
requests, which no termination changes. Nobody waits if it is not negative; else as many wait as it
says, less at most those that were terminated while they waited. -/
structure DeviceLaw (d : Device) (l : Ledger) (k : Kernel) : Prop extends DeviceBooks d l k where
  unused : ∀ (call : Call) (k' : Kernel), (∀ u, call.use? k ≠ some (.device d, u)) →
    (call.run k).state? = some k' → k'.value (.device d) = k.value (.device d)
  nobody : 0 ≤ (k.value (.device d)).toInt → k.waiterCount (.device d) = 0
  agrees : l.lost = 0 → (k.waiterCount (.device d) : Int) = max 0 (-(k.value (.device d)).toInt)

theorem Sound.value_of_unused (hk : k.Sound) (d : Device)
    (huse : ∀ u, call.use? k ≠ some (.device d, u)) (h : (call.run k).state? = some k') :
    k'.value (.device d) = k.value (.device d) := by
  have hid := SemaphoreId.isOrdinary_device d
  have hspares : k.Spares (.device d) := k.spares_of_soft nofun
  obtain ⟨_, -, -, hvalue⟩ := ((hk.call_performs hid hspares call).effect h).unused huse
  replace hvalue : (k'.value (.device d)).toInt =
    min Count.greatest ((k.value (.device d)).toInt + 0) := hvalue
  have hhigh := (k.value (.device d)).toInt_lt
  apply Int32.toInt_inj.1
  rw [hvalue, Count.greatest]
  omega

/-- Every run from the start-up has a ledger of each device and keeps the law of its semaphore while
it has made fewer than 2147483648 requests and completions. -/
theorem deviceLaw_of_boot (hboot : (boot (.new machine config)).state? = some k₀) (d : Device) :
    (∀ k, Relation.ReflTransGen Step k₀ k → ∃ l, Run (.device d) k₀ l k) ∧
    ∀ l k, Run (.device d) k₀ l k → l.given + l.taken < 2147483648 → DeviceLaw d l k := by
  have hk₀ := sound_of_boot hboot
  have hid := SemaphoreId.isOrdinary_device d
  obtain ⟨hvalue, hwaiters⟩ := untouched_of_boot hid hboot
  refine ⟨fun k => exists_run_of_steps nofun, fun l k hrun hcount => ?_⟩
  have hk := hrun.sound hk₀
  have hbooks : l.given + l.taken < 2147483648 → DeviceBooks d l k := by
    refine hrun.induction (motive := fun l k => l.given + l.taken < 2147483648 → DeviceBooks d l k)
      hk₀ hid ?_ ?_ ?_
    · intro _
      have hinitial : (k₀.value (.device d)).toInt = 0 := by
        rw [hvalue]
        exact congrArg Int32.toInt (Table.get_fill 0 d.place)
      constructor
      · exact hinitial
      · omega
      · omega
    · intro l l' k k' _ _ hentry ih hcount
      exact (ih (Nat.lt_of_le_of_lt hentry.uses_le hcount)).enter hentry hcount
    · intro l k k' hview ih hcount
      have hsame : k'.value (.device d) = k.value (.device d) := congrArg View.value hview
      have hcount' : k'.waiterCount (.device d) = k.waiterCount (.device d) :=
        congrArg (·.waiting.length) hview
      obtain ⟨hbalance, hle, hslack⟩ := ih hcount
      exact ⟨by rw [hsame, hbalance], by rwa [hsame, hcount'], by rwa [hsame, hcount']⟩
  obtain ⟨hbalance, hle, hslack⟩ := hbooks hcount
  refine ⟨hbooks hcount, fun call k' huse h => hk.value_of_unused d huse h, ?_, ?_⟩
  · omega
  · omega

/-- The root process waits for a disk and its child terminates it; the semaphore still counts it. -/
theorem deviceLaw_of_boot_terminated : ∃ k₀ l k,
    (boot (.new Machine.new .usual)).state? = some k₀ ∧ Run (.device ⟨.disk, 0⟩) k₀ l k ∧
    l = ⟨0, 0, 1, 1⟩ ∧ (k.value (.device ⟨.disk, 0⟩)).toInt = -1 ∧ DeviceLaw ⟨.disk, 0⟩ l k := by
  obtain ⟨k₀, l, k, hboot, hrun, htest⟩ := exists_run
    (p := fun l k => l = ⟨0, 0, 1, 1⟩ ∧ (k.value (.device ⟨.disk, 0⟩)).toInt = -1)
    (.device ⟨.disk, 0⟩) [.schedule, .deliver (.request 1 0x20001000 0 0 false),
      .deliver (.request 8 3 0 0 false), .deliver (.request 2 1 0 0 false)] (by decide +kernel)
  obtain ⟨hledger, hvalue⟩ := of_decide_eq_true htest
  have hcount : l.given + l.taken < 2147483648 := by
    rw [hledger]
    decide
  have hlaw := (deviceLaw_of_boot hboot ⟨.disk, 0⟩).2 l k hrun hcount
  exact ⟨k₀, l, k, hboot, hrun, hledger, hvalue, hlaw⟩

end Nucleus.Kernel
