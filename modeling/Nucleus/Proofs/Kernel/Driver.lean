import Nucleus.Kernel.Run
import Nucleus.Proofs.Kernel.Oblivious

/-!
# Driving the nucleus by injection

The loop of `Kernel.run` takes the state that is to run from the decision, and the vector from what
the machine says, or it takes for granted that a wait ends with an interrupt. The nucleus can also
be driven from outside: it is decided once what runs next, and then, event by event of the script,
the time before it passes and it is delivered (`Kernel.injected`). As long as only interrupts come
while nobody runs, both do the same round by round, and what the machine has been told to do is what
was decided (`Kernel.Driven`).
-/

namespace Nucleus

/-- A trap fires the vector of its event. -/
theorem Machine.vector_of_trap {m : Machine} {event : Event} {running : Option ProcessorState}
    {trapped : TrapVector × Machine} (h : m.trap event running = .ok trapped) :
    trapped.1 = event.vector := by
  by_cases hrange : event.OutOfRange
  · obtain ⟨cause, herror⟩ := trap_of_outOfRange m running hrange
    cases herror.symm.trans h
  · obtain ⟨result, hok, hfired⟩ := trap_of_inRange m running hrange
    obtain rfl := Except.ok.inj (hok.symm.trans h)
    exact hfired.vector

namespace Kernel

open Outcome

variable {k k' k₀ : Kernel} {t : Tape} {n : Nat} {log : List Notice} {cause : Fault}

/-! ## Injections -/

/-- How far a sequence of injections has come. -/
structure Progress where
  /-- The events to come, each with the microseconds that pass before it. -/
  script : List (Word × Event)
  /-- The results that an event has followed, oldest first. -/
  past : List (Except Fault Decision)
  /-- The latest result. -/
  last : Except Fault Decision

namespace Progress

/-- The event that is injected next: the first of the script, or `otherwise` when that is
exhausted. -/
def event (p : Progress) (otherwise : Event) : Event := (p.script.head?.map Prod.snd).getD otherwise

/-- The time before the next event of the script has passed. -/
def arrive (p : Progress) (k : Kernel) : Kernel :=
  match p.script with
  | [] => k
  | (delay, _) :: _ => { k with machine := k.machine.advance delay }

/-- The progress after an injection with a result. -/
def enter (p : Progress) (result : Except Fault Decision) : Progress :=
  ⟨p.script.tail, p.past ++ [p.last], result⟩

/-- Let the time before the next event pass and deliver the event. -/
def inject (p : Progress) (otherwise : Event) : Action Kernel Progress := do
  Action.change p.arrive
  return p.enter (← (deliver (p.event otherwise)).recover)

/-- One injection, unless the nucleus has halted or stopped at a fault. When the script is exhausted
a running process exits, and a waiting processor has its timer run out. -/
def next (p : Progress) : Action Kernel Progress :=
  match p.last with
  | .ok (.resume _ _) => p.inject .exit
  | .ok .idle => p.inject .timer
  | .ok .halt | .error _ => pure p

/-- At most `n` injections. -/
def go : Nat → Progress → Action Kernel Progress
  | 0, p => pure p
  | n + 1, p => do go n (← p.next)

end Progress

/-- Decide what runs next, and then make at most `n` injections from a script. -/
def injected (script : List (Word × Event)) (n : Nat) : Action Kernel Progress := do
  Progress.go n ⟨script, [], ← schedule.recover⟩

/-- The state with which a process is resumed. -/
def resumed? : Except Fault Decision → Option ProcessorState
  | .ok (.resume _ state) => some state
  | .ok .idle | .ok .halt | .error _ => none

/-- Whether the processor is to wait. -/
def isIdle : Except Fault Decision → Bool
  | .ok .idle => true
  | .ok (.resume _ _) | .ok .halt | .error _ => false

/-- What stands on a tape after the past results have been carried out. -/
def Progress.record (t : Tape) (p : Progress) : Tape :=
  { t with
    script := p.script
    resumed := t.resumed ++ p.past.filterMap resumed?
    waitCount := t.waitCount + p.past.countP isIdle }

/-- How `n` rounds of the loop end, given how as many injections do: with the same kernel but for
the tape. Unless an injection was made in every round, the machine has been stopped. -/
inductive Driven (t : Tape) (n : Nat) : Outcome Kernel Progress → Outcome Kernel Bool → Prop
  /-- The nucleus has not stopped. -/
  | going {p : Progress} {k : Kernel} {log : List Notice} (h : p.past.length = n) :
    Driven t n (.ok p k log) (.ok false (k.withTape (p.record t)) log)
  /-- It has halted. -/
  | halted {p : Progress} {k : Kernel} {log : List Notice} (h : p.past.length < n)
    (hlast : p.last = .ok .halt) :
    Driven t n (.ok p k log) (.ok true (k.withTape { p.record t with halted := true })
      (log ++ [.boot (.stage .info "All processes terminated, halting")]))
  /-- It has stopped at a fault. -/
  | crashed {p : Progress} {k : Kernel} {log : List Notice} {cause : Fault} (h : p.past.length < n)
    (hlast : p.last = .error cause) :
    Driven t n (.ok p k log) (.fault cause (k.withTape { p.record t with crashed := true })
      (log ++ [.boot (.stage .fail ("Kernel panic: " ++ cause.message))]))
  /-- A check has been broken. -/
  | abort (cause : Abort) : Driven t n (.abort cause) (.abort cause)

/-- Only interrupts come while the processor waits. -/
def InterruptsWait (script : List (Word × Event)) (k : Kernel) : Prop :=
  ∀ n p k' log, injected script n k = .ok p k' log → p.last = .ok .idle →
    ∀ next ∈ p.script.head?, next.2.vector = .interrupt

/-! ## What a result says -/

/-- What a result says of the processor. -/
def Shows : Except Fault Decision → Kernel → Prop
  | .ok (.resume _ state), k => k.currentDescriptor.map (·.state) = some state
  | .ok .idle, k => k.currentDescriptor.map (·.state) = none
  | .ok .halt, _ | .error _, _ => True

theorem Decided.shows {decision : Decision} {ms : List Move} (hd : k.Decided decision ms k') :
    Shows (.ok decision) k' := by
  cases hd with
  | resumed hh hc hh' =>
    simp only [Shows, currentDescriptor, hh', Option.map_some]
    rfl
  | @dispatched h k₁ _ _ hd hk hms =>
    have hcurrent : k'.current = some h := by
      rw [hk.current]
      cases hd
      rfl
    simp only [Shows, currentDescriptor, hcurrent, Option.map_some]
    rfl
  | waited hcurrent hk hd =>
    have hnobody : k'.current = none := hk.current.trans hcurrent
    rcases hd with rfl | rfl
    · simp only [Shows, currentDescriptor, hnobody, Option.map_none]
    · trivial

/-- A call leaves the processor as its result says. -/
theorem Sound.call_shows (hk : k.Sound) (call : Call) :
    (call.run.recover k).Ends (fun result k' => k'.Sound ∧ Shows result k') (fun _ _ => False)
      fun _ => True := by
  obtain ⟨creates, hended⟩ := hk.call_ended call
  rw [Action.ends_recover]
  cases hrun : call.run k with
  | ok decision s log =>
    rw [hrun] at hended
    obtain ⟨k₁, _, _, -, -, hd, -⟩ := hended
    exact ⟨hk.step (.call call (congrArg state? hrun)), hd.shows⟩
  | fault cause s log => exact ⟨hk.step (.call call (congrArg state? hrun)), trivial⟩
  | abort cause => trivial

/-! ## One round -/

namespace Progress

variable {p q : Progress}

theorem currentDescriptor_arrive (p : Progress) (k : Kernel) :
    (p.arrive k).currentDescriptor = k.currentDescriptor := by
  unfold arrive
  split <;> rfl

theorem enter_script (p : Progress) (result : Except Fault Decision) :
    (p.enter result).script = p.script.tail := rfl

/-- What the machine does when it is resumed or waits: it takes the event that is injected, after
the same time. -/
theorem takeEvent_withTape (p : Progress) (k : Kernel) (u : Tape) (hu : u.script = p.script)
    (running : Option ProcessorState) (otherwise : Event) :
    (match (k.machine.withTape u).takeEvent with
      | some (event, m) => m.trap event running
      | none => (k.machine.withTape u).trap otherwise running) =
    ((p.arrive k).machine.trap (p.event otherwise) running).map
      (Machine.retape { u with script := p.script.tail }) := by
  rw [← Machine.trap_withTape]
  obtain ⟨script, past, last⟩ := p
  obtain rfl : u.script = script := hu
  unfold Machine.takeEvent
  dsimp only [Machine.withTape]
  cases hscript : u.script with
  | nil =>
    simp only [event, arrive, List.head?_nil, Option.map_none, Option.getD_none, List.tail_nil]
  | cons next rest =>
    exact congrArg (Machine.trap · _ _)
      (Machine.blind_advance next.1 k.machine { u with script := rest })

theorem setMachine_arrive (p : Progress) (k : Kernel) (machine : Machine) :
    { p.arrive k with machine } = { k with machine } := by
  unfold arrive
  split <;> rfl

/-- The injection and the round end with the same result, and with the same kernel but for the
tape. -/
def Meets (p : Progress) (v : Tape) (q : Progress) (s : Kernel)
    (next : Option (Except Fault Decision)) (s' : Kernel) : Prop :=
  next = some q.last ∧ s' = s.withTape v ∧ s.Sound ∧ Shows q.last s ∧ q = p.enter q.last

/-- The result of a call does not depend on the tape, and it says what the call has left. -/
theorem recover_agrees (hk : k.Sound) (call : Call) (v : Tape) :
    Agree (fun result s result' s' => (result' = result ∧ s' = s.withTape v) ∧ s.Sound ∧
        Shows result s)
      (fun _ _ => False) (call.run.recover k) (call.run.recover (k.withTape v)) := by
  refine Agree.and_ends (Action.agree_recover ?_) (hk.call_shows call)
  exact ((Call.run_withTape call).agree v k).mono (fun _ _ _ _ h => ⟨h.1 ▸ rfl, h.2⟩)
    fun _ _ h _ => ⟨rfl, h⟩

/-- A machine that traps as at an injection lets the nucleus do what the injection does. -/
theorem inject_agrees (hk : k.Sound) (p : Progress) (otherwise : Event) (u v : Tape)
    (run : Machine → Except Abort (TrapVector × Machine))
    (handle : TrapVector → Action Kernel (Except Fault Decision))
    (hrun : run (k.machine.withTape u) = ((p.arrive k).machine.trap (p.event otherwise)
      (k.currentDescriptor.map (·.state))).map (Machine.retape v))
    (hhandle : handle (p.event otherwise).vector = (dispatch (p.event otherwise).vector).recover) :
    Agree (p.Meets v) (fun _ _ => False) (p.inject otherwise k)
      ((untilTrap run >>= fun vector => handle vector >>= fun result => pure (some result))
        (k.withTape u)) := by
  have hfirst : Agree (fun result s result' s' => (result' = result ∧ s' = s.withTape v) ∧
        s.Sound ∧ Shows result s)
      (fun _ _ => False) ((deliver (p.event otherwise)).recover (p.arrive k))
      ((untilTrap run >>= handle) (k.withTape u)) := by
    have hdeliver : deliver (p.event otherwise) (p.arrive k) =
        (untilTrap (·.trap (p.event otherwise) (k.currentDescriptor.map (·.state))) >>= dispatch)
          (p.arrive k) := by
      unfold deliver
      rw [Action.look_bind_apply, currentDescriptor_arrive]
    unfold Action.recover
    rw [hdeliver, untilTrap_bind_apply, untilTrap_bind_apply,
      show run (k.withTape u).machine = _ from hrun]
    cases htrap : (p.arrive k).machine.trap (p.event otherwise)
        (k.currentDescriptor.map (·.state)) with
    | error cause => exact .abort cause
    | ok trapped =>
      obtain ⟨vector, machine⟩ := trapped
      obtain rfl : vector = (p.event otherwise).vector := Machine.vector_of_trap htrap
      have hk₁ : Sound { k with machine } := hk.congr (.setMachine k machine)
      dsimp only [Except.map, Machine.retape]
      rw [setMachine_arrive, hhandle]
      exact recover_agrees hk₁ (.dispatch _) v
  unfold inject
  rw [Action.change_bind_apply, ← bind_assoc]
  refine Action.agree_bind hfirst ?_
  rintro result s result' s' ⟨⟨rfl, rfl⟩, hs, hshows⟩
  exact Action.agree_pure ⟨rfl, rfl, hs, hshows, rfl⟩

/-- What a round puts on the tape. -/
theorem record_enter (p : Progress) (t : Tape) (result : Except Fault Decision) :
    (p.enter result).record t = { p.record t with
      script := p.script.tail
      resumed := (p.record t).resumed ++ (resumed? p.last).toList
      waitCount := (p.record t).waitCount + (isIdle p.last).toNat } := by
  have hresumed : [p.last].filterMap resumed? = (resumed? p.last).toList := by
    cases h : resumed? p.last <;> simp [h]
  have hwaits : [p.last].countP isIdle = (isIdle p.last).toNat := by
    cases h : isIdle p.last <;> simp [h]
  simp only [record, enter, List.filterMap_append, List.countP_append, hresumed, hwaits,
    List.append_assoc, Nat.add_assoc]

theorem meets_record {v : Tape} (hv : ∀ result, (p.enter result).record t = v) {q : Progress}
    {s s' : Kernel} {next : Option (Except Fault Decision)} (h : p.Meets v q s next s') :
    p.Meets (q.record t) q s next s' := by
  have hq : q.record t = v := h.2.2.2.2 ▸ hv q.last
  exact hq ▸ h

theorem discard_bind {α β : Type} (x : Action Kernel α) (f : Unit → Action Kernel β) :
    ((discard x : Action Kernel Unit) >>= f) = x >>= fun _ => f () := by
  show Functor.mapConst PUnit.unit x >>= f = _
  rw [LawfulFunctor.map_const, Function.comp_apply, bind_map_left]

/-- A round and an injection agree as long as the nucleus goes on. -/
theorem next_agrees (hk : k.Sound) (hshows : Shows p.last k)
    (hwait : p.last = .ok .idle → ∀ next ∈ p.script.head?, next.2.vector = .interrupt)
    (hgoing : ∃ decision, p.last = .ok decision ∧ decision ≠ .halt) :
    Agree (fun q s next s' => p.Meets (q.record t) q s next s') (fun _ _ => False) (p.next k)
      (round p.last (k.withTape (p.record t))) := by
  obtain ⟨decision, hlast, hne⟩ := hgoing
  have hrecord := p.record_enter t
  unfold next
  rw [hlast] at hshows hwait ⊢
  cases decision with
  | halt => exact absurd rfl hne
  | resume pid state =>
    have hagree := p.inject_agrees hk .exit (p.record t)
      { p.record t with
        script := p.script.tail, resumed := (p.record t).resumed ++ [state] }
      (·.resume state) (fun vector => (dispatch vector).recover) ?_ rfl
    · refine hagree.mono (fun q s next s' h => meets_record (fun result => ?_) h) fun _ _ h => h
      rw [hrecord, hlast]
      rfl
    · rw [hshows]
      exact p.takeEvent_withTape k { p.record t with resumed := (p.record t).resumed ++ [state] }
        rfl (some state) .exit
  | idle =>
    have hvector : (p.event .timer).vector = .interrupt := by
      unfold event
      cases hnext : p.script.head? with
      | none => rfl
      | some next => exact hwait rfl next hnext
    have hagree := p.inject_agrees hk .timer (p.record t)
      { p.record t with
        script := p.script.tail, waitCount := (p.record t).waitCount + 1 }
      Machine.wait (fun _ => (dispatch .interrupt).recover) ?_ (by rw [hvector])
    · unfold round
      rw [discard_bind]
      refine hagree.mono (fun q s next s' h => meets_record (fun result => ?_) h) fun _ _ h => h
      rw [hrecord, hlast]
      simp only [resumed?, isIdle, Option.toList_none, List.append_nil, Bool.toNat_true]
    · rw [hshows]
      exact p.takeEvent_withTape k { p.record t with waitCount := (p.record t).waitCount + 1 }
        rfl none .timer

/-! ## All rounds -/

/-- The nucleus has halted or stopped at a fault. -/
def Stopped (p : Progress) : Prop := p.last = .ok .halt ∨ ∃ cause, p.last = .error cause

theorem stopped_or_going (p : Progress) :
    p.Stopped ∨ ∃ decision, p.last = .ok decision ∧ decision ≠ .halt := by
  cases hlast : p.last with
  | error cause => exact .inl (.inr ⟨cause, hlast⟩)
  | ok decision =>
    by_cases hhalt : decision = .halt
    · exact .inl (.inl (hhalt ▸ hlast))
    · exact .inr ⟨decision, rfl, hhalt⟩

/-- Nothing is injected any more. -/
theorem Stopped.next (hp : p.Stopped) : p.next = pure p := by
  unfold Progress.next
  obtain hlast | ⟨cause, hlast⟩ := hp
  · rw [hlast]
  · rw [hlast]

theorem Stopped.go (hp : p.Stopped) (n : Nat) : p.go n = pure p := by
  induction n with
  | zero => rfl
  | succ n ih =>
    unfold Progress.go
    rw [hp.next, pure_bind, ih]

theorem go_add (p : Progress) (m n : Nat) : p.go (m + n) = p.go m >>= go n := by
  induction m generalizing p with
  | zero =>
    rw [Nat.zero_add]
    exact (pure_bind p (go n)).symm
  | succ m ih =>
    rw [Nat.succ_add_eq_add_succ, Nat.add_succ]
    unfold Progress.go
    rw [bind_assoc]
    exact congrArg (p.next >>= ·) (funext ih)

end Progress

theorem Driven.after {o : Outcome Kernel Progress} {u : Outcome Kernel Bool}
    (h : Driven t n o u) (earlier : List Notice) :
    Driven t n (o.after earlier) (u.after earlier) := by
  cases h with
  | going h => exact .going h
  | halted h hlast =>
    simp only [Outcome.after, ← List.append_assoc]
    exact .halted h hlast
  | crashed h hlast =>
    simp only [Outcome.after, ← List.append_assoc]
    exact .crashed h hlast
  | abort cause => exact .abort cause

/-- Going on from a decision does what injections do from there on. -/
theorem runFrom_driven {p : Progress} (hk : k.Sound) (hshows : Shows p.last k)
    (hwait : ∀ m q k' log, p.go m k = .ok q k' log → q.last = .ok .idle →
      ∀ next ∈ q.script.head?, next.2.vector = .interrupt) (n : Nat) :
    Driven t (p.past.length + n) (p.go n k) (runFrom n p.last (k.withTape (p.record t))) := by
  induction n generalizing p k with
  | zero => exact .going rfl
  | succ n ih =>
    have hlt : p.past.length < p.past.length + (n + 1) := Nat.lt_add_of_pos_right n.succ_pos
    obtain hstopped | hgoing := p.stopped_or_going
    · rw [hstopped.go]
      obtain hlast | ⟨cause, hlast⟩ := hstopped
      · rw [hlast]
        exact .halted hlt hlast
      · rw [hlast]
        exact .crashed hlt hlast
    · have hagree := Progress.next_agrees (t := t) hk hshows (hwait 0 p k [] rfl) hgoing
      unfold Progress.go runFrom
      rw [Action.bind_apply, Action.bind_apply]
      generalize hnext : p.next k = o at hagree
      generalize round p.last (k.withTape (p.record t)) = u at hagree
      cases hagree with
      | @ok q s next s' log h =>
        obtain ⟨rfl, rfl, hs, hshows', hq⟩ := h
        have hlength : q.past.length = p.past.length + 1 := by
          rw [hq]
          exact List.length_append
        have hlater := ih hs hshows' fun m r k' rest hgo => by
          refine hwait (m + 1) r k' (log ++ rest) ?_
          unfold Progress.go
          rw [Action.bind_apply, hnext]
          exact congrArg (Outcome.after log) hgo
        rw [hlength, Nat.add_assoc, Nat.add_comm 1] at hlater
        exact hlater.after log
      | fault cause log h => exact h.elim
      | abort cause => exact .abort cause

/-- Injections go on from the progress that has been made. -/
theorem injected_add (script : List (Word × Event)) (m n : Nat) :
    injected script (m + n) = injected script m >>= Progress.go n := by
  unfold injected
  rw [bind_assoc]
  exact congrArg (schedule.recover >>= ·) (funext fun result => Progress.go_add _ m n)

theorem injected_of_stopped {script : List (Word × Event)} {m : Nat} {p : Progress}
    (h : injected script m k = .ok p k' log) (hp : p.Stopped) (n : Nat) :
    injected script (m + n) k = .ok p k' log := by
  rw [injected_add, Action.bind_apply, h]
  dsimp only
  rw [hp.go]
  exact Outcome.after_eq_ok_iff.2 ⟨[], rfl, (List.append_nil log).symm⟩

theorem state?_recover {α : Type} (x : Action Kernel α) (k : Kernel) :
    (x.recover k).state? = (x k).state? := by
  unfold Action.recover
  cases x k <;> rfl

/-- The loop does what injections do, round by round. -/
theorem Sound.run_driven (hk : k.Sound) (hwait : InterruptsWait k.machine.script k) (n : Nat) :
    Driven k.machine.tape n (injected k.machine.script n k) (run n k) := by
  have hfirst := hk.call_shows .schedule
  have hstate := state?_recover (Call.run .schedule) k
  unfold injected run
  rw [Action.bind_apply, Action.bind_apply]
  simp only [Call.run] at hfirst hstate
  cases hschedule : Kernel.schedule.recover k with
  | ok result s log =>
    rw [hschedule] at hfirst hstate
    have htape : s.machine.tape = k.machine.tape := Call.schedule.tape_eq hstate.symm
    have hgo := runFrom_driven (t := k.machine.tape) (p := ⟨k.machine.script, [], result⟩)
      hfirst.1 hfirst.2 (fun m q k' rest hgo => ?_) n
    · have hsame :
          s.withTape (Progress.record k.machine.tape ⟨k.machine.script, [], result⟩) = s := by
        have hrecord : Progress.record k.machine.tape ⟨k.machine.script, [], result⟩ =
            s.machine.tape := by
          rw [htape]
          simp [Progress.record, Machine.tape]
        rw [hrecord]
        rfl
      rw [hsame, List.length_nil, Nat.zero_add] at hgo
      exact hgo.after log
    · refine hwait m q k' (log ++ rest) ?_
      unfold injected
      rw [Action.bind_apply, hschedule]
      exact congrArg (Outcome.after log) hgo
  | fault cause s log =>
    rw [hschedule] at hfirst
    exact hfirst.elim
  | abort cause => exact .abort cause

theorem Driven.length_le {o : Outcome Kernel Progress} {u : Outcome Kernel Bool} {p : Progress}
    (h : Driven t n o u) (ho : o = .ok p k log) : p.past.length ≤ n := by
  subst ho
  cases h with
  | going h => exact h.le
  | halted h hlast => exact h.le
  | crashed h hlast => exact h.le

/-- Injections that have stopped the nucleus leave a round for the loop to stop in. -/
theorem driven_of_stopped {script : List (Word × Event)}
    (hdriven : ∀ n, Driven t n (injected script n k₀) (run n k₀)) {p : Progress}
    (h : injected script n k₀ = .ok p k log) (hp : p.Stopped) :
    Driven t (n + 1) (.ok p k log) (run (n + 1) k₀) ∧ p.past.length < n + 1 := by
  refine ⟨?_, Nat.lt_succ_of_le ((hdriven n).length_le h)⟩
  rw [← injected_of_stopped h hp 1]
  exact hdriven (n + 1)

/-- Injections that lead to the end of all processes make the loop halt the machine. -/
theorem run_of_halt {script : List (Word × Event)}
    (hdriven : ∀ n, Driven t n (injected script n k₀) (run n k₀)) {p : Progress}
    (h : injected script n k₀ = .ok p k log) (hlast : p.last = .ok .halt) :
    ∃ log', run (n + 1) k₀ = .ok true (k.withTape { p.record t with halted := true }) log' := by
  obtain ⟨hlater, hlt⟩ := driven_of_stopped hdriven h (.inl hlast)
  generalize run (n + 1) k₀ = u at hlater
  cases hlater with
  | going heq => exact absurd heq hlt.ne
  | halted _ _ => exact ⟨_, rfl⟩
  | crashed _ herror => cases hlast.symm.trans herror

/-- Injections that lead to a fault make the loop stop the machine. -/
theorem run_of_fault {script : List (Word × Event)}
    (hdriven : ∀ n, Driven t n (injected script n k₀) (run n k₀)) {p : Progress}
    (h : injected script n k₀ = .ok p k log) (hlast : p.last = .error cause) :
    ∃ log', run (n + 1) k₀ =
      .fault cause (k.withTape { p.record t with crashed := true }) log' := by
  obtain ⟨hlater, hlt⟩ := driven_of_stopped hdriven h (.inr ⟨cause, hlast⟩)
  generalize run (n + 1) k₀ = u at hlater
  cases hlater with
  | going heq => exact absurd heq hlt.ne
  | halted _ hhalt => cases hlast.symm.trans hhalt
  | crashed _ herror =>
    obtain rfl := Except.error.inj (hlast.symm.trans herror)
    exact ⟨_, rfl⟩

/-- Whether an interrupt comes next if the processor is to wait. -/
def Progress.interruptsWait (p : Progress) : Bool :=
  !isIdle p.last || p.script.head?.all fun next => next.2.vector == .interrupt

/-- Only the injections up to the one that stops the nucleus need to be looked at. -/
theorem interruptsWait_of_stopped {script : List (Word × Event)}
    (hbefore : ∀ m < n, ∀ p k' log, injected script m k = .ok p k' log → p.interruptsWait = true)
    {p : Progress} (h : injected script n k = .ok p k' log) (hp : p.Stopped) :
    InterruptsWait script k := by
  intro m q k'' log' hm hidle
  by_cases hmn : m < n
  · have hwait := hbefore m hmn q k'' log' hm
    simp only [Progress.interruptsWait, hidle, isIdle, Bool.not_true, Bool.false_or] at hwait
    intro next hnext
    rw [Option.mem_def.1 hnext] at hwait
    exact eq_of_beq hwait
  · obtain ⟨d, rfl⟩ := Nat.exists_eq_add_of_le (Nat.le_of_not_lt hmn)
    rw [injected_of_stopped h hp] at hm
    cases hm
    obtain hlast | ⟨cause, hlast⟩ := hp
    · cases hlast.symm.trans hidle
    · cases hlast.symm.trans hidle

/-- On a machine that still runs, the loop does round by round what injections do, and it ends as
they do: it halts the machine exactly if they lead to the end of all processes, and stops it at
exactly the fault they lead to. -/
theorem run_driven_of_reachable (hk : k₀.Reachable) (hhalted : k₀.machine.halted = false)
    (hcrashed : k₀.machine.crashed = false) (hwait : InterruptsWait k₀.machine.script k₀) :
    (∀ n, Driven k₀.machine.tape n (injected k₀.machine.script n k₀) (run n k₀)) ∧
    ((∃ n k log, run n k₀ = .ok true k log ∧ k.machine.halted = true ∧
        k.machine.crashed = false) ↔
      ∃ n p k log, injected k₀.machine.script n k₀ = .ok p k log ∧ p.last = .ok .halt) ∧
    ∀ cause, (∃ n k log, run n k₀ = .fault cause k log ∧ k.machine.crashed = true ∧
        k.machine.halted = false) ↔
      ∃ n p k log, injected k₀.machine.script n k₀ = .ok p k log ∧ p.last = .error cause := by
  have hdriven := hk.sound.run_driven hwait
  refine ⟨hdriven, ⟨?_, ?_⟩, fun cause => ⟨?_, ?_⟩⟩
  · rintro ⟨n, k, log, hrun, -, -⟩
    have h := hdriven n
    rw [hrun] at h
    generalize hinjected : injected k₀.machine.script n k₀ = o at h
    cases h with
    | halted hlt hlast => exact ⟨n, _, _, _, hinjected, hlast⟩
  · rintro ⟨n, p, k, log, hinjected, hlast⟩
    obtain ⟨log', hrun⟩ := run_of_halt hdriven hinjected hlast
    exact ⟨n + 1, _, log', hrun, rfl, hcrashed⟩
  · rintro ⟨n, k, log, hrun, -, -⟩
    have h := hdriven n
    rw [hrun] at h
    generalize hinjected : injected k₀.machine.script n k₀ = o at h
    cases h with
    | crashed hlt hlast => exact ⟨n, _, _, _, hinjected, hlast⟩
  · rintro ⟨n, p, k, log, hinjected, hlast⟩
    obtain ⟨log', hrun⟩ := run_of_fault hdriven hinjected hlast
    exact ⟨n + 1, _, log', hrun, rfl, hhalted⟩

/-- The root process waits for a disk, which completes after 200 microseconds; then it exits. -/
theorem run_driven_of_reachable_disk : ∃ k₀ : Kernel, k₀.Reachable ∧
    k₀.machine.halted = false ∧ k₀.machine.crashed = false ∧
    k₀.machine.script = [(0, .request 8 3 0 0 false), (200, .device 3 0 0x42)] ∧
    InterruptsWait k₀.machine.script k₀ ∧
    ∃ n k log, run n k₀ = .ok true k log ∧ k.machine.halted = true ∧
      k.machine.crashed = false := by
  have htest : (boot (.new { Machine.new with
      script := [(0, .request 8 3 0 0 false), (200, .device 3 0 0x42)] } .usual)).state?.any
      (fun k => decide (k.machine.halted = false ∧ k.machine.crashed = false ∧
        k.machine.script = [(0, .request 8 3 0 0 false), (200, .device 3 0 0x42)]) &&
        (List.range 3).all (fun m => match injected k.machine.script m k with
          | .ok p _ _ => p.interruptsWait
          | .fault _ _ _ | .abort _ => false) &&
        match injected k.machine.script 3 k with
        | .ok p _ _ => decide (p.last = .ok .halt)
        | .fault _ _ _ | .abort _ => false) = true := by
    decide +kernel
  obtain ⟨k₀, hboot, hk₀⟩ := (Option.any_eq_true _ _).1 htest
  simp only [Bool.and_eq_true, decide_eq_true_eq, List.all_eq_true, List.mem_range] at hk₀
  obtain ⟨⟨⟨hhalted, hcrashed, hscript⟩, hbefore⟩, hlast⟩ := hk₀
  split at hlast
  · rename_i p k log hinjected
    have hlast := of_decide_eq_true hlast
    have hk : k₀.Reachable := .boot (.new _ _) hboot
    have hwait : InterruptsWait k₀.machine.script k₀ := by
      refine interruptsWait_of_stopped (fun m hm q k' log' hq => ?_) hinjected (.inl hlast)
      have hcheck := hbefore m hm
      rw [hq] at hcheck
      exact hcheck
    exact ⟨k₀, hk, hhalted, hcrashed, hscript, hwait,
      (run_driven_of_reachable hk hhalted hcrashed hwait).2.1.2 ⟨3, p, k, log, hinjected, hlast⟩⟩
  · cases hlast
  · cases hlast

end Kernel

end Nucleus
