import Nucleus.Proofs.Kernel.Calls

/-!
# Tables are never full

There are as many wait lists as process descriptors, and the running process needs none, so no call
fails for want of one (`NeverExhausted`). A process that takes a unit which is not there is always
queued by the same call.
-/

namespace Nucleus.Kernel

open Outcome

variable {k k' : Kernel} {h : Slot} {id : SemaphoreId} {service : Service}

/-- A process stands at the end of the queue of a semaphore, behind those who waited there in `k`,
and its descriptor says so. -/
structure JoinsQueue (k : Kernel) (h : Slot) (id : SemaphoreId) (k' : Kernel) : Prop where
  waiting : k'.waits.waiting id = k.waits.waiting id ++ [h]
  waitsOn : (k'.processes.get h).waitsOn = some id

theorem joinsQueue_of_moved (hm : (k.add id (-1)).Moved h .processor (.waitList id) k') :
    k.JoinsQueue h id k' where
  waiting := hm.joins
  waitsOn := by
    rw [hm.descriptor, if_pos rfl]
    rfl

theorem acquire_joinsQueue (hk : k.Accounted) (hh : k.current = some h)
    (hneg : Count.saturatingAdd (k.value id) (-1) < 0) :
    (acquire id id.waitKind k).Finishes fun went k' => went = false ∧ k.JoinsQueue h id k' := by
  have hpos := (Count.add_neg_one_neg_iff _).1 hneg
  refine (acquire_finishes hk hh id).mono fun went k' hk' => ?_
  rw [if_neg hpos] at hk'
  exact ⟨hk'.1, joinsQueue_of_moved hk'.2.1⟩

/-- A service that takes a unit queues its caller if the unit is not there. -/
theorem serve_joinsQueue (hk : k.Accounted) (hh : k.current = some h)
    (huse : service.use? = some (id, .take)) (hneg : Count.saturatingAdd (k.value id) (-1) < 0) :
    (serve h service k).Finishes fun _ k' => k.JoinsQueue h id k' := by
  have hacquire := acquire_joinsQueue hk hh hneg
  cases service with
  | wait address =>
    obtain ⟨rfl, -⟩ := Prod.mk.inj (Option.some.inj huse)
    exact Action.ends_discard.2 (hacquire.mono fun _ _ hk' => hk'.2)
  | waitClock =>
    obtain ⟨rfl, -⟩ := Prod.mk.inj (Option.some.inj huse)
    exact Action.ends_discard.2 (hacquire.mono fun _ _ hk' => hk'.2)
  | waitDevice line unit read =>
    obtain ⟨d, hd, heq⟩ := Option.map_eq_some_iff.1 huse
    obtain ⟨rfl, -⟩ := Prod.mk.inj heq
    show (awaitDevice h line unit read k).Finishes _
    unfold awaitDevice
    rw [hd]
    refine Action.ends_bind.2 (hacquire.mono fun went k' hk' => ?_)
    obtain ⟨rfl, hjoins⟩ := hk'
    exact hjoins
  | _ => cases huse

/-- Deciding what runs next changes nothing in the books but who runs and who is ready. -/
theorem schedule_books (k : Kernel) :
    (schedule k).Ends
      (fun _ k' => ∃ ready current, SameBooks { k with ready, current } k')
      (fun _ k' => ∃ ready current, SameBooks { k with ready, current } k')
      (fun _ => False) := by
  have hself : ∃ ready current, SameBooks { k with ready, current } k :=
    ⟨k.ready, k.current, (Alike.refl k).toSameBooks⟩
  have hchoice := k.choice_schedule
  generalize schedule k = o at hchoice ⊢
  cases hchoice with
  | resume =>
    have hgathered := (Alike.charge k).trans (Alike.gatherTick k.charge)
    exact ⟨k.ready, k.current, (hgathered.trans (Alike.setTimer _ _)).toSameBooks⟩
  | @dispatch g rest =>
    have hcharged : Alike { k with ready := rest, current := some g }
        { k with ready := rest, current := some g, chargedUntil := k.machine.now } :=
      .of_eq rfl rfl rfl rfl rfl rfl rfl
    refine ⟨rest, some g, SameBooks.trans ?_ (Alike.setTimer _ _).toSameBooks⟩
    refine SameBooks.trans ?_ (.modify fun _ => ⟨rfl, rfl, rfl, rfl, rfl⟩)
    exact (hcharged.trans (Alike.gatherTick _)).toSameBooks
  | halt | deadlock => exact hself
  | wait =>
    have hgathered := Alike.gatherTick k
    exact ⟨k.ready, k.current, (hgathered.trans (Alike.setTimer _ _)).toSameBooks⟩

/-- A process that has joined a queue still stands there when it is decided what runs next. -/
theorem schedule_joinsQueue (hk : k.JoinsQueue h id k') :
    (schedule k').Ends (fun _ k'' => k.JoinsQueue h id k'') (fun _ k'' => k.JoinsQueue h id k'')
      (fun _ => False) := by
  have hbooks : ∀ k'' : Kernel, (∃ ready current, SameBooks { k' with ready, current } k'') →
      k.JoinsQueue h id k'' := by
    rintro k'' ⟨ready, current, hsame⟩
    refine ⟨?_, (hsame.entry h).waitsOn.trans hk.waitsOn⟩
    rw [hsame.waits]
    exact hk.waiting
  exact (schedule_books k').mono (fun _ => hbooks) (fun _ => hbooks) fun _ h => h

theorem handleSysBreak_joinsQueue (hk : k.Accounted) (hh : k.current = some h)
    (hservice : k.service? = some service) (huse : service.use? = some (id, .take))
    (hneg : Count.saturatingAdd (k.value id) (-1) < 0) :
    (handleSysBreak k).Ends (fun _ k' => k.JoinsQueue h id k') (fun _ k' => k.JoinsQueue h id k')
      (fun _ => False) := by
  unfold service? at hservice
  unfold handleSysBreak
  rw [ends_capture_iff, hh]
  dsimp only at hservice ⊢
  generalize k.machine.loadState TrapVector.sysBreak.oldArea = trap at hservice ⊢
  split at hservice
  · rename_i htrap
    obtain ⟨-, hcode, hmode⟩ := htrap
    rw [Action.ends_bind, Action.ends_change, hcode]
    dsimp only
    rw [hmode, if_neg Bool.false_ne_true]
    have hsame : k.Alike ((k.saved h trap).modify h (·.skipInstruction)) :=
      (Alike.capture k h trap).trans
        (.modify (fun _ => ⟨rfl, rfl, rfl, rfl, rfl⟩) fun _ => ⟨rfl, rfl⟩)
    have hvalue : ((k.saved h trap).modify h (·.skipInstruction)).value id = k.value id :=
      value_charge id
    generalize (k.saved h trap).modify h (·.skipInstruction) = k₁ at hsame hvalue
    rw [← hvalue] at hneg
    have hserve := serve_joinsQueue (hk.congr hsame.toSameBooks) (hsame.current.trans hh) huse hneg
    have hjoins : ∀ k', k₁.JoinsQueue h id k' → k.JoinsQueue h id k' := fun k' hk' =>
      ⟨hsame.waits ▸ hk'.waiting, hk'.waitsOn⟩
    unfold handleRequest
    rw [hservice]
    exact Action.ends_bind.2 (hserve.ends fun _ k' hk' => schedule_joinsQueue (hjoins k' hk'))
  · cases hservice

/-! ## The tables suffice -/

/-- No call stops because a table is full, and a process that takes a unit which is not there joins
the queue of the semaphore in the same call. -/
structure NeverExhausted (k : Kernel) : Prop where
  call : ∀ (call : Call) (cause : Fault), (call.run k).result? = some (.error cause) →
    cause ≠ .semaphorePoolExhausted ∧ cause ≠ .processPoolExhausted
  blocks : ∀ (call : Call) (k₁ : Kernel) (service : Service) (id : SemaphoreId),
    call.trap? k = some (.sysBreak, k₁) → k₁.service? = some service →
    service.use? = some (id, .take) → Count.saturatingAdd (k₁.value id) (-1) < 0 →
    ∃ h k', k.current = some h ∧ (call.run k).state? = some k' ∧
      k'.waits.waiting id = k.waits.waiting id ++ [h] ∧ (k'.processes.get h).waitsOn = some id

theorem Performs.ne_exhaustion {use : Option (SemaphoreId × Use)} {o : Outcome Kernel Decision}
    {cause : Fault} (ho : k.Performs id use o) (hcause : o.result? = some (.error cause)) :
    ¬ cause.IsExhaustion := by
  cases o with
  | ok d k' log => cases hcause
  | fault c k' log =>
    cases hcause
    exact ho.2
  | abort c => cases hcause

theorem Sound.neverExhausted (hk : k.Sound) : k.NeverExhausted where
  call := by
    intro call cause hcause
    have hspares : k.Spares .clock := k.spares_of_soft nofun
    have hnot := (hk.call_performs SemaphoreId.isOrdinary_clock hspares call).ne_exhaustion hcause
    exact not_or.1 hnot
  blocks := by
    intro call k₁ service id htrap hservice huse hneg
    obtain ⟨⟨machine, rfl⟩, hrun⟩ := Call.run_eq_of_trap? htrap
    have hk₁ := hk.congr (.setMachine k machine)
    cases hh : k.current with
    | none =>
      unfold service? at hservice
      rw [if_neg fun hand => hand.1 hh] at hservice
      cases hservice
    | some h =>
      have hends := handleSysBreak_joinsQueue hk₁.toAccounted hh hservice huse hneg
      obtain ⟨k', hk', hjoins⟩ := Ends.exists_state? hends
      have hcall : (call.run k).state? = some k' := (congrArg state? hrun).trans hk'
      exact ⟨h, k', rfl, hcall, hjoins.waiting, hjoins.waitsOn⟩

/-- A new nucleus has a free descriptor for the root process. -/
theorem boot_new_ne_exhausted (machine : Machine) (config : Config) :
    (boot (.new machine config)).result? ≠ some (.error .processPoolExhausted) := by
  have hboot := boot_untouched (sound_new machine config) SemaphoreId.isOrdinary_clock
  intro heq
  cases ho : boot (.new machine config) with
  | ok value k' log =>
    rw [ho] at heq
    cases heq
  | fault cause k' log =>
    rw [ho] at heq hboot
    cases heq
    have hused := hboot.2 rfl 0
    rw [show (Kernel.new machine config).processes.isUsed 0 = false from
      ProcessTable.isUsed_empty 0] at hused
    cases hused
  | abort cause =>
    rw [ho] at heq
    cases heq

/-- In every state of every run no call fails for want of a wait list or a process descriptor, nor
does the start of a new nucleus. -/
theorem neverExhausted_of_reachable (hk : k.Reachable) :
    k.NeverExhausted ∧ ∀ machine config,
      (boot (.new machine config)).result? ≠ some (.error .processPoolExhausted) :=
  ⟨hk.sound.neverExhausted, boot_new_ne_exhausted⟩

/-- The root process joins a queue by asking for a unit that nobody has given. -/
theorem neverExhausted_of_reachable_root : ∃ k h k', k.Reachable ∧ k.current = some h ∧
    ((Call.deliver (.request 4 0x20000500 0 0 false)).run k).state? = some k' ∧
    k'.waits.waiting (.user 0x20000500) = k.waits.waiting (.user 0x20000500) ++ [h] := by
  obtain ⟨k, hk, htest⟩ := exists_reachable
    (p := fun k => ((Call.deliver (.request 4 0x20000500 0 0 false)).trap? k).any fun t =>
      t.1 = .sysBreak ∧ t.2.service? = some (.wait 0x20000500) ∧
      Count.saturatingAdd (t.2.value (.user 0x20000500)) (-1) < 0)
    [.schedule] (by decide +kernel)
  obtain ⟨⟨vector, k₁⟩, htrap, hp⟩ := (Option.any_eq_true _ _).1 htest
  obtain ⟨rfl, hservice, hneg⟩ := of_decide_eq_true hp
  obtain ⟨h, k', hh, hk', hjoins, -⟩ :=
    (neverExhausted_of_reachable hk).1.blocks _ k₁ _ (.user 0x20000500) htrap hservice rfl hneg
  exact ⟨k, h, k', hk, hh, hk', hjoins⟩

end Nucleus.Kernel
