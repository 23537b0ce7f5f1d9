import Nucleus.Proofs.Kernel.Pids

/-!
# Handlers

A process announces at most one handler for each class of its exceptions. It starts without any,
the first announcement for a class is taken down for good, and the second one terminates the process
with its descendants (`handlerLaw_of_reachable`). Of all deeds only one changes handlers, and only
the running process does it, at its own request.
-/

namespace Nucleus

/-- A deed that announces nothing leaves the handlers as they are. -/
theorem Deed.handlers_act {deed : Deed} (hd : deed.announces = false) (g : Slot) (c : Context) :
    (deed.act g c).handlers = c.handlers ∧ (deed.act g c).announced = c.announced := by
  cases deed with
  | announce => cases hd
  | save | result | charge | dispatch =>
    simp only [act]
    split <;> exact ⟨rfl, rfl⟩
  | world | latch | block | wake | expire | enroll | retire => exact ⟨rfl, rfl⟩

namespace Descriptor

variable {d e f : Descriptor} {c : ExceptionClass}

theorem SameHandlers.trans (hde : d.SameHandlers e) (hef : e.SameHandlers f) :
    d.SameHandlers f :=
  ⟨hef.handlers.trans hde.handlers, hef.announced.trans hde.announced⟩

theorem Registered.announced_of_none (hd : d.Registered) (hc : d.handler c = none) :
    d.announced.get c.place = 0 := by
  rcases hd c with ⟨hzero, -⟩ | ⟨-, hsome⟩
  · exact hzero
  · rw [hc] at hsome
    cases hsome

theorem Registered.announced_of_some (hd : d.Registered) (hc : d.handler c ≠ none) :
    d.announced.get c.place = 1 := by
  rcases hd c with ⟨-, hnone⟩ | ⟨hone, -⟩
  · exact absurd hnone hc
  · exact hone

/-- The first handler for a class has been taken down. -/
structure Announced (d : Descriptor) (c : ExceptionClass) (handler : Handler) (e : Descriptor) :
    Prop where
  fresh : d.handler c = none
  handlers : e.handlers = d.handlers.set c.place (some handler)
  announced : e.announced = d.announced.set c.place 1

end Descriptor

namespace Kernel

open Outcome

variable {k k' k₁ : Kernel} {h g : Slot} {pid : Pid} {c : ExceptionClass} {handler : Handler}
  {allowed : Deed → Prop} {ms : List Move} {o : Outcome Kernel Decision} {ok : Kernel → Prop}
  {call : Call} {vector : TrapVector}

/-! ## What leaves the handlers alone -/

/-- What announces nothing leaves the handlers of a survivor as they are. -/
theorem Course.sameHandlers (hc : Course allowed k ms k') (hone : OneWay allowed)
    (hno : ∀ deed, allowed deed → deed.announces = false) (hg : k.processes.isUsed g = true)
    (hg' : k'.processes.isUsed g = true) :
    (k.processes.get g).SameHandlers (k'.processes.get g) := by
  have hkept := hc.context
    (P := fun c => c.handlers = (k.contextAt g).handlers ∧ c.announced = (k.contextAt g).announced)
    hone hg hg' (fun deed c hd hc => ?_) ⟨rfl, rfl⟩
  · exact ⟨hkept.1, hkept.2⟩
  · obtain ⟨hhandlers, hannounced⟩ := Deed.handlers_act (hno deed hd) g c
    exact ⟨hhandlers.trans hc.1, hannounced.trans hc.2⟩

theorem announces_of_decision {deed : Deed} (hd : k.ByDecision deed) : deed.announces = false := by
  cases deed with
  | announce => exact hd.elim
  | _ => rfl

theorem Ended.sameHandlers (ho : Ended allowed k o ok) (hone : OneWay allowed)
    (hno : ∀ deed, allowed deed → deed.announces = false) (hs : o.state? = some k')
    (hg : k.processes.isUsed g = true) (hg' : k'.processes.isUsed g = true) :
    (k.processes.get g).SameHandlers (k'.processes.get g) := by
  refine (ho.course hs).sameHandlers hone.orDecision (fun deed hd => ?_) hg hg'
  rcases hd with hd | ⟨_, hd⟩
  · exact hno deed hd
  · exact announces_of_decision hd

theorem schedule_sameHandlers (hs : (schedule k).state? = some k')
    (hg : k.processes.isUsed g = true) :
    (k.processes.get g).SameHandlers (k'.processes.get g) := by
  have htells := schedule_tells k
  cases hrun : schedule k with
  | ok decision k₁ log =>
    rw [hrun] at hs htells
    obtain rfl := Option.some.inj hs
    exact htells.course.sameHandlers (oneWay_byDecision k) (fun _ => announces_of_decision) hg
      ((htells.isUsed g).trans hg)
  | fault cause k₁ log =>
    rw [hrun] at hs htells
    obtain rfl := Option.some.inj hs
    rw [htells.1]
    exact .refl _
  | abort cause =>
    rw [hrun] at hs
    cases hs

theorem oneWay_byRequest (caller : Slot) (creates : Bool) : OneWay (ByRequest caller creates) := by
  cases creates with
  | true => exact .inl fun _ hd => Bool.noConfusion hd.1
  | false => exact .inr fun _ _ hd => Bool.noConfusion hd.1.1

/-! ## Announcing a handler -/

/-- The first handler that a process announces for a class is taken down. -/
theorem announceHandler_first (handler : Handler)
    (hzero : (k.processes.get h).announced.get c.place = 0) :
    ∃ k₁, announceHandler h c handler k = .ok () k₁ [] ∧
      k₁.processes.isUsed = k.processes.isUsed ∧
      (k₁.processes.get h).handlers = (k.processes.get h).handlers.set c.place (some handler) ∧
      (k₁.processes.get h).announced = (k.processes.get h).announced.set c.place 1 := by
  unfold announceHandler
  rw [Action.look_bind_apply, Action.check_bind_apply, hzero, show Word.succ 0 = .ok 1 from rfl]
  dsimp only
  rw [Action.change_bind_apply, if_neg (by decide)]
  refine ⟨_, rfl, rfl, ?_, ?_⟩
  · simp [modify]
  · simp [modify]

/-- A second one terminates the process and its descendants, and nobody else. -/
theorem announceHandler_again (hk : k.Accounted) (hused : k.processes.isUsed h = true)
    (handler : Handler) (hone : (k.processes.get h).announced.get c.place = 1) :
    (announceHandler h c handler k).Finishes fun _ k' => ∀ g, k'.processes.isUsed g = true ↔
      k.processes.isUsed g = true ∧ ¬ k.processes.Descends g h := by
  have hsame := sameBooks_announced k h fun d => d.announced.set c.place 2
  unfold announceHandler Finishes
  rw [Action.ends_bind, Action.ends_look, Action.ends_bind, Action.ends_check, hone,
    show Word.succ 1 = .ok 2 from rfl]
  dsimp only
  rw [Action.ends_bind, Action.ends_change, if_pos (by decide), Action.ends_bind, Action.ends_note,
    Action.ends_discard]
  generalize (k.modify h fun d => { d with announced := d.announced.set c.place 2 }) = k₁ at hsame
  have hk₁ := hk.congr hsame
  have hused₁ : k₁.processes.isUsed h = true := (hsame.isUsed h).trans hused
  have hlookup : k₁.pids.lookup (k.processes.get h).pid = some h :=
    hk₁.indexed.lookup_eq_some_iff.2 ⟨hused₁, hsame.pidAt h⟩
  have hdescends : k₁.processes.Descends = k.processes.Descends :=
    ProcessTable.descends_congr fun g => (hsame.entry g).parent
  refine (hk₁.terminate _).mono fun found k' hk' g => ?_
  rcases hk'.2 with ⟨hnone, -⟩ | ⟨victim, hvictim, -, hgone⟩
  · cases hlookup.symm.trans hnone
  · obtain rfl := Option.some.inj (hlookup.symm.trans hvictim)
    have hfamily := hk₁.linked.mem_family_iff (g := g) hused₁ (k₁.processes.youngerCount_lt h)
    rw [hgone.used_iff, hfamily, hdescends, hsame.isUsed]
    exact ⟨fun hand => ⟨hand.1, fun hd => hand.2 ⟨hand.1, hd⟩⟩,
      fun hand => ⟨hand.1, fun hd => hand.2 hd.2⟩⟩

/-- A request for a handler of a class that has one terminates the caller and its descendants. -/
theorem serve_again (hk : k.Sound) (hh : k.current = some h) (handler : Handler)
    (hhandler : (k.processes.get h).handler c ≠ none) :
    ∃ k', ((serve h (.announce c handler) >>= fun _ => schedule) k).state? = some k' ∧
      ∀ g, k'.processes.isUsed g = true ↔
        k.processes.isUsed g = true ∧ ¬ k.processes.Descends g h := by
  have hused := hk.used_of_current hh
  have hone := (hk.registered hused).announced_of_some hhandler
  have hagain := announceHandler_again hk.toAccounted hused handler hone
  refine Ends.exists_state? (Action.ends_andThen (hagain.ends fun _ _ h => h) fun _ k₁ hk₁ => ?_)
  have hkept : ∀ k', (∃ ready current, SameBooks { k₁ with ready, current } k') →
      ∀ g, k'.processes.isUsed g = true ↔
        k.processes.isUsed g = true ∧ ¬ k.processes.Descends g h := by
    rintro k' ⟨ready, current, hsame⟩ g
    rw [hsame.isUsed]
    exact hk₁ g
  exact (schedule_books k₁).mono (fun _ => hkept) (fun _ => hkept) fun _ => id

/-- After a request for a handler a process that is still alive has it, and had none before. -/
theorem serve_announced (hk : k.Sound) (hh : k.current = some h)
    (hs : ((serve h (.announce c handler) >>= fun _ => schedule) k).state? = some k')
    (hh' : k'.processes.isUsed h = true) :
    (k.processes.get h).Announced c handler (k'.processes.get h) := by
  have hused := hk.used_of_current hh
  by_cases hhandler : (k.processes.get h).handler c = none
  · have hzero := (hk.registered hused).announced_of_none hhandler
    obtain ⟨k₁, hserve, hisUsed, hhandlers, hannounced⟩ := announceHandler_first handler hzero
    rw [Action.bind_apply, show serve h (.announce c handler) k = .ok () k₁ [] from hserve] at hs
    dsimp only at hs
    rw [state?_after] at hs
    have hsame := schedule_sameHandlers (g := h) hs (by rw [hisUsed]; exact hused)
    exact ⟨hhandler, hsame.handlers.trans hhandlers, hsame.announced.trans hannounced⟩
  · obtain ⟨k₁, hs₁, hused₁⟩ := serve_again hk hh handler hhandler
    obtain rfl := Option.some.inj (hs₁.symm.trans hs)
    exact absurd Relation.ReflTransGen.refl ((hused₁ h).1 hh').2

/-! ## Calls -/

/-- What handling a trap does to the handlers of the process that trapped. -/
theorem dispatch_handlers (hk : k.Sound) (hh : k.current = some h)
    (hs : (dispatch vector k).state? = some k') (hh' : k'.processes.isUsed h = true) :
    (k.processes.get h).SameHandlers (k'.processes.get h) ∨
      ∃ c handler, vector = .sysBreak ∧ k.service? = some (.announce c handler) ∧
        (k.processes.get h).Announced c handler (k'.processes.get h) := by
  have hused : ∀ {k₁ : Kernel}, k.Alike k₁ → k₁.processes.isUsed h = true := fun hsame =>
    (hsame.isUsed h).trans (hk.used_of_current hh)
  have hself : ∀ {g}, k.current = some g → g = h := fun hg => Option.some.inj (hg.symm.trans hh)
  have hhandled := k.dispatch_handled vector
  generalize dispatch vector k = o at hhandled hs
  cases hhandled with
  | nobody hv hnone => cases hnone.symm.trans hh
  | idle hnone cause hcause => cases hnone.symm.trans hh
  | interrupt hg cause hcause hsaved hm =>
    have hended := serveInterrupt_ended (hk.congr hsaved.alike) cause
    have hkept := hended.sameHandlers (.inl fun _ hd => hd) (fun deed hd => ?_) hs
      (hused hsaved.alike) hh'
    · exact .inl ((hsaved.alike.handlers h).trans hkept)
    · cases deed with
      | announce => exact hd.elim
      | _ => rfl
  | @exception g vector c passed state machine k₁ hg hx hsaved hm =>
    obtain rfl := hself hg
    have hended := raiseException_ended (hk.congr hsaved.alike).toAccounted
      (hsaved.alike.current.trans hg) c passed
    have hkept := hended.sameHandlers (.inr fun _ _ hd => hd) (fun deed hd => ?_) hs
      (hused hsaved.alike) hh'
    · exact .inl ((hsaved.alike.handlers g).trans hkept)
    · cases deed with
      | announce => exact hd.elim
      | _ => rfl
  | unexpected hg =>
    obtain rfl := hself hg
    obtain rfl := Option.some.inj hs
    exact .inl ((saved_requested hg).alike.handlers _)
  | @service g service hg hservice =>
    obtain rfl := hself hg
    have hsame := (saved_requested hg).alike
    have hcurrent := hsame.current.trans hg
    have hkept := hsame.handlers g
    by_cases hannounce : ∃ c handler, service = .announce c handler
    · obtain ⟨c, handler, rfl⟩ := hannounce
      obtain ⟨hfresh, hhandlers, hannounced⟩ := serve_announced (hk.congr hsame) hcurrent hs hh'
      rw [hkept.handler] at hfresh
      rw [hkept.handlers] at hhandlers
      rw [hkept.announced] at hannounced
      exact .inr ⟨c, handler, rfl, hservice, hfresh, hhandlers, hannounced⟩
    · push Not at hannounce
      have hended := (request_along (hk.congr hsame) hcurrent hannounce).ended
        fun _ _ _ _ => trivial
      exact .inl (hkept.trans (hended.sameHandlers (oneWay_byRequest g _) (fun _ hd => hd.2) hs
        (hused hsame) hh'))

/-- The running process asks at a call for a handler of a class of its exceptions. -/
def Asks (k : Kernel) (call : Call) (c : ExceptionClass) (handler : Handler) : Prop :=
  ∃ k₁, call.trap? k = some (.sysBreak, k₁) ∧ k₁.service? = some (.announce c handler)

/-- What a call does to the handlers of a process that survives it. -/
theorem Sound.call_handlers (hk : k.Sound) (hs : (call.run k).state? = some k')
    (hg : k.processes.isUsed g = true) (hg' : k'.processes.isUsed g = true) :
    (k.processes.get g).SameHandlers (k'.processes.get g) ∨
      ∃ c handler, k.current = some g ∧ k.Asks call c handler ∧
        (k.processes.get g).Announced c handler (k'.processes.get g) := by
  by_cases hcurrent : k.current = some g
  · cases htrap : call.trap? k with
    | some trap =>
      obtain ⟨vector, k₁⟩ := trap
      obtain ⟨⟨machine, rfl⟩, hrun⟩ := Call.run_eq_of_trap? htrap
      rw [hrun] at hs
      rcases dispatch_handlers (hk.congr (.setMachine k machine)) hcurrent hs hg' with
        hsame | ⟨c, handler, rfl, hservice, hannounced⟩
      · exact .inl hsame
      · exact .inr ⟨c, handler, hcurrent, ⟨_, htrap, hservice⟩, hannounced⟩
    | none =>
      rcases Call.run_of_no_trap htrap with rfl | ⟨cause, habort⟩
      · exact .inl (schedule_sameHandlers hs hg)
      · rw [habort] at hs
        cases hs
  · have hcontext := hk.contextAt_bystander hs hg hg' hcurrent
    exact .inl ⟨congrArg Context.handlers hcontext, congrArg Context.announced hcontext⟩

/-! ## New processes -/

/-- Whoever has come into a free slot has no handlers, if nobody else has put them there. -/
theorem Course.blank_of_new (hc : Course allowed k ms k')
    (hno : ∀ handlers announced, ¬ allowed (.announce g handlers announced))
    (hg : k.processes.isUsed g = false) (hg' : k'.processes.isUsed g = true) :
    Descriptor.blank.SameHandlers (k'.processes.get g) := by
  suffices h : k'.processes.isUsed g = false ∨
      Descriptor.blank.SameHandlers (k'.processes.get g) by
    exact h.resolve_left fun hfree => Bool.false_ne_true (hfree.symm.trans hg')
  refine hc.induction (P := fun k => k.processes.isUsed g = false ∨
    Descriptor.blank.SameHandlers (k.processes.get g)) (.inl hg) ?_
  intro k₁ deed k₂ hblank hd h
  cases hused₂ : k₂.processes.isUsed g with
  | false => exact .inl rfl
  | true =>
    right
    cases hused₁ : k₁.processes.isUsed g with
    | false =>
      obtain ⟨rfl, -⟩ := h.of_new hused₁ hused₂
      cases h with
      | enroll hlast he hl hw => exact he.grown.handlers
    | true =>
      have hold := hblank.resolve_left fun hfree => Bool.false_ne_true (hfree.symm.trans hused₁)
      have hcontext := h.context hused₁ hused₂
      have hkept : (deed.act g (k₁.contextAt g)).handlers = (k₁.contextAt g).handlers ∧
          (deed.act g (k₁.contextAt g)).announced = (k₁.contextAt g).announced := by
        cases deed with
        | announce h' handlers announced =>
          have hne : h' ≠ g := fun heq => hno handlers announced (heq ▸ hd)
          simp only [Deed.act, if_neg hne, and_self]
        | _ => exact Deed.handlers_act rfl g _
      rw [← hcontext] at hkept
      exact hold.trans ⟨hkept.1, hkept.2⟩

/-- A slot in which a call leaves a process that was not alive before was free. -/
theorem Course.wasFree (hc : Course allowed k ms k') (hone : OneWay allowed) (hk : k.Accounted)
    (hgone : k.descriptor? (k'.pidAt g) = none) (hg' : k'.processes.isUsed g = true) :
    k.processes.isUsed g = false := by
  cases hg : k.processes.isUsed g with
  | false => rfl
  | true =>
    rw [hc.pidAt hone hg hg'] at hgone
    exact absurd hgone (descriptor?_pidAt hk.indexed hg)

theorem descriptor?_eq_some_iff {d : Descriptor} (hk : k.Indexed) :
    k.descriptor? pid = some d ↔
      ∃ g, k.processes.isUsed g = true ∧ k.pidAt g = pid ∧ k.processes.get g = d := by
  unfold descriptor?
  rw [Option.map_eq_some_iff]
  constructor
  · rintro ⟨g, hlookup, hd⟩
    obtain ⟨hused, hpid⟩ := hk.lookup_eq_some_iff.1 hlookup
    exact ⟨g, hused, hpid, hd⟩
  · rintro ⟨g, hused, hpid, hd⟩
    exact ⟨g, hk.lookup_eq_some_iff.2 ⟨hused, hpid⟩, hd⟩

/-- A process starts without handlers, whoever creates it. -/
theorem Sound.blank_of_call {d : Descriptor} (hk : k.Sound) (hs : (call.run k).state? = some k')
    (hgone : k.descriptor? pid = none) (hd : k'.descriptor? pid = some d) :
    Descriptor.blank.SameHandlers d := by
  obtain ⟨g, hg', rfl, rfl⟩ := (descriptor?_eq_some_iff (hk.step (.call call hs)).indexed).1 hd
  obtain ⟨creates, hended⟩ := hk.call_ended call
  have hc := hended.course hs
  have hg := hc.wasFree (oneWay_byCall k _ creates).orDecision hk.toAccounted hgone hg'
  refine hc.blank_of_new (fun handlers announced hannounce => ?_) hg hg'
  rcases hannounce with hcurrent | ⟨_, hd⟩
  · exact Bool.false_ne_true (hg.symm.trans (hk.used_of_current hcurrent))
  · exact hd

/-- So does the root process. -/
theorem Sound.blank_of_boot {d : Descriptor} (hk : k.Sound) (hs : (Kernel.boot k).state? = some k')
    (hgone : k.descriptor? pid = none) (hd : k'.descriptor? pid = some d) :
    Descriptor.blank.SameHandlers d := by
  have hk' : k'.Sound := hk.boot.of_state? hs
  obtain ⟨g, hg', rfl, rfl⟩ := (descriptor?_eq_some_iff hk'.indexed).1 hd
  have hc := (boot_along hk).course hs
  have hg := hc.wasFree (.inl fun _ hd => hd) hk.toAccounted hgone hg'
  exact hc.blank_of_new (fun _ _ hd => hd) hg hg'

/-! ## The law -/

/-- A process has at most one handler for each class of its exceptions, and keeps it. -/
structure HandlerLaw (k : Kernel) : Prop where
  /-- What is counted is whether there is a handler. -/
  counted : ∀ pid d, k.descriptor? pid = some d → ∀ c : ExceptionClass,
    (d.announced.get c.place = 0 ∧ d.handler c = none) ∨
      (d.announced.get c.place = 1 ∧ ∃ handler, d.handler c = some handler)
  /-- A process that comes to life has no handlers. -/
  starts : ∀ k' pid d, k.Step k' ∨ (boot k).state? = some k' → k.descriptor? pid = none →
    k'.descriptor? pid = some d →
    ∀ c : ExceptionClass, d.announced.get c.place = 0 ∧ d.handler c = none
  /-- A call gives a handler only to the running process, if that asks for one of a class for which
  it has none. No other class and no other process is touched. -/
  changes : ∀ call k' pid d d', (call.run k).state? = some k' → k.descriptor? pid = some d →
    k'.descriptor? pid = some d' → ∀ c : ExceptionClass,
    (d'.handler c = d.handler c ∧ d'.announced.get c.place = d.announced.get c.place) ∨
      ∃ h handler, k.current = some h ∧ k.pidAt h = pid ∧ k.Asks call c handler ∧
        d.handler c = none ∧ d'.handler c = some handler
  /-- As long as a process lives it keeps a handler. -/
  stays : ∀ k' pid d d' c handler, Relation.ReflTransGen Step k k' →
    k.descriptor? pid = some d → d.handler c = some handler → k'.descriptor? pid = some d' →
    d'.handler c = some handler
  /-- A request for a handler of a class that has one removes the caller and its descendants, and
  leaves everyone else alone. -/
  again : ∀ call h c handler, k.current = some h → k.Asks call c handler →
    (k.processes.get h).handler c ≠ none →
    ∃ k', (call.run k).state? = some k' ∧
      (∀ g, k'.processes.isUsed g = true ↔
        k.processes.isUsed g = true ∧ ¬ k.processes.Descends g h) ∧
      ∀ g, k'.processes.isUsed g = true →
        k'.pidAt g = k.pidAt g ∧ (k.processes.get g).SameHandlers (k'.processes.get g)

theorem Sound.handlers_changed {d d' : Descriptor} (hk : k.Sound)
    (hs : (call.run k).state? = some k') (hd : k.descriptor? pid = some d)
    (hd' : k'.descriptor? pid = some d') (c : ExceptionClass) :
    (d'.handler c = d.handler c ∧ d'.announced.get c.place = d.announced.get c.place) ∨
      ∃ h handler, k.current = some h ∧ k.pidAt h = pid ∧ k.Asks call c handler ∧
        d.handler c = none ∧ d'.handler c = some handler := by
  have hk' := hk.step (.call call hs)
  obtain ⟨g, hg, hpid, rfl⟩ := (descriptor?_eq_some_iff hk.indexed).1 hd
  obtain ⟨g', hg', hpid', rfl⟩ := (descriptor?_eq_some_iff hk'.indexed).1 hd'
  obtain rfl := hk.slot_eq hs (hk.indexed.lookup_eq_some_iff.2 ⟨hg, hpid⟩)
    (hk'.indexed.lookup_eq_some_iff.2 ⟨hg', hpid'⟩)
  rcases hk.call_handlers hs hg hg' with hsame | ⟨e, handler, hcurrent, hasks, hannounced⟩
  · exact .inl ⟨hsame.handler c, by rw [hsame.announced]⟩
  · by_cases heq : e = c
    · subst heq
      refine .inr ⟨_, handler, hcurrent, hpid, hasks, hannounced.fresh, ?_⟩
      rw [Descriptor.handler, hannounced.handlers, Table.get_set_self]
    · have hplace : e.place ≠ c.place := fun h => heq (ExceptionClass.place_injective h)
      left
      rw [Descriptor.handler, hannounced.handlers, hannounced.announced,
        Table.get_set_of_ne _ _ hplace, Table.get_set_of_ne _ _ hplace]
      exact ⟨rfl, rfl⟩

theorem Sound.handler_stays {d d' : Descriptor} (hk : k.Sound)
    (hsteps : Relation.ReflTransGen Step k k') (hd : k.descriptor? pid = some d)
    (hhandler : d.handler c = some handler) (hd' : k'.descriptor? pid = some d') :
    d'.handler c = some handler := by
  suffices h : k'.Sound ∧ pid ≤ k'.lastPid ∧
      ∀ d', k'.descriptor? pid = some d' → d'.handler c = some handler from h.2.2 d' hd'
  clear hd' d'
  induction hsteps with
  | refl =>
    obtain ⟨g, hg, rfl, -⟩ := (descriptor?_eq_some_iff hk.indexed).1 hd
    refine ⟨hk, hk.indexed.le_last hg, fun d' hd' => ?_⟩
    obtain rfl := Option.some.inj (hd.symm.trans hd')
    exact hhandler
  | @tail k₁ k₂ _ hstep ih =>
    obtain ⟨hk₁, hpid, hkept⟩ := ih
    refine ⟨hk₁.step hstep, ?_⟩
    cases hstep with
    | machine machine => exact ⟨hpid, hkept⟩
    | call call hs =>
      refine ⟨UInt32.le_trans hpid (hk₁.lastPid_le hs), fun d₂ hd₂ => ?_⟩
      obtain ⟨g, hg, -⟩ := Option.map_eq_some_iff.1 hd₂
      -- Its pid is not a new one, so the process was alive before the call.
      have hd₁ : k₁.descriptor? pid = some (k₁.processes.get g) := by
        rw [descriptor?, hk₁.lookup_before hs hpid hg]
        rfl
      have hbefore := hkept _ hd₁
      rcases hk₁.handlers_changed hs hd₁ hd₂ c with ⟨hsame, -⟩ | ⟨_, _, -, -, -, hnone, -⟩
      · exact hsame.trans hbefore
      · cases hnone.symm.trans hbefore

theorem Sound.asks_again (hk : k.Sound) (hh : k.current = some h)
    (hasks : k.Asks call c handler) (hhandler : (k.processes.get h).handler c ≠ none) :
    ∃ k', (call.run k).state? = some k' ∧
      (∀ g, k'.processes.isUsed g = true ↔
        k.processes.isUsed g = true ∧ ¬ k.processes.Descends g h) ∧
      ∀ g, k'.processes.isUsed g = true →
        k'.pidAt g = k.pidAt g ∧ (k.processes.get g).SameHandlers (k'.processes.get g) := by
  obtain ⟨k₁, htrap, hservice⟩ := hasks
  obtain ⟨⟨machine, rfl⟩, hrun⟩ := Call.run_eq_of_trap? htrap
  obtain ⟨h', hh', hdispatch⟩ := dispatch_of_service hservice
  obtain rfl := Option.some.inj (hh.symm.trans hh')
  have hsame : k.Alike (requested { k with machine } h) :=
    (Alike.setMachine k machine).trans (saved_requested hh').alike
  have hdescends : (requested { k with machine } h).processes.Descends = k.processes.Descends :=
    ProcessTable.descends_congr fun g => (hsame.entry g).parent
  rw [← (hsame.handlers h).handler] at hhandler
  obtain ⟨k', hs, hused⟩ := serve_again (hk.congr hsame) (hsame.current.trans hh) handler hhandler
  rw [← hdispatch, ← hrun] at hs
  simp only [hdescends, hsame.isUsed] at hused
  refine ⟨k', hs, hused, fun g hg' => ?_⟩
  obtain ⟨hg, hstays⟩ := (hused g).1 hg'
  refine ⟨hk.pidAt_eq hs hg hg', ?_⟩
  rcases hk.call_handlers hs hg hg' with hkept | ⟨_, _, hcurrent, -, -⟩
  · exact hkept
  · obtain rfl := Option.some.inj (hh.symm.trans hcurrent)
    exact absurd Relation.ReflTransGen.refl hstays

/-- In every run a process announces at most one handler for each class of its exceptions. -/
theorem handlerLaw_of_reachable (hk : k.Reachable) : k.HandlerLaw where
  counted pid d hd c := by
    obtain ⟨g, hg, -, rfl⟩ := (descriptor?_eq_some_iff hk.sound.indexed).1 hd
    rcases hk.sound.registered hg c with ⟨hzero, hnone⟩ | ⟨hone, hsome⟩
    · exact .inl ⟨hzero, hnone⟩
    · exact .inr ⟨hone, Option.isSome_iff_exists.1 hsome⟩
  starts k' pid d hstep hgone hd c := by
    have hblank : Descriptor.blank.SameHandlers d := by
      rcases hstep with hstep | hboot
      · cases hstep with
        | call call hs => exact hk.sound.blank_of_call hs hgone hd
        | machine machine => cases hgone.symm.trans hd
      · exact hk.sound.blank_of_boot hboot hgone hd
    rw [hblank.handler, hblank.announced]
    exact ⟨Table.get_fill 0 c.place, Table.get_fill none c.place⟩
  changes _ _ _ _ _ hs hd hd' := hk.sound.handlers_changed hs hd hd'
  stays _ _ _ _ _ _ hsteps hd hhandler := hk.sound.handler_stays hsteps hd hhandler
  again _ _ _ _ hh hasks := hk.sound.asks_again hh hasks

/-- The root process has a handler for translation faults and asks for another one, which ends
it. -/
theorem handlerLaw_of_reachable_twice : ∃ (k k' : Kernel) (h : Slot), k.Reachable ∧
    k.HandlerLaw ∧ (k.processes.get h).handler .tlb = some ⟨0x20002000, 0x20003000⟩ ∧
    ((Call.dispatch .sysBreak).run k).state? = some k' ∧ k'.processes.isUsed h = false := by
  obtain ⟨k, hk, htest⟩ := exists_reachable
    (p := fun k => k.current = some 0 ∧
      k.service? = some (.announce .tlb ⟨0x20002000, 0x20003000⟩) ∧
      (k.processes.get 0).handler .tlb = some ⟨0x20002000, 0x20003000⟩)
    [.schedule, .deliver (.request 10 0x20002000 0x20003000 0 false)] (by decide +kernel)
  obtain ⟨hh, hservice, hhandler⟩ := of_decide_eq_true htest
  have hlaw := handlerLaw_of_reachable hk
  have hasks : k.Asks (.dispatch .sysBreak) .tlb ⟨0x20002000, 0x20003000⟩ := ⟨k, rfl, hservice⟩
  have hsome : (k.processes.get 0).handler .tlb ≠ none := by
    rw [hhandler]
    exact Option.some_ne_none _
  obtain ⟨k', hs, hused, -⟩ := hlaw.again _ 0 _ _ hh hasks hsome
  refine ⟨k, k', 0, hk, hlaw, hhandler, hs, ?_⟩
  rw [← Bool.not_eq_true, hused]
  exact fun hand => hand.2 .refl

end Kernel

end Nucleus
