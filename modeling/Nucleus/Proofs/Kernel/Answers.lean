import Nucleus.Proofs.Kernel.Exchange
import Nucleus.Proofs.Kernel.History
import Nucleus.Proofs.Kernel.SemaphoreLaws

/-!
# Answers

The requests for a device and its completions are paired in order, whichever comes first: each
request is answered with the status of the completion that has its number, as long as no two
completions are ever left over and no process is terminated while it waits for the device
(`answers_of_boot`). A status goes into the saved state of the process that has waited longest, or
it is latched for the next request. Only one can be latched, so the greatest value of the semaphore
is recorded beside what is exchanged.
-/

namespace Nucleus

namespace Count

theorem toInt_of_taken {v w : Count} (h : w = saturatingAdd v (-1)) (hlow : least < v.toInt) :
    w.toInt = v.toInt - 1 := by
  rw [h, toInt_add_neg_one]
  omega

theorem toInt_of_given {v w : Count} (h : w = saturatingAdd v 1) (hhigh : v.toInt < greatest) :
    w.toInt = v.toInt + 1 := by
  rw [h, toInt_add_one]
  omega

end Count

namespace Kernel

open Outcome

variable {k k' k₀ : Kernel} {h g : Slot} {d : Device} {call : Call} {x : Exchange} {r : Request}
  {status : Word} {machine : Machine} {config : Config}

/-! ## The pairing -/

/-- The requests for a device and its completions are paired in order. -/
structure Paired (d : Device) (x : Exchange) (k : Kernel) : Prop where
  /-- A request is answered as soon as there have been enough completions, with the status of the
  one that has its number. -/
  answered : ∀ (i : Nat) (r : Request), x.requests[i]? = some r → r.answer = x.statuses[i]?
  settled : ∀ r ∈ x.requests, k.Settled r
  /-- The callers that have not been answered wait, in the order of their requests. -/
  waiting : k.lineAt (.waitList (.device d)) =
    (x.requests.drop x.statuses.length).map (·.caller)
  balance : (k.value (.device d)).toInt = (x.statuses.length : Int) - x.requests.length
  le_peak : (k.value (.device d)).toInt ≤ x.peak
  /-- The status of the completion that is left over is latched. -/
  latched : ∀ status, x.statuses[x.requests.length]? = some status → k.latched d = status

theorem Paired.le_of_unanswered {i : Nat} (hp : Paired d x k) (hr : x.requests[i]? = some r)
    (hanswer : r.answer = none) : x.statuses.length ≤ i :=
  List.getElem?_eq_none_iff.1 ((hp.answered i r hr).symm.trans hanswer)

/-- An answer stays the status with its number, whatever follows. -/
theorem Paired.status_of_answered {i : Nat} {value : Word} (hp : Paired d x k)
    (hr : (x.requests ++ asked d call k)[i]? = some r) (hanswer : r.answer = some value)
    (later : List Word) : (x.statuses ++ later)[i]? = some value := by
  rcases Nat.lt_or_ge i x.requests.length with hold | hnew
  · rw [List.getElem?_append_left hold] at hr
    have hstatus := (hp.answered i r hr).symm.trans hanswer
    obtain ⟨hlt, -⟩ := List.getElem?_eq_some_iff.1 hstatus
    rw [List.getElem?_append_left hlt, hstatus]
  · rw [List.getElem?_append_right hnew] at hr
    cases (answer_of_mem_asked (List.mem_of_getElem? hr)).symm.trans hanswer

theorem caller_mem_drop {i n : Nat} {requests : List Request} (hr : requests[i]? = some r)
    (hle : n ≤ i) : r.caller ∈ (requests.drop n).map (·.caller) := by
  refine List.mem_map_of_mem (List.mem_iff_getElem?.2 ⟨i - n, ?_⟩)
  rw [List.getElem?_drop, Nat.add_sub_cancel' hle]
  exact hr

/-- What a call has to do to keep the pairing: every caller that is not answered yet either waits or
has got the status with the number of its request, and can run. -/
theorem Paired.enter {requests : List Request} {statuses : List Word} (hp : Paired d x k)
    (hk : k.Sound) (hs : (call.run k).state? = some k')
    (hrequests : x.requests ++ asked d call k = requests)
    (hstatuses : x.statuses ++ served d call k = statuses)
    (hline : k'.lineAt (.waitList (.device d)) =
      (requests.drop statuses.length).map (·.caller))
    (hbalance : (k'.value (.device d)).toInt = (statuses.length : Int) - requests.length)
    (hlatched : ∀ status, statuses[requests.length]? = some status → k'.latched d = status)
    (hfree : ∀ (i : Nat) (r : Request), requests[i]? = some r → r.answer = none →
      i < statuses.length →
      r.caller ∉ k'.lineAt (.waitList (.device d)) ∧ k'.savedResult r.caller = statuses[i]? ∧
        ∀ g, k'.pids.lookup r.caller = some g →
          g ∈ k'.ready.items ∨ resumedWith (call.run k) r.caller ≠ none) :
    Paired d (exchanged d call k k' x) k' := by
  -- Whoever has no answer and no completion yet is in the line.
  have hlate : ∀ (i : Nat) (r : Request), requests[i]? = some r → statuses.length ≤ i →
      r.caller ∈ k'.lineAt (.waitList (.device d)) := fun i r hr hle =>
    hline ▸ caller_mem_drop hr hle
  have hrecord : exchanged d call k k' x = ⟨requests.map (seen d call k k'), statuses,
      max x.peak (k'.value (.device d)).toInt,
      x.lost + (k.view (.device d)).lost (k'.view (.device d))⟩ := by
    rw [exchanged, hrequests, hstatuses]
  rw [hrecord]
  constructor
  · intro i r' hr'
    rw [List.getElem?_map] at hr'
    obtain ⟨r, hr, rfl⟩ := Option.map_eq_some_iff.1 hr'
    cases hanswer : r.answer with
    | some value =>
      rw [← hrequests] at hr
      rw [seen_answer_of_some hanswer, ← hstatuses, hp.status_of_answered hr hanswer]
    | none =>
      rcases Nat.lt_or_ge i statuses.length with hlt | hge
      · obtain ⟨hout, hsaved, -⟩ := hfree i r hr hanswer hlt
        rw [seen_answer_of_not_mem hanswer hout, hsaved]
      · rw [seen_answer_of_mem hanswer (hlate i r hr hge), List.getElem?_eq_none hge]
  · intro r' hr'
    obtain ⟨r, hr, rfl⟩ := List.mem_map.1 hr'
    have hsettled : k.Settled r := by
      rw [← hrequests] at hr
      exact (List.mem_append.1 hr).elim (hp.settled r) (settled_of_mem_asked hk)
    refine hsettled.enter hk hs fun hanswer hout => ?_
    obtain ⟨i, hi⟩ := List.mem_iff_getElem?.1 hr
    refine (hfree i r hi hanswer (Nat.lt_of_not_le fun hle => ?_)).2.2
    exact hout (hlate i r hi hle)
  · rw [hline, ← List.map_drop, List.map_map]
    rfl
  · rw [hbalance, List.length_map]
  · exact Int.le_max_right _ _
  · rwa [List.length_map]

/-- Who waits after a call and was alive before it has kept its pid. -/
theorem Sound.lineAt_waitList {id : SemaphoreId} (hk : k.Sound)
    (hs : (call.run k).state? = some k')
    (hused : ∀ g ∈ k'.waits.waiting id, k.processes.isUsed g = true) :
    k'.lineAt (.waitList id) = (k'.waits.waiting id).map k.pidAt :=
  List.map_congr_left fun g hg =>
    hk.pidAt_eq hs (hused g hg) ((hk.step (.call call hs)).used_of_mem (p := .waitList id) hg)

/-- The process that blocks comes last. -/
theorem Sound.lineAt_of_block {id : SemaphoreId} (hk : k.Sound) (hs : (call.run k).state? = some k')
    (hh : k.current = some h) (hwaiting : k'.waits.waiting id = k.waits.waiting id ++ [h]) :
    k'.lineAt (.waitList id) = k.lineAt (.waitList id) ++ [k.pidAt h] := by
  refine (hk.lineAt_waitList hs fun g hg => ?_).trans ?_
  · rw [hwaiting] at hg
    rcases List.mem_append.1 hg with hg | hg
    · exact hk.used_of_waiting id g hg
    · exact List.mem_singleton.1 hg ▸ hk.used_of_current hh
  · rw [hwaiting, List.map_append]
    rfl

/-- The process that has waited longest leaves. -/
theorem Sound.lineAt_of_release {id : SemaphoreId} {rest : List Slot} (hk : k.Sound)
    (hs : (call.run k).state? = some k') (hq : k.waits.waiting id = h :: rest)
    (hwaiting : k'.waits.waiting id = rest) :
    k'.lineAt (.waitList id) = rest.map k.pidAt := by
  refine (hk.lineAt_waitList hs fun g hg => ?_).trans (congrArg _ hwaiting)
  rw [hwaiting] at hg
  have hmem : g ∈ k.waits.waiting id := hq ▸ List.mem_cons_of_mem h hg
  exact hk.used_of_waiting id g hmem

/-- A call that does not use the semaphore of the device and terminates no waiter keeps the
pairing. -/
theorem Paired.unused (hp : Paired d x k) (hk : k.Sound) (hs : (call.run k).state? = some k')
    (huse : ∀ u, call.use? k ≠ some (.device d, u))
    (hthinned : (k.view (.device d)).Thinned false (k'.view (.device d)))
    (hlost : (k.view (.device d)).lost (k'.view (.device d)) = 0) :
    Paired d (exchanged d call k k' x) k' := by
  have hk' := hk.step (.call call hs)
  obtain ⟨hlength, hvalue⟩ := hthinned.exists_lost (hk'.used_of_waiting _)
  have hwaiting : k'.waits.waiting (.device d) = k.waits.waiting (.device d) := by
    obtain ⟨gone, -, hfilter, -⟩ := hthinned
    refine List.Sublist.eq_of_length (?_ : List.Sublist (k'.view (.device d)).waiting _) ?_
    · rw [hfilter]
      exact List.filter_sublist
    · rw [hlost] at hlength
      exact hlength
  have hline : k'.lineAt (.waitList (.device d)) = k.lineAt (.waitList (.device d)) := by
    refine (hk.lineAt_waitList hs ?_).trans (congrArg _ hwaiting)
    rw [hwaiting]
    exact hk.used_of_waiting (.device d)
  have hsame : (k'.value (.device d)).toInt = (k.value (.device d)).toInt := by
    have hhigh : (k.value (.device d)).toInt ≤ Count.greatest := (k.value (.device d)).toInt_le
    refine hvalue.trans ?_
    show min Count.greatest ((k.value (.device d)).toInt + 0) = _
    omega
  refine hp.enter hk hs (by rw [asked_of_ne (huse _), List.append_nil])
    (by rw [served_of_ne (huse _), List.append_nil]) (hline.trans hp.waiting)
    (hsame.trans hp.balance) ?_ ?_
  · exact fun status hstatus => (hk.latched_eq hs (huse _)).trans (hp.latched status hstatus)
  · exact fun i r hr hanswer hlt => absurd (hp.le_of_unanswered hr hanswer) (Nat.not_le.2 hlt)

/-- Only a request that has just been made, or one for which a completion has just come, lacks the
answer with its number. -/
theorem Paired.eq_of_unanswered {i : Nat} {a : Request} (hp : Paired d x k)
    (hr : (x.requests ++ [a])[i]? = some r) (hanswer : r.answer = none)
    (hlt : i < x.statuses.length) : i = x.requests.length ∧ r = a := by
  rcases Nat.lt_or_ge i x.requests.length with hold | hnew
  · rw [List.getElem?_append_left hold] at hr
    exact absurd (hp.le_of_unanswered hr hanswer) (Nat.not_le.2 hlt)
  · rw [List.getElem?_append_right hnew] at hr
    have hzero : i - x.requests.length = 0 := by
      have hlength := (List.getElem?_eq_some_iff.1 hr).1
      simpa using hlength
    rw [hzero] at hr
    exact ⟨by omega, (Option.some.inj hr).symm⟩

/-- A request is the last in the order and lowers the value by one. If its completion is already
there, the caller has to get the status at once. -/
theorem Paired.ask (hp : Paired d x k) (hk : k.Sound) (hs : (call.run k).state? = some k')
    (hh : k.current = some h) (huse : call.use? k = some (.device d, .take))
    (hvalue : (k'.value (.device d)).toInt = (k.value (.device d)).toInt - 1)
    (hlength : x.statuses.length ≤ x.requests.length + 1)
    (hline : k'.lineAt (.waitList (.device d)) =
      ((x.requests ++ [(⟨k.pidAt h, none, none⟩ : Request)]).drop x.statuses.length).map (·.caller))
    (hfree : x.requests.length < x.statuses.length →
      k.pidAt h ∉ k'.lineAt (.waitList (.device d)) ∧
        k'.savedResult (k.pidAt h) = x.statuses[x.requests.length]? ∧
        ∀ g, k'.pids.lookup (k.pidAt h) = some g →
          g ∈ k'.ready.items ∨ resumedWith (call.run k) (k.pidAt h) ≠ none) :
    Paired d (exchanged d call k k' x) k' := by
  have hbalance := hp.balance
  refine hp.enter hk hs (by rw [asked_of_take hh huse])
    (by rw [served_of_take huse, List.append_nil]) hline ?_ ?_ ?_
  · rw [hvalue, hbalance]
    simp only [List.length_append, List.length_singleton]
    omega
  · intro status hstatus
    have hlt := (List.getElem?_eq_some_iff.1 hstatus).1
    simp only [List.length_append, List.length_singleton] at hlt
    omega
  · intro i r hr hanswer hlt
    obtain ⟨rfl, rfl⟩ := hp.eq_of_unanswered hr hanswer hlt
    exact hfree hlt

/-- A request that takes the completion that is left over is answered with its status. -/
theorem Paired.take (hp : Paired d x k) (hk : k.Sound) (hs : (call.run k).state? = some k')
    (hh : k.current = some h) (huse : call.use? k = some (.device d, .take))
    (hpos : 0 < (k.value (.device d)).toInt) (hpeak : x.peak ≤ 1)
    (hview : k'.view (.device d) = (k.view (.device d)).add (-1)) :
    Paired d (exchanged d call k k' x) k' := by
  have hbalance := hp.balance
  have hle := hp.le_peak
  have hlength : x.statuses.length = x.requests.length + 1 := by omega
  have hnobody : k'.lineAt (.waitList (.device d)) = [] := by
    have hwaiting : k'.waits.waiting (.device d) = k.waits.waiting (.device d) :=
      congrArg View.waiting hview
    have hempty := hp.waiting
    rw [List.drop_eq_nil_of_le (by omega), List.map_nil] at hempty
    replace hempty : k.waits.waiting (.device d) = [] := List.map_eq_nil_iff.1 hempty
    exact congrArg (List.map k'.pidAt) (hwaiting.trans hempty)
  have hvalue : (k'.value (.device d)).toInt = (k.value (.device d)).toInt - 1 :=
    Count.toInt_of_taken (congrArg View.value hview) (by rw [Count.least]; omega)
  obtain ⟨state, k'', log, hrun, hv0⟩ := hk.resumes_latched hh huse hpos
  obtain rfl : k'' = k' := by
    rw [hrun] at hs
    exact Option.some.inj hs
  obtain ⟨g, -, hlookup, hstate⟩ := hk.current_of_resume hrun
  refine hp.ask hk hs hh huse hvalue (Nat.le_of_eq hlength) ?_ fun hlt => ?_
  · rw [hnobody, List.drop_eq_nil_of_le (by simp [hlength])]
    rfl
  · obtain ⟨status, hstatus⟩ : ∃ status, x.statuses[x.requests.length]? = some status :=
      ⟨_, List.getElem?_eq_getElem hlt⟩
    refine ⟨hnobody ▸ List.not_mem_nil, ?_, fun _ _ => .inr ?_⟩
    · rw [savedResult, hlookup, hstatus, ← hp.latched status hstatus, ← hv0, ← hstate]
      rfl
    · rw [hrun, resumedWith, if_pos rfl]
      exact Option.some_ne_none _

/-- There are not more requests without an answer than processes. -/
theorem Paired.length_le (hp : Paired d x k) (hk : k.Sound) :
    x.requests.length ≤ x.statuses.length + maxProcesses := by
  have hcount : (k.waits.waiting (.device d)).length ≤ maxProcesses :=
    hk.length_waiting_le (.device d)
  have hlines := congrArg List.length hp.waiting
  rw [lineAt, List.length_map, List.length_map, List.length_drop] at hlines
  replace hlines : (k.waits.waiting (.device d)).length = _ := hlines
  omega

/-- A request for which there is no completion yet joins the line. -/
theorem Paired.block (hp : Paired d x k) (hk : k.Sound) (hs : (call.run k).state? = some k')
    (hh : k.current = some h) (huse : call.use? k = some (.device d, .take))
    (hpos : ¬ 0 < (k.value (.device d)).toInt)
    (hview : k'.view (.device d) = ((k.view (.device d)).add (-1)).block true) :
    Paired d (exchanged d call k k' x) k' := by
  have hbalance := hp.balance
  have hlength : x.statuses.length ≤ x.requests.length := by omega
  have hwaiting : k'.waits.waiting (.device d) = k.waits.waiting (.device d) ++ [h] := by
    refine (congrArg View.waiting hview).trans ?_
    show k.waits.waiting (.device d) ++ k.line.take 1 = _
    rw [line_of_current hh]
    rfl
  have hline := hk.lineAt_of_block hs hh hwaiting
  have hvalue : (k'.value (.device d)).toInt = (k.value (.device d)).toInt - 1 := by
    refine Count.toInt_of_taken (congrArg View.value hview) ?_
    -- The value says how many wait, so it is far from its least.
    have hmost := hp.length_le hk
    rw [maxProcesses] at hmost
    rw [Count.least]
    omega
  refine hp.ask hk hs hh huse hvalue (Nat.le_succ_of_le hlength) ?_ fun hlt =>
    absurd hlength (Nat.not_le.2 hlt)
  rw [hline, hp.waiting, List.drop_append_of_le_length hlength, List.map_append]
  rfl

/-- The process that has waited longest for a device that completes gets its status, and then is
ready or runs. -/
theorem Sound.delivered {rest : List Slot} (hk : k.Sound) (hs : (call.run k).state? = some k')
    (hcompletion : call.completion? k = some (d, status))
    (hview : k'.view (.device d) = ((k.view (.device d)).add 1).release true 1)
    (hq : k.waits.waiting (.device d) = h :: rest) :
    k'.pids.lookup (k.pidAt h) = some h ∧ (k'.contextAt h).state.v0 = status ∧
      (h ∈ k'.ready.items ∨ resumedWith (call.run k) (k.pidAt h) ≠ none) := by
  have hk' := hk.step (.call call hs)
  have hat := hk.at_oldest hq
  have hused := hk.used_of_mem hat.mem
  have hused' : k'.processes.isUsed h = true :=
    (congrFun (congrArg View.isUsed hview) h).trans hused
  have hpid := hk.pidAt_eq hs hused hused'
  have hne : k.current ≠ some h := fun hh =>
    Place.noConfusion ((hk.at_processor hh).mem_iff.1 hat.mem)
  have hdelivery : k.deliveryTo (call.completion? k) h = some status := by
    rw [hcompletion, deliveryTo]
    exact if_pos (congrArg List.head? hq)
  have hline : k'.current.toList ++ k'.ready.items = k.line ++ [h] := by
    refine (congrArg View.line hview).trans ?_
    show k.line ++ (k.waits.waiting (.device d)).take 1 = _
    rw [hq]
    rfl
  refine ⟨hk'.indexed.lookup_eq_some_iff.2 ⟨hused', hpid⟩, ?_, ?_⟩
  · rw [hk.contextAt_bystander hs hused hused' hne, hdelivery]
    simp [ProcessorState.v0, ProcessorState.withResult]
  · have hmem : h ∈ k'.current.toList ++ k'.ready.items := by
      rw [hline]
      exact List.mem_append_right _ List.mem_cons_self
    refine (List.mem_append.1 hmem).symm.imp_right fun hcurrent => ?_
    rw [← hpid, hk.resumedWith_of_current hs (Option.mem_toList.1 hcurrent) hne]
    exact Option.some_ne_none _

/-- The process that has waited longest made the oldest request that is not answered. -/
theorem Paired.oldest {rest : List Slot} (hp : Paired d x k)
    (hq : k.waits.waiting (.device d) = h :: rest) :
    ∃ r, x.requests[x.statuses.length]? = some r ∧ r.caller = k.pidAt h ∧
      rest.map k.pidAt = (x.requests.drop (x.statuses.length + 1)).map (·.caller) := by
  have hwaiting := (congrArg (List.map k.pidAt) hq).symm.trans hp.waiting
  cases hdrop : x.requests.drop x.statuses.length with
  | nil =>
    rw [hdrop] at hwaiting
    cases hwaiting
  | cons r rs =>
    rw [hdrop] at hwaiting
    obtain ⟨hcaller, hrest⟩ := List.cons.inj hwaiting
    refine ⟨r, ?_, hcaller.symm, ?_⟩
    · rw [← Nat.add_zero x.statuses.length, ← List.getElem?_drop, hdrop]
      rfl
    · rw [← List.tail_drop, hdrop]
      exact hrest

/-- A process that has been released does not wait any more. -/
theorem Accounted.pidAt_oldest_not_mem {id : SemaphoreId} {rest : List Slot} (hk : k.Accounted)
    (hq : k.waits.waiting id = h :: rest) : k.pidAt h ∉ rest.map k.pidAt := by
  intro hmem
  obtain ⟨g, hg, heq⟩ := List.mem_map.1 hmem
  have hnodup : (h :: rest).Nodup := hq ▸ hk.nodup_standing (.waitList id)
  have hwaits : g ∈ k.standing (.waitList id) := by
    show g ∈ k.waits.waiting id
    exact hq ▸ List.mem_cons_of_mem h hg
  have hsame := hk.indexed.pidAt_injective (hk.used_of_mem hwaits)
    (hk.used_of_mem (hk.at_oldest hq).mem) heq
  exact (List.nodup_cons.1 hnodup).1 (hsame ▸ hg)

/-- A completion for which somebody waits answers the oldest request that is not answered. -/
theorem Paired.deliver {rest : List Slot} (hp : Paired d x k) (hk : k.Sound)
    (hs : (call.run k).state? = some k') (hcompletion : call.completion? k = some (d, status))
    (hview : k'.view (.device d) = ((k.view (.device d)).add 1).release true 1)
    (hq : k.waits.waiting (.device d) = h :: rest) :
    Paired d (exchanged d call k k' x) k' := by
  obtain ⟨hlookup, hv0, hcan⟩ := hk.delivered hs hcompletion hview hq
  obtain ⟨r₀, hr₀, hcaller, hrest⟩ := hp.oldest hq
  have huse := Call.use?_eq_give_iff.2 ⟨status, hcompletion⟩
  have hline : k'.lineAt (.waitList (.device d)) = rest.map k.pidAt := by
    have hwaiting : k'.waits.waiting (.device d) = (k.waits.waiting (.device d)).drop 1 :=
      congrArg View.waiting hview
    rw [hq] at hwaiting
    exact hk.lineAt_of_release hs hq hwaiting
  have hlt : x.statuses.length < x.requests.length := (List.getElem?_eq_some_iff.1 hr₀).1
  have hbalance := hp.balance
  have hvalue : (k'.value (.device d)).toInt = (k.value (.device d)).toInt + 1 :=
    Count.toInt_of_given (congrArg View.value hview) (by rw [Count.greatest]; omega)
  refine hp.enter hk hs (by rw [asked_of_give huse, List.append_nil])
    (by rw [served_of_completion hcompletion]) ?_ ?_ ?_ ?_
  · rw [hline, hrest, List.length_append, List.length_singleton]
  · rw [hvalue, hbalance]
    simp only [List.length_append, List.length_singleton]
    omega
  · intro status' hstatus
    have hlt := (List.getElem?_eq_some_iff.1 hstatus).1
    simp only [List.length_append, List.length_singleton] at hlt
    omega
  · intro i r hr hanswer hi
    have hi' : i = x.statuses.length := by
      have hle := hp.le_of_unanswered hr hanswer
      simp only [List.length_append, List.length_singleton] at hi
      omega
    subst hi'
    obtain rfl := Option.some.inj (hr.symm.trans hr₀)
    rw [hline, hcaller, savedResult, hlookup]
    refine ⟨hk.pidAt_oldest_not_mem hq, ?_, fun g hg => ?_⟩
    · rw [List.getElem?_append_right (Nat.le_refl _), Nat.sub_self, ← hv0]
      rfl
    · exact Option.some.inj hg ▸ hcan

/-- The status of a completion for which nobody waits is left over. -/
theorem Paired.leave (hp : Paired d x k) (hk : k.Sound) (hs : (call.run k).state? = some k')
    (hcompletion : call.completion? k = some (d, status))
    (hview : k'.view (.device d) = ((k.view (.device d)).add 1).release true 1)
    (hq : k.waits.waiting (.device d) = []) (hpeak : (k'.value (.device d)).toInt ≤ 1) :
    Paired d (exchanged d call k k' x) k' := by
  have huse := Call.use?_eq_give_iff.2 ⟨status, hcompletion⟩
  have hadd : k'.value (.device d) = Count.saturatingAdd (k.value (.device d)) 1 :=
    congrArg View.value hview
  have hvalue : (k'.value (.device d)).toInt = (k.value (.device d)).toInt + 1 := by
    refine Count.toInt_of_given hadd ?_
    -- At the greatest value it would be there still, which is more than one.
    rw [hadd, Count.toInt_add_one] at hpeak
    rw [Count.greatest] at hpeak ⊢
    omega
  have hnobody : k'.lineAt (.waitList (.device d)) = [] := by
    have hwaiting : k'.waits.waiting (.device d) = (k.waits.waiting (.device d)).drop 1 :=
      congrArg View.waiting hview
    rw [hq] at hwaiting
    exact congrArg (List.map k'.pidAt) hwaiting
  have hbalance := hp.balance
  have hlength : x.statuses.length = x.requests.length := by
    have hwaiting := (congrArg (List.map k.pidAt) hq).symm.trans hp.waiting
    have hle := List.drop_eq_nil_iff.1 (List.map_eq_nil_iff.1 hwaiting.symm)
    omega
  refine hp.enter hk hs (by rw [asked_of_give huse, List.append_nil])
    (by rw [served_of_completion hcompletion]) ?_ ?_ ?_ ?_
  · rw [hnobody, List.drop_eq_nil_of_le (by simp [hlength])]
    rfl
  · rw [hvalue, hbalance]
    simp only [List.length_append, List.length_singleton]
    omega
  · intro status' hstatus
    rw [List.getElem?_append_right (by omega), hlength, Nat.sub_self] at hstatus
    exact (hk.latched_of_completion hs hcompletion hq).trans (Option.some.inj hstatus)
  · intro i r hr hanswer hi
    have hle := hp.le_of_unanswered hr hanswer
    have hlt := (List.getElem?_eq_some_iff.1 hr).1
    omega

/-- Every call keeps the pairing, if it leaves over no second completion and terminates no
waiter. -/
theorem Paired.step (hp : Paired d x k) (hk : k.Sound) (hs : (call.run k).state? = some k')
    (hpeak : (exchanged d call k k' x).peak ≤ 1) (hlost : (exchanged d call k k' x).lost = 0) :
    Paired d (exchanged d call k k' x) k' := by
  replace hpeak : max x.peak (k'.value (.device d)).toInt ≤ 1 := hpeak
  replace hlost : x.lost + (k.view (.device d)).lost (k'.view (.device d)) = 0 := hlost
  have hspares : k.Spares (.device d) := k.spares_of_soft nofun
  cases hk.transition (SemaphoreId.isOrdinary_device d) hspares hs with
  | give huse hid hview =>
    obtain ⟨status, hcompletion⟩ := Call.use?_eq_give_iff.1 huse
    cases hq : k.waits.waiting (.device d) with
    | cons h rest => exact hp.deliver hk hs hcompletion hview hq
    | nil => exact hp.leave hk hs hcompletion hview hq (by omega)
  | take huse hpos hview =>
    obtain ⟨h, hh⟩ := Option.ne_none_iff_exists'.1 (Call.fits_of_use? huse)
    exact hp.take hk hs hh huse hpos (by omega) hview
  | block huse hpos hh hview => exact hp.block hk hs hh huse hpos hview
  | tick huse hid => cases hid
  | other huse hthinned => exact hp.unused hk hs huse hthinned (by omega)

/-! ## Runs -/

theorem paired_of_boot (hboot : (boot (.new machine config)).state? = some k₀) :
    Paired d .empty k₀ := by
  obtain ⟨hvalue, hwaiters⟩ := untouched_of_boot (SemaphoreId.isOrdinary_device d) hboot
  have hzero : (k₀.value (.device d)).toInt = 0 := by
    rw [hvalue]
    exact congrArg Int32.toInt (Table.get_fill 0 d.place)
  have hnobody : k₀.waits.waiting (.device d) = [] := List.eq_nil_of_length_eq_zero hwaiters
  exact ⟨nofun, nofun, congrArg (List.map k₀.pidAt) hnobody, hzero, Int.le_of_eq hzero, nofun⟩

theorem paired_of_history (hboot : (boot (.new machine config)).state? = some k₀)
    (hrun : History (exchanged d) .empty k₀ x k) (hpeak : x.peak ≤ 1) (hlost : x.lost = 0) :
    Paired d x k := by
  induction hrun with
  | start => exact paired_of_boot hboot
  | @call x k k' hrun call h ih =>
    have hk := hrun.sound (sound_of_boot hboot)
    refine Paired.step (ih ?_ ?_) hk h hpeak hlost
    · exact Int.le_trans (Int.le_max_left _ _) hpeak
    · exact Nat.eq_zero_of_add_eq_zero_right hlost
  | machine hrun machine ih =>
    have hp := ih hpeak hlost
    refine ⟨hp.answered, fun r hr => ?_, hp.waiting, hp.balance, hp.le_peak, hp.latched⟩
    have hsettled := hp.settled r hr
    exact ⟨hsettled.known, hsettled.resumed, hsettled.pending⟩

/-- How the requests for a device are answered: in order, each with the status of the completion
that has its number, and at once exactly if that has come first. -/
structure AnswerLaw (d : Device) (x : Exchange) (k : Kernel) : Prop extends Paired d x k where
  /-- No completion but the last is ever left over. -/
  leftOver : x.statuses.length ≤ x.requests.length + 1
  /-- A request whose completion has come is answered at once. -/
  atOnce : ∀ (call : Call) (h : Slot) (status : Word), k.current = some h →
    call.use? k = some (.device d, .take) → x.statuses[x.requests.length]? = some status →
    ∃ state k' log, call.run k = .ok (.resume (k.pidAt h) state) k' log ∧ state.v0 = status
  /-- The caller of any other request joins those that wait. -/
  joins : ∀ (call : Call) (h : Slot), k.current = some h →
    call.use? k = some (.device d, .take) → x.statuses.length ≤ x.requests.length →
    ∃ k', (call.run k).state? = some k' ∧ k'.current ≠ some h ∧
      k'.waits.waiting (.device d) = k.waits.waiting (.device d) ++ [h]

theorem Paired.answerLaw (hp : Paired d x k) (hk : k.Sound) (hpeak : x.peak ≤ 1) :
    AnswerLaw d x k := by
  have hbalance := hp.balance
  have hle := hp.le_peak
  refine { hp with
    leftOver := by omega
    atOnce := fun call h status hh huse hstatus => ?_
    joins := fun call h hh huse hlength => ?_ }
  · have hlt := (List.getElem?_eq_some_iff.1 hstatus).1
    obtain ⟨state, k', log, hrun, hv0⟩ := hk.resumes_latched hh huse (by omega)
    exact ⟨state, k', log, hrun, hv0.trans (hp.latched status hstatus)⟩
  · have hpos : ¬ 0 < (k.value (.device d)).toInt := by omega
    have hspares : k.Spares (.device d) := k.spares_of_soft nofun
    obtain ⟨k', hs, hgoes, hwaits⟩ :=
      hk.exists_take (SemaphoreId.isOrdinary_device d) hspares hh huse
    exact ⟨k', hs, fun hcurrent => hpos (hgoes.1 hcurrent), hwaits hpos⟩

/-- Every run from the start-up has a record of what is exchanged with a device, and its requests
are answered in order as long as no two completions are left over and nobody is terminated who waits
for the device. -/
theorem answers_of_boot (hboot : (boot (.new machine config)).state? = some k₀) (d : Device) :
    (∀ k, Relation.ReflTransGen Step k₀ k → ∃ x, History (exchanged d) .empty k₀ x k) ∧
    ∀ x k, History (exchanged d) .empty k₀ x k → x.peak ≤ 1 → x.lost = 0 → AnswerLaw d x k := by
  refine ⟨fun k => exists_history_of_steps (exchanged d) _, fun x k hrun hpeak hlost => ?_⟩
  have hk := hrun.sound (sound_of_boot hboot)
  exact (paired_of_history hboot hrun hpeak hlost).answerLaw hk hpeak

/-- A disk completes before the root process asks for it, and again while the root process waits;
its quantum over, the child makes way for it. -/
theorem answers_of_boot_latched : ∃ k₀ x k, (boot (.new Machine.new .usual)).state? = some k₀ ∧
    History (exchanged ⟨.disk, 0⟩) .empty k₀ x k ∧
    x = ⟨[⟨1, some 0x55, some 0x55⟩, ⟨1, some 0x66, some 0x66⟩], [0x55, 0x66], 1, 0⟩ ∧
    AnswerLaw ⟨.disk, 0⟩ x k := by
  obtain ⟨k₀, x, k, hboot, hrun, htest⟩ := exists_history
    (p := fun x _ =>
      x = ⟨[⟨1, some 0x55, some 0x55⟩, ⟨1, some 0x66, some 0x66⟩], [0x55, 0x66], 1, 0⟩)
    (exchanged ⟨.disk, 0⟩) .empty
    [.schedule, .deliver (.request 1 0x20001000 0 0 false), .deliver (.device 3 0 0x55),
      .deliver (.request 8 3 0 0 false), .deliver (.request 8 3 0 0 false),
      .deliver (.device 3 0 0x66), .deliver .timer] (by decide +kernel)
  have hx := of_decide_eq_true htest
  have hpeak : x.peak ≤ 1 := Int.le_of_eq (congrArg Exchange.peak hx)
  have hlost : x.lost = 0 := congrArg Exchange.lost hx
  exact ⟨k₀, x, k, hboot, hrun, hx, (answers_of_boot hboot _).2 x k hrun hpeak hlost⟩

end Kernel

end Nucleus
