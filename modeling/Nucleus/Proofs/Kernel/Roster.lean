import Nucleus.Proofs.Kernel.Deeds

/-!
# Rosters

The moves of a run tell who stands where and in which order they came (`standingAfter`). The queues
of the nucleus agree with this roster after every course (`Course.roster`), and whoever leaves a
queue alive is the one who has been there longest (`Orderly`). So nobody is overtaken, whatever
happens to the others (`Orderly.not_overtaken`).
-/

namespace Nucleus

/-! ## Arrivals -/

/-- What a move makes of the line at a place: who moves leaves it, or comes to its end. -/
def Move.apply (place : Place) (line : List Pid) (m : Move) : List Pid :=
  line.filter (· ≠ m.pid) ++ if m.place = some place then [m.pid] else []

/-- Who stands at a place after some moves, in the order of arrival. -/
def standingAfter (ms : List Move) (place : Place) : List Pid := ms.foldl (Move.apply place) []

variable {ms before after : List Move} {m : Move} {place : Place} {line : List Pid}
  {p q : Pid}

theorem standingAfter_append (ms later : List Move) (place : Place) :
    standingAfter (ms ++ later) place = later.foldl (Move.apply place) (standingAfter ms place) :=
  List.foldl_append

theorem nodup_foldl_apply (later : List Move) (hline : line.Nodup) :
    (later.foldl (Move.apply place) line).Nodup := by
  induction later generalizing line with
  | nil => exact hline
  | cons m later ih =>
    refine ih (List.Nodup.append (hline.filter _) (by split <;> simp) fun p hp hp' => ?_)
    split at hp'
    · rw [List.mem_singleton.1 hp'] at hp
      exact absurd rfl (of_decide_eq_true (List.mem_filter.1 hp).2)
    · cases hp'

theorem nodup_standingAfter (ms : List Move) (place : Place) : (standingAfter ms place).Nodup :=
  nodup_foldl_apply ms List.nodup_nil

/-- Those who do not move stay in their order. -/
theorem sublist_foldl_apply {stay : List Pid} (later : List Move) (hsub : stay.Sublist line)
    (hstay : ∀ m ∈ later, m.pid ∉ stay) : stay.Sublist (later.foldl (Move.apply place) line) := by
  induction later generalizing line with
  | nil => exact hsub
  | cons m later ih =>
    refine ih ?_ fun m' hm' => hstay m' (List.mem_cons_of_mem m hm')
    have hm := hstay m List.mem_cons_self
    have hfilter : stay.filter (· ≠ m.pid) = stay :=
      List.filter_eq_self.2 fun p hp => decide_eq_true fun heq => hm (heq ▸ hp)
    have hkept := hsub.filter (· ≠ m.pid)
    rw [hfilter] at hkept
    exact hkept.trans (List.sublist_append_left _ _)

/-- Whoever leaves a queue alive is the one who has been there longest. -/
def Orderly (ms : List Move) : Prop :=
  ∀ before m after, ms = before ++ m :: after → m.place ≠ none → ∀ place, place ≠ .processor →
    m.pid ∈ standingAfter before place → (standingAfter before place).head? = some m.pid

theorem orderly_nil : Orderly [] := fun _ _ _ h => by simp at h

theorem Orderly.concat (h : Orderly ms)
    (hm : m.place ≠ none → ∀ place, place ≠ .processor → m.pid ∈ standingAfter ms place →
      (standingAfter ms place).head? = some m.pid) : Orderly (ms ++ [m]) := by
  intro before m' after heq
  rcases List.eq_nil_or_concat after with rfl | ⟨after, last, rfl⟩
  · obtain ⟨rfl, hlast⟩ := List.append_inj' heq rfl
    obtain rfl := List.singleton_inj.1 hlast
    exact hm
  · rw [List.concat_eq_append, ← List.cons_append, ← List.append_assoc] at heq
    exact h before m' after (List.append_inj' heq rfl).1

/-- Of two processes that stay where they are, the one that came later does not leave first. -/
theorem Orderly.not_overtaken {a b c rest : List Move} {dest : Option Place}
    (h : Orderly (a ++ ⟨p, some place⟩ :: (b ++ ⟨q, some place⟩ :: (c ++ ⟨q, dest⟩ :: rest))))
    (hplace : place ≠ .processor) (hdest : dest ≠ none) (hne : p ≠ q)
    (hp : ∀ m ∈ b ++ c, m.pid ≠ p) (hq : ∀ m ∈ c, m.pid ≠ q) : False := by
  -- `p` stands there when `q` comes, and both are still there in this order at the end of `c`.
  have hfirst : [p].Sublist (standingAfter (a ++ ⟨p, some place⟩ :: b) place) := by
    rw [standingAfter_append, List.foldl_cons, Move.apply, if_pos rfl]
    refine sublist_foldl_apply b (List.sublist_append_right _ _) fun m hm hmem => ?_
    exact hp m (List.mem_append_left c hm) (List.mem_singleton.1 hmem)
  have hboth : [p, q].Sublist
      (standingAfter ((a ++ ⟨p, some place⟩ :: b) ++ ⟨q, some place⟩ :: c) place) := by
    rw [standingAfter_append, List.foldl_cons, Move.apply, if_pos rfl]
    refine sublist_foldl_apply c ?_ fun m hm hmem => ?_
    · have hkept := hfirst.filter (· ≠ q)
      rw [show [p].filter (· ≠ q) = [p] by simp [hne]] at hkept
      exact hkept.append (List.Sublist.refl [q])
    · rcases List.mem_cons.1 hmem with heq | hmem
      · exact hp m (List.mem_append_right b hm) heq
      · exact hq m hm (List.mem_singleton.1 hmem)
  have hhead := h ((a ++ ⟨p, some place⟩ :: b) ++ ⟨q, some place⟩ :: c) ⟨q, dest⟩ rest (by simp)
    hdest place hplace (hboth.subset (by simp))
  have hnodup := nodup_standingAfter ((a ++ ⟨p, some place⟩ :: b) ++ ⟨q, some place⟩ :: c) place
  obtain ⟨tail, htail⟩ := List.head?_eq_some_iff.1 hhead
  rw [htail] at hboth hnodup
  -- The first of the line is `q`, so it would stand there twice.
  cases hboth with
  | cons _ hsub => exact (List.nodup_cons.1 hnodup).1 (hsub.subset (by simp))
  | cons_cons => exact hne rfl

/-! ## The queues of the nucleus -/

namespace Kernel

open Outcome

variable {k k' : Kernel} {h g : Slot} {deed : Deed} {allowed : Deed → Prop} {ms' : List Move}
  {pid : Pid} {dest : Option Place}

/-- The processes at a place, in the order in which they stand there. -/
def lineAt (k : Kernel) (place : Place) : List Pid := (k.standing place).map k.pidAt

/-- The queues of the nucleus are as the moves say, and these were orderly. -/
structure Roster (ms : List Move) (k : Kernel) : Prop where
  line : ∀ place, k.lineAt place = standingAfter ms place
  orderly : Orderly ms

/-- A process that moves leaves its line and comes to the end of another. -/
theorem lineAt_of_move (hk : k.Accounted)
    (hstanding : ∀ r, k'.standing r =
      (k.standing r).filter (· ≠ h) ++ if dest = some r then [h] else [])
    (hkept : ∀ g, k.processes.isUsed g = true → g ≠ h → k'.pidAt g = k.pidAt g ∧ k.pidAt g ≠ pid)
    (hself : k.processes.isUsed h = true → k.pidAt h = pid)
    (hdest : dest ≠ none → k'.pidAt h = pid) (r : Place) :
    k'.lineAt r = Move.apply r (k.lineAt r) ⟨pid, dest⟩ := by
  have hold : ((k.standing r).filter (· ≠ h)).map k'.pidAt = (k.lineAt r).filter (· ≠ pid) := by
    rw [lineAt, List.filter_map]
    have hfilter : (k.standing r).filter ((fun p => decide (p ≠ pid)) ∘ k.pidAt) =
        (k.standing r).filter (· ≠ h) := by
      refine List.filter_congr fun g hg => decide_eq_decide.2 ?_
      have hused := hk.used_of_mem hg
      constructor
      · rintro hne rfl
        exact hne (hself hused)
      · exact fun hne => (hkept g hused hne).2
    rw [hfilter]
    refine List.map_congr_left fun g hg => ?_
    obtain ⟨hmem, hne⟩ := List.mem_filter.1 hg
    exact (hkept g (hk.used_of_mem hmem) (of_decide_eq_true hne)).1
  rw [lineAt, hstanding, List.map_append, hold, Move.apply]
  split
  · rename_i heq
    have hne : dest ≠ none := heq ▸ Option.some_ne_none r
    rw [List.map_singleton, hdest hne]
  · rfl

theorem Accounted.erase_standing (hk : k.Accounted) (h : Slot) (r : Place) :
    (k.standing r).erase h = (k.standing r).filter (· ≠ h) := by
  rw [(hk.nodup_standing r).erase_eq_filter]
  exact List.filter_congr fun g _ => by rw [Bool.eq_iff_iff, bne_iff_ne, decide_eq_true_iff]

theorem filter_standing_of_not_mem {r : Place} (hmem : h ∉ k.standing r) :
    (k.standing r).filter (· ≠ h) = k.standing r :=
  List.filter_eq_self.2 fun _ hg => decide_eq_true fun heq => hmem (heq ▸ hg)

theorem Moved.lineAt {p q : Place} (hm : k.Moved h p q k') (hk : k.Accounted) (hp : k.At h p)
    (hne : p ≠ q) (r : Place) : k'.lineAt r = Move.apply r (k.lineAt r) ⟨k.pidAt h, some q⟩ := by
  have hpid : ∀ g, k'.pidAt g = k.pidAt g := fun g => (hm.sameLinks g).pid
  have hused := hk.used_of_mem hp.mem
  refine lineAt_of_move hk (fun r => ?_) (fun g hg hgh => ⟨hpid g, fun heq => ?_⟩) (fun _ => rfl)
    (fun _ => hpid h) r
  · by_cases hrp : r = p
    · subst hrp
      rw [hm.leaves, hk.erase_standing, if_neg fun heq => hne (Option.some.inj heq).symm,
        List.append_nil]
    · rw [filter_standing_of_not_mem fun hmem => hrp (hp.mem_iff.1 hmem)]
      by_cases hrq : r = q
      · rw [hrq, hm.joins, if_pos rfl]
      · rw [hm.others r hrp hrq, if_neg fun heq => hrq (Option.some.inj heq).symm, List.append_nil]
  · exact hgh (hk.indexed.pidAt_injective hg hused heq)

/-- A new process comes to the end of the ready queue. -/
theorem Enrolled.lineAt (he : k.Enrolled h (k.lastPid + 1) k') (hk : k.Accounted)
    (hlast : k.lastPid ≠ Word.allOnes) (r : Place) :
    k'.lineAt r = Move.apply r (k.lineAt r) ⟨k.lastPid + 1, some .ready⟩ := by
  obtain ⟨-, -, hlater⟩ := hk.pidAt_lt_succ hlast
  have hfree := he.grown.wasFree
  refine lineAt_of_move hk (h := h) (fun r => ?_)
    (fun g hg hgh => ⟨he.pidAt_of_ne (Ne.symm hgh), (UInt32.ne_of_lt (hlater g hg))⟩)
    (fun hh => Bool.noConfusion (hfree.symm.trans hh)) (fun _ => he.grown.pid) r
  rw [filter_standing_of_not_mem (hk.absent hfree r)]
  cases r with
  | ready => exact he.ready
  | processor =>
    rw [if_neg nofun, List.append_nil]
    exact congrArg Option.toList he.current
  | waitList id =>
    rw [if_neg nofun, List.append_nil]
    exact congrArg (WaitLists.waiting · id) he.waits

/-- A process that is terminated is gone from every line. -/
theorem Retired.lineAt (hr : k.Retired h k') (hk : k.Accounted)
    (hh : k.processes.isUsed h = true) (r : Place) :
    k'.lineAt r = Move.apply r (k.lineAt r) ⟨k.pidAt h, none⟩ := by
  refine lineAt_of_move hk (h := h) (fun r => ?_) (fun g hg hgh => ⟨?_, fun heq => ?_⟩)
    (fun _ => rfl) (fun hne => absurd rfl hne) r
  · rw [hr.standing, hk.erase_standing, if_neg nofun, List.append_nil]
  · rw [pidAt, hr.kept g hg (Ne.symm hgh)]
    rfl
  · exact hgh (hk.indexed.pidAt_injective hg hh heq)

/-- Nobody moves. -/
theorem lineAt_congr (hk : k.SameBooks k') (r : Place) : k'.lineAt r = k.lineAt r := by
  rw [lineAt, lineAt, hk.standing, funext hk.pidAt]

/-- What a deed does to a line: the process that moves, if one does, leaves it or comes to its
end. -/
theorem Leads.lineAt (h : k.Leads deed k') (hk : k.Accounted) (r : Place) :
    k'.lineAt r = (k.moveOf deed).toList.foldl (Move.apply r) (k.lineAt r) := by
  cases h with
  | world hsame => exact lineAt_congr hsame.alike.toSameBooks r
  | latch d status =>
    exact lineAt_congr (Alike.of_eq rfl rfl rfl rfl rfl rfl rfl).toSameBooks r
  | save hh state => exact lineAt_congr (Alike.setState k _ state).toSameBooks r
  | result hh value => exact lineAt_congr (Alike.giveResult k _ value).toSameBooks r
  | charge | announce =>
    refine lineAt_congr ?_ r
    exact .modify fun _ => ⟨rfl, rfl, rfl, rfl, rfl⟩
  | block hh hm hw => exact hm.lineAt hk (hk.at_processor hh) Place.noConfusion r
  | @wake h id rest _ hq hm hw =>
    have hmem : h ∈ k.standing (.waitList id) := by
      show h ∈ k.waits.waiting id
      exact hq ▸ List.mem_cons_self
    exact hm.lineAt hk (hk.at_of_mem hmem) Place.noConfusion r
  | expire hh =>
    exact (moved_of_expiry hk hh).lineAt hk (hk.at_processor hh) Place.noConfusion r
  | @dispatch h rest hcurrent hready =>
    have hmem : h ∈ k.standing .ready := by
      show h ∈ k.ready.items
      exact hready ▸ List.mem_cons_self
    have hline := (moved_of_dispatch hk hcurrent hready).lineAt hk (hk.at_of_mem hmem)
      Place.noConfusion r
    refine Eq.trans (lineAt_congr ?_ r) hline
    exact .modify fun _ => ⟨rfl, rfl, rfl, rfl, rfl⟩
  | enroll hlast he hl hw => exact he.lineAt hk hlast r
  | retire hh hchildren hr hs => exact hr.lineAt hk hh r

/-- A process with the pid of one that stands at a place is that one. -/
theorem Accounted.mem_standing (hk : k.Accounted) {r : Place} (hh : k.processes.isUsed h = true)
    (hmem : k.pidAt h ∈ k.lineAt r) : h ∈ k.standing r := by
  obtain ⟨g, hg, heq⟩ := List.mem_map.1 hmem
  exact hk.indexed.pidAt_injective (hk.used_of_mem hg) hh heq ▸ hg

/-- Whoever leaves a queue alive is its head. -/
theorem Leads.head {m : Move} {r : Place} (h : k.Leads deed k') (hk : k.Accounted)
    (hm : k.moveOf deed = some m) (hdest : m.place ≠ none) (hr : r ≠ .processor)
    (hmem : m.pid ∈ k.lineAt r) : (k.lineAt r).head? = some m.pid := by
  have hrunning : ∀ {h}, k.current = some h → k.pidAt h ∉ k.lineAt r := fun hh hmem =>
    hr ((hk.at_processor hh).mem_iff.1 (hk.mem_standing (hk.used_of_current hh) hmem))
  have hfirst : ∀ {h q rest}, k.standing q = h :: rest → k.pidAt h ∈ k.lineAt r →
      (k.lineAt r).head? = some (k.pidAt h) := by
    intro h q rest hq hmem
    have hmemq : h ∈ k.standing q := hq ▸ List.mem_cons_self
    obtain rfl := (hk.at_of_mem hmemq).mem_iff.1 (hk.mem_standing (hk.used_of_mem hmemq) hmem)
    rw [Kernel.lineAt, hq]
    rfl
  cases h with
  | block hh hm' hw | expire hh =>
    cases hm
    exact absurd hmem (hrunning hh)
  | @wake h id rest _ hq hm' hw =>
    cases hm
    exact hfirst (q := .waitList id) hq hmem
  | dispatch hcurrent hready =>
    cases hm
    exact hfirst (q := .ready) hready hmem
  | enroll hlast he hl hw =>
    cases hm
    -- Nobody has the next pid yet.
    obtain ⟨g, hg, heq⟩ := List.mem_map.1 hmem
    obtain ⟨-, -, hlater⟩ := hk.pidAt_lt_succ hlast
    exact absurd heq (UInt32.ne_of_lt (hlater g (hk.used_of_mem hg)))
  | retire =>
    cases hm
    exact absurd rfl hdest
  | _ => cases hm

namespace Roster

theorem leads (hr : Roster ms k) (hk : k.Accounted) (h : k.Leads deed k') :
    Roster (ms ++ (k.moveOf deed).toList) k' where
  line := fun place => by
    rw [h.lineAt hk, hr.line, standingAfter_append]
  orderly := by
    cases hm : k.moveOf deed with
    | none => exact (List.append_nil ms).symm ▸ hr.orderly
    | some m =>
      refine hr.orderly.concat fun hdest place hplace hmem => ?_
      rw [← hr.line place] at hmem ⊢
      exact h.head hk hm hdest hplace hmem

/-- A course adds its moves to the roster. -/
theorem course (hr : Roster ms k) (hk : k.Accounted) (hc : Course allowed k ms' k') :
    Roster (ms ++ ms') k' := by
  induction hc generalizing ms with
  | refl => exact (List.append_nil ms).symm ▸ hr
  | cons hd h _ ih =>
    rw [← List.append_assoc]
    exact ih (hr.leads hk h) (hk.leads h)

end Roster

end Kernel

end Nucleus
