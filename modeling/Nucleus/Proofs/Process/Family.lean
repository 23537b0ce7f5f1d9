import Nucleus.Proofs.Process.Table
import Mathlib.Logic.Relation

/-!
# The process tree

The links between parents and children agree in a `Linked` table, and a child has a later pid than
its parent. So there are no cycles: `family` lists a process with all its descendants, each once and
each after its own children (`Linked.childrenFirst_family`).
-/

namespace Nucleus.ProcessTable

variable {t u : ProcessTable} {h i p c g : Slot}

/-- The pid of the process in a slot. -/
def pidAt (t : ProcessTable) (h : Slot) : Pid := (t.get h).pid

/-- The parent of the process in a slot. -/
def parentAt (t : ProcessTable) (h : Slot) : Option Slot := (t.get h).parent

/-- Parents and children agree on their links, and children come in the order of their pids, which
are later than their parent's. -/
structure Linked (t : ProcessTable) : Prop where
  parent : ∀ {h p}, t.isUsed h = true → t.parentAt h = some p →
    t.isUsed p = true ∧ h ∈ t.children p
  child : ∀ {h c}, t.isUsed h = true → c ∈ t.children h →
    t.isUsed c = true ∧ t.parentAt c = some h
  later : ∀ {h c}, t.isUsed h = true → c ∈ t.children h → t.pidAt h < t.pidAt c
  ascending : ∀ {h}, t.isUsed h = true →
    (t.children h).Pairwise fun a b => t.pidAt a < t.pidAt b

theorem linked_empty : empty.Linked where
  parent := fun hh => absurd ((isUsed_empty _).symm.trans hh) Bool.false_ne_true
  child := fun hh => absurd ((isUsed_empty _).symm.trans hh) Bool.false_ne_true
  later := fun hh => absurd ((isUsed_empty _).symm.trans hh) Bool.false_ne_true
  ascending := fun hh => absurd ((isUsed_empty _).symm.trans hh) Bool.false_ne_true

/-- Two tables agree on the tree at a slot. -/
structure SameLinks (t u : ProcessTable) (h : Slot) : Prop where
  pid : u.pidAt h = t.pidAt h
  parent : u.parentAt h = t.parentAt h
  children : u.children h = t.children h

/-- Detaching a process changes nothing but links. -/
theorem exists_get_detach (t : ProcessTable) (h i : Slot) :
    ∃ parent children, (t.detach h).get i = { t.get i with parent, children } := by
  unfold detach detach?
  cases (t.get h).parent with
  | none => exact ⟨_, _, rfl⟩
  | some p =>
    rw [Option.map_some, Option.getD_some]
    simp only [get_modify]
    by_cases hp : p = i
    · subst hp
      by_cases hh : h = p
      · subst hh
        exact ⟨none, (t.children h).filter (· ≠ h), by simp [children]⟩
      · exact ⟨_, (t.children p).filter (· ≠ h), by rw [if_pos rfl, if_neg hh]; rfl⟩
    · by_cases hh : h = i
      · subst hh
        exact ⟨none, _, by rw [if_neg hp, if_pos rfl]⟩
      · exact ⟨_, _, by rw [if_neg hp, if_neg hh]⟩

theorem inUse_detach (t : ProcessTable) (h : Slot) : (t.detach h).inUse = t.inUse := by
  unfold detach detach?
  cases (t.get h).parent <;> rfl

theorem isUsed_detach (t : ProcessTable) (h i : Slot) : (t.detach h).isUsed i = t.isUsed i := by
  simp only [isUsed, inUse_detach]

theorem free_detach (t : ProcessTable) (h : Slot) : (t.detach h).free = t.free := by
  unfold detach detach?
  cases (t.get h).parent <;> rfl

namespace Linked

theorem congr (ht : t.Linked) (hused : ∀ h, u.isUsed h = t.isUsed h)
    (hlinks : ∀ h, t.SameLinks u h) : u.Linked where
  parent := fun {h p} hh hp => by
    rw [hused] at hh
    rw [(hlinks h).parent] at hp
    rw [hused, (hlinks p).children]
    exact ht.parent hh hp
  child := fun {h c} hh hc => by
    rw [hused] at hh
    rw [(hlinks h).children] at hc
    rw [hused, (hlinks c).parent]
    exact ht.child hh hc
  later := fun {h c} hh hc => by
    rw [hused] at hh
    rw [(hlinks h).children] at hc
    rw [(hlinks h).pid, (hlinks c).pid]
    exact ht.later hh hc
  ascending := fun {h} hh => by
    rw [hused] at hh
    rw [(hlinks h).children]
    refine (ht.ascending hh).imp fun {a b} hab => ?_
    rw [(hlinks a).pid, (hlinks b).pid]
    exact hab

theorem pid_lt_of_parent (ht : t.Linked) (hh : t.isUsed h = true) (hp : t.parentAt h = some p) :
    t.pidAt p < t.pidAt h := by
  obtain ⟨hpused, hmem⟩ := ht.parent hh hp
  exact ht.later hpused hmem

theorem parent_ne (ht : t.Linked) (hh : t.isUsed h = true) (hp : t.parentAt h = some p) :
    p ≠ h := by
  rintro rfl
  exact UInt32.lt_irrefl _ (ht.pid_lt_of_parent hh hp)

/-! ## Detaching a process -/

theorem get_detach (ht : t.Linked) (hh : t.isUsed h = true) (hi : t.isUsed i = true) :
    (t.detach h).get i =
      if h = i then { t.get h with parent := none }
      else { t.get i with children := (t.children i).filter (· ≠ h) } := by
  unfold detach detach?
  cases hp : (t.get h).parent with
  | none =>
    have hchildren : (t.children i).filter (· ≠ h) = t.children i := by
      refine List.filter_eq_self.2 fun c hc => decide_eq_true ?_
      rintro rfl
      have hparent := (ht.child hi hc).2
      unfold parentAt at hparent
      rw [hp] at hparent
      cases hparent
    rw [hchildren, Option.map_none, Option.getD_none]
    split
    · rename_i heq
      subst heq
      rw [← hp]
    · rfl
  | some p =>
    have hne : p ≠ h := ht.parent_ne hh hp
    rw [Option.map_some, Option.getD_some]
    simp only [get_modify]
    rw [if_neg (Ne.symm hne)]
    by_cases hip : p = i
    · subst hip
      rw [if_pos rfl, if_neg (Ne.symm hne)]
      rfl
    · rw [if_neg hip]
      split
      · rfl
      · have hchildren : (t.children i).filter (· ≠ h) = t.children i := by
          refine List.filter_eq_self.2 fun c hc => decide_eq_true ?_
          rintro rfl
          exact hip (Option.some.inj (hp.symm.trans (ht.child hi hc).2))
        rw [hchildren]
        rfl

theorem get_detach_of_unused (ht : t.Linked) (hh : t.isUsed h = true)
    (hi : t.isUsed i = false) : (t.detach h).get i = t.get i := by
  have hne : ∀ {j}, t.isUsed j = true → j ≠ i := fun hj heq => by
    rw [← heq, hj] at hi
    cases hi
  unfold detach detach?
  cases hp : (t.get h).parent with
  | none => rfl
  | some p =>
    rw [Option.map_some, Option.getD_some]
    simp only [get_modify]
    rw [if_neg (hne (ht.parent hh hp).1), if_neg (hne hh)]

theorem pidAt_detach (ht : t.Linked) (hh : t.isUsed h = true) (hi : t.isUsed i = true) :
    (t.detach h).pidAt i = t.pidAt i := by
  simp only [pidAt, ht.get_detach hh hi]
  split
  · rename_i heq
    rw [heq]
  · rfl

theorem parentAt_detach (ht : t.Linked) (hh : t.isUsed h = true) (hi : t.isUsed i = true) :
    (t.detach h).parentAt i = if h = i then none else t.parentAt i := by
  simp only [parentAt, ht.get_detach hh hi]
  split <;> rfl

theorem children_detach (ht : t.Linked) (hh : t.isUsed h = true) (hi : t.isUsed i = true) :
    (t.detach h).children i = (t.children i).filter (· ≠ h) := by
  simp only [children, ht.get_detach hh hi]
  split
  · rename_i heq
    subst heq
    refine (List.filter_eq_self.2 fun c hc => decide_eq_true ?_).symm
    rintro rfl
    exact UInt32.lt_irrefl _ (ht.later hh hc)
  · rfl

theorem mem_children_detach (ht : t.Linked) (hh : t.isUsed h = true) (hi : t.isUsed i = true) :
    c ∈ (t.detach h).children i ↔ c ∈ t.children i ∧ c ≠ h := by
  rw [ht.children_detach hh hi, List.mem_filter, decide_eq_true_iff]

theorem detach (ht : t.Linked) (hh : t.isUsed h = true) : (t.detach h).Linked := by
  constructor <;> simp only [isUsed_detach]
  case parent =>
    intro i p hi hp
    rw [ht.parentAt_detach hh hi] at hp
    by_cases hne : h = i
    · rw [if_pos hne] at hp
      cases hp
    · rw [if_neg hne] at hp
      obtain ⟨hpused, hmem⟩ := ht.parent hi hp
      exact ⟨hpused, (ht.mem_children_detach hh hpused).2 ⟨hmem, Ne.symm hne⟩⟩
  case child =>
    intro i c hi hc
    obtain ⟨hc, hne⟩ := (ht.mem_children_detach hh hi).1 hc
    obtain ⟨hcused, hcp⟩ := ht.child hi hc
    rw [ht.parentAt_detach hh hcused, if_neg (Ne.symm hne)]
    exact ⟨hcused, hcp⟩
  case later =>
    intro i c hi hc
    obtain ⟨hc, -⟩ := (ht.mem_children_detach hh hi).1 hc
    rw [ht.pidAt_detach hh hi, ht.pidAt_detach hh (ht.child hi hc).1]
    exact ht.later hi hc
  case ascending =>
    intro i hi
    have hasc : ((t.detach h).children i).Pairwise fun a b => t.pidAt a < t.pidAt b := by
      rw [ht.children_detach hh hi]
      exact (ht.ascending hi).sublist List.filter_sublist
    refine hasc.imp_of_mem fun {a b} ha hb hab => ?_
    obtain ⟨ha, -⟩ := (ht.mem_children_detach hh hi).1 ha
    obtain ⟨hb, -⟩ := (ht.mem_children_detach hh hi).1 hb
    rw [ht.pidAt_detach hh (ht.child hi ha).1, ht.pidAt_detach hh (ht.child hi hb).1]
    exact hab

/-- A process that is linked with no other can go. -/
theorem remove (ht : t.Linked) (hp : t.parentAt h = none)
    (hc : t.children h = []) (hused : ∀ i, u.isUsed i = if h = i then false else t.isUsed i)
    (hget : ∀ i, t.isUsed i = true → h ≠ i → t.SameLinks u i) : u.Linked := by
  have hkept : ∀ {i}, u.isUsed i = true → h ≠ i ∧ t.isUsed i = true := fun {i} hi => by
    rw [hused] at hi
    split at hi
    · cases hi
    · rename_i hne
      exact ⟨hne, hi⟩
  have hstays : ∀ {i}, h ≠ i → t.isUsed i = true → u.isUsed i = true := fun hne hi => by
    rw [hused, if_neg hne]
    exact hi
  have hchild : ∀ {i c}, h ≠ i → t.isUsed i = true → c ∈ u.children i →
      c ∈ t.children i ∧ h ≠ c := fun {i c} hne hi hc => by
    rw [(hget i hi hne).children] at hc
    refine ⟨hc, ?_⟩
    rintro rfl
    have := (ht.child hi hc).2
    rw [hp] at this
    cases this
  constructor
  case parent =>
    intro i p hi hip
    obtain ⟨hne, hi⟩ := hkept hi
    rw [(hget i hi hne).parent] at hip
    obtain ⟨hpused, hmem⟩ := ht.parent hi hip
    have hnep : h ≠ p := by
      rintro rfl
      rw [hc] at hmem
      exact List.not_mem_nil hmem
    rw [(hget p hpused hnep).children]
    exact ⟨hstays hnep hpused, hmem⟩
  case child =>
    intro i c hi hc
    obtain ⟨hne, hi⟩ := hkept hi
    obtain ⟨hc, hnec⟩ := hchild hne hi hc
    rw [(hget c (ht.child hi hc).1 hnec).parent]
    exact ⟨hstays hnec (ht.child hi hc).1, (ht.child hi hc).2⟩
  case later =>
    intro i c hi hc
    obtain ⟨hne, hi⟩ := hkept hi
    obtain ⟨hc, hnec⟩ := hchild hne hi hc
    rw [(hget i hi hne).pid, (hget c (ht.child hi hc).1 hnec).pid]
    exact ht.later hi hc
  case ascending =>
    intro i hi
    obtain ⟨hne, hi⟩ := hkept hi
    have hasc := ht.ascending hi
    rw [← (hget i hi hne).children] at hasc
    refine hasc.imp_of_mem fun {a b} ha hb hab => ?_
    obtain ⟨hat, hna⟩ := hchild hne hi ha
    obtain ⟨hbt, hnb⟩ := hchild hne hi hb
    rw [(hget a (ht.child hi hat).1 hna).pid, (hget b (ht.child hi hbt).1 hnb).pid]
    exact hab

/-! ## Adding a process -/

/-- A process that is linked with no other can come. -/
theorem add (ht : t.Linked) (hh : t.isUsed h = false) (hp : u.parentAt h = none)
    (hc : u.children h = []) (hused : ∀ i, u.isUsed i = if h = i then true else t.isUsed i)
    (hget : ∀ i, h ≠ i → t.SameLinks u i) : u.Linked := by
  have hne : ∀ {i}, t.isUsed i = true → h ≠ i := fun {i} hi heq => by
    rw [← heq, hh] at hi
    exact Bool.false_ne_true hi
  have hstays : ∀ {i}, t.isUsed i = true → u.isUsed i = true := fun {i} hi => by
    rw [hused, if_neg (hne hi)]
    exact hi
  have hchild : ∀ {i c}, u.isUsed i = true → c ∈ u.children i →
      t.isUsed i = true ∧ c ∈ t.children i := fun {i c} hi hmem => by
    have hni : h ≠ i := by
      rintro rfl
      rw [hc] at hmem
      exact List.not_mem_nil hmem
    rw [hused, if_neg hni] at hi
    rw [(hget i hni).children] at hmem
    exact ⟨hi, hmem⟩
  constructor
  case parent =>
    intro i p hi hip
    have hni : h ≠ i := by
      rintro rfl
      rw [hp] at hip
      cases hip
    rw [hused, if_neg hni] at hi
    rw [(hget i hni).parent] at hip
    obtain ⟨hpused, hmem⟩ := ht.parent hi hip
    rw [(hget p (hne hpused)).children]
    exact ⟨hstays hpused, hmem⟩
  case child =>
    intro i c hi hmem
    obtain ⟨hi, hmem⟩ := hchild hi hmem
    obtain ⟨hcused, hcp⟩ := ht.child hi hmem
    exact ⟨hstays hcused, (hget c (hne hcused)).parent.trans hcp⟩
  case later =>
    intro i c hi hmem
    obtain ⟨hi, hmem⟩ := hchild hi hmem
    rw [(hget i (hne hi)).pid, (hget c (hne (ht.child hi hmem).1)).pid]
    exact ht.later hi hmem
  case ascending =>
    intro i hi
    by_cases hni : h = i
    · subst hni
      rw [hc]
      exact List.Pairwise.nil
    · rw [hused, if_neg hni] at hi
      rw [(hget i hni).children]
      refine (ht.ascending hi).imp_of_mem fun {a b} ha hb hab => ?_
      rw [(hget a (hne (ht.child hi ha).1)).pid, (hget b (hne (ht.child hi hb).1)).pid]
      exact hab

end Linked

theorem get_attach (hne : p ≠ c) (i : Slot) :
    (t.attach p c).get i =
      if c = i then { t.get c with parent := some p }
      else if p = i then { t.get p with children := t.children p ++ [c] }
      else t.get i := by
  unfold attach
  simp only [get_modify, if_neg hne]
  rfl

theorem isUsed_attach (t : ProcessTable) (p c i : Slot) :
    (t.attach p c).isUsed i = t.isUsed i := rfl

theorem pidAt_attach (hne : p ≠ c) (i : Slot) : (t.attach p c).pidAt i = t.pidAt i := by
  simp only [pidAt, get_attach hne]
  split_ifs with hci hpi
  · rw [hci]
  · rw [hpi]
  · rfl

theorem parentAt_attach (hne : p ≠ c) (i : Slot) :
    (t.attach p c).parentAt i = if c = i then some p else t.parentAt i := by
  simp only [parentAt, get_attach hne]
  split_ifs with hci hpi
  · rfl
  · rw [hpi]
  · rfl

theorem children_attach (hne : p ≠ c) (i : Slot) :
    (t.attach p c).children i = if p = i then t.children p ++ [c] else t.children i := by
  simp only [children, get_attach hne]
  by_cases hci : c = i
  · subst hci
    rw [if_pos rfl, if_neg hne]
  · rw [if_neg hci]
    split <;> rfl

theorem mem_children_attach {d : Slot} (hne : p ≠ c) :
    d ∈ (t.attach p c).children i ↔ (i = p ∧ d = c) ∨ d ∈ t.children i := by
  rw [children_attach hne]
  split_ifs with hpi
  · subst hpi
    rw [List.mem_append, List.mem_singleton, or_comm, and_iff_right rfl]
  · rw [or_iff_right fun hand => hpi hand.1.symm]

namespace Linked

/-- The process with the latest pid, if it has no parent, can become the child of any other. -/
theorem attach (ht : t.Linked) (hp : t.isUsed p = true) (hc : t.isUsed c = true) (hne : p ≠ c)
    (hcp : t.parentAt c = none)
    (hlast : ∀ i, t.isUsed i = true → i ≠ c → t.pidAt i < t.pidAt c) :
    (t.attach p c).Linked := by
  have hnot : ∀ {i}, t.isUsed i = true → c ∉ t.children i := fun hi hmem => by
    have := (ht.child hi hmem).2
    rw [hcp] at this
    cases this
  constructor <;> simp only [isUsed_attach, parentAt_attach hne, pidAt_attach hne,
    mem_children_attach hne]
  case parent =>
    intro i q hi hq
    split_ifs at hq with hci
    · obtain rfl := Option.some.inj hq
      exact ⟨hp, .inl ⟨rfl, hci.symm⟩⟩
    · obtain ⟨hqused, hmem⟩ := ht.parent hi hq
      exact ⟨hqused, .inr hmem⟩
  case child =>
    rintro i d hi (⟨rfl, rfl⟩ | hd)
    · exact ⟨hc, if_pos rfl⟩
    · obtain ⟨hdused, hdp⟩ := ht.child hi hd
      refine ⟨hdused, ?_⟩
      rw [if_neg]
      · exact hdp
      · rintro rfl
        exact hnot hi hd
  case later =>
    rintro i d hi (⟨rfl, rfl⟩ | hd)
    · exact hlast i hi hne
    · exact ht.later hi hd
  case ascending =>
    intro i hi
    rw [children_attach hne]
    split
    · refine List.pairwise_append.2 ⟨ht.ascending hp, List.pairwise_singleton _ _, ?_⟩
      intro a ha b hb
      rw [List.mem_singleton.1 hb]
      refine hlast a (ht.child hp ha).1 ?_
      rintro rfl
      exact hnot hp ha
    · exact ht.ascending hi

end Linked

/-! ## Families -/

/-- A process is another one, or descends from it. -/
def Descends (t : ProcessTable) : Slot → Slot → Prop :=
  Relation.ReflTransGen fun c p => t.parentAt c = some p

theorem descends_congr (h_parents : ∀ i, u.parentAt i = t.parentAt i) :
    u.Descends = t.Descends := by
  unfold Descends
  simp only [h_parents]

/-- Of two processes from which one descends, one descends from the other. -/
theorem Descends.total {a b : Slot} (ha : t.Descends g a) (hb : t.Descends g b) :
    t.Descends a b ∨ t.Descends b a :=
  Relation.ReflTransGen.total_of_right_unique
    (fun _ _ _ hp hq => Option.some.inj (hp.symm.trans hq)) ha hb

namespace Linked

theorem descends (ht : t.Linked) (hg : t.isUsed g = true) (h_descends : t.Descends g h) :
    t.isUsed h = true ∧ (g = h ∨ t.pidAt h < t.pidAt g) := by
  unfold Descends at h_descends
  induction h_descends with
  | refl => exact ⟨hg, .inl rfl⟩
  | tail _ hparent ih =>
    obtain ⟨hused, hle⟩ := ih
    have hlt := ht.pid_lt_of_parent hused hparent
    refine ⟨(ht.parent hused hparent).1, .inr ?_⟩
    rcases hle with heq | hle
    · rw [heq]
      exact hlt
    · exact UInt32.lt_trans hlt hle

theorem mem_family (ht : t.Linked) {depth : Nat} (hh : t.isUsed h = true)
    (hg : g ∈ t.family depth h) : t.isUsed g = true ∧ t.Descends g h := by
  induction depth generalizing h with
  | zero => exact absurd hg List.not_mem_nil
  | succ depth ih =>
    unfold family at hg
    rcases List.mem_append.1 hg with hg | hg
    · obtain ⟨c, hc, hg⟩ := List.mem_flatMap.1 hg
      obtain ⟨hcused, hcp⟩ := ht.child hh hc
      obtain ⟨hgused, hdescends⟩ := ih hcused hg
      exact ⟨hgused, Relation.ReflTransGen.tail hdescends hcp⟩
    · rw [List.mem_singleton.1 hg]
      exact ⟨hh, Relation.ReflTransGen.refl⟩

/-- The families of two children of one process have no member in common. -/
theorem family_disjoint (ht : t.Linked) {depth : Nat} {a b : Slot} (hh : t.isUsed h = true)
    (ha : a ∈ t.children h) (hb : b ∈ t.children h) (hne : a ≠ b) :
    List.Disjoint (t.family depth a) (t.family depth b) := by
  obtain ⟨haused, hap⟩ := ht.child hh ha
  obtain ⟨hbused, hbp⟩ := ht.child hh hb
  -- a sibling that descends from another one would descend from it through their parent
  have hapart : ∀ {x y}, t.isUsed x = true → t.parentAt x = some h → y ∈ t.children h →
      x ≠ y → ¬ t.Descends x y := fun {x y} hx hxp hy hxy hdescends => by
    rcases Relation.ReflTransGen.cases_head hdescends with heq | ⟨z, hz, hdescends⟩
    · exact hxy heq
    · obtain rfl := Option.some.inj (hxp.symm.trans hz)
      have hlater := ht.later hh hy
      rcases (ht.descends hh hdescends).2 with heq | hlt
      · rw [heq] at hlater
        exact UInt32.lt_irrefl _ hlater
      · exact UInt32.lt_irrefl _ (UInt32.lt_trans hlater hlt)
  intro g hga hgb
  rcases (ht.mem_family haused hga).2.total (ht.mem_family hbused hgb).2 with hab | hba
  · exact hapart haused hap hb hne hab
  · exact hapart hbused hbp ha (Ne.symm hne) hba

theorem nodup_family (ht : t.Linked) {depth : Nat} (hh : t.isUsed h = true) :
    (t.family depth h).Nodup := by
  induction depth generalizing h with
  | zero => exact List.nodup_nil
  | succ depth ih =>
    unfold family
    rw [← List.concat_eq_append]
    refine (List.nodup_concat _ _).2 ⟨fun hmem => ?_, List.nodup_flatMap.2 ⟨fun c hc => ?_, ?_⟩⟩
    · obtain ⟨c, hc, hh'⟩ := List.mem_flatMap.1 hmem
      have hlater := ht.later hh hc
      obtain ⟨hcused, -⟩ := ht.child hh hc
      rcases (ht.descends hh (ht.mem_family hcused hh').2).2 with heq | hlt
      · rw [heq] at hlater
        exact UInt32.lt_irrefl _ hlater
      · exact UInt32.lt_irrefl _ (UInt32.lt_trans hlater hlt)
    · exact ih (ht.child hh hc).1
    · refine (ht.ascending hh).imp_of_mem fun {a b} ha hb hab => ?_
      refine ht.family_disjoint hh ha hb ?_
      rintro rfl
      exact UInt32.lt_irrefl _ hab

end Linked

theorem self_mem_family {depth : Nat} (t : ProcessTable) (h : Slot) :
    h ∈ t.family (depth + 1) h := by
  unfold family
  exact List.mem_append_right _ (List.mem_singleton.2 rfl)

/-- Every process of a list comes after its own children, or they are among those before the
list. -/
def ChildrenFirst (t : ProcessTable) (before : List Slot) : List Slot → Prop
  | [] => True
  | h :: hs => (∀ c ∈ t.children h, c ∈ before) ∧ t.ChildrenFirst (h :: before) hs

namespace ChildrenFirst

variable {before : List Slot}

theorem mono {more : List Slot} (hsub : ∀ i ∈ before, i ∈ more) {hs : List Slot}
    (h_first : t.ChildrenFirst before hs) : t.ChildrenFirst more hs := by
  induction hs generalizing before more with
  | nil => exact True.intro
  | cons h hs ih =>
    refine ⟨fun c hc => hsub c (h_first.1 c hc), ih (fun i hi => ?_) h_first.2⟩
    rcases List.mem_cons.1 hi with rfl | hi
    · exact List.mem_cons_self
    · exact List.mem_cons_of_mem _ (hsub i hi)

theorem append {hs is : List Slot} (hhs : t.ChildrenFirst before hs)
    (his : t.ChildrenFirst (hs ++ before) is) : t.ChildrenFirst before (hs ++ is) := by
  induction hs generalizing before with
  | nil => exact his
  | cons h hs ih =>
    refine ⟨hhs.1, ih hhs.2 (his.mono fun i hi => ?_)⟩
    rcases List.mem_cons.1 hi with rfl | hi
    · exact List.mem_append_right _ List.mem_cons_self
    · rcases List.mem_append.1 hi with hi | hi
      · exact List.mem_append_left _ hi
      · exact List.mem_append_right _ (List.mem_cons_of_mem _ hi)

theorem flatMap {f : Slot → List Slot} {hs : List Slot}
    (hf : ∀ h ∈ hs, t.ChildrenFirst [] (f h)) : t.ChildrenFirst before (hs.flatMap f) := by
  induction hs generalizing before with
  | nil => exact True.intro
  | cons h hs ih =>
    rw [List.flatMap_cons]
    refine append ((hf h List.mem_cons_self).mono fun i hi => absurd hi List.not_mem_nil) ?_
    exact ih fun i hi => hf i (List.mem_cons_of_mem _ hi)

/-- Once the first process is gone, what follows it still comes after its own children. -/
theorem tail {hs : List Slot} (hsub : ∀ i ∈ hs, ∀ c ∈ u.children i, c ∈ t.children i ∧ c ≠ h)
    (h_first : t.ChildrenFirst (h :: before) hs) : u.ChildrenFirst before hs := by
  induction hs generalizing before with
  | nil => exact True.intro
  | cons g hs ih =>
    refine ⟨fun c hc => ?_, ih (fun i hi => hsub i (List.mem_cons_of_mem _ hi))
      (h_first.2.mono fun i hi => ?_)⟩
    · obtain ⟨hc, hne⟩ := hsub g List.mem_cons_self c hc
      exact (List.mem_cons.1 (h_first.1 c hc)).resolve_left hne
    · rcases List.mem_cons.1 hi with rfl | hi
      · exact List.mem_cons_of_mem _ List.mem_cons_self
      · rcases List.mem_cons.1 hi with rfl | hi
        · exact List.mem_cons_self
        · exact List.mem_cons_of_mem _ (List.mem_cons_of_mem _ hi)

end ChildrenFirst

/-- The number of processes that came after the one in a slot. -/
def youngerCount (t : ProcessTable) (h : Slot) : Nat :=
  countSlots fun g => t.isUsed g && decide (t.pidAt h < t.pidAt g)

theorem youngerCount_lt (t : ProcessTable) (h : Slot) : t.youngerCount h < maxProcesses := by
  refine countSlots_lt (h := h) ?_
  rw [decide_eq_false (UInt32.lt_irrefl _), Bool.and_false]

namespace Linked

theorem youngerCount_child (ht : t.Linked) (hh : t.isUsed h = true) (hc : c ∈ t.children h) :
    t.youngerCount c < t.youngerCount h := by
  have hlater := ht.later hh hc
  refine countSlots_lt_of_imp (h := c) (fun g hg => ?_) ?_ ?_
  · obtain ⟨hgused, hg⟩ := Bool.and_eq_true_iff.1 hg
    exact Bool.and_eq_true_iff.2
      ⟨hgused, decide_eq_true (UInt32.lt_trans hlater (of_decide_eq_true hg))⟩
  · rw [decide_eq_false (UInt32.lt_irrefl _), Bool.and_false]
  · exact Bool.and_eq_true_iff.2 ⟨(ht.child hh hc).1, decide_eq_true hlater⟩

/-- A family that is followed through enough generations lists children before their parents. -/
theorem childrenFirst_family (ht : t.Linked) {depth : Nat} (hh : t.isUsed h = true)
    (hdepth : t.youngerCount h < depth) : t.ChildrenFirst [] (t.family depth h) := by
  induction depth generalizing h with
  | zero => exact absurd hdepth (Nat.not_lt_zero _)
  | succ depth ih =>
    have hchild : ∀ c ∈ t.children h, t.youngerCount c < depth := fun c hc =>
      Nat.lt_of_lt_of_le (ht.youngerCount_child hh hc) (Nat.le_of_lt_succ hdepth)
    unfold family
    refine ChildrenFirst.append (ChildrenFirst.flatMap fun c hc => ?_) ⟨fun c hc => ?_, True.intro⟩
    · exact ih (ht.child hh hc).1 (hchild c hc)
    · obtain ⟨n, rfl⟩ := Nat.exists_eq_add_one_of_ne_zero (Nat.ne_zero_of_lt (hchild c hc))
      exact List.mem_append_left _ (List.mem_flatMap.2 ⟨c, hc, t.self_mem_family c⟩)

/-- A family that is followed through enough generations has all the descendants in it. -/
theorem mem_family_iff (ht : t.Linked) {depth : Nat} (hh : t.isUsed h = true)
    (hdepth : t.youngerCount h < depth) :
    g ∈ t.family depth h ↔ t.isUsed g = true ∧ t.Descends g h := by
  refine ⟨ht.mem_family hh, ?_⟩
  rintro ⟨hg, hdescends⟩
  induction depth generalizing h with
  | zero => exact absurd hdepth (Nat.not_lt_zero _)
  | succ depth ih =>
    unfold family
    rcases Relation.ReflTransGen.cases_tail hdescends with heq | ⟨c, hdescends, hparent⟩
    · exact List.mem_append_right _ (List.mem_singleton.2 heq.symm)
    · obtain ⟨hcused, -⟩ := ht.descends hg hdescends
      have hc := (ht.parent hcused hparent).2
      have hdeep : t.youngerCount c < depth :=
        Nat.lt_of_lt_of_le (ht.youngerCount_child hh hc) (Nat.le_of_lt_succ hdepth)
      exact List.mem_append_left _ (List.mem_flatMap.2 ⟨c, hc, ih hcused hdeep hdescends⟩)

/-- Of a family only the oldest member is a child of somebody outside. -/
theorem filter_children {victim : Slot} {family : List Slot} (ht : t.Linked)
    (hmem : ∀ g, g ∈ family ↔ t.isUsed g = true ∧ t.Descends g victim)
    (hg : t.isUsed g = true) (hnot : g ∉ family) :
    (t.children g).filter (!family.contains ·) = (t.children g).filter (· ≠ victim) := by
  refine List.filter_congr fun c hc => ?_
  obtain ⟨hcused, hcparent⟩ := ht.child hg hc
  have hiff : c ∈ family ↔ c = victim := by
    rw [hmem]
    constructor
    · rintro ⟨-, hdescends⟩
      rcases Relation.ReflTransGen.cases_head hdescends with heq | ⟨q, hq, hdescends⟩
      · exact heq
      · obtain rfl := Option.some.inj (hcparent.symm.trans hq)
        exact absurd ((hmem g).2 ⟨hg, hdescends⟩) hnot
    · rintro rfl
      exact ⟨hcused, .refl⟩
  rw [Bool.eq_iff_iff, Bool.not_eq_true', ← Bool.not_eq_true, List.contains_iff_mem, hiff,
    decide_eq_true_iff]

end Linked

end Nucleus.ProcessTable
