import LiteOsKernel.Process.Wait
import Mathlib.Data.List.Nodup
import Mathlib.Data.List.Perm.Basic
import Mathlib.Data.List.TakeWhile

/-! Every waiter has a child to wait for, as far as the wake-up of the parent sees to it. -/
namespace LiteOsKernel.Process

/-- The section of the wait list for a selector. -/
def WaitFlag.section : WaitFlag → Nat
  | pro _ => 0
  | gid _ => 1
  | any => 2

/-- The waiters for one child come first, then those for a group, then those for any child. -/
def InSections (waitList : List Waiter) : Prop := waitList.Pairwise fun v w => v.waitFlag.section ≤ w.waitFlag.section

variable {x : WaitState} {c : Child} {l : List Waiter} {w : Waiter} {find others : Bool}

private theorem osWaitInsertWaitListInOrder_perm (runTask : Waiter) (l : List Waiter) :
    (osWaitInsertWaitListInOrder runTask l).Perm (runTask :: l) := by
  rw [osWaitInsertWaitListInOrder]
  split
  · exact List.Perm.refl _
  · refine List.perm_middle.trans ?_
    rw [List.takeWhile_append_dropWhile]
  · refine List.perm_middle.trans ?_
    rw [List.takeWhile_append_dropWhile]

/-- A waiter goes between those that are to be in front of it and those that are not. -/
private theorem inSections_insert {p : Waiter → Bool} (h : InSections l) (hfront : ∀ v, p v = true → v.waitFlag.section ≤ w.waitFlag.section)
    (hback : ∀ v, p v = false → w.waitFlag.section ≤ v.waitFlag.section) : InSections (l.takeWhile p ++ w :: l.dropWhile p) := by
  have hsplit := h
  rw [InSections, ← List.takeWhile_append_dropWhile (p := p) (l := l), List.pairwise_append] at hsplit
  obtain ⟨htake,hdrop,hcross⟩ := hsplit
  have hle (v : Waiter) (hv : v ∈ l.dropWhile p) : w.waitFlag.section ≤ v.waitFlag.section := by
    cases hd : l.dropWhile p with
    | nil =>
      rw [hd] at hv
      exact absurd hv List.not_mem_nil
    | cons u rest =>
      have hu : p u = false := by
        have := List.head?_dropWhile_not p l
        rw [hd] at this
        simpa using this
      rw [hd] at hv hdrop
      rcases List.mem_cons.mp hv with rfl | hv
      · exact hback v hu
      · exact (hback u hu).trans ((List.pairwise_cons.mp hdrop).1 v hv)
  refine List.pairwise_append.mpr ⟨htake,List.pairwise_cons.mpr ⟨hle,hdrop⟩,fun v hv u hu => ?_⟩
  rcases List.mem_cons.mp hu with rfl | hu
  · exact hfront v (List.mem_takeWhile_imp hv)
  · exact hcross v hv u hu

private theorem osWaitInsertWaitListInOrder_sections (runTask : Waiter) (h : InSections l) :
    InSections (osWaitInsertWaitListInOrder runTask l) := by
  rw [osWaitInsertWaitListInOrder]
  split
  next p hflag => exact List.pairwise_cons.mpr ⟨fun v _ => by rw [hflag]; exact Nat.zero_le _,h⟩
  next g hflag =>
    refine inSections_insert h (fun v hv => ?_) fun v hv => ?_
    · rw [hflag]
      cases hf : v.waitFlag <;> simp [hf, WaitFlag.isPro, WaitFlag.section] at hv ⊢
    · rw [hflag]
      cases hf : v.waitFlag <;> simp [hf, WaitFlag.isPro, WaitFlag.section] at hv ⊢
  next hflag =>
    refine inSections_insert h (fun v hv => ?_) fun v hv => ?_
    · rw [hflag]
      cases hf : v.waitFlag <;> simp [WaitFlag.section]
    · rw [hflag]
      cases hf : v.waitFlag <;> simp [hf, WaitFlag.isAny, WaitFlag.section] at hv ⊢

/-- The first of the waiters gets the child, unless one has it already, and the others nothing. -/
def wakes (processCB : Child) (find : Bool) : List Waiter → List Woken
  | [] => []
  | taskCB :: list => ⟨taskCB,if find then none else some processCB⟩ :: list.map fun taskCB => ⟨taskCB,none⟩

private theorem wakes_true (l : List Waiter) : wakes c true l = l.map fun taskCB => ⟨taskCB,none⟩ := by
  cases l with
  | nil => rfl
  | cons w l => rfl

private theorem wakes_waiter (c : Child) (find : Bool) (l : List Waiter) : (wakes c find l).map (·.waiter) = l := by
  cases l with
  | nil => rfl
  | cons w l => simp [wakes, Function.comp_def]

private theorem WaitFlag.isPro_iff (flag : WaitFlag) : flag.isPro = true ↔ flag.section = 0 := by
  cases flag <;> simp [WaitFlag.isPro, WaitFlag.section]

/-- The waiters for the child, those for another child, and those for a group or any child. -/
def pros (processCB : Child) (l : List Waiter) : List Waiter := l.filter fun w => decide (w.waitFlag = .pro processCB.processID)

def otherPros (processCB : Child) (l : List Waiter) : List Waiter :=
  l.filter fun w => w.waitFlag.isPro && decide (w.waitFlag ≠ .pro processCB.processID)

def notPros (l : List Waiter) : List Waiter := l.filter fun w => !w.waitFlag.isPro

/-- The specified waiters are in the first section. -/
private theorem osWaitWakeSpecifiedProcess_spec (c : Child) (find : Bool) (h : InSections l) : osWaitWakeSpecifiedProcess c find l =
    (otherPros c l,wakes c find (pros c l),notPros l) := by
  rw [otherPros, pros, notPros]
  induction l generalizing find with
  | nil => rfl
  | cons w l ih =>
    obtain ⟨hw,hl⟩ := List.pairwise_cons.mp h
    rw [osWaitWakeSpecifiedProcess]
    by_cases h1 : w.waitFlag = .pro c.processID
    · rw [if_pos h1, ih true hl, wakes_true]
      simp [h1, WaitFlag.isPro, wakes]
    · rw [if_neg h1]
      by_cases h2 : w.waitFlag.isPro = false
      · -- a waiter that is not for one child has none of those behind it
        have hnone (v : Waiter) (hv : v ∈ w :: l) : v.waitFlag.isPro = false := by
          rcases List.mem_cons.mp hv with rfl | hv
          · exact h2
          · have hle := hw v hv
            rw [← Bool.not_eq_true, WaitFlag.isPro_iff] at h2 ⊢
            omega
        have hnot (v : Waiter) (hv : v ∈ w :: l) : v.waitFlag ≠ .pro c.processID := fun he => by
          have := hnone v hv
          rw [he] at this
          exact absurd this nofun
        rw [if_pos h2, List.filter_eq_nil_iff.mpr, List.filter_eq_nil_iff.mpr, List.filter_eq_self.mpr]
        · rfl
        · intro v hv
          rw [hnone v hv]
          rfl
        · intro v hv
          rw [decide_eq_true_iff]
          exact hnot v hv
        · intro v hv
          rw [hnone v hv]
          simp
      · rw [if_neg h2, ih find hl]
        simp [h1, h2]

/-- Where there are no children left each waiter but those for other groups is woken. -/
private theorem wakeAnyList_all (c : Child) (find : Bool) (l : List Waiter) : wakeAnyList c false find l =
    (l.filter (·.waitFlag.otherGroup c),wakes c find (l.filter fun w => !w.waitFlag.otherGroup c)) := by
  induction l generalizing find with
  | nil => rfl
  | cons w l ih =>
    rw [wakeAnyList]
    by_cases h : w.waitFlag.otherGroup c = true
    · rw [if_pos h, ih find]
      simp [h]
    · rw [if_neg h, if_neg (by decide), ih true, wakes_true]
      simp [h, wakes]

/-- Where there are children left the first waiter that is not for another group is woken. -/
private theorem wakeAnyList_first (c : Child) (find : Bool) (l : List Waiter) :
    ((∀ w ∈ l, w.waitFlag.otherGroup c = true) ∧ wakeAnyList c true find l = (l,[])) ∨
      ∃ before w after, l = before ++ w :: after ∧ (∀ v ∈ before, v.waitFlag.otherGroup c = true) ∧
        w.waitFlag.otherGroup c = false ∧ wakeAnyList c true find l = (before ++ after,wakes c find [w]) := by
  induction l with
  | nil => exact .inl ⟨nofun,rfl⟩
  | cons w l ih =>
    rw [wakeAnyList]
    by_cases h : w.waitFlag.otherGroup c = true
    · rw [if_pos h]
      rcases ih with ⟨hall,hrun⟩ | ⟨before,v,after,rfl,hbefore,hv,hrun⟩
      · refine .inl ⟨fun v hv => ?_,by rw [hrun]⟩
        rcases List.mem_cons.mp hv with rfl | hv
        · exact h
        · exact hall v hv
      · refine .inr ⟨w :: before,v,after,rfl,fun u hu => ?_,hv,by rw [hrun]; rfl⟩
        rcases List.mem_cons.mp hu with rfl | hu
        · exact h
        · exact hbefore u hu
    · rw [if_neg h, if_pos rfl]
      exact .inr ⟨[],w,l,rfl,nofun,Bool.not_eq_true _ ▸ h,rfl⟩

/-- What the exit of a child makes of the wait list of its parent, whose other children are rest, and whom it wakes. -/
inductive ExitCase (c : Child) (l : List Waiter) (rest : List Child) : List Waiter → List Woken → Prop
  | specified (hp : pros c l ≠ []) (hr : rest ≠ []) : ExitCase c l rest (otherPros c l ++ notPros l) (wakes c false (pros c l))
  | everyone (hp : pros c l ≠ []) (hr : rest = []) :
    ExitCase c l rest (otherPros c l) (wakes c false (pros c l) ++ (notPros l).map fun w => ⟨w,none⟩)
  | nobody (hp : pros c l = []) (hr : rest ≠ []) (hall : ∀ w ∈ notPros l, w.waitFlag.otherGroup c = true) :
    ExitCase c l rest (otherPros c l ++ notPros l) []
  | first (hp : pros c l = []) (hr : rest ≠ []) (before after : List Waiter) (w : Waiter) (hl : notPros l = before ++ w :: after)
    (hbefore : ∀ v ∈ before, v.waitFlag.otherGroup c = true) (hw : w.waitFlag.otherGroup c = false) :
    ExitCase c l rest (otherPros c l ++ (before ++ after)) [⟨w,some c⟩]
  | last (hp : pros c l = []) (hr : rest = []) :
    ExitCase c l rest (otherPros c l ++ (notPros l).filter (·.waitFlag.otherGroup c))
      (wakes c false ((notPros l).filter fun w => !w.waitFlag.otherGroup c))

private theorem osProcessNaturalExit_childrenList (x : WaitState) (c : Child) :
    (x.osProcessNaturalExit c).1.childrenList = x.childrenList.erase c := by
  simp only [WaitState.osProcessNaturalExit, WaitState.osWaitCheckAndWakeParentProcess]
  split_ifs <;> rfl

/-- What the exit of a child can do. -/
private theorem osProcessNaturalExit_case (h : InSections x.waitList) (c : Child) :
    ExitCase c x.waitList (x.childrenList.erase c) (x.osProcessNaturalExit c).1.waitList (x.osProcessNaturalExit c).2 := by
  simp only [WaitState.osProcessNaturalExit, WaitState.osWaitCheckAndWakeParentProcess, osWaitWakeSpecifiedProcess_spec c false h]
  generalize x.waitList = l
  generalize x.childrenList.erase c = rest
  by_cases hp : pros c l = []
  · rw [if_neg (by simp [hp, wakes])]
    by_cases hr : rest = []
    · rw [show decide (rest ≠ []) = false by simp [hr], wakeAnyList_all]
      exact .last hp hr
    · rw [show decide (rest ≠ []) = true by simp [hr]]
      rcases wakeAnyList_first c false (notPros l) with ⟨hall,hrun⟩ | ⟨before,w,after,hl,hbefore,hw,hrun⟩
      · rw [hrun]
        exact .nobody hp hr hall
      · rw [hrun]
        exact .first hp hr before after w hl hbefore hw
  · have hne : wakes c false (pros c l) ≠ [] := fun he => by
      have := congrArg (List.map (·.waiter)) he
      rw [wakes_waiter] at this
      exact hp this
    rw [if_pos hne]
    by_cases hr : rest = []
    · have hcase : ExitCase c l rest _ _ := .everyone hp hr
      split_ifs with hnil
      · rcases hnil with hnil | hnil
        · obtain ⟨h1,h2⟩ := List.append_eq_nil_iff.mp hnil
          rw [h1, h2, List.map_nil, List.append_nil] at hcase
          rwa [h1, h2]
        · exact absurd hr (of_decide_eq_true hnil)
      · exact hcase
    · rw [if_pos (.inr (decide_eq_true hr))]
      exact .specified hp hr

/-- The sections make up the list. -/
private theorem sections_perm (c : Child) (l : List Waiter) : (pros c l ++ (otherPros c l ++ notPros l)).Perm l := by
  have hpro : (pros c l ++ otherPros c l).Perm (l.filter (·.waitFlag.isPro)) := by
    have hperm := List.filter_append_perm (fun w : Waiter => decide (w.waitFlag = .pro c.processID)) (l.filter (·.waitFlag.isPro))
    rw [List.filter_filter, List.filter_filter] at hperm
    refine (List.Perm.of_eq ?_).trans hperm
    rw [pros, otherPros]
    congr 1
    · refine List.filter_congr fun w _ => ?_
      by_cases hw : w.waitFlag = .pro c.processID
      · simp [hw, WaitFlag.isPro]
      · simp [hw]
    · refine List.filter_congr fun w _ => ?_
      by_cases hw : w.waitFlag = .pro c.processID
      · simp [hw]
      · simp [hw]
  rw [← List.append_assoc]
  exact (hpro.append_right _).trans (List.filter_append_perm ..)

/-- No waiter is lost or doubled. -/
theorem ExitCase.perm {rest : List Child} {left : List Waiter} {woken : List Woken} (h : ExitCase c l rest left woken) :
    (woken.map (·.waiter) ++ left).Perm l := by
  cases h with
  | specified hp hr =>
    rw [wakes_waiter]
    exact sections_perm c l
  | everyone hp hr =>
    rw [List.map_append, wakes_waiter, List.map_map, Function.comp_def, List.map_id', List.append_assoc]
    exact (List.perm_append_comm.append_left _).trans (sections_perm c l)
  | nobody hp hr hall =>
    have hperm := sections_perm c l
    rwa [hp] at hperm
  | first hp hr before after w hl hbefore hw =>
    have hperm := sections_perm c l
    rw [hp, hl] at hperm
    refine List.Perm.trans ?_ hperm
    have hmiddle : (otherPros c l ++ before ++ w :: after).Perm (w :: (otherPros c l ++ before ++ after)) := List.perm_middle
    rw [List.append_assoc, List.append_assoc] at hmiddle
    exact hmiddle.symm
  | last hp hr =>
    have hperm := sections_perm c l
    rw [hp] at hperm
    rw [wakes_waiter]
    refine List.Perm.trans ?_ hperm
    refine List.perm_append_comm.trans ?_
    rw [List.append_assoc]
    exact (List.filter_append_perm (·.waitFlag.otherGroup c) (notPros l)).append_left _

/-- What the next steps need: threads that wait once, sections, and children with IDs of their own. -/
structure WaitInv (x : WaitState) : Prop where
  tasks : (x.waitList.map (·.task)).Nodup
  sections : InSections x.waitList
  pids : (x.childrenList.map (·.processID)).Nodup
  live : ∀ w ∈ x.waitList, ∃ d ∈ x.childrenList, w.waitFlag.Selects d

/-- The child is the last one that the waiter waits for. -/
structure IsLast (x : WaitState) (c : Child) (w : Waiter) : Prop where
  mem : w ∈ x.waitList
  selects : w.waitFlag.Selects c
  last : ∀ d ∈ x.childrenList.erase c, ¬ w.waitFlag.Selects d

/-- The waiters whose last child exits are woken, one with the child and the others with nothing. -/
structure ExitWakes (x : WaitState) (c : Child) (woken : List Woken) : Prop where
  once : (woken.map (·.waiter.task)).Nodup
  wakes : ∀ w, IsLast x c w → ∃ v, IsLast x c v ∧ ⟨v,some c⟩ ∈ woken ∧ ∀ u, IsLast x c u → u ≠ v → ⟨u,none⟩ ∈ woken

/-- If the child is the last one of its group and not of its parent, then no waiter for the group is left behind: there is none
where a waiter for the child takes it, and at most one where there is no such waiter. -/
def ExitOk (x : WaitState) (c : Child) : Prop :=
  x.childrenList.erase c ≠ [] → (∀ d ∈ x.childrenList.erase c, d.pgroup ≠ c.pgroup) →
    ((∃ w ∈ x.waitList, w.waitFlag = .pro c.processID) → ∀ w ∈ x.waitList, w.waitFlag ≠ .gid c.pgroup) ∧
      ((∀ w ∈ x.waitList, w.waitFlag ≠ .pro c.processID) → (x.waitList.filter fun w => decide (w.waitFlag = .gid c.pgroup)).length ≤ 1)

instance (x : WaitState) (c : Child) : Decidable (ExitOk x c) := inferInstanceAs (Decidable (_ → (∀ d ∈ x.childrenList.erase c, _) →
  ((∃ w ∈ x.waitList, _) → ∀ w ∈ x.waitList, _) ∧ ((∀ w ∈ x.waitList, _) → _)))

private theorem mem_pros {c : Child} {l : List Waiter} {w : Waiter} : w ∈ pros c l ↔ w ∈ l ∧ w.waitFlag = .pro c.processID := by
  rw [pros, List.mem_filter, decide_eq_true_iff]

private theorem mem_notPros : w ∈ notPros l ↔ w ∈ l ∧ w.waitFlag.isPro = false := by
  rw [notPros, List.mem_filter, Bool.not_eq_true']

private theorem mem_otherPros : w ∈ otherPros c l ↔ w ∈ l ∧ w.waitFlag.isPro = true ∧ w.waitFlag ≠ .pro c.processID := by
  rw [otherPros, List.mem_filter, Bool.and_eq_true, decide_eq_true_iff]

/-- A waiter that is not for another group, nor for one child, waits for the group or for any child. -/
private theorem otherGroup_false (h : w.waitFlag.isPro = false) : w.waitFlag.otherGroup c = false ↔ w.waitFlag = .gid c.pgroup ∨ w.waitFlag = .any := by
  cases hf : w.waitFlag with
  | pro p => exact absurd (hf ▸ h) nofun
  | gid g => simp [WaitFlag.otherGroup]
  | any => simp [WaitFlag.otherGroup]

private theorem filter_notPros (g : Nat) (l : List Waiter) : (notPros l).filter (fun w => decide (w.waitFlag = .gid g)) =
    l.filter fun w => decide (w.waitFlag = .gid g) := by
  rw [notPros, List.filter_filter]
  refine List.filter_congr fun w _ => ?_
  by_cases hw : w.waitFlag = .gid g
  · simp [hw, WaitFlag.isPro]
  · simp [hw]

private theorem InSections.notPros (h : InSections l) : InSections (notPros l) := h.sublist List.filter_sublist

namespace IsLast

/-- A waiter without another child waits for the last one. -/
private theorem of_none (hlive : ∀ w ∈ x.waitList, ∃ d ∈ x.childrenList, w.waitFlag.Selects d) (hw : w ∈ x.waitList)
    (hnone : ∀ d ∈ x.childrenList.erase c, ¬ w.waitFlag.Selects d) : IsLast x c w := by
  obtain ⟨d,hd,hsel⟩ := hlive w hw
  by_cases hdc : d = c
  · exact ⟨hw,hdc ▸ hsel,hnone⟩
  · exact absurd hsel (hnone d ((List.mem_erase_of_ne hdc).mpr hd))

theorem pro {p : Nat} (h : IsLast x c w) (hf : w.waitFlag = .pro p) : w ∈ pros c x.waitList := by
  have hsel := h.selects
  rw [hf] at hsel
  exact mem_pros.mpr ⟨h.mem,hf.trans (congrArg WaitFlag.pro hsel.symm)⟩

theorem gid {g : Nat} (h : IsLast x c w) (hf : w.waitFlag = .gid g) :
    w.waitFlag = .gid c.pgroup ∧ ∀ d ∈ x.childrenList.erase c, d.pgroup ≠ c.pgroup := by
  have hsel := h.selects
  rw [hf] at hsel
  obtain rfl : c.pgroup = g := hsel
  refine ⟨hf,fun d hd he => h.last d hd ?_⟩
  rw [hf]
  exact he

theorem any (h : IsLast x c w) (hf : w.waitFlag = .any) : x.childrenList.erase c = [] := by
  refine List.eq_nil_iff_forall_not_mem.mpr fun d hd => h.last d hd ?_
  rw [hf]
  trivial

/-- A waiter for the child itself has no other. -/
private theorem of_pro (hpids : (x.childrenList.map (·.processID)).Nodup) (hc : c ∈ x.childrenList) (hw : w ∈ pros c x.waitList) :
    IsLast x c w := by
  obtain ⟨hmem,hf⟩ := mem_pros.mp hw
  refine ⟨hmem,by rw [hf]; exact rfl,fun d hd hsel => ?_⟩
  rw [hf] at hsel
  have hnodup : x.childrenList.Nodup := List.Nodup.of_map _ hpids
  obtain ⟨hne,hd⟩ := (hnodup.mem_erase_iff).mp hd
  exact hne (List.inj_on_of_nodup_map hpids hd hc hsel)

/-- Where no thread waits for the child itself. -/
private theorem notPro (h : IsLast x c w) (hp : pros c x.waitList = []) : w ∈ notPros x.waitList ∧ w.waitFlag.otherGroup c = false := by
  have hpro : w.waitFlag.isPro = false := by
    cases hf : w.waitFlag with
    | pro p => exact absurd (hp ▸ h.pro hf) List.not_mem_nil
    | gid g => rfl
    | any => rfl
  refine ⟨mem_notPros.mpr ⟨h.mem,hpro⟩,(otherGroup_false hpro).mpr ?_⟩
  cases hf : w.waitFlag with
  | pro p => exact absurd (hf ▸ hpro) nofun
  | gid g => exact .inl (hf ▸ (h.gid hf).1)
  | any => exact .inr rfl

/-- Where there are children left, it is the last one of its group. -/
theorem group (h : IsLast x c w) (hr : x.childrenList.erase c ≠ []) (hnot : w ∉ pros c x.waitList) :
    w.waitFlag = .gid c.pgroup ∧ ∀ d ∈ x.childrenList.erase c, d.pgroup ≠ c.pgroup := by
  cases hf : w.waitFlag with
  | pro p => exact absurd (h.pro hf) hnot
  | gid g => exact hf ▸ h.gid hf
  | any => exact absurd (h.any hf) hr

/-- Where there are none left, each waiter for its group or for any child has lost its last one. -/
private theorem of_otherGroup (hr : x.childrenList.erase c = []) (hw : w ∈ notPros x.waitList) (hother : w.waitFlag.otherGroup c = false) :
    IsLast x c w := by
  obtain ⟨hmem,hpro⟩ := mem_notPros.mp hw
  refine ⟨hmem,?_,fun d hd => absurd (hr ▸ hd) List.not_mem_nil⟩
  rcases (otherGroup_false hpro).mp hother with hf | hf
  · rw [hf]
    exact rfl
  · rw [hf]
    trivial

/-- The first of the waiters takes the child, and the others nothing. -/
theorem wakes (hl : ∀ v ∈ l, IsLast x c v) (hne : l ≠ []) {more : List Woken}
    (hmore : ∀ u, IsLast x c u → u ∉ l → ⟨u,none⟩ ∈ more) :
    ∃ v, IsLast x c v ∧ ⟨v,some c⟩ ∈ Process.wakes c false l ++ more ∧
      ∀ u, IsLast x c u → u ≠ v → ⟨u,none⟩ ∈ Process.wakes c false l ++ more := by
  cases l with
  | nil => exact absurd rfl hne
  | cons v l =>
    refine ⟨v,hl v List.mem_cons_self,List.mem_cons_self,fun u hu hne => ?_⟩
    by_cases hm : u ∈ v :: l
    · have hmem := (List.mem_cons.mp hm).resolve_left hne
      exact List.mem_append_left _ (List.mem_cons_of_mem _ (List.mem_map_of_mem hmem))
    · exact List.mem_append_right _ (hmore u hu hm)

/-- Under the condition the first waiter that the last loop does not pass is the only one that loses its last child. -/
private theorem eq_first (h : IsLast x c w) (hsections : InSections x.waitList) (hok : ExitOk x c) (hp : pros c x.waitList = [])
    (hr : x.childrenList.erase c ≠ []) {before after : List Waiter} {v : Waiter} (hl : notPros x.waitList = before ++ v :: after)
    (hbefore : ∀ u ∈ before, u.waitFlag.otherGroup c = true) (hv : v.waitFlag.otherGroup c = false) :
    w = v ∧ w ∉ before ++ after := by
  obtain ⟨hf,hgroup⟩ := h.group hr (hp ▸ List.not_mem_nil)
  obtain ⟨hmem,hother⟩ := h.notPro hp
  have hnotBefore : w ∉ before := fun hm => by
    rw [hbefore w hm] at hother
    exact absurd hother nofun
  have hnotAfter : w ∉ after := fun hm => by
    have hvmem : v ∈ notPros x.waitList := by
      rw [hl]
      exact List.mem_append_right _ List.mem_cons_self
    have hle : v.waitFlag.section ≤ w.waitFlag.section := by
      have hsorted := hsections.notPros
      rw [hl, InSections, List.pairwise_append, List.pairwise_cons] at hsorted
      exact hsorted.2.1.1 w hm
    have hvf : v.waitFlag = .gid c.pgroup := by
      rcases (otherGroup_false (mem_notPros.mp hvmem).2).mp hv with hvf | hvf
      · exact hvf
      · rw [hvf, hf] at hle
        exact absurd hle (by simp [WaitFlag.section])
    -- then two threads wait for the group
    have hlen := (hok hr hgroup).2 fun u hu he => List.not_mem_nil (hp ▸ mem_pros.mpr ⟨hu,he⟩)
    have hpos : 0 < (after.filter fun w => decide (w.waitFlag = .gid c.pgroup)).length :=
      List.length_pos_of_mem (List.mem_filter.mpr ⟨hm,decide_eq_true hf⟩)
    rw [← filter_notPros, hl, List.filter_append, List.filter_cons, if_pos (decide_eq_true hvf), List.length_append,
      List.length_cons] at hlen
    omega
  rw [hl] at hmem
  refine ⟨?_,fun hm => (List.mem_append.mp hm).elim hnotBefore hnotAfter⟩
  rcases List.mem_append.mp hmem with hm | hm
  · exact absurd hm hnotBefore
  · exact (List.mem_cons.mp hm).resolve_right hnotAfter

end IsLast

variable {left : List Waiter} {woken : List Woken}

/-- No waiter that an exit leaves has lost its last child, under the condition. -/
private theorem ExitCase.left_not (h : ExitCase c x.waitList (x.childrenList.erase c) left woken) (hinv : WaitInv x)
    (hok : ExitOk x c) : ∀ w ∈ left, ¬ IsLast x c w := by
  intro w hm hw
  have hnotOther (hf : w.waitFlag.isPro = false) : w ∉ otherPros c x.waitList := fun hm => by
    rw [(mem_otherPros.mp hm).2.1] at hf
    exact absurd hf nofun
  cases h with
  | specified hp hr =>
    by_cases hpro : w ∈ pros c x.waitList
    · have hf := (mem_pros.mp hpro).2
      rcases List.mem_append.mp hm with hm | hm
      · exact (mem_otherPros.mp hm).2.2 hf
      · have hnot := (mem_notPros.mp hm).2
        rw [hf] at hnot
        exact absurd hnot nofun
    · obtain ⟨v,hv⟩ := List.exists_mem_of_ne_nil _ hp
      obtain ⟨hg,hgroup⟩ := hw.group hr hpro
      exact (hok hr hgroup).1 ⟨v,mem_pros.mp hv⟩ w hw.mem hg
  | everyone hp hr =>
    obtain ⟨-,hpro,hf⟩ := mem_otherPros.mp hm
    cases hw' : w.waitFlag with
    | pro p => exact hf (mem_pros.mp (hw.pro hw')).2
    | gid g => exact absurd (hw' ▸ hpro) nofun
    | any => exact absurd (hw' ▸ hpro) nofun
  | nobody hp hr hall =>
    obtain ⟨hmem,hother⟩ := hw.notPro hp
    rw [hall w hmem] at hother
    exact absurd hother nofun
  | first hp hr before after v hl hbefore hv =>
    rcases List.mem_append.mp hm with hm | hm
    · exact hnotOther (mem_notPros.mp (hw.notPro hp).1).2 hm
    · exact (hw.eq_first hinv.sections hok hp hr hl hbefore hv).2 hm
  | last hp hr =>
    obtain ⟨hmem,hother⟩ := hw.notPro hp
    rcases List.mem_append.mp hm with hm | hm
    · exact hnotOther (mem_notPros.mp hmem).2 hm
    · rw [(List.mem_filter.mp hm).2] at hother
      exact absurd hother nofun

/-- Those that an exit wakes, under the condition. -/
theorem ExitCase.wakes (h : ExitCase c x.waitList (x.childrenList.erase c) left woken) (hinv : WaitInv x) (hc : c ∈ x.childrenList)
    (hok : ExitOk x c) :
    ∀ w, IsLast x c w → ∃ v, IsLast x c v ∧ ⟨v,some c⟩ ∈ woken ∧ ∀ u, IsLast x c u → u ≠ v → ⟨u,none⟩ ∈ woken := by
  intro w hw
  cases h with
  | specified hp hr =>
    -- a waiter that is not for the child still has another one
    have hmem (u : Waiter) (hu : IsLast x c u) : u ∈ pros c x.waitList := by
      by_contra hnot
      obtain ⟨v,hv⟩ := List.exists_mem_of_ne_nil _ hp
      obtain ⟨hg,hgroup⟩ := hu.group hr hnot
      exact (hok hr hgroup).1 ⟨v,mem_pros.mp hv⟩ u hu.mem hg
    have hlaw := IsLast.wakes (fun v hv => .of_pro hinv.pids hc hv) hp
      fun u hu hm => (absurd (hmem u hu) hm : (⟨u,none⟩ : Woken) ∈ [])
    rwa [List.append_nil] at hlaw
  | everyone hp hr =>
    refine IsLast.wakes (fun v hv => .of_pro hinv.pids hc hv) hp fun u hu hm => ?_
    refine List.mem_map.mpr ⟨u,mem_notPros.mpr ⟨hu.mem,?_⟩,rfl⟩
    cases hf : u.waitFlag with
    | pro p => exact absurd (hu.pro hf) hm
    | gid g => rfl
    | any => rfl
  | nobody hp hr hall =>
    obtain ⟨hmem,hother⟩ := hw.notPro hp
    rw [hall w hmem] at hother
    exact absurd hother nofun
  | first hp hr before after v hl hbefore hv =>
    have heq {u : Waiter} (hu : IsLast x c u) : u = v := (hu.eq_first hinv.sections hok hp hr hl hbefore hv).1
    exact ⟨v,heq hw ▸ hw,List.mem_singleton_self _,fun u hu hne => absurd (heq hu) hne⟩
  | last hp hr =>
    have hmem {u : Waiter} (hu : IsLast x c u) : u ∈ (notPros x.waitList).filter fun w => !w.waitFlag.otherGroup c := by
      obtain ⟨hm,hother⟩ := hu.notPro hp
      exact List.mem_filter.mpr ⟨hm,by rw [hother]; rfl⟩
    have hlast (v : Waiter) (hv : v ∈ (notPros x.waitList).filter fun w => !w.waitFlag.otherGroup c) : IsLast x c v := by
      obtain ⟨hm,hother⟩ := List.mem_filter.mp hv
      exact .of_otherGroup hr hm ((Bool.not_eq_true' _).mp hother)
    have hlaw := IsLast.wakes hlast (List.ne_nil_of_mem (hmem hw))
      fun u hu hm => (absurd (hmem hu) hm : (⟨u,none⟩ : Woken) ∈ [])
    rwa [List.append_nil] at hlaw

/-- Where no waiter is left behind its last child, the condition holds. -/
theorem ExitCase.ok (h : ExitCase c x.waitList (x.childrenList.erase c) left woken) (hleft : ∀ w ∈ left, ¬ IsLast x c w) :
    ExitOk x c := by
  intro hr hgroup
  have hlast {w : Waiter} (hm : w ∈ x.waitList) (hf : w.waitFlag = .gid c.pgroup) : IsLast x c w := by
    refine ⟨hm,by rw [hf]; exact rfl,fun d hd hsel => hgroup d hd ?_⟩
    rw [hf] at hsel
    exact hsel
  have hnot {w : Waiter} (hm : w ∈ x.waitList) (hf : w.waitFlag = .gid c.pgroup) : w ∈ notPros x.waitList :=
    mem_notPros.mpr ⟨hm,by rw [hf]; rfl⟩
  cases h with
  | specified hp _ =>
    refine ⟨fun _ w hm hf => hleft w (List.mem_append_right _ (hnot hm hf)) (hlast hm hf),fun hnone => ?_⟩
    obtain ⟨v,hv⟩ := List.exists_mem_of_ne_nil _ hp
    obtain ⟨hvm,hvf⟩ := mem_pros.mp hv
    exact absurd hvf (hnone v hvm)
  | everyone hp hnil => exact absurd hnil hr
  | nobody hp _ hall =>
    have hnone (w : Waiter) (hm : w ∈ x.waitList) (hf : w.waitFlag = .gid c.pgroup) : False := by
      have := hall w (hnot hm hf)
      rw [hf] at this
      exact absurd this (by simp [WaitFlag.otherGroup])
    refine ⟨fun _ w hm hf => hnone w hm hf,fun _ => ?_⟩
    rw [List.filter_eq_nil_iff.mpr fun w hm => by simpa using hnone w hm]
    exact Nat.zero_le 1
  | first hp _ before after v hl hbefore hv =>
    refine ⟨fun ⟨w,hm,hf⟩ => absurd (hp ▸ mem_pros.mpr ⟨hm,hf⟩) List.not_mem_nil,fun _ => ?_⟩
    have hmem {w : Waiter} (hm : w ∈ notPros x.waitList) : w ∈ x.waitList := (mem_notPros.mp hm).1
    have hbefore' : (before.filter fun w => decide (w.waitFlag = .gid c.pgroup)) = [] := by
      refine List.filter_eq_nil_iff.mpr fun w hm hf => ?_
      have hf := of_decide_eq_true hf
      refine hleft w (List.mem_append_right _ (List.mem_append_left _ hm)) (hlast (hmem (by rw [hl]; simp [hm])) hf)
    have hafter' : (after.filter fun w => decide (w.waitFlag = .gid c.pgroup)) = [] := by
      refine List.filter_eq_nil_iff.mpr fun w hm hf => ?_
      have hf := of_decide_eq_true hf
      refine hleft w (List.mem_append_right _ (List.mem_append_right _ hm)) (hlast (hmem (by rw [hl]; simp [hm])) hf)
    rw [← filter_notPros, hl, List.filter_append, hbefore', List.filter_cons, hafter']
    split_ifs
    · exact Nat.le_refl 1
    · exact Nat.zero_le 1
  | last hp hnil => exact absurd hnil hr

/-- What happens to a process, and to the processes of the groups that it can wait for. -/
inductive WaitCall where
  | fork (childCB : Child)
  | wait (task : Nat) (pid : Int) (nohang valid group : Bool)
  | exit (processCB : Child)
  | recycle (childCB : Child)
  | otherExit (processCB : Child)

namespace WaitCall

def waitRun (x : WaitState) : WaitCall → WaitState
  | fork childCB => { x with childrenList := x.childrenList ++ [childCB] }
  | wait task pid nohang valid group => (x.osWait task pid nohang valid group).1
  | exit processCB => (x.osProcessNaturalExit processCB).1
  | recycle childCB => x.osRecycleZombiesProcess childCB
  | otherExit processCB => { x with
      exitProcessList := Function.update x.exitProcessList processCB.pgroup (x.exitProcessList processCB.pgroup ++ [processCB]) }

/-- A new child has an ID of its own, a thread that waits does not call, and a child exits once. -/
def Pre (x : WaitState) : WaitCall → Prop
  | fork childCB => childCB.processID ∉ x.childrenList.map (·.processID)
  | wait task _ _ _ _ => task ∉ x.waitList.map (·.task)
  | exit processCB => processCB ∈ x.childrenList
  | _ => True

/-- The group that OsWait waits for. -/
def pgroup (x : WaitState) (pid : Int) (group : Bool) : Option Nat :=
  if pid = 0 then some x.pgroup else if pid < -1 ∧ group = true then some (-pid).toNat else none

/-- A wait for a group sleeps only where the group has a child that lives. -/
def Ok (x : WaitState) : WaitCall → Prop
  | wait _ pid nohang _ group => nohang = false → x.childrenList ≠ [] ∨ x.exitChildList ≠ [] →
    ∀ g ∈ pgroup x pid group, x.exitProcessList g = [] → ∃ d ∈ x.childrenList, d.pgroup = g
  | exit processCB => ExitOk x processCB
  | _ => True

instance (x : WaitState) : ∀ call : WaitCall, Decidable (call.Pre x)
  | fork _ => inferInstanceAs (Decidable (_ ∉ _))
  | wait .. => inferInstanceAs (Decidable (_ ∉ _))
  | exit _ => inferInstanceAs (Decidable (_ ∈ _))
  | recycle _ => inferInstanceAs (Decidable True)
  | otherExit _ => inferInstanceAs (Decidable True)

instance (x : WaitState) : ∀ call : WaitCall, Decidable (call.Ok x)
  | fork _ => inferInstanceAs (Decidable True)
  | wait _ pid nohang _ group => inferInstanceAs (Decidable (nohang = false → x.childrenList ≠ [] ∨ x.exitChildList ≠ [] →
    ∀ g ∈ pgroup x pid group, x.exitProcessList g = [] → ∃ d ∈ x.childrenList, d.pgroup = g))
  | exit processCB => inferInstanceAs (Decidable (ExitOk x processCB))
  | recycle _ => inferInstanceAs (Decidable True)
  | otherExit _ => inferInstanceAs (Decidable True)

end WaitCall

def waitSystem (pgroup : Nat) : Run.System WaitState WaitCall where
  init x := x = ⟨pgroup,[],[],fun _ => [],[]⟩
  pre x call := call.Pre x
  run x call := call.waitRun x

instance (pgroup : Nat) (x : WaitState) (call : WaitCall) : Decidable ((waitSystem pgroup).pre x call) :=
  inferInstanceAs (Decidable (call.Pre x))

/-- What a call leaves: each waiter with a child that lives, and those without one woken. -/
structure WaitStep (x : WaitState) (call : WaitCall) : Prop where
  live : ∀ w ∈ (call.waitRun x).waitList, ∃ d ∈ (call.waitRun x).childrenList, w.waitFlag.Selects d
  wakes : ∀ c, call = .exit c → ExitWakes x c (x.osProcessNaturalExit c).2

/-- The exit of a child. -/
private theorem exit_step (hinv : WaitInv x) (hc : c ∈ x.childrenList) : ExitOk x c ↔ WaitStep x (.exit c) := by
  have hcase := osProcessNaturalExit_case hinv.sections c
  have hrest := osProcessNaturalExit_childrenList x c
  have hmem {w : Waiter} (hw : w ∈ (x.osProcessNaturalExit c).1.waitList) : w ∈ x.waitList :=
    hcase.perm.subset (List.mem_append_right _ hw)
  constructor
  · intro hok
    have hleft := hcase.left_not hinv hok
    refine ⟨fun w hw => ?_,fun d hd => ?_⟩
    · by_contra hnone
      refine hleft w hw (IsLast.of_none hinv.live (hmem hw) fun d hd hsel => hnone ⟨d,?_,hsel⟩)
      rw [WaitCall.waitRun, hrest]
      exact hd
    · obtain rfl := WaitCall.exit.inj hd
      refine ⟨?_,hcase.wakes hinv hc hok⟩
      have hperm := hcase.perm.map (·.task)
      rw [List.map_append, List.map_map] at hperm
      exact (List.nodup_append.mp (hperm.symm.nodup hinv.tasks)).1
  · intro hstep
    refine hcase.ok fun w hw hlast => ?_
    obtain ⟨d,hd,hsel⟩ := hstep.live w hw
    rw [WaitCall.waitRun, hrest] at hd
    exact hlast.last d hd hsel

private theorem waitGroup_gid {g g' : Nat} : x.waitGroup g = .flag (.gid g') ↔ g = g' ∧ x.exitProcessList g = [] := by
  rw [WaitState.waitGroup]
  cases h : x.exitProcessList g with
  | nil => simp
  | cons d l => simp

private theorem waitFindSpecifiedProcess_flag {pid : Nat} {valid : Bool} {flag : WaitFlag}
    (h : x.waitFindSpecifiedProcess pid valid = .flag flag) : flag = .pro pid ∧ ∃ d ∈ x.childrenList, d.processID = pid := by
  rw [WaitState.waitFindSpecifiedProcess] at h
  cases valid with
  | false => exact absurd h nofun
  | true =>
    rw [if_neg (by decide)] at h
    cases hfind : x.exitChildList.find? (·.processID = pid) with
    | some d =>
      rw [hfind] at h
      exact absurd h nofun
    | none =>
      rw [hfind] at h
      by_cases hany : x.childrenList.any (·.processID = pid) = true
      · obtain ⟨d,hd,hp⟩ := List.any_eq_true.mp hany
        exact ⟨(WaitTarget.flag.inj ((if_pos hany).symm.trans h)).symm,d,hd,of_decide_eq_true hp⟩
      · exact absurd ((if_neg hany).symm.trans h) nofun

/-- When OsWait waits for a group. -/
private theorem osWaitChildProcessCheck_gid {pid : Int} {valid group : Bool} {g : Nat} :
    x.osWaitChildProcessCheck pid valid group = .flag (.gid g) ↔
      (x.childrenList ≠ [] ∨ x.exitChildList ≠ []) ∧ WaitCall.pgroup x pid group = some g ∧ x.exitProcessList g = [] := by
  rw [WaitState.osWaitChildProcessCheck]
  by_cases hnil : x.childrenList = [] ∧ x.exitChildList = []
  · rw [if_pos hnil]
    simp [hnil]
  · rw [if_neg hnil, and_iff_right (by rwa [not_and_or] at hnil), WaitState.osWaitSetFlag, WaitCall.pgroup]
    by_cases hpos : 0 < pid
    · rw [if_pos hpos, if_neg (by omega), if_neg (by omega)]
      exact iff_of_false (fun h => absurd (waitFindSpecifiedProcess_flag h).1 nofun) fun h => absurd h.1 nofun
    · rw [if_neg hpos]
      by_cases hzero : pid = 0
      · rw [if_pos hzero, if_pos hzero, waitGroup_gid, Option.some_inj]
        constructor
        · rintro ⟨rfl,he⟩
          exact ⟨rfl,he⟩
        · rintro ⟨rfl,he⟩
          exact ⟨rfl,he⟩
      · rw [if_neg hzero, if_neg hzero]
        by_cases hany : pid = -1
        · rw [if_pos hany, if_neg (by omega)]
          split <;> simp
        · rw [if_neg hany]
          by_cases hgroup : group = false
          · rw [if_pos hgroup, if_neg (by simp [hgroup])]
            simp
          · rw [if_neg hgroup, if_pos ⟨by omega,Bool.not_eq_false _ ▸ hgroup⟩, waitGroup_gid, Option.some_inj]
            constructor
            · rintro ⟨rfl,he⟩
              exact ⟨rfl,he⟩
            · rintro ⟨rfl,he⟩
              exact ⟨rfl,he⟩

/-- A thread that waits for one child or for any has one. -/
private theorem osWaitChildProcessCheck_flag {pid : Int} {valid group : Bool} {flag : WaitFlag}
    (h : x.osWaitChildProcessCheck pid valid group = .flag flag) (hgid : ∀ g, flag ≠ .gid g) :
    ∃ d ∈ x.childrenList, flag.Selects d := by
  have hgroup (g : Nat) : x.waitGroup g ≠ .flag flag := by
    rw [WaitState.waitGroup]
    split
    · exact nofun
    · exact fun he => hgid g (WaitTarget.flag.inj he).symm
  rw [WaitState.osWaitChildProcessCheck] at h
  split_ifs at h with hnil
  rw [WaitState.osWaitSetFlag] at h
  split_ifs at h
  · obtain ⟨rfl,d,hd,hp⟩ := waitFindSpecifiedProcess_flag h
    exact ⟨d,hd,hp⟩
  · exact absurd h (hgroup _)
  · split at h
    next => exact absurd h nofun
    next hhead =>
      obtain rfl := WaitTarget.flag.inj h
      rw [List.head?_eq_none_iff] at hhead
      obtain ⟨d,hd⟩ := List.exists_mem_of_ne_nil _ fun hc => hnil ⟨hc,hhead⟩
      exact ⟨d,hd,trivial⟩
  · exact absurd h (hgroup _)

/-- OsWait leaves the wait list, or puts the thread on it. -/
private theorem osWait_cases (x : WaitState) (task : Nat) (pid : Int) (nohang valid group : Bool) :
    (x.osWait task pid nohang valid group).1.childrenList = x.childrenList ∧
      ((x.osWait task pid nohang valid group).1.waitList = x.waitList ∧
        (nohang = true ∨ ∀ flag, x.osWaitChildProcessCheck pid valid group ≠ .flag flag) ∨
      nohang = false ∧ ∃ flag, x.osWaitChildProcessCheck pid valid group = .flag flag ∧
        (x.osWait task pid nohang valid group).1.waitList = osWaitInsertWaitListInOrder ⟨task,flag⟩ x.waitList) := by
  rw [WaitState.osWait]
  cases hcheck : x.osWaitChildProcessCheck pid valid group with
  | echild => exact ⟨rfl,.inl ⟨rfl,.inr nofun⟩⟩
  | child d => exact ⟨rfl,.inl ⟨rfl,.inr nofun⟩⟩
  | flag flag =>
    cases nohang with
    | true => exact ⟨rfl,.inl ⟨rfl,.inl rfl⟩⟩
    | false => exact ⟨rfl,.inr ⟨rfl,flag,rfl,rfl⟩⟩

private theorem wait_step (hinv : WaitInv x) {task : Nat} {pid : Int} {nohang valid group : Bool} :
    WaitCall.Ok x (.wait task pid nohang valid group) ↔ WaitStep x (.wait task pid nohang valid group) := by
  obtain ⟨hchildren,hcases⟩ := osWait_cases x task pid nohang valid group
  constructor
  · intro hok
    refine ⟨fun w hw => ?_,nofun⟩
    rw [WaitCall.waitRun] at hw ⊢
    rw [hchildren]
    rcases hcases with ⟨hsame,-⟩ | ⟨hhang,flag,hcheck,hinsert⟩
    · rw [hsame] at hw
      exact hinv.live w hw
    · rw [hinsert, (osWaitInsertWaitListInOrder_perm _ _).mem_iff, List.mem_cons] at hw
      rcases hw with rfl | hw
      · by_cases hgid : ∃ g, flag = .gid g
        · obtain ⟨g,rfl⟩ := hgid
          obtain ⟨hne,hgroup,hnil⟩ := osWaitChildProcessCheck_gid.mp hcheck
          exact hok hhang hne g hgroup hnil
        · exact osWaitChildProcessCheck_flag hcheck fun g he => hgid ⟨g,he⟩
      · exact hinv.live w hw
  · intro hstep hhang hne g hgroup hnil
    have hcheck : x.osWaitChildProcessCheck pid valid group = .flag (.gid g) := osWaitChildProcessCheck_gid.mpr ⟨hne,hgroup,hnil⟩
    rcases hcases with ⟨-,hno | hno⟩ | ⟨-,flag,hflag,hinsert⟩
    · rw [hhang] at hno
      exact absurd hno nofun
    · exact absurd hcheck (hno _)
    · obtain rfl := WaitTarget.flag.inj (hflag.symm.trans hcheck)
      obtain ⟨d,hd,hsel⟩ := hstep.live ⟨task,.gid g⟩ (by
        rw [WaitCall.waitRun, hinsert, (osWaitInsertWaitListInOrder_perm _ _).mem_iff]
        exact List.mem_cons_self)
      rw [WaitCall.waitRun, hchildren] at hd
      exact ⟨d,hd,hsel⟩

/-- The waiters for other children stay in front. -/
private theorem inSections_left (h : InSections l) {m : List Waiter} (hm : m.Sublist (notPros l)) : InSections (otherPros c l ++ m) := by
  refine List.pairwise_append.mpr ⟨h.sublist List.filter_sublist,h.notPros.sublist hm,fun v hv w _ => ?_⟩
  have hpro := (mem_otherPros.mp hv).2.1
  rw [WaitFlag.isPro_iff] at hpro
  rw [hpro]
  exact Nat.zero_le _

private theorem ExitCase.sections {rest : List Child} (h : ExitCase c l rest left woken) (hl : InSections l) : InSections left := by
  cases h with
  | specified => exact inSections_left hl (List.Sublist.refl _)
  | everyone => exact hl.sublist List.filter_sublist
  | nobody => exact inSections_left hl (List.Sublist.refl _)
  | first _ _ before after v hsplit =>
    refine inSections_left hl ?_
    rw [hsplit]
    exact (List.Sublist.refl before).append (List.sublist_cons_self v after)
  | last => exact inSections_left hl List.filter_sublist

private theorem step_iff (hinv : WaitInv x) {call : WaitCall} (hpre : call.Pre x) : call.Ok x ↔ WaitStep x call := by
  cases call with
  | fork d =>
    refine iff_of_true trivial ⟨fun w hw => ?_,nofun⟩
    obtain ⟨e,he,hsel⟩ := hinv.live w hw
    exact ⟨e,List.mem_append_left _ he,hsel⟩
  | wait task pid nohang valid group => exact wait_step hinv
  | exit c => exact exit_step hinv hpre
  | recycle d => exact iff_of_true trivial ⟨hinv.live,nofun⟩
  | otherExit d => exact iff_of_true trivial ⟨hinv.live,nofun⟩

/-- Every call that meets the condition keeps the invariant. -/
private theorem waitRun_inv (hinv : WaitInv x) {call : WaitCall} (hpre : call.Pre x) (hok : call.Ok x) : WaitInv (call.waitRun x) := by
  have hlive := ((step_iff hinv hpre).mp hok).live
  cases call with
  | fork d =>
    refine ⟨hinv.tasks,hinv.sections,?_,hlive⟩
    rw [WaitCall.waitRun, List.map_append, List.map_singleton, List.nodup_append]
    refine ⟨hinv.pids,List.nodup_singleton _,fun p hp q hq he => hpre ?_⟩
    rw [← List.mem_singleton.mp hq, ← he]
    exact hp
  | wait task pid nohang valid group =>
    obtain ⟨hchildren,hcases⟩ := osWait_cases x task pid nohang valid group
    rcases hcases with ⟨hsame,-⟩ | ⟨-,flag,-,hinsert⟩
    · refine ⟨?_,?_,?_,hlive⟩
      · rw [WaitCall.waitRun, hsame]
        exact hinv.tasks
      · rw [WaitCall.waitRun, hsame]
        exact hinv.sections
      · rw [WaitCall.waitRun, hchildren]
        exact hinv.pids
    · refine ⟨?_,?_,?_,hlive⟩
      · rw [WaitCall.waitRun, hinsert]
        refine ((osWaitInsertWaitListInOrder_perm _ _).map _).symm.nodup ?_
        exact List.nodup_cons.mpr ⟨hpre,hinv.tasks⟩
      · rw [WaitCall.waitRun, hinsert]
        exact osWaitInsertWaitListInOrder_sections _ hinv.sections
      · rw [WaitCall.waitRun, hchildren]
        exact hinv.pids
  | exit c =>
    have hcase := osProcessNaturalExit_case hinv.sections c
    refine ⟨?_,hcase.sections hinv.sections,?_,hlive⟩
    · have hperm := hcase.perm.map (·.task)
      rw [List.map_append] at hperm
      exact (List.nodup_append.mp (hperm.symm.nodup hinv.tasks)).2.1
    · rw [WaitCall.waitRun, osProcessNaturalExit_childrenList]
      exact hinv.pids.sublist (List.erase_sublist.map _)
  | recycle d => exact ⟨hinv.tasks,hinv.sections,hinv.pids,hlive⟩
  | otherExit d => exact ⟨hinv.tasks,hinv.sections,hinv.pids,hlive⟩

/-- What holds in every state of a run, and which calls keep it. -/
structure WaitLaw (x : WaitState) : Prop where
  live : ∀ w ∈ x.waitList, ∃ d ∈ x.childrenList, w.waitFlag.Selects d
  step : ∀ call : WaitCall, call.Pre x → (call.Ok x ↔ WaitStep x call)

/-- Along every run whose calls meet the condition each waiter has a child, and is woken when its last child exits. -/
theorem waitLaw_of_reachable (pgroup : Nat) (x : WaitState) (h : Run.Reachable (waitSystem pgroup) (fun x call => call.Ok x) x) :
    WaitLaw x := by
  have hinv : WaitInv x := by
    refine h.invariant ?_ fun x call hx hpre hok => waitRun_inv hx hpre hok
    rintro x rfl
    exact ⟨List.nodup_nil,List.Pairwise.nil,List.nodup_nil,nofun⟩
  exact ⟨hinv.live,fun call hpre => step_iff hinv hpre⟩

/-- Threads wait for child 2, for the group of children 3 and 4, and for any child. Child 2 exits, and then child 3. -/
theorem waitLaw_group : ∃ x, x.childrenList = [⟨4,3⟩] ∧ x.exitChildList = [⟨2,2⟩,⟨3,3⟩] ∧ x.waitList = [⟨12,.any⟩] ∧ WaitLaw x := by
  have hinit : Run.Reachable (waitSystem 1) (fun x call => call.Ok x) ⟨1,[],[],fun _ => [],[]⟩ := .init rfl
  have h := hinit.calls [.fork ⟨2,2⟩,.fork ⟨3,3⟩,.fork ⟨4,3⟩,.wait 10 2 false true true,.wait 11 (-3) false true true,
    .wait 12 (-1) false true true,.exit ⟨2,2⟩,.exit ⟨3,3⟩] (by decide)
  exact ⟨_,rfl,rfl,rfl,waitLaw_of_reachable 1 _ h⟩

/-- Two threads wait for a group whose only child exits while its parent has another one: one of them stays. -/
theorem waitLaw_fails_two : ¬ ∀ pgroup x, Run.Reachable (waitSystem pgroup) (fun _ _ => True) x →
    ∀ w ∈ x.waitList, ∃ d ∈ x.childrenList, w.waitFlag.Selects d := by
  intro h
  have hinit : Run.Reachable (waitSystem 1) (fun _ _ => True) ⟨1,[],[],fun _ => [],[]⟩ := .init rfl
  have hfork := hinit.call (.fork ⟨2,2⟩) (by decide : 2 ∉ ([] : List Nat)) trivial
  have hfork' := hfork.call (.fork ⟨3,3⟩) (by decide : 3 ∉ [2]) trivial
  have hwait := hfork'.call (.wait 10 (-2) false true true) (by decide : 10 ∉ ([] : List Nat)) trivial
  have hwait' := hwait.call (.wait 11 (-2) false true true) (by decide : 11 ∉ [10]) trivial
  have hexit := hwait'.call (.exit ⟨2,2⟩) (List.mem_cons_self : (⟨2,2⟩ : Child) ∈ [⟨2,2⟩,⟨3,3⟩]) trivial
  obtain ⟨d,hd,hsel⟩ := h 1 _ hexit ⟨10,.gid 2⟩ (List.mem_singleton_self (⟨10,.gid 2⟩ : Waiter))
  obtain rfl := List.mem_singleton.mp (show d ∈ [(⟨3,3⟩ : Child)] from hd)
  exact absurd hsel (by decide : ¬ (3 : Nat) = 2)

end LiteOsKernel.Process
