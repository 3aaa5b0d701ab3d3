import LiteOsKernel.Ipc.Mux
import LiteOsKernel.Lib.Run
import Mathlib.Data.Prod.Lex
import Mathlib.Data.List.Sort

/-! The order of a pend list that tasks join where OsSchedLockPendFindPos finds their place. -/
namespace LiteOsKernel.Ipc.LockOrder
open LiteOsKernel.Ipc.Rwlock (Compare lockPend insertSub)
open LiteOsKernel.Ipc.Mux (LosTaskCB osSchedParamCompare hpfParamCompare)
open LiteOsKernel.Sched.Priority (SchedHPF)

/-- The two levels of priority that HPFParamCompare looks at; a smaller rank comes first. -/
def rank (sp : SchedHPF) : Nat ×ₗ Nat := toLex (sp.basePrio,sp.priority)

private theorem rank_lt {a b : SchedHPF} : rank a < rank b ↔ a.basePrio < b.basePrio ∨ a.basePrio = b.basePrio ∧ a.priority < b.priority :=
  Prod.Lex.toLex_lt_toLex

private theorem hpfParamCompare_neg {a b : SchedHPF} : hpfParamCompare a b < 0 ↔ rank a < rank b := by
  rw [rank_lt, hpfParamCompare]
  split_ifs with h <;> omega

private theorem hpfParamCompare_pos {a b : SchedHPF} : 0 < hpfParamCompare a b ↔ rank b < rank a := by
  rw [rank_lt, hpfParamCompare]
  split_ifs with h <;> omega

/-- A pend list, with its waiters in the order in which they came. -/
structure WaitList where
  pendList : List Waiter
  arrived : List Waiter

inductive ListCall where
  | insert (w : Waiter)
  | remove (w : Waiter)

variable {tcb : Nat → LosTaskCB} {x : WaitList} {w a : Waiter} {l l₁ l₂ : List Waiter}

def cmp (tcb : Nat → LosTaskCB) : Compare := fun task1 task2 => osSchedParamCompare (tcb task1) (tcb task2)

def rankOf (tcb : Nat → LosTaskCB) (w : Waiter) : Nat ×ₗ Nat := rank (tcb w.task).sp

/-- The waiters of one priority. -/
def atRank (tcb : Nat → LosTaskCB) (r : Nat ×ₗ Nat) (l : List Waiter) : List Waiter := l.filter (rankOf tcb · = r)

/-- A task that joins is a priority task, of either policy, and does not wait already. -/
@[reducible] def listSystem (tcb : Nat → LosTaskCB) : Run.System WaitList ListCall where
  init x := x = ⟨[],[]⟩
  pre x
    | .insert w => (tcb w.task).ops = .hpf ∧ ∀ a ∈ x.pendList, a.task ≠ w.task
    | .remove w => w ∈ x.pendList
  run x
    | .insert w => ⟨lockPend (cmp tcb) w x.pendList,x.arrived ++ [w]⟩
    | .remove w => ⟨x.pendList.erase w,x.arrived.erase w⟩

/-- Waiters of a higher priority come first, and those of one priority in the order in which they came. -/
structure InOrder (tcb : Nat → LosTaskCB) (x : WaitList) : Prop where
  sorted : x.pendList.Pairwise fun a b => rankOf tcb a ≤ rankOf tcb b
  fifo : ∀ r, atRank tcb r x.pendList = atRank tcb r x.arrived

/-- Where the first waiter does not make room in front: a last one of the other policy has no lower priority, and if the last
one has a lower priority, then the first that compares as equal has no lower priority and the one behind it has a lower one. -/
structure PosFits (tcb : Nat → LosTaskCB) (l : List Waiter) (w : Waiter) : Prop where
  last : ∀ first ∈ l.head?, ∀ last ∈ l.getLast?, cmp tcb first.task w.task ≤ 0 → cmp tcb last.task w.task ≤ 0 →
    rankOf tcb last ≤ rankOf tcb w
  middle : ∀ l₁ a b l₂, l = l₁ ++ a :: b :: l₂ → (∀ c ∈ l₁, cmp tcb c.task w.task < 0) → cmp tcb a.task w.task = 0 →
    (∀ last ∈ l.getLast?, 0 < cmp tcb last.task w.task) → rankOf tcb a ≤ rankOf tcb w ∧ rankOf tcb w < rankOf tcb b

def ListCall.Ok (tcb : Nat → LosTaskCB) (x : WaitList) : ListCall → Prop
  | .insert w => PosFits tcb x.pendList w
  | .remove _ => True

private theorem atRank_append (r : Nat ×ₗ Nat) (l₁ l₂ : List Waiter) : atRank tcb r (l₁ ++ l₂) = atRank tcb r l₁ ++ atRank tcb r l₂ :=
  List.filter_append l₁ l₂

private theorem atRank_self (w : Waiter) (l : List Waiter) : atRank tcb (rankOf tcb w) (w :: l) = w :: atRank tcb (rankOf tcb w) l := by
  rw [atRank, List.filter_cons, if_pos (decide_eq_true rfl)]
  rfl

private theorem atRank_other {r : Nat ×ₗ Nat} (h : rankOf tcb w ≠ r) (l : List Waiter) : atRank tcb r (w :: l) = atRank tcb r l := by
  rw [atRank, List.filter_cons, if_neg (by simpa using h)]
  rfl

private theorem mem_atRank {r : Nat ×ₗ Nat} : a ∈ atRank tcb r l ↔ a ∈ l ∧ rankOf tcb a = r := by
  rw [atRank, List.mem_filter, decide_eq_true_eq]

/-- The comparison is that of the ranks, or 0 for tasks of the two policies. -/
private theorem cmp_neg (ha : (tcb a.task).ops = .hpf) (hw : (tcb w.task).ops = .hpf) (h : cmp tcb a.task w.task < 0) :
    rankOf tcb a < rankOf tcb w := by
  rw [cmp, osSchedParamCompare, ha, hw] at h
  simp only at h
  split_ifs at h with hp
  · exact hpfParamCompare_neg.mp h
  · exact absurd h (lt_irrefl 0)

private theorem cmp_pos (ha : (tcb a.task).ops = .hpf) (hw : (tcb w.task).ops = .hpf) (h : 0 < cmp tcb a.task w.task) :
    rankOf tcb w < rankOf tcb a := by
  rw [cmp, osSchedParamCompare, ha, hw] at h
  simp only at h
  split_ifs at h with hp
  · exact hpfParamCompare_pos.mp h
  · exact absurd h (lt_irrefl 0)

/-- Where a waiter belongs in a list that is in order: behind those of its priority and before the lower ones. -/
def Belongs (tcb : Nat → LosTaskCB) (l₁ : List Waiter) (w : Waiter) (l₂ : List Waiter) : Prop :=
  (∀ a ∈ l₁, rankOf tcb a ≤ rankOf tcb w) ∧ ∀ a ∈ l₂, rankOf tcb w < rankOf tcb a

/-- The order is kept just where the waiter goes where it belongs. -/
private theorem inOrder_insert (l₁ l₂ : List Waiter) {arrived : List Waiter} (h : InOrder tcb ⟨l₁ ++ l₂,arrived⟩) (hw : w ∉ l₂) :
    InOrder tcb ⟨l₁ ++ w :: l₂,arrived ++ [w]⟩ ↔ Belongs tcb l₁ w l₂ := by
  obtain ⟨hs,hf⟩ := h
  obtain ⟨h₁,h₂,h₁₂⟩ := List.pairwise_append.mp hs
  constructor
  · rintro ⟨hs',hf'⟩
    obtain ⟨-,h₂',h₁₂'⟩ := List.pairwise_append.mp hs'
    refine ⟨fun a ha => h₁₂' a ha w List.mem_cons_self,fun a ha => ?_⟩
    refine lt_of_le_of_ne ((List.pairwise_cons.mp h₂').1 a ha) fun he => ?_
    -- a waiter of the same priority behind w came before it
    have hf'' : atRank tcb (rankOf tcb w) (l₁ ++ w :: l₂) = atRank tcb (rankOf tcb w) (arrived ++ [w]) := hf' _
    have hf₀ : atRank tcb (rankOf tcb w) (l₁ ++ l₂) = atRank tcb (rankOf tcb w) arrived := hf _
    rw [atRank_append, atRank_append, atRank_self, ← hf₀, atRank_append, List.append_assoc, List.append_cancel_left_eq,
      atRank_self] at hf''
    have ha' : a ∈ atRank tcb (rankOf tcb w) l₂ := mem_atRank.mpr ⟨ha,he.symm⟩
    cases hl : atRank tcb (rankOf tcb w) l₂ with
    | nil =>
      rw [hl] at ha'
      exact List.not_mem_nil ha'
    | cons b l =>
      rw [hl] at hf''
      obtain ⟨rfl,-⟩ := List.cons.inj hf''
      exact hw (mem_atRank.mp (hl ▸ List.mem_cons_self)).1
  · rintro ⟨hle,hlt⟩
    refine ⟨List.pairwise_append.mpr ⟨h₁,List.pairwise_cons.mpr ⟨fun a ha => (hlt a ha).le,h₂⟩,?_⟩,fun r => ?_⟩
    · intro a ha b hb
      rcases List.mem_cons.mp hb with rfl | hb
      · exact hle a ha
      · exact h₁₂ a ha b hb
    · have hf₀ : atRank tcb r (l₁ ++ l₂) = atRank tcb r arrived := hf r
      rw [atRank_append, atRank_append, ← hf₀, atRank_append, List.append_assoc, List.append_cancel_left_eq]
      by_cases hr : rankOf tcb w = r
      · subst hr
        have hnil : atRank tcb (rankOf tcb w) l₂ = [] := by
          refine List.eq_nil_iff_forall_not_mem.mpr fun a ha => ?_
          obtain ⟨ha,he⟩ := mem_atRank.mp ha
          exact (hlt a ha).ne he.symm
        rw [atRank_self, atRank_self, hnil]
        rfl
      · rw [atRank_other hr, atRank_other hr]
        exact (List.append_nil _).symm

/-- What SchedLockPendFindPosSub finds in a list whose last waiter compares as lower: the first waiter that is not higher. -/
private theorem insertSub_eq {c : Compare} (hl : ∃ a ∈ l, 0 ≤ c a.task w.task) :
    ∃ l₁ a l₂, l = l₁ ++ a :: l₂ ∧ (∀ b ∈ l₁, c b.task w.task < 0) ∧
      (0 < c a.task w.task ∧ insertSub c w l = l₁ ++ w :: a :: l₂ ∨ c a.task w.task = 0 ∧ insertSub c w l = l₁ ++ [a] ++ w :: l₂) := by
  induction l with
  | nil =>
    obtain ⟨a,ha,-⟩ := hl
    exact absurd ha List.not_mem_nil
  | cons b l ih =>
    rw [insertSub]
    split_ifs with h1 h2
    · obtain ⟨a,ha,h0⟩ := hl
      have ha' : a ∈ l := (List.mem_cons.mp ha).resolve_left fun he => absurd h0 (not_le.mpr (he ▸ h1))
      obtain ⟨l₁,a',l₂,rfl,hlt,hcase⟩ := ih ⟨a,ha',h0⟩
      refine ⟨b :: l₁,a',l₂,rfl,?_,?_⟩
      · intro d hd
        rcases List.mem_cons.mp hd with rfl | hd
        · exact h1
        · exact hlt d hd
      · rcases hcase with ⟨hp,he⟩ | ⟨hz,he⟩
        · exact .inl ⟨hp,by rw [he]; rfl⟩
        · exact .inr ⟨hz,by rw [he]; rfl⟩
    · exact ⟨[],b,l,rfl,List.forall_mem_nil _,.inl ⟨h2,rfl⟩⟩
    · exact ⟨[],b,l,rfl,List.forall_mem_nil _,.inr ⟨le_antisymm (not_lt.mp h2) (not_lt.mp h1),rfl⟩⟩

/-- The first element without a property splits a list in one way. -/
private theorem first_unique {α : Type*} {p : α → Prop} {a b : α} {l₁ l₂ r₁ r₂ : List α} (he : l₁ ++ a :: r₁ = l₂ ++ b :: r₂)
    (h₁ : ∀ c ∈ l₁, p c) (ha : ¬ p a) (h₂ : ∀ c ∈ l₂, p c) (hb : ¬ p b) : l₁ = l₂ ∧ a = b ∧ r₁ = r₂ := by
  induction l₁ generalizing l₂ with
  | nil => cases l₂ with
    | nil =>
      obtain ⟨rfl,rfl⟩ := List.cons.inj he
      exact ⟨rfl,rfl,rfl⟩
    | cons c l₂ =>
      obtain ⟨rfl,-⟩ := List.cons.inj he
      exact absurd (h₂ a List.mem_cons_self) ha
  | cons c l₁ ih => cases l₂ with
    | nil =>
      obtain ⟨rfl,-⟩ := List.cons.inj he
      exact absurd (h₁ c List.mem_cons_self) hb
    | cons d l₂ =>
      obtain ⟨rfl,he'⟩ := List.cons.inj he
      obtain ⟨rfl,rfl,rfl⟩ := ih he' (fun e hm => h₁ e (List.mem_cons_of_mem c hm)) fun e hm => h₂ e (List.mem_cons_of_mem c hm)
      exact ⟨rfl,rfl,rfl⟩

private theorem le_getLast {r : Waiter → Nat ×ₗ Nat} {last : Waiter} (h : l.Pairwise fun a b => r a ≤ r b) (hl : l.getLast? = some last)
    (ha : a ∈ l) : r a ≤ r last := by
  obtain ⟨l',rfl⟩ := List.getLast?_eq_some_iff.mp hl
  rcases List.mem_append.mp ha with ha | ha
  · exact (List.pairwise_append.mp h).2.2 a ha last List.mem_cons_self
  · rw [List.mem_singleton.mp ha]

/-- A task of a higher priority than the first waiter goes in front. -/
private theorem posFits_front {first : Waiter} (h : 0 < cmp tcb first.task w.task) (l : List Waiter) : PosFits tcb (first :: l) w := by
  refine ⟨fun f hf _ _ hle => ?_,fun l₁ a b l₂ he hlt hz _ => ?_⟩
  · cases hf
    exact absurd h (not_lt.mpr hle)
  · cases l₁ with
    | nil =>
      obtain ⟨rfl,-⟩ := List.cons.inj he
      exact absurd h hz.not_gt
    | cons c l₁ =>
      obtain ⟨rfl,-⟩ := List.cons.inj he
      exact absurd h (hlt first List.mem_cons_self).not_gt

/-- Behind the last waiter. -/
private theorem posFits_back {last : Waiter} (h : l.Pairwise fun a b => rankOf tcb a ≤ rankOf tcb b) (hl : l.getLast? = some last)
    (hf : ∀ first ∈ l.head?, cmp tcb first.task w.task ≤ 0) (hle : cmp tcb last.task w.task ≤ 0) :
    Belongs tcb l w [] ↔ PosFits tcb l w := by
  constructor
  · rintro ⟨hb,-⟩
    refine ⟨fun _ _ a ha _ _ => hb a (List.mem_of_getLast? ha),fun _ _ _ _ _ _ _ hlast => ?_⟩
    exact absurd (hlast last hl) (not_lt.mpr hle)
  · intro hp
    have hne : l ≠ [] := by
      rintro rfl
      cases hl
    obtain ⟨first,l',rfl⟩ := List.exists_cons_of_ne_nil hne
    exact ⟨fun a ha => (le_getLast h hl ha).trans (hp.last first rfl last hl (hf first rfl) hle),nofun⟩

/-- Where the scan stops. -/
private theorem posFits_scan {last : Waiter} {arrived : List Waiter} (h : InOrder tcb ⟨l,arrived⟩) (hops : ∀ a ∈ l, (tcb a.task).ops = .hpf)
    (hw : (tcb w.task).ops = .hpf) (hne : w ∉ l) (hl : l.getLast? = some last) (hlt : 0 < cmp tcb last.task w.task) :
    InOrder tcb ⟨insertSub (cmp tcb) w l,arrived ++ [w]⟩ ↔ PosFits tcb l w := by
  obtain ⟨l₁,a,l₂,rfl,hneg,hcase⟩ := insertSub_eq (c := cmp tcb) (w := w) ⟨last,List.mem_of_getLast? hl,hlt.le⟩
  have hbefore : ∀ b ∈ l₁, rankOf tcb b < rankOf tcb w := fun b hb =>
    cmp_neg (hops b (List.mem_append_left _ hb)) hw (hneg b hb)
  have hs := (List.pairwise_cons.mp (List.pairwise_append.mp h.sorted).2.1)
  have hnot : ∀ b, b ∈ a :: l₂ → w ≠ b := fun b hb he => hne (List.mem_append_right _ (he ▸ hb))
  rcases hcase with ⟨hpos,he⟩ | ⟨hz,he⟩
  · have ha : rankOf tcb w < rankOf tcb a := cmp_pos (hops a (by simp)) hw hpos
    rw [he, inOrder_insert _ _ h (fun hm => hnot w hm rfl)]
    refine iff_of_true ⟨fun b hb => (hbefore b hb).le,fun b hb => ?_⟩ ⟨fun _ _ b hb _ hle => ?_,fun l₁' b c l₂' hsplit hneg' hz _ => ?_⟩
    · rcases List.mem_cons.mp hb with rfl | hb
      · exact ha
      · exact ha.trans_le (hs.1 b hb)
    · rw [hl] at hb
      cases hb
      exact absurd hlt (not_lt.mpr hle)
    · obtain ⟨-,rfl,-⟩ := first_unique hsplit hneg hpos.not_gt hneg' hz.not_lt
      exact absurd hpos hz.not_gt
  · have h' : InOrder tcb ⟨(l₁ ++ [a]) ++ l₂,arrived⟩ := by
      rw [List.append_assoc]
      exact h
    rw [he, inOrder_insert _ _ h' (fun hm => hnot w (List.mem_cons_of_mem a hm) rfl)]
    -- the last waiter is lower, so it is not the one where the scan stops
    obtain ⟨b,l₂,rfl⟩ : ∃ b l, l₂ = b :: l := by
      cases l₂ with
      | nil =>
        rw [List.getLast?_append, List.getLast?_singleton, Option.some_or] at hl
        cases hl
        exact absurd hlt hz.not_gt
      | cons b l => exact ⟨b,l,rfl⟩
    have hs₂ := List.pairwise_cons.mp hs.2
    constructor
    · rintro ⟨hle,hgt⟩
      refine ⟨fun _ _ c hc _ hcle => ?_,fun l₁' a' b' l₂' hsplit hneg' hz' _ => ?_⟩
      · rw [hl] at hc
        cases hc
        exact absurd hlt (not_lt.mpr hcle)
      · obtain ⟨-,rfl,hr⟩ := first_unique hsplit hneg hz.not_lt hneg' hz'.not_lt
        obtain ⟨rfl,-⟩ := List.cons.inj hr
        exact ⟨hle a (by simp),hgt b List.mem_cons_self⟩
    · intro hp
      obtain ⟨ha,hb⟩ := hp.middle l₁ a b l₂ rfl hneg hz fun c hc => by
        rw [hl] at hc
        cases hc
        exact hlt
      refine ⟨fun c hc => ?_,fun c hc => ?_⟩
      · rcases List.mem_append.mp hc with hc | hc
        · exact (hbefore c hc).le
        · rw [List.mem_singleton.mp hc]
          exact ha
      · rcases List.mem_cons.mp hc with rfl | hc
        · exact hb
        · exact hb.trans_le (hs₂.1 c hc)

/-- An insertion keeps the order just where it fits. -/
private theorem lockPend_inOrder {arrived : List Waiter} (h : InOrder tcb ⟨l,arrived⟩) (hops : ∀ a ∈ l, (tcb a.task).ops = .hpf)
    (hw : (tcb w.task).ops = .hpf) (hne : w ∉ l) :
    InOrder tcb ⟨lockPend (cmp tcb) w l,arrived ++ [w]⟩ ↔ PosFits tcb l w := by
  cases l with
  | nil =>
    refine (inOrder_insert [] [] h hne).trans (iff_of_true ⟨nofun,nofun⟩ ⟨nofun,fun l₁ a b l₂ he => ?_⟩)
    exact absurd he (by simp)
  | cons first l =>
    obtain ⟨last,hl⟩ : ∃ last, (first :: l).getLast? = some last := ⟨_,List.getLast?_eq_some_getLast (List.cons_ne_nil first l)⟩
    have hpend : lockPend (cmp tcb) w (first :: l) = if 0 < cmp tcb first.task w.task then w :: first :: l
        else if cmp tcb last.task w.task ≤ 0 then first :: l ++ [w] else insertSub (cmp tcb) w (first :: l) := by
      unfold lockPend
      rw [hl]
    rw [hpend]
    split_ifs with h1 h2
    · have hfirst := cmp_pos (hops first List.mem_cons_self) hw h1
      have hs := List.pairwise_cons.mp h.sorted
      refine (inOrder_insert [] (first :: l) h hne).trans (iff_of_true ⟨nofun,fun a ha => ?_⟩ (posFits_front h1 l))
      rcases List.mem_cons.mp ha with rfl | ha
      · exact hfirst
      · exact hfirst.trans_le (hs.1 a ha)
    · have h' : InOrder tcb ⟨(first :: l) ++ [],arrived⟩ := by
        rw [List.append_nil]
        exact h
      refine (inOrder_insert _ _ h' List.not_mem_nil).trans (posFits_back h.sorted hl (fun f hf => ?_) h2)
      cases hf
      exact not_lt.mp h1
    · exact posFits_scan h hops hw hne hl (not_le.mp h2)

/-- What holds along a run: the order, and that the waiters are priority tasks of which none waits twice. -/
structure ListInv (tcb : Nat → LosTaskCB) (x : WaitList) : Prop where
  order : InOrder tcb x
  ops : ∀ a ∈ x.pendList, (tcb a.task).ops = .hpf

theorem InOrder.erase (h : InOrder tcb x) (w : Waiter) : InOrder tcb ⟨x.pendList.erase w,x.arrived.erase w⟩ := by
  refine ⟨h.sorted.sublist List.erase_sublist,fun r => ?_⟩
  have hf := h.fifo r
  rw [atRank, atRank] at hf ⊢
  rw [← List.erase_filter, ← List.erase_filter, hf]

private theorem listRun_inv (h : ListInv tcb x) (c : ListCall) (hp : (listSystem tcb).pre x c) :
    (c.Ok tcb x ↔ InOrder tcb ((listSystem tcb).run x c)) ∧ (c.Ok tcb x → ListInv tcb ((listSystem tcb).run x c)) := by
  cases c with
  | insert w =>
    obtain ⟨hw,hne⟩ := hp
    have hiff := lockPend_inOrder h.order h.ops hw fun hm => hne w hm rfl
    refine ⟨hiff.symm,fun hok => ⟨hiff.mpr hok,fun a ha => ?_⟩⟩
    rcases List.mem_cons.mp ((Rwlock.lockPend_perm (cmp tcb) w x.pendList).mem_iff.mp ha) with rfl | ha
    · exact hw
    · exact h.ops a ha
  | remove w =>
    have ho := h.order.erase w
    exact ⟨iff_of_true trivial ho,fun _ => ⟨ho,fun a ha => h.ops a (List.mem_of_mem_erase ha)⟩⟩

/-- Along every run whose insertions fit the list is in order, and an insertion that does not fit breaks the order. -/
theorem inOrder_of_reachable (tcb : Nat → LosTaskCB) (x : WaitList)
    (h : Run.Reachable (listSystem tcb) (fun x c => c.Ok tcb x) x) :
    InOrder tcb x ∧ ∀ c, (listSystem tcb).pre x c → (c.Ok tcb x ↔ InOrder tcb ((listSystem tcb).run x c)) := by
  have hi : ListInv tcb x := by
    refine h.invariant ?_ fun x c hx hp hok => (listRun_inv hx c hp).2 hok
    rintro x rfl
    exact ⟨⟨List.Pairwise.nil,fun r => rfl⟩,nofun⟩
  exact ⟨hi.order,fun c hp => (listRun_inv hi c hp).1⟩

/-- Round-robin tasks of one process, of which task 3 has a lower priority. -/
def threadsOf (t : Nat) : LosTaskCB where
  ops := .hpf
  sp := { policy := .rr, basePrio := 10, priority := if t = 3 then 7 else 5, initTimeSlice := 0, priBitmap := 0 }
  finishTime := 0
  lockList := []

/-- A task joins two others, behind the one of its priority. -/
theorem inOrder_of_reachable_three : ∃ x, Run.Reachable (listSystem threadsOf) (fun x c => c.Ok threadsOf x) x ∧
    x.pendList = [⟨1,9⟩,⟨2,9⟩,⟨3,9⟩] ∧ InOrder threadsOf x ∧
      ∀ c, (listSystem threadsOf).pre x c → (c.Ok threadsOf x ↔ InOrder threadsOf ((listSystem threadsOf).run x c)) := by
  have h0 : Run.Reachable (listSystem threadsOf) (fun x c => c.Ok threadsOf x) ⟨[],[]⟩ := .init rfl
  have h1 : Run.Reachable (listSystem threadsOf) (fun x c => c.Ok threadsOf x) ⟨[⟨1,9⟩],[⟨1,9⟩]⟩ := by
    refine .call h0 (.insert ⟨1,9⟩) ⟨rfl,nofun⟩ ⟨nofun,fun l₁ a b l₂ he => ?_⟩
    exact absurd he (by simp)
  have h3 : Run.Reachable (listSystem threadsOf) (fun x c => c.Ok threadsOf x) ⟨[⟨1,9⟩,⟨3,9⟩],[⟨1,9⟩,⟨3,9⟩]⟩ := by
    refine .call h1 (.insert ⟨3,9⟩) ⟨rfl,by decide⟩ ⟨fun f _ a ha _ _ => ?_,fun l₁ a b l₂ he => ?_⟩
    · cases ha
      decide
    · have := congrArg List.length he
      simp at this
      omega
  have h2 : Run.Reachable (listSystem threadsOf) (fun x c => c.Ok threadsOf x) ⟨[⟨1,9⟩,⟨2,9⟩,⟨3,9⟩],[⟨1,9⟩,⟨3,9⟩,⟨2,9⟩]⟩ := by
    refine .call h3 (.insert ⟨2,9⟩) ⟨rfl,by decide⟩ ⟨fun f _ a ha _ hle => ?_,fun l₁ a b l₂ he _ hz _ => ?_⟩
    · cases ha
      exact absurd hle (by decide)
    · cases l₁ with
      | nil =>
        obtain ⟨rfl,hr⟩ := List.cons.inj he
        obtain ⟨rfl,-⟩ := List.cons.inj hr
        decide
      | cons c l₁ =>
        have := congrArg List.length he
        simp at this
        omega
  exact ⟨_,h2,rfl,inOrder_of_reachable threadsOf _ h2⟩

/-- The third task of a priority goes in between the other two when a task of a lower priority waits behind them. -/
theorem inOrder_fails_third : ¬ ∀ tcb x, Run.Reachable (listSystem tcb) (fun _ _ => True) x → InOrder tcb x := by
  intro hall
  have h0 : Run.Reachable (listSystem threadsOf) (fun _ _ => True) ⟨[],[]⟩ := .init rfl
  have h1 : Run.Reachable (listSystem threadsOf) (fun _ _ => True) _ := .call h0 (.insert ⟨1,9⟩) ⟨rfl,nofun⟩ trivial
  have h2 : Run.Reachable (listSystem threadsOf) (fun _ _ => True) _ := .call h1 (.insert ⟨2,9⟩) ⟨rfl,by decide⟩ trivial
  have h3 : Run.Reachable (listSystem threadsOf) (fun _ _ => True) _ := .call h2 (.insert ⟨3,9⟩) ⟨rfl,by decide⟩ trivial
  have h4 : Run.Reachable (listSystem threadsOf) (fun _ _ => True) _ := .call h3 (.insert ⟨4,9⟩) ⟨rfl,by decide⟩ trivial
  have hf := (hall threadsOf _ h4).fifo (rank ⟨.rr,10,5,0,0⟩)
  exact absurd hf (by decide)

end LiteOsKernel.Ipc.LockOrder
