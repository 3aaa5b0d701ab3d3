import LiteOsKernel.Sched.Deadline
import LiteOsKernel.Lib.Run
import Mathlib.Data.List.Nodup

/-! When the ready queue of the deadline scheduler is in the order of the finish times. DeadlineQueueInsert links a task
behind the one it should precede, so the order depends on where its loop stops. -/
namespace LiteOsKernel.Sched.Deadline
open EdfSched

variable {fin : Nat → Nat} {l done rest : List Nat} {x t u f clock fuel currTime : Nat} {s s' : EdfSched} {cb : LosTaskCB}

def Sorted (fin : Nat → Nat) (l : List Nat) : Prop := l.Pairwise fun a b => fin a ≤ fin b

def EdfSched.finish (s : EdfSched) (t : Nat) : Nat := (s.tcb t).sp.finishTime

/-- The comparison at which the loop of DeadlineQueueInsert stops, for a task that is to finish at f. -/
def Later (fin : Nat → Nat) (f x : Nat) : Prop := 0 < Int.bmod ((fin x : Int) - f) (2^32)

instance : DecidablePred (Later fin f) := fun _ => inferInstanceAs (Decidable (_ < _))

/-- A task that is to finish at f belongs behind the first task at which the loop stops, or in front of all tasks when the
loop runs to the end. -/
def InsertOk (fin : Nat → Nat) (l : List Nat) (f : Nat) : Prop :=
  match l.find? fun x => decide (Later fin f x) with
  | none => (l.head?.all fun x => decide (f ≤ fin x)) = true
  | some x => fin x ≤ f ∧ ((l.dropWhile (· ≠ x)).tail.head?.all fun y => decide (f ≤ fin y)) = true

instance : Decidable (InsertOk fin l f) := by
  unfold InsertOk
  split <;> infer_instance

private theorem insertOk_congr {fin' : Nat → Nat} (h : ∀ x ∈ l, fin' x = fin x) : InsertOk fin' l f ↔ InsertOk fin l f := by
  have hf : ∀ m : List Nat, m ⊆ l → (m.find? fun x => decide (Later fin' f x)) = m.find? fun x => decide (Later fin f x) := by
    intro m hm
    induction m with
    | nil => rfl
    | cons a m ih =>
      have ha : decide (Later fin' f a) = decide (Later fin f a) :=
        decide_eq_decide.mpr (by rw [Later, Later, h a (hm List.mem_cons_self)])
      rw [List.find?_cons, List.find?_cons, ih (List.subset_of_cons_subset hm), ha]
  have hall : ∀ m : List Nat, m ⊆ l → (m.head?.all fun x => decide (f ≤ fin' x)) = m.head?.all fun x => decide (f ≤ fin x) := by
    intro m hm
    cases m with
    | nil => rfl
    | cons a m => simp [h a (hm List.mem_cons_self)]
  rw [InsertOk, InsertOk, hf l (List.Subset.refl l)]
  cases hx : l.find? fun x => decide (Later fin f x) with
  | none => simp only [hall l (List.Subset.refl l)]
  | some x =>
    have hsub : (l.dropWhile (· ≠ x)).tail ⊆ l :=
      ((List.tail_sublist _).trans (List.dropWhile_suffix _).sublist).subset
    simp only [hall _ hsub, h x (List.mem_of_find?_eq_some hx)]

private theorem find_later (h : (l.find? fun x => decide (Later fin f x)) = some x) :
    ∃ done rest, l = done ++ x :: rest ∧ l.takeWhile (· ≠ x) = done ∧ l.dropWhile (· ≠ x) = x :: rest := by
  obtain ⟨hx,done,rest,rfl,hdone⟩ := List.find?_eq_some_iff_append.mp h
  have hne : ∀ y ∈ done, decide (y ≠ x) = true := by
    intro y hy
    have hy' := hdone y hy
    refine decide_eq_true fun he => ?_
    rw [he, hx] at hy'
    exact absurd hy' (by decide)
  refine ⟨done,rest,rfl,?_,?_⟩
  · rw [List.takeWhile_append_of_pos hne, List.takeWhile_cons_of_neg (by simp), List.append_nil]
  · rw [List.dropWhile_append_of_pos hne, List.dropWhile_cons_of_neg (by simp)]

/-- In a sorted list the first task bounds all. -/
private theorem Sorted.forall_le (h : Sorted fin l) : (l.head?.all fun x => decide (f ≤ fin x)) = true ↔ ∀ y ∈ l, f ≤ fin y := by
  cases l with
  | nil => simp
  | cons a l =>
    have ha := (List.pairwise_cons.mp h).1
    simp only [List.head?_cons, Option.all_some, decide_eq_true_eq, List.forall_mem_cons]
    refine ⟨fun hf => ⟨hf,fun y hy => hf.trans (ha y hy)⟩,And.left⟩

private theorem sorted_insert_middle (h : Sorted fin (done ++ x :: rest)) :
    Sorted fin (done ++ x :: t :: rest) ↔ fin x ≤ fin t ∧ ∀ y ∈ rest, fin t ≤ fin y := by
  simp only [Sorted, List.pairwise_append, List.pairwise_cons, List.forall_mem_cons] at h ⊢
  obtain ⟨hd,⟨hx,hr⟩,hdx⟩ := h
  refine ⟨fun hs => ⟨hs.2.1.1.1,hs.2.1.2.1⟩,fun hs => ⟨hd,⟨⟨hs.1,hx⟩,hs.2,hr⟩,fun a ha => ?_⟩⟩
  exact ⟨(hdx a ha).1,((hdx a ha).1).trans hs.1,(hdx a ha).2⟩

variable {tcb : Nat → LosTaskCB}

private theorem find_compare (tcb : Nat → LosTaskCB) (l : List Nat) (t : Nat) :
    (l.find? fun readyTask => decide (0 < edfParamCompare (tcb readyTask).sp (tcb t).sp)) =
      l.find? fun x => decide (Later (fun u => (tcb u).sp.finishTime) (tcb t).sp.finishTime x) := rfl

theorem deadlineQueueInsert_perm (tcb : Nat → LosTaskCB) (l : List Nat) (t : Nat) : (deadlineQueueInsert tcb l t).Perm (t :: l) := by
  rw [deadlineQueueInsert]
  split_ifs with he
  · exact List.perm_append_singleton t l
  · rw [find_compare]
    cases hf : l.find? fun x => decide (Later (fun u => (tcb u).sp.finishTime) (tcb t).sp.finishTime x) with
    | none => exact List.Perm.refl _
    | some x =>
      obtain ⟨done,rest,hl,ht,hd⟩ := find_later hf
      rw [losListHeadInsert, ht, hd, hl]
      exact List.perm_middle.trans ((List.perm_middle.cons x).trans (List.Perm.swap t x _)) |>.trans (List.perm_middle.symm.cons t)

/-- The exact condition under which one insertion keeps the order. -/
private theorem deadlineQueueInsert_sorted_iff (h : Sorted (fun u => (tcb u).sp.finishTime) l) :
    Sorted (fun u => (tcb u).sp.finishTime) (deadlineQueueInsert tcb l t) ↔
      InsertOk (fun u => (tcb u).sp.finishTime) l (tcb t).sp.finishTime := by
  rw [deadlineQueueInsert, InsertOk]
  split_ifs with he
  · rw [List.isEmpty_iff.mp he]
    simp [Sorted]
  · rw [find_compare]
    cases hf : l.find? fun x => decide (Later (fun u => (tcb u).sp.finishTime) (tcb t).sp.finishTime x) with
    | none =>
      simp only [losListHeadInsert]
      rw [h.forall_le, Sorted, List.pairwise_cons]
      exact and_iff_left h
    | some x =>
      obtain ⟨done,rest,hl,ht,hd⟩ := find_later hf
      simp only [losListHeadInsert, ht, hd, List.tail_cons]
      rw [hl] at h
      rw [sorted_insert_middle h, Sorted.forall_le (List.pairwise_cons.mp (List.pairwise_append.mp h).2.1).2]

/-- The tasks in root are the ready deadline tasks, in the order of the finish times, and no task is linked twice. -/
structure EdfInv (s : EdfSched) : Prop where
  sorted : Sorted s.finish s.root
  nodup : (s.root ++ (s.waitList ++ s.pended)).Nodup
  mem_root : ∀ t, t ∈ s.root ↔ (s.tcb t).isEDF = true ∧ (s.tcb t).taskStatus.ready = true
  ready : ∀ t ∈ s.root, (s.tcb t).taskStatus.pendTime = false
  delay : ∀ t, (s.tcb t).isEDF = true → (s.tcb t).taskStatus.delay = true → ¬s.Linked t

namespace EdfInv

private theorem not_mem_root (h : EdfInv s) (ht : (s.tcb t).taskStatus.ready = false) : t ∉ s.root := by
  intro hm
  rw [((h.mem_root t).mp hm).2] at ht
  cases ht

private theorem ready_eq_false (h : EdfInv s) (he : (s.tcb t).isEDF = true) (ht : t ∉ s.root) : (s.tcb t).taskStatus.ready = false := by
  rw [← Bool.not_eq_true]
  exact fun hr => ht ((h.mem_root t).mpr ⟨he,hr⟩)

private theorem delay_eq_false (h : EdfInv s) (he : (s.tcb t).isEDF = true) (ht : s.Linked t) : (s.tcb t).taskStatus.delay = false := by
  rw [← Bool.not_eq_true]
  exact fun hd => h.delay t he hd ht

private theorem not_mem_root_of_pended (h : EdfInv s) (ht : t ∈ s.pended) : t ∉ s.root :=
  fun hm => (List.nodup_append'.mp h.nodup).2.2 hm (List.mem_append_right _ ht)

/-- A block that is not ready takes the place of that of a task which is not in root. -/
theorem setTcb (h : EdfInv s) (ht : t ∉ s.root) (hr : cb.isEDF = true → cb.taskStatus.ready = false)
    (hd : cb.isEDF = true → cb.taskStatus.delay = true → ¬s.Linked t) : EdfInv (s.setTcb t cb) := by
  have hne : ∀ u ∈ s.root, u ≠ t := fun u hu he => ht (he ▸ hu)
  refine ⟨?_,h.nodup,fun u => ?_,fun u hu => ?_,fun u => ?_⟩
  · refine h.sorted.imp_of_mem fun ha hb hab => ?_
    simpa [finish, EdfSched.setTcb, Function.update_of_ne (hne _ ha), Function.update_of_ne (hne _ hb)] using hab
  · by_cases he : u = t
    · subst he
      simp only [EdfSched.setTcb, Function.update_self]
      refine ⟨fun hu => absurd hu ht,fun hu => ?_⟩
      rw [hr hu.1] at hu
      exact absurd hu.2 (by decide)
    · simp only [EdfSched.setTcb, Function.update_of_ne he]
      exact h.mem_root u
  · simp only [EdfSched.setTcb, Function.update_of_ne (hne u hu)]
    exact h.ready u hu
  · by_cases he : u = t
    · subst he
      simp only [EdfSched.setTcb, Function.update_self]
      exact hd
    · simp only [EdfSched.setTcb, Function.update_of_ne he]
      exact h.delay u

/-- A block that differs in what the order does not depend on. -/
private theorem setTcb_same (h : EdfInv s) (hf : cb.sp.finishTime = s.finish t) (he : cb.isEDF = (s.tcb t).isEDF)
    (hr : cb.taskStatus.ready = (s.tcb t).taskStatus.ready) (hd : cb.taskStatus.delay = (s.tcb t).taskStatus.delay)
    (hp : (s.tcb t).taskStatus.pendTime = false → cb.taskStatus.pendTime = false) : EdfInv (s.setTcb t cb) := by
  have hfin : (s.setTcb t cb).finish = s.finish := by
    funext u
    by_cases hut : u = t
    · subst hut
      simpa [finish, EdfSched.setTcb] using hf
    · simp [finish, EdfSched.setTcb, hut]
  refine ⟨hfin ▸ h.sorted,h.nodup,fun u => ?_,fun u hu => ?_,fun u => ?_⟩
  all_goals by_cases hut : u = t
  · subst hut
    simpa [EdfSched.setTcb, he, hr] using h.mem_root u
  · simpa [EdfSched.setTcb, hut] using h.mem_root u
  · subst hut
    simpa [EdfSched.setTcb] using hp (h.ready u hu)
  · simpa [EdfSched.setTcb, hut] using h.ready u hu
  · subst hut
    simpa [EdfSched.setTcb, he, hd, Linked] using h.delay u
  · simpa [EdfSched.setTcb, hut, Linked] using h.delay u

/-- Any task is unlinked by LOS_ListDelete; its block must not say that it is ready. -/
theorem listDelete (h : EdfInv s) (hr : cb.isEDF = true → cb.taskStatus.ready = false) :
    EdfInv ((s.listDelete t).setTcb t cb) ∧ ¬((s.listDelete t).setTcb t cb).Linked t := by
  have hd := h.nodup
  rw [List.nodup_append', List.nodup_append'] at hd
  obtain ⟨h1,⟨h2,h3,h23⟩,h123⟩ := hd
  have hne : ∀ u ∈ s.root.erase t, u ≠ t := fun u hu he => h1.not_mem_erase (he ▸ hu)
  have hnl : ¬((s.listDelete t).setTcb t cb).Linked t := by
    simp only [Linked, EdfSched.listDelete, EdfSched.setTcb]
    rintro (hm | hm | hm)
    · exact h1.not_mem_erase hm
    · exact h2.not_mem_erase hm
    · exact h3.not_mem_erase hm
  refine ⟨⟨?_,?_,fun u => ?_,fun u hu => ?_,fun u => ?_⟩,hnl⟩
  · refine (h.sorted.sublist List.erase_sublist).imp_of_mem fun ha hb hab => ?_
    simpa [finish, EdfSched.listDelete, EdfSched.setTcb, Function.update_of_ne (hne _ ha), Function.update_of_ne (hne _ hb)] using hab
  · refine List.Nodup.sublist ?_ h.nodup
    exact List.erase_sublist.append (List.erase_sublist.append List.erase_sublist)
  · by_cases he : u = t
    · subst he
      simp only [EdfSched.listDelete, EdfSched.setTcb, Function.update_self]
      refine ⟨fun hu => absurd hu h1.not_mem_erase,fun hu => ?_⟩
      rw [hr hu.1] at hu
      exact absurd hu.2 (by decide)
    · simp only [EdfSched.listDelete, EdfSched.setTcb, Function.update_of_ne he, List.mem_erase_of_ne he]
      exact h.mem_root u
  · simp only [EdfSched.listDelete, EdfSched.setTcb, Function.update_of_ne (hne u hu)]
    exact h.ready u (List.mem_of_mem_erase hu)
  · by_cases he : u = t
    · subst he
      exact fun _ _ => hnl
    · simp only [EdfSched.listDelete, EdfSched.setTcb, Function.update_of_ne he, Linked, List.mem_erase_of_ne he]
      exact h.delay u

end EdfInv

/-- What the first half of EDFEnqueue leaves as it is. -/
private theorem edfPrepare_same {toRoot : Bool} {cb' : LosTaskCB} (h : edfPrepare fuel cb currTime = some (toRoot,cb')) :
    cb'.isEDF = cb.isEDF ∧ cb'.taskStatus.ready = cb.taskStatus.ready ∧ cb'.taskStatus.delay = cb.taskStatus.delay := by
  rw [edfPrepare] at h
  simp only at h
  split at h
  · split at h
    · cases h
    · split at h
      · cases h
        exact ⟨rfl,rfl,rfl⟩
      · cases h
        exact ⟨rfl,rfl,rfl⟩
  · cases h
    exact ⟨rfl,rfl,rfl⟩

/-- The condition on a call of EDFEnqueue for a task with block cb, when the tasks of root finish at fin. -/
def EnqueueOk (fuel : Nat) (fin : Nat → Nat) (root : List Nat) (cb : LosTaskCB) (currTime : Nat) : Prop :=
  match edfPrepare fuel cb currTime with
  | some (true,cb') => InsertOk fin root cb'.sp.finishTime
  | _ => True

instance (root : List Nat) : Decidable (EnqueueOk fuel fin root cb currTime) := by
  unfold EnqueueOk
  split <;> infer_instance

/-- A task that is in no list goes to the end of waitList. -/
private theorem EdfInv.toWaitList (h : EdfInv s) (ht : ¬s.Linked t) (hr : cb.taskStatus.ready = false) (hd : cb.taskStatus.delay = false) :
    EdfInv { s.setTcb t cb with waitList := s.waitList ++ [t] } := by
  rw [Linked, not_or, not_or] at ht
  have h' := h.setTcb ht.1 (fun _ => hr) (fun _ hd' => absurd (hd.symm.trans hd') (by decide))
  refine ⟨h'.sorted,?_,h'.mem_root,h'.ready,fun u hu hud => ?_⟩
  · have hp : (s.root ++ (s.waitList ++ [t] ++ s.pended)).Perm (t :: (s.root ++ (s.waitList ++ s.pended))) := by
      rw [List.append_assoc, List.singleton_append, ← List.append_assoc, ← List.append_assoc]
      exact List.perm_middle
    refine hp.nodup_iff.mpr (List.nodup_cons.mpr ⟨?_,h.nodup⟩)
    simp [ht]
  · have hne : u ≠ t := by
      rintro rfl
      simp [EdfSched.setTcb, hd] at hud
    have := h'.delay u hu hud
    simpa [Linked, EdfSched.setTcb, hne] using this

/-- A task that is in no list joins a pend list. -/
private theorem EdfInv.toPended (h : EdfInv s) (ht : ¬s.Linked t) (hr : cb.taskStatus.ready = false) (hd : cb.taskStatus.delay = false) :
    EdfInv { s.setTcb t cb with pended := s.pended ++ [t] } := by
  rw [Linked, not_or, not_or] at ht
  have h' := h.setTcb ht.1 (fun _ => hr) (fun _ hd' => absurd (hd.symm.trans hd') (by decide))
  refine ⟨h'.sorted,?_,h'.mem_root,h'.ready,fun u hu hud => ?_⟩
  · have hp : (s.root ++ (s.waitList ++ (s.pended ++ [t]))).Perm (t :: (s.root ++ (s.waitList ++ s.pended))) := by
      rw [← List.append_assoc, ← List.append_assoc, ← List.append_assoc]
      exact List.perm_append_singleton t _
    refine hp.nodup_iff.mpr (List.nodup_cons.mpr ⟨?_,h.nodup⟩)
    simp [ht]
  · have hut : u ≠ t := by
      rintro rfl
      simp [EdfSched.setTcb, hd] at hud
    have := h'.delay u hu hud
    simpa [Linked, EdfSched.setTcb, hut] using this

/-- A task that is in no list joins root where the condition allows it. -/
private theorem EdfInv.toRoot (h : EdfInv s) (ht : ¬s.Linked t) (he : cb.isEDF = true) (hr : cb.taskStatus.ready = true)
    (hp : cb.taskStatus.pendTime = false) (hd : cb.taskStatus.delay = false) (hok : InsertOk s.finish s.root cb.sp.finishTime) :
    EdfInv { s.setTcb t cb with root := deadlineQueueInsert (Function.update s.tcb t cb) s.root t } := by
  rw [Linked, not_or, not_or] at ht
  have hne : ∀ u ∈ s.root, u ≠ t := fun u hu hut => ht.1 (hut ▸ hu)
  have hperm := deadlineQueueInsert_perm (Function.update s.tcb t cb) s.root t
  have hfin : ∀ u ∈ s.root, (Function.update s.tcb t cb u).sp.finishTime = s.finish u := by
    intro u hu
    rw [Function.update_of_ne (hne u hu), finish]
  have hsort : Sorted (fun u => (Function.update s.tcb t cb u).sp.finishTime) (deadlineQueueInsert (Function.update s.tcb t cb) s.root t) := by
    refine (deadlineQueueInsert_sorted_iff ?_).mpr ?_
    · refine h.sorted.imp_of_mem fun ha hb hab => ?_
      simp only [hfin _ ha, hfin _ hb]
      exact hab
    · rw [Function.update_self]
      exact (insertOk_congr hfin).mpr hok
  refine ⟨hsort,?_,fun u => ?_,fun u hu => ?_,fun u hu hud => ?_⟩
  · refine (hperm.append_right _).nodup_iff.mpr (List.nodup_cons.mpr ⟨?_,h.nodup⟩)
    simp [EdfSched.setTcb, ht]
  · rw [hperm.mem_iff, List.mem_cons]
    by_cases hut : u = t
    · subst hut
      simp [EdfSched.setTcb, he, hr]
    · simp only [EdfSched.setTcb, Function.update_of_ne hut, hut, false_or]
      exact h.mem_root u
  · by_cases hut : u = t
    · subst hut
      simpa [EdfSched.setTcb] using hp
    · simp only [EdfSched.setTcb, Function.update_of_ne hut]
      exact h.ready u ((List.mem_cons.mp (hperm.mem_iff.mp hu)).resolve_left hut)
  · have hut : u ≠ t := by
      rintro rfl
      simp [EdfSched.setTcb, hd] at hud
    simp only [EdfSched.setTcb, Function.update_of_ne hut] at hu hud
    have := h.delay u hu hud
    simpa [Linked, EdfSched.setTcb, hperm.mem_iff, hut] using this

theorem EdfInv.enqueue (h : EdfInv s) (ht : ¬s.Linked t) (he : (s.tcb t).isEDF = true) (hd : (s.tcb t).taskStatus.delay = false)
    (hok : EnqueueOk fuel s.finish s.root (s.tcb t) currTime) (hs : edfEnqueue fuel s t currTime = some s') : EdfInv s' := by
  rw [edfEnqueue] at hs
  rw [EnqueueOk] at hok
  split at hs
  · cases hs
  · rename_i hr
    rw [Bool.not_eq_true] at hr
    split at hs
    · cases hs
    · rename_i cb hcb
      obtain ⟨-,h2,h3⟩ := edfPrepare_same hcb
      cases hs
      exact h.toWaitList ht (h2.trans hr) (h3.trans hd)
    · rename_i cb hcb
      obtain ⟨h1,-,-⟩ := edfPrepare_same hcb
      rw [hcb] at hok
      cases hs
      exact h.toRoot ht (h1.trans he) rfl rfl rfl hok

private theorem enqueueOk_congr {fin' : Nat → Nat} (h : ∀ x ∈ l, fin' x = fin x) (hok : EnqueueOk fuel fin l cb currTime) :
    EnqueueOk fuel fin' l cb currTime := by
  rw [EnqueueOk] at hok ⊢
  split
  · rename_i cb' hcb
    rw [hcb] at hok
    exact (insertOk_congr h).mpr hok
  · trivial

private theorem ready_of_edfEnqueue (hs : edfEnqueue fuel s t currTime = some s') : (s.tcb t).taskStatus.ready = false := by
  rw [edfEnqueue] at hs
  split at hs
  · cases hs
  · rename_i hr
    exact Bool.not_eq_true _ ▸ hr

/-- EDFEnqueue for a task in no list, with a new block. -/
private theorem EdfInv.enqueue_setTcb (h : EdfInv s) (ht : ¬s.Linked t) (he : cb.isEDF = true) (hd : cb.taskStatus.delay = false)
    (hok : EnqueueOk fuel s.finish s.root cb currTime) (hs : edfEnqueue fuel (s.setTcb t cb) t currTime = some s') : EdfInv s' := by
  have hcb : (s.setTcb t cb).tcb t = cb := Function.update_self ..
  have hr := ready_of_edfEnqueue hs
  rw [hcb] at hr
  have hroot : t ∉ s.root := fun hm => ht (.inl hm)
  have h' := h.setTcb hroot (fun _ => hr) (fun _ hd' => absurd (hd.symm.trans hd') (by decide))
  refine h'.enqueue ht (by rw [hcb]; exact he) (by rw [hcb]; exact hd) ?_ hs
  rw [hcb]
  refine enqueueOk_congr (fun x hx => ?_) hok
  have hne : x ≠ t := fun hxt => hroot (hxt ▸ hx)
  simp [finish, EdfSched.setTcb, hne]

/-- EDFEnqueue for a task that was taken from its list first. -/
private theorem EdfInv.enqueue_listDelete (h : EdfInv s) (he : cb.isEDF = true) (hd : cb.taskStatus.delay = false)
    (hok : EnqueueOk fuel s.finish (s.root.erase t) cb currTime)
    (hs : edfEnqueue fuel ((s.listDelete t).setTcb t cb) t currTime = some s') : EdfInv s' := by
  have hcb : ((s.listDelete t).setTcb t cb).tcb t = cb := Function.update_self ..
  have hr := ready_of_edfEnqueue hs
  rw [hcb] at hr
  obtain ⟨h',hnl⟩ := h.listDelete (t := t) fun _ => hr
  refine h'.enqueue hnl (by rw [hcb]; exact he) (by rw [hcb]; exact hd) ?_ hs
  rw [hcb]
  refine enqueueOk_congr (fun x hx => ?_) hok
  have hne : x ≠ t := fun hxt => hnl (.inl (hxt ▸ hx))
  simp [finish, EdfSched.setTcb, EdfSched.listDelete, hne]

private theorem edfDequeue_setTcb (s : EdfSched) (t : Nat) (cb : LosTaskCB) :
    (edfDequeue s t).setTcb t cb = (s.listDelete t).setTcb t cb := by
  simp [edfDequeue, EdfSched.setTcb, EdfSched.listDelete]

theorem setTcb_setTcb (s : EdfSched) (t : Nat) (cb cb' : LosTaskCB) : (s.setTcb t cb).setTcb t cb' = s.setTcb t cb' := by
  simp [EdfSched.setTcb]

private theorem expireBlock_same (cb : LosTaskCB) (currTime : Nat) :
    (expireBlock cb currTime).sp.finishTime = cb.sp.finishTime ∧ (expireBlock cb currTime).isEDF = cb.isEDF ∧
    (expireBlock cb currTime).taskStatus.ready = cb.taskStatus.ready ∧
    (expireBlock cb currTime).taskStatus.delay = cb.taskStatus.delay ∧
    (cb.taskStatus.pendTime = false → (expireBlock cb currTime).taskStatus.pendTime = false) := by
  rw [expireBlock]
  simp only
  split_ifs <;> simp

/-- The calls of the deadline scheduler. policyInit puts a task with the given block under it: a new task, or one that was
under another policy. -/
inductive EdfCall where
  | policyInit (t : Nat) (cb : LosTaskCB) (param : SchedParam)
  | enqueue (t currTime : Nat)
  | dequeue (t : Nat)
  | yield (t currTime : Nat)
  | delay (t waitTime : Nat)
  | wait (t ticks waitTime : Nat)
  | wake (t currTime : Nat)
  | paramModify (t : Nat) (param : SchedParam) (currTime : Nat)
  | exit (t : Nat)
  | timeSliceUpdate (t currTime : Nat)
  | timeoutWake (t currTime : Nat)

namespace EdfCall

/-- A task that is pending already stays in its pend list when the policy changes. -/
def run (clock fuel : Nat) (s : EdfSched) : EdfCall → Option EdfSched
  | policyInit t cb param => some { s.setTcb t (edfTaskSchedParamInit clock cb param) with
      pended := if cb.taskStatus.pending then s.pended ++ [t] else s.pended }
  | enqueue t currTime => edfEnqueue fuel s t currTime
  | dequeue t => some (edfDequeue s t)
  | yield t currTime => edfYield fuel s t currTime
  | delay t waitTime => some (edfDelay s t waitTime)
  | wait t ticks waitTime => some (edfWait s t ticks waitTime)
  | wake t currTime => edfWake fuel s t currTime
  | paramModify t param currTime => edfSchedParamModify clock fuel s t param currTime
  | exit t => some (edfExit s t)
  | timeSliceUpdate t currTime => some (edfTimeSliceUpdate s t currTime)
  | timeoutWake t currTime => schedTimeoutTaskWake fuel s t currTime

/-- A running or a new task: under the policy, in no list and not delayed. -/
def Runs (s : EdfSched) (t : Nat) : Prop :=
  (s.tcb t).isEDF = true ∧ ¬s.Linked t ∧ (s.tcb t).taskStatus.delay = false

/-- What the callers see to. -/
def Pre (s : EdfSched) : EdfCall → Prop
  | policyInit t cb param => osSchedulerParamCheck param = true ∧ ¬s.Linked t ∧
      ¬(cb.taskStatus.pending = true ∧ cb.taskStatus.delay = true)
  | enqueue t _ | yield t _ | delay t _ | wait t _ _ => Runs s t
  | dequeue t => (s.tcb t).isEDF = true ∧ (s.tcb t).taskStatus.ready = true
  | wake t _ => (s.tcb t).isEDF = true ∧ t ∈ s.pended
  | paramModify t param _ => (s.tcb t).isEDF = true ∧ osSchedulerParamCheck param = true
  | exit t | timeSliceUpdate t _ | timeoutWake t _ => (s.tcb t).isEDF = true

instance (s : EdfSched) (t : Nat) : Decidable (Runs s t) := inferInstanceAs (Decidable (_ ∧ _))

instance (s : EdfSched) (c : EdfCall) : Decidable (c.Pre s) := by
  cases c <;> (unfold Pre; infer_instance)

/-- The condition: a call that puts a task into root finds the right place for it, a task that comes from another policy is
not ready, and a new task whose parameters change is in no list yet. -/
def Ok (clock fuel : Nat) (s : EdfSched) : EdfCall → Prop
  | policyInit _ cb _ => cb.taskStatus.ready = false
  | enqueue t currTime => EnqueueOk fuel s.finish s.root (s.tcb t) currTime
  | yield t currTime => EnqueueOk fuel s.finish s.root (yieldBlock (s.tcb t) currTime) currTime
  | wake t currTime => (s.tcb t).taskStatus.suspended = false → EnqueueOk fuel s.finish s.root (wakeBlock (s.tcb t)) currTime
  | paramModify t param currTime =>
    ((s.tcb t).taskStatus.ready = false → (s.tcb t).taskStatus.init = true → Runs s t) ∧
    ((s.tcb t).taskStatus.ready = true ∨ (s.tcb t).taskStatus.init = true →
      EnqueueOk fuel s.finish (s.root.erase t) (modifyBlock clock (s.tcb t) param) currTime)
  | timeoutWake t currTime =>
    let status := (expireBlock (s.tcb t) currTime).taskStatus
    status.pendTime = true ∨ status.delay = true → status.suspended = false →
      EnqueueOk fuel s.finish s.root (timeoutBlock (s.tcb t) currTime) currTime
  | _ => True

instance (s : EdfSched) (c : EdfCall) : Decidable (c.Ok clock fuel s) := by
  cases c <;> (unfold Ok; infer_instance)

theorem wake_inv (h : EdfInv s) {t currTime : Nat} (he : (s.tcb t).isEDF = true) (hm : t ∈ s.pended)
    (hok : (s.tcb t).taskStatus.suspended = false → EnqueueOk fuel s.finish s.root (wakeBlock (s.tcb t)) currTime)
    (hs : edfWake fuel s t currTime = some s') : EdfInv s' := by
  have hroot := h.not_mem_root_of_pended hm
  have hr := h.ready_eq_false he hroot
  have hd := h.delay_eq_false he (.inr (.inr hm))
  simp only [edfWake] at hs
  split at hs
  · rename_i hsus
    refine h.enqueue_listDelete ?_ ?_ ?_ hs
    · exact he
    · exact hd
    · rw [List.erase_of_not_mem hroot]
      refine hok ?_
      simpa [wakeBlock] using hsus
  · cases hs
    refine (h.listDelete ?_).1
    exact fun _ => hr

/-- A ready task leaves root and comes back with its new parameters, a new one is put into it, any other keeps its place. -/
private theorem paramModify_inv (h : EdfInv s) {t currTime : Nat} {param : SchedParam} (he : (s.tcb t).isEDF = true)
    (hok : (paramModify t param currTime).Ok clock fuel s) (hs : edfSchedParamModify clock fuel s t param currTime = some s') :
    EdfInv s' := by
  obtain ⟨hok1,hok2⟩ := hok
  simp only [edfSchedParamModify] at hs
  split at hs
  · rename_i hr
    have hm : t ∈ s.root := (h.mem_root t).mpr ⟨he,hr⟩
    rw [edfDequeue_setTcb] at hs
    refine h.enqueue_listDelete ?_ ?_ ?_ hs
    · exact he
    · exact h.delay_eq_false he (.inl hm)
    · exact hok2 (.inl hr)
  · rename_i hr
    rw [Bool.not_eq_true] at hr
    have hroot := h.not_mem_root hr
    rw [List.erase_of_not_mem hroot] at hok2
    split at hs
    · rename_i hi
      obtain ⟨-,hnl,hd⟩ := hok1 hr hi
      refine h.enqueue_setTcb hnl ?_ ?_ ?_ hs
      · exact he
      · exact hd
      · exact hok2 (.inr hi)
    · cases hs
      exact h.setTcb hroot (fun _ => rfl) (h.delay t)

private theorem exit_inv (h : EdfInv s) (t : Nat) : EdfInv (edfExit s t) := by
  rw [edfExit]
  simp only
  split
  · rw [edfDequeue_setTcb]
    refine (h.listDelete ?_).1
    exact fun _ => by simp [edfDequeue, EdfSched.setTcb]
  · rename_i hr
    rw [Bool.not_eq_true] at hr
    split
    · rw [setTcb_setTcb]
      refine (h.listDelete ?_).1
      exact fun _ => by simpa [EdfSched.setTcb] using hr
    · refine h.setTcb (h.not_mem_root hr) (fun _ => hr) ?_
      exact fun _ hd => nomatch hd

/-- A task that is still pending or delayed when its time is out is not in root. -/
private theorem timeoutWake_inv (h : EdfInv s) {t currTime : Nat} (hp : (s.tcb t).isEDF = true) (hok : (timeoutWake t currTime).Ok clock fuel s)
    (hs : schedTimeoutTaskWake fuel s t currTime = some s') : EdfInv s' := by
  obtain ⟨e1,e2,e3,e4,e5⟩ := expireBlock_same (s.tcb t) currTime
  simp only [schedTimeoutTaskWake] at hs
  split at hs
  · rename_i hpd
    rw [Bool.or_eq_true] at hpd
    have hroot : t ∉ s.root := by
      intro hm
      rcases hpd with hpd | hpd
      · rw [e5 (h.ready t hm)] at hpd
        cases hpd
      · rw [e4, h.delay_eq_false hp (.inl hm)] at hpd
        cases hpd
    have hr := h.ready_eq_false hp hroot
    have hr' : (timeoutBlock (s.tcb t) currTime).taskStatus.ready = false := e3.trans hr
    have he' : (timeoutBlock (s.tcb t) currTime).isEDF = true := e2.trans hp
    have hok' := hok hpd
    by_cases hpt : (expireBlock (s.tcb t) currTime).taskStatus.pendTime = true
    · simp only [if_pos hpt] at hs
      split at hs
      · rename_i hsus
        refine h.enqueue_listDelete he' rfl ?_ hs
        rw [List.erase_of_not_mem hroot]
        exact hok' (by simpa using hsus)
      · cases hs
        exact (h.listDelete fun _ => hr').1
    · simp only [if_neg hpt] at hs
      have hnl := h.delay t hp (by rw [← e4]; exact hpd.resolve_left hpt)
      split at hs
      · rename_i hsus
        exact h.enqueue_setTcb hnl he' rfl (hok' (by simpa using hsus)) hs
      · cases hs
        exact h.setTcb hroot (fun _ => hr') (fun _ hd => nomatch hd)
  · cases hs
    exact h.setTcb_same e1 e2 e3 e4 e5

theorem run_inv (h : EdfInv s) (c : EdfCall) (hp : c.Pre s) (hok : c.Ok clock fuel s) (hs : c.run clock fuel s = some s') :
    EdfInv s' := by
  cases c with
  | policyInit t cb param =>
    obtain ⟨-,hnl,hpd⟩ := hp
    cases hs
    cases hb : cb.taskStatus.pending with
    | false => exact h.setTcb (fun hm => hnl (.inl hm)) (fun _ => hok) (fun _ _ => hnl)
    | true =>
      rw [not_and, Bool.not_eq_true] at hpd
      exact h.toPended hnl hok (hpd hb)
  | enqueue t currTime => exact h.enqueue hp.2.1 hp.1 hp.2.2 hok hs
  | dequeue t =>
    cases hs
    exact (h.listDelete fun _ => rfl).1
  | yield t currTime =>
    refine h.enqueue_setTcb hp.2.1 ?_ ?_ hok hs
    · exact hp.1
    · exact hp.2.2
  | delay t waitTime =>
    cases hs
    have hr := h.ready_eq_false hp.1 fun hm => hp.2.1 (.inl hm)
    exact h.setTcb (fun hm => hp.2.1 (.inl hm)) (fun _ => hr) (fun _ _ => hp.2.1)
  | wait t ticks waitTime =>
    cases hs
    have hr := h.ready_eq_false hp.1 fun hm => hp.2.1 (.inl hm)
    rw [edfWait]
    split
    · exact h.toPended hp.2.1 hr hp.2.2
    · exact h.toPended hp.2.1 hr hp.2.2
  | wake t currTime => exact wake_inv h hp.1 hp.2 hok hs
  | paramModify t param currTime => exact paramModify_inv h hp.1 hok hs
  | exit t =>
    cases hs
    exact exit_inv h t
  | timeSliceUpdate t currTime =>
    cases hs
    rw [edfTimeSliceUpdate]
    simp only
    split
    · exact h.setTcb_same rfl rfl rfl rfl id
    · split
      · exact h.setTcb_same rfl rfl rfl rfl id
      · exact h.setTcb_same rfl rfl rfl rfl id
  | timeoutWake t currTime => exact timeoutWake_inv h hp hok hs

end EdfCall

/-- The queue is in the order of the finish times, and the task that is taken from it is ready and the first to finish of all
ready deadline tasks. -/
structure EdfOrder (s : EdfSched) : Prop where
  sorted : Sorted s.finish s.root
  top : ∀ t, edfRunqueueTopTaskGet s = some t → (s.tcb t).isEDF = true ∧ (s.tcb t).taskStatus.ready = true ∧
    ∀ u, (s.tcb u).isEDF = true → (s.tcb u).taskStatus.ready = true → s.finish t ≤ s.finish u
  empty : edfRunqueueTopTaskGet s = none → ∀ u, (s.tcb u).isEDF = true → (s.tcb u).taskStatus.ready = false

private theorem EdfInv.edfOrder (h : EdfInv s) : EdfOrder s := by
  refine ⟨h.sorted,fun t ht => ?_,fun ht u hu => ?_⟩
  · obtain ⟨rest,hl⟩ := List.head?_eq_some_iff.mp ht
    have hm : t ∈ s.root := by simp [hl]
    obtain ⟨he,hr⟩ := (h.mem_root t).mp hm
    refine ⟨he,hr,fun u heu hru => ?_⟩
    have hu := (h.mem_root u).mpr ⟨heu,hru⟩
    have hsort := h.sorted
    rw [hl] at hu hsort
    rcases List.mem_cons.mp hu with rfl | hu
    · exact Nat.le_refl _
    · exact List.rel_of_pairwise_cons hsort hu
  · refine h.ready_eq_false hu ?_
    rw [List.head?_eq_none_iff.mp ht]
    exact List.not_mem_nil

/-- The calls of the scheduler, each with fuel for the loop of its enqueue. At the start there is no deadline task. -/
def edfSystem (clock fuel : Nat) : Run.System EdfSched EdfCall where
  init s := ∃ tcb : Nat → LosTaskCB, (∀ t, (tcb t).isEDF = false) ∧ s = ⟨tcb,[],[],[]⟩
  pre s c := c.Pre s ∧ (c.run clock fuel s).isSome
  run s c := (c.run clock fuel s).getD s

instance (s : EdfSched) (c : EdfCall) : Decidable ((edfSystem clock fuel).pre s c) := inferInstanceAs (Decidable (_ ∧ _))

abbrev EdfReachable (ok : EdfSched → EdfCall → Prop) (clock fuel : Nat) := Run.Reachable (edfSystem clock fuel) ok

/-- There is no deadline task. -/
def edfStart : EdfSched := ⟨fun _ => default,[],[],[]⟩

private theorem edf_init {ok : EdfSched → EdfCall → Prop} : EdfReachable ok clock fuel edfStart := .init ⟨_,fun _ => rfl,rfl⟩

private theorem edfInv_of_reachable (h : EdfReachable (fun s c => c.Ok clock fuel s) clock fuel s) : EdfInv s := by
  refine h.invariant ?_ fun s c hs hp hok => ?_
  · rintro - ⟨tcb,h,rfl⟩
    exact ⟨List.Pairwise.nil,List.nodup_nil,fun t => by simp [h t],by simp,fun t ht => by simp [h t] at ht⟩
  · obtain ⟨s',hs'⟩ := Option.isSome_iff_exists.mp hp.2
    have hrun : (edfSystem clock fuel).run s c = s' := by simp only [edfSystem, hs', Option.getD_some]
    exact hrun ▸ c.run_inv hs hp.1 hok hs'

/-- Along every run whose calls meet the condition the queue is in order. -/
theorem edfOrder_of_reachable (clock fuel : Nat) (s : EdfSched)
    (h : EdfReachable (fun s c => c.Ok clock fuel s) clock fuel s) : EdfOrder s :=
  (edfInv_of_reachable h).edfOrder

/-- The block of a task that was just created. -/
def newBlock : LosTaskCB := { (default : LosTaskCB) with taskStatus := { (default : TaskStatus) with init := true } }

/-- A second task becomes ready some 2^32 cycles after the first, and a third one along with it: the loop stops at the first
task, and both are linked behind it. -/
theorem edfOrder_three_tasks : ∃ s, EdfReachable (fun s c => c.Ok 24000000 4 s) 24000000 4 s ∧ s.root = [1,3,2] ∧
    s.finish 1 = 48000000 ∧ s.finish 2 = 4318966296 ∧ EdfOrder s := by
  have h : EdfReachable (fun s c => c.Ok 24000000 4 s) 24000000 4 _ :=
    edf_init.calls [.policyInit 1 newBlock ⟨100,2000000,2000000⟩,.policyInit 2 newBlock ⟨100,1000000,1000000⟩,
      .policyInit 3 newBlock ⟨100,1000000,1000000⟩,.enqueue 1 0,.enqueue 2 4294966296,.enqueue 3 4294966296] (by decide)
  exact ⟨_,h,by decide,by decide,by decide,edfOrder_of_reachable 24000000 4 _ h⟩

/-- The task that finishes first is linked behind the one that finishes later. -/
theorem edfOrder_fails_two_ready :
    ¬ ∀ clock fuel s, EdfReachable (fun _ _ => True) clock fuel s → EdfOrder s := by
  intro hall
  have h : EdfReachable (fun _ _ => True) 24000000 4 _ :=
    edf_init.calls [.policyInit 1 newBlock ⟨100,2000000,2000000⟩,.policyInit 2 newBlock ⟨100,1000000,1000000⟩,
      .enqueue 1 0,.enqueue 2 0] (by decide)
  have ht := ((hall 24000000 4 _ h).top 1 (by decide +kernel)).2.2 2 (by decide +kernel) (by decide +kernel)
  exact absurd ht (by decide +kernel)

end LiteOsKernel.Sched.Deadline
