import LiteOsKernel.Ipc.Sem
import LiteOsKernel.Lib.Run
import Mathlib.Data.List.Nodup

/-! Tokens of a semaphore along any run: what was put in is what was taken out, is promised to a woken task or is left. -/
namespace LiteOsKernel.Ipc.Sem
open SemState

/-- A run of the semaphores with its history: the count each one was created with, the posts and the pends that succeeded
since, and when each task began to wait. -/
structure SemHist where
  st : SemState
  initCount : Nat → Nat
  posts : Nat → Nat
  pends : Nat → Nat
  arrived : Nat → Nat
  time : Nat

inductive SemCall where
  | create (count : Nat) (binary : Bool)
  | delete (semHandle : Nat)
  | pend (ctx : PendContext) (task semHandle timeout : Nat)
  | post (semHandle : Nat)
  | expire (index : Nat) (w : Waiter) (ops : SchedOps)
  | resume (r : Resumed)

namespace SemCall

def run (x : SemHist) : SemCall → SemHist
  | create count binary =>
    match if binary then losBinarySemCreate x.st count else losSemCreate x.st count with
    | (st,.ok,semHandle) =>
      let i := getSemIndex semHandle
      { x with st := st, initCount := Function.update x.initCount i count,
               posts := Function.update x.posts i 0, pends := Function.update x.pends i 0 }
    | (st,_,_) => { x with st := st }
  | delete semHandle => { x with st := (losSemDelete x.st semHandle).1 }
  | pend ctx task semHandle timeout =>
    match losSemPend x.st ctx task semHandle timeout with
    | (st,some .ok) =>
      let i := getSemIndex semHandle
      { x with st := st, pends := Function.update x.pends i (x.pends i + 1) }
    | (st,some _) => { x with st := st }
    | (st,none) => { x with st := st, arrived := Function.update x.arrived task x.time, time := x.time + 1 }
  | post semHandle =>
    match losSemPost x.st semHandle with
    | (st,.ok) =>
      let i := getSemIndex semHandle
      { x with st := st, posts := Function.update x.posts i (x.posts i + 1) }
    | (st,_) => { x with st := st }
  | expire index w ops => { x with st := semTimeout x.st index w ops }
  | resume r =>
    match semReturn x.st r with
    | (st,.ok) =>
      if r.deletions = (st.allSem r.index).deletions then
        { x with st := st, pends := Function.update x.pends r.index (x.pends r.index + 1) }
      else { x with st := st }
    | (st,_) => { x with st := st }

/-- A task that calls LOS_SemPend runs, a task that times out waits for a bounded time, and a task that returns was resumed. -/
def Pre (s : SemState) : SemCall → Prop
  | pend _ task _ _ => (∀ i, ∀ w ∈ (s.allSem i).semList, w.task ≠ task) ∧ ∀ r ∈ s.resumed, r.task ≠ task
  | expire index w _ => w ∈ (s.allSem index).semList ∧ w.ticks ≠ LOS_WAIT_FOREVER
  | resume r => r ∈ s.resumed
  | create .. | delete .. | post .. => True

instance (s : SemState) (index : Nat) (w : Waiter) (ops : SchedOps) : Decidable ((expire index w ops).Pre s) :=
  inferInstanceAs (Decidable (_ ∧ _))

instance (s : SemState) (r : Resumed) : Decidable ((resume r).Pre s) := inferInstanceAs (Decidable (_ ∈ _))

/-- The condition: no deadline task times out. -/
def Ok : SemCall → Prop
  | expire _ _ ops => ops = .hpf
  | _ => True

end SemCall

/-- The tasks that were woken with a token of the semaphore and have not run since. -/
def woken (s : SemState) (i : Nat) : Nat :=
  s.resumed.countP fun r => r.index = i ∧ r.deletions = (s.allSem i).deletions ∧ r.timeout = false

/-- The invariant of one semaphore. -/
structure SemCBInv (x : SemHist) (i : Nat) : Prop where
  semID_eq : i < LOSCFG_BASE_IPC_SEM_LIMIT → (x.st.allSem i).semID = (x.st.allSem i).deletions % 2^16 * 2^16 + i
  count_le : (x.st.allSem i).semStat = true → (x.st.allSem i).semCount ≤ (x.st.allSem i).maxSemCount
  max_pos : (x.st.allSem i).semStat = true → 0 < (x.st.allSem i).maxSemCount
  count_zero : (x.st.allSem i).semStat = true → (x.st.allSem i).semList ≠ [] → (x.st.allSem i).semCount = 0
  conserve : (x.st.allSem i).semStat = true → x.initCount i + x.posts i = x.pends i + woken x.st i + (x.st.allSem i).semCount
  fifo : (x.st.allSem i).semList.Pairwise fun v w => x.arrived v.task < x.arrived w.task
  past : ∀ w ∈ (x.st.allSem i).semList, x.arrived w.task < x.time
  idle : (x.st.allSem i).semStat = false → (x.st.allSem i).semList = []

structure SemInv (x : SemHist) : Prop where
  sem : ∀ i, SemCBInv x i
  unused : ∀ i ∈ x.st.unusedSemList, i < LOSCFG_BASE_IPC_SEM_LIMIT ∧ (x.st.allSem i).semStat = false
  nodup : x.st.unusedSemList.Nodup
  resumed : ∀ r ∈ x.st.resumed, r.deletions < (x.st.allSem r.index).deletions ∨
    r.deletions = (x.st.allSem r.index).deletions ∧ (x.st.allSem r.index).semStat = true

variable {x : SemHist} {i d : Nat}

private theorem setSemId_eq (hi : i < 2^16) : setSemId d i = d % 2^16 * 2^16 + i := by
  have hm : (d <<< SEM_SPLIT_BIT) % 2^32 = (d % 2^16) <<< 16 := by
    rw [SEM_SPLIT_BIT, Nat.shiftLeft_eq, Nat.shiftLeft_eq]
    omega
  rw [setSemId, hm, ← Nat.shiftLeft_add_eq_or_of_lt hi, Nat.shiftLeft_eq]

private theorem limit_lt : LOSCFG_BASE_IPC_SEM_LIMIT < 2^16 := by
  rw [LOSCFG_BASE_IPC_SEM_LIMIT]
  omega

private theorem getSemIndex_eq (h : Nat) : getSemIndex h = h % 2^16 := by
  rw [getSemIndex]
  exact Nat.and_two_pow_sub_one_eq_mod h 16

private theorem getSemCount_eq (h : Nat) : getSemCount h = h / 2^16 := Nat.shiftRight_eq_div_pow h 16

private theorem SemInv.getSemIndex_semID (h : SemInv x) (hi : i < LOSCFG_BASE_IPC_SEM_LIMIT) : getSemIndex (x.st.allSem i).semID = i := by
  rw [(h.sem i).semID_eq hi, getSemIndex_eq]
  rw [LOSCFG_BASE_IPC_SEM_LIMIT] at hi
  omega

variable {x' : SemHist} {s : SemState} {sem : LosSemCB} {ctx : PendContext} {h t n j : Nat}

/-- What LOS_SemPend does: nothing, with an error; the token is taken; or the task waits. -/
private theorem losSemPend_cases (s : SemState) (ctx : PendContext) (t h n : Nat) :
    (∃ ret, ret ≠ .ok ∧ losSemPend s ctx t h n = (s,some ret)) ∨
    (s.Valid h ∧ 0 < (s.getSem h).semCount ∧
      losSemPend s ctx t h n = (s.set (getSemIndex h) { s.getSem h with semCount := (s.getSem h).semCount - 1 },some .ok)) ∨
    (s.Valid h ∧ (s.getSem h).semCount = 0 ∧
      losSemPend s ctx t h n = (s.set (getSemIndex h) { s.getSem h with semList := (s.getSem h).semList ++ [⟨t,n⟩] },none)) := by
  rw [losSemPend]
  simp only
  split_ifs with h1 h2 h3 h4 h5 h6 h7
  · exact .inl ⟨.invalid,by decide,rfl⟩
  · exact .inl ⟨.pendInterr,by decide,rfl⟩
  · exact .inl ⟨.pendInSystemTask,by decide,rfl⟩
  · exact .inl ⟨.invalid,by decide,rfl⟩
  all_goals
    rw [not_or, Bool.not_eq_false, not_not] at h4
    rw [Nat.not_le] at h1
  · exact .inr (.inl ⟨⟨h1,h4⟩,h5,rfl⟩)
  · exact .inl ⟨.unavailable,by decide,rfl⟩
  · exact .inl ⟨.pendInLock,by decide,rfl⟩
  · exact .inr (.inr ⟨⟨h1,h4⟩,by omega,rfl⟩)

/-- What LOS_SemPost does: nothing, with an error; the first waiter is woken; or the count grows. -/
private theorem losSemPost_cases (s : SemState) (h : Nat) :
    (∃ ret, ret ≠ .ok ∧ losSemPost s h = (s,ret)) ∨
    (s.Valid h ∧ (s.getSem h).semCount ≠ (s.getSem h).maxSemCount ∧ ∃ w rest, (s.getSem h).semList = w :: rest ∧
      losSemPost s h = (s.leave (getSemIndex h) rest w.task false,.ok)) ∨
    (s.Valid h ∧ (s.getSem h).semCount ≠ (s.getSem h).maxSemCount ∧ (s.getSem h).semList = [] ∧
      losSemPost s h = (s.set (getSemIndex h) { s.getSem h with semCount := (s.getSem h).semCount + 1 },.ok)) := by
  rw [losSemPost, osSemPostUnsafe]
  simp only
  split_ifs with h1 h2 h3
  · exact .inl ⟨.invalid,by decide,rfl⟩
  · exact .inl ⟨.invalid,by decide,rfl⟩
  · exact .inl ⟨.overflow,by decide,rfl⟩
  · rw [not_or, Bool.not_eq_false, not_not] at h2
    rw [Nat.not_le] at h1
    cases hl : (s.getSem h).semList with
    | nil => exact .inr (.inr ⟨⟨h1,h2.2,h2.1⟩,h3,rfl,rfl⟩)
    | cons w rest => exact .inr (.inl ⟨⟨h1,h2.2,h2.1⟩,h3,w,rest,rfl,rfl⟩)

/-- What LOS_SemDelete does: nothing, with an error; or the block goes back to the unused ones, when no task waits. -/
private theorem losSemDelete_cases (s : SemState) (h : Nat) :
    (∃ ret, ret ≠ .ok ∧ losSemDelete s h = (s,ret)) ∨
    (s.Valid h ∧ (s.getSem h).semList = [] ∧
      losSemDelete s h = ({ s.set (getSemIndex h) { s.getSem h with
          semStat := false
          semID := setSemId (getSemCount (s.getSem h).semID + 1) (getSemIndex (s.getSem h).semID)
          deletions := (s.getSem h).deletions + 1 } with
        unusedSemList := s.unusedSemList ++ [getSemIndex h] },.ok)) := by
  rw [losSemDelete]
  simp only
  split_ifs with h1 h2 h3
  · exact .inl ⟨.invalid,by decide,rfl⟩
  · exact .inl ⟨.invalid,by decide,rfl⟩
  · exact .inl ⟨.pended,by decide,rfl⟩
  · rw [not_or, Bool.not_eq_false, not_not] at h2
    exact .inr ⟨⟨Nat.not_le.mp h1,h2⟩,not_not.mp h3,rfl⟩

/-- A semaphore that a step does not touch. -/
theorem SemCBInv.congr (h : SemCBInv x j) (hsem : x'.st.allSem j = x.st.allSem j) (hc : x'.initCount j = x.initCount j)
    (hp : x'.posts j = x.posts j) (hq : x'.pends j = x.pends j) (hw : woken x'.st j = woken x.st j)
    (ha : ∀ w ∈ (x.st.allSem j).semList, x'.arrived w.task = x.arrived w.task) (ht : x.time ≤ x'.time) : SemCBInv x' j := by
  refine ⟨?_,?_,?_,?_,?_,?_,?_,?_⟩
  · rw [hsem]
    exact h.semID_eq
  · rw [hsem]
    exact h.count_le
  · rw [hsem]
    exact h.max_pos
  · rw [hsem]
    exact h.count_zero
  · rw [hsem, hc, hp, hq, hw]
    exact h.conserve
  · rw [hsem]
    refine h.fifo.imp_of_mem fun hv hw' hlt => ?_
    rw [ha _ hv, ha _ hw']
    exact hlt
  · rw [hsem]
    intro w hm
    rw [ha w hm]
    exact (h.past w hm).trans_le ht
  · rw [hsem]
    exact h.idle

/-- The tasks that a semaphore has woken do not depend on its other fields. -/
private theorem woken_set (s : SemState) (i j : Nat) (hd : sem.deletions = (s.allSem i).deletions) : woken (s.set i sem) j = woken s j := by
  have hdel : ((s.set i sem).allSem j).deletions = (s.allSem j).deletions := by
    by_cases he : j = i
    · subst he
      rw [set_self, hd]
    · rw [set_of_ne he]
  rw [woken, woken, hdel]
  rfl

private theorem woken_leave (s : SemState) (i j : Nat) (rest : List Waiter) (t : Nat) (b : Bool) :
    woken (s.leave i rest t b) j = woken s j + if i = j ∧ b = false then 1 else 0 := by
  have hdel : ((s.leave i rest t b).allSem j).deletions = (s.allSem j).deletions := by
    by_cases he : j = i
    · subst he
      rw [leave_self]
    · rw [leave_of_ne he]
  rw [woken, woken, hdel, leave, List.countP_append, List.countP_singleton]
  congr 1
  by_cases he : i = j
  · subst he
    simp
  · simp [he]

/-- The semaphore that a handle names keeps its invariant, and the others are as they were. -/
theorem SemInv.update (hx : SemInv x) (hself : x'.st.allSem i = sem) (hd : sem.deletions = (x.st.allSem i).deletions)
    (hu : sem.semStat = (x.st.allSem i).semStat) (hst : ∀ j, j ≠ i → x'.st.allSem j = x.st.allSem j)
    (hunused : x'.st.unusedSemList = x.st.unusedSemList)
    (hres : ∀ r ∈ x'.st.resumed, r ∈ x.st.resumed ∨ r.index = i ∧ r.deletions = sem.deletions ∧ sem.semStat = true)
    (hother : ∀ j, j ≠ i → SemCBInv x' j) (hi : SemCBInv x' i) : SemInv x' := by
  refine ⟨fun j => ?_,fun j hj => ?_,?_,fun r hr => ?_⟩
  · by_cases he : j = i
    · exact he ▸ hi
    · exact hother j he
  · rw [hunused] at hj
    obtain ⟨h1,h2⟩ := hx.unused j hj
    refine ⟨h1,?_⟩
    by_cases he : j = i
    · rw [he, hself, hu, ← he, h2]
    · rw [hst j he, h2]
  · rw [hunused]
    exact hx.nodup
  · rcases hres r hr with hr | ⟨h1,h2,h3⟩
    · have := hx.resumed r hr
      by_cases he : r.index = i
      · rw [he] at this ⊢
        rw [hself, hd, hu]
        exact this
      · rw [hst _ he]
        exact this
    · right
      rw [h1, hself]
      exact ⟨h2,h3⟩

/-- A token is taken. -/
private theorem SemInv.pend_ok (hx : SemInv x) (hv : x.st.Valid h) (hpos : 0 < (x.st.getSem h).semCount) :
    SemInv { x with
      st := x.st.set (getSemIndex h) { x.st.getSem h with semCount := (x.st.getSem h).semCount - 1 }
      pends := Function.update x.pends (getSemIndex h) (x.pends (getSemIndex h) + 1) } := by
  have hs := hx.sem (getSemIndex h)
  have hcons := hs.conserve hv.2.1
  have hle := hs.count_le hv.2.1
  refine hx.update (set_self ..) rfl rfl (fun j hj => set_of_ne hj ..) rfl (fun r hr => .inl hr) (fun j hj => ?_) ?_
  · refine (hx.sem j).congr (set_of_ne hj ..) rfl rfl ?_ (woken_set _ _ _ rfl) (fun _ _ => rfl) (Nat.le_refl _)
    exact Function.update_of_ne hj ..
  · refine ⟨?_,?_,?_,?_,?_,?_,?_,?_⟩
    all_goals simp only [set_self, Function.update_self]
    · exact hs.semID_eq
    · exact fun _ => (Nat.sub_le _ _).trans hle
    · exact hs.max_pos
    · intro hu hl
      rw [SemState.getSem] at hpos
      rw [hs.count_zero hu hl] at hpos
      cases hpos
    · intro _
      rw [woken_set, hcons]
      · rw [SemState.getSem] at hpos ⊢
        omega
      · rfl
    · exact hs.fifo
    · exact hs.past
    · exact hs.idle

/-- The task waits at the end of the list. -/
private theorem SemInv.pend_wait (hx : SemInv x) (hv : x.st.Valid h) (h0 : (x.st.getSem h).semCount = 0)
    (ht : ∀ i, ∀ w ∈ (x.st.allSem i).semList, w.task ≠ t) :
    SemInv { x with
      st := x.st.set (getSemIndex h) { x.st.getSem h with semList := (x.st.getSem h).semList ++ [⟨t,n⟩] }
      arrived := Function.update x.arrived t x.time
      time := x.time + 1 } := by
  have hs := hx.sem (getSemIndex h)
  have hcons := hs.conserve hv.2.1
  have harr : ∀ i, ∀ w ∈ (x.st.allSem i).semList, Function.update x.arrived t x.time w.task = x.arrived w.task :=
    fun i w hw => Function.update_of_ne (ht i w hw) ..
  refine hx.update (set_self ..) rfl rfl (fun j hj => set_of_ne hj ..) rfl (fun r hr => .inl hr) (fun j hj => ?_) ?_
  · exact (hx.sem j).congr (set_of_ne hj ..) rfl rfl rfl (woken_set _ _ _ rfl) (harr j) (Nat.le_succ _)
  · refine ⟨?_,?_,?_,?_,?_,?_,?_,?_⟩
    all_goals simp only [set_self]
    · exact hs.semID_eq
    · exact hs.count_le
    · exact hs.max_pos
    · exact fun _ _ => h0
    · intro _
      rw [woken_set]
      · exact hcons
      · rfl
    · refine List.pairwise_append.mpr ⟨hs.fifo.imp_of_mem fun hv hw hlt => ?_,List.pairwise_singleton ..,fun v hv w hw => ?_⟩
      · rw [harr _ _ hv, harr _ _ hw]
        exact hlt
      · rw [List.mem_singleton.mp hw, harr _ v hv, Function.update_self]
        exact hs.past v hv
    · intro w hw
      rcases List.mem_append.mp hw with hw | hw
      · rw [harr _ w hw]
        exact (hs.past w hw).trans (Nat.lt_succ_self _)
      · rw [List.mem_singleton.mp hw, Function.update_self]
        exact Nat.lt_succ_self _
    · exact fun hu => absurd (hv.2.1.symm.trans hu) (by decide)

/-- A task leaves the list, with the token of a post or without one. -/
theorem SemInv.leave (hx : SemInv x) {rest : List Waiter} (hsub : rest.Sublist (x.st.allSem i).semList) (hne : (x.st.allSem i).semList ≠ [])
    (t : Nat) (b : Bool) {posts : Nat → Nat} (hp : posts i = x.posts i + if b = false then 1 else 0)
    (hp' : ∀ j, j ≠ i → posts j = x.posts j) : SemInv { x with st := x.st.leave i rest t b, posts := posts } := by
  have hs := hx.sem i
  have hu : (x.st.allSem i).semStat = true := by
    rw [← Bool.not_eq_false]
    exact fun hu => hne (hs.idle hu)
  have hcons := hs.conserve hu
  refine hx.update (leave_self ..) rfl rfl (fun j hj => leave_of_ne hj ..) rfl (fun r hr => ?_) (fun j hj => ?_) ?_
  · rcases List.mem_append.mp hr with hr | hr
    · exact .inl hr
    · rw [List.mem_singleton.mp hr]
      exact .inr ⟨rfl,rfl,hu⟩
  · refine (hx.sem j).congr (leave_of_ne hj ..) rfl (hp' j hj) rfl ?_ (fun _ _ => rfl) (Nat.le_refl _)
    rw [woken_leave, if_neg fun hc => hj hc.1.symm, Nat.add_zero]
  · refine ⟨?_,?_,?_,?_,?_,?_,?_,?_⟩
    all_goals simp only [leave_self, woken_leave, true_and]
    · exact hs.semID_eq
    · exact hs.count_le
    · exact hs.max_pos
    · exact fun hu _ => hs.count_zero hu hne
    · intro _
      rw [hp]
      omega
    · exact hs.fifo.sublist hsub
    · exact fun v hv => hs.past v (hsub.subset hv)
    · exact fun hu' => absurd (hu.symm.trans hu') (by decide)

/-- The count grows when no task waits. -/
private theorem SemInv.post_count (hx : SemInv x) (hv : x.st.Valid h) (hne : (x.st.getSem h).semCount ≠ (x.st.getSem h).maxSemCount)
    (hl : (x.st.getSem h).semList = []) :
    SemInv { x with
      st := x.st.set (getSemIndex h) { x.st.getSem h with semCount := (x.st.getSem h).semCount + 1 }
      posts := Function.update x.posts (getSemIndex h) (x.posts (getSemIndex h) + 1) } := by
  have hs := hx.sem (getSemIndex h)
  have hcons := hs.conserve hv.2.1
  have hle := hs.count_le hv.2.1
  rw [SemState.getSem] at hne hl
  refine hx.update (set_self ..) rfl rfl (fun j hj => set_of_ne hj ..) rfl (fun r hr => .inl hr) (fun j hj => ?_) ?_
  · refine (hx.sem j).congr (set_of_ne hj ..) rfl ?_ rfl (woken_set _ _ _ rfl) (fun _ _ => rfl) (Nat.le_refl _)
    exact Function.update_of_ne hj ..
  · refine ⟨?_,?_,?_,?_,?_,?_,?_,?_⟩
    all_goals simp only [set_self, Function.update_self, SemState.getSem]
    · exact hs.semID_eq
    · exact fun _ => by omega
    · exact hs.max_pos
    · exact fun _ hl' => absurd hl hl'
    · intro _
      rw [woken_set]
      · omega
      · rfl
    · exact hs.fifo
    · exact hs.past
    · exact hs.idle

/-- A new semaphore has woken nobody: the tasks woken by the last one with this block are of an earlier generation. -/
private theorem SemInv.woken_eq_zero (hx : SemInv x) (hu : (x.st.allSem i).semStat = false) : woken x.st i = 0 := by
  rw [woken, List.countP_eq_zero]
  intro r hr
  rw [decide_eq_true_eq]
  rintro ⟨rfl,hd,-⟩
  rcases hx.resumed r hr with h | h
  · omega
  · exact absurd (hu.symm.trans h.2) (by decide)

theorem SemInv.create (hx : SemInv x) {rest : List Nat} (hun : x.st.unusedSemList = i :: rest) {count maxCount : Nat} (hc : count ≤ maxCount)
    (hm : 0 < maxCount) :
    SemInv { x with
      st := { x.st.set i { x.st.allSem i with semCount := count, semStat := true, maxSemCount := maxCount, semList := [] } with
        unusedSemList := rest }
      initCount := Function.update x.initCount i count
      posts := Function.update x.posts i 0
      pends := Function.update x.pends i 0 } := by
  have hs := hx.sem i
  have hmem : i ∈ x.st.unusedSemList := by
    rw [hun]
    exact List.mem_cons_self
  obtain ⟨hi,hu⟩ := hx.unused i hmem
  have hnd := hx.nodup
  rw [hun, List.nodup_cons] at hnd
  have hw := hx.woken_eq_zero hu
  refine ⟨fun j => ?_,fun j hj => ?_,hnd.2,fun r hr => ?_⟩
  · by_cases he : j = i
    · subst he
      refine ⟨?_,?_,?_,?_,?_,?_,?_,?_⟩
      all_goals simp only [set_self, Function.update_self]
      · exact hs.semID_eq
      · exact fun _ => hc
      · exact fun _ => hm
      · exact fun _ hl => absurd rfl hl
      · intro _
        rw [woken] at hw ⊢
        simp only [set_self, set_resumed, hw]
        omega
      · exact List.Pairwise.nil
      · simp
      · exact fun _ => trivial
    · refine (hx.sem j).congr (set_of_ne he ..) ?_ ?_ ?_ ?_ (fun _ _ => rfl) (Nat.le_refl _)
      · exact Function.update_of_ne he ..
      · exact Function.update_of_ne he ..
      · exact Function.update_of_ne he ..
      · exact woken_set x.st i j rfl
  · have he : j ≠ i := fun he => hnd.1 (he ▸ hj)
    obtain ⟨h1,h2⟩ := hx.unused j (by rw [hun]; exact List.mem_cons_of_mem _ hj)
    refine ⟨h1,?_⟩
    simp only [set_of_ne he]
    exact h2
  · have := hx.resumed r hr
    by_cases he : r.index = i
    · simp only [he, set_self]
      rw [he, hu] at this
      refine .inl ?_
      simpa using this
    · simp only [set_of_ne he]
      exact this

theorem SemInv.delete (hx : SemInv x) (hv : x.st.Valid h) (hl : (x.st.getSem h).semList = []) :
    SemInv { x with st := { x.st.set (getSemIndex h) { x.st.getSem h with
          semStat := false
          semID := setSemId (getSemCount (x.st.getSem h).semID + 1) (getSemIndex (x.st.getSem h).semID)
          deletions := (x.st.getSem h).deletions + 1 } with
        unusedSemList := x.st.unusedSemList ++ [getSemIndex h] } } := by
  have hs := hx.sem (getSemIndex h)
  have hid := hs.semID_eq hv.1
  have hidx := hx.getSemIndex_semID hv.1
  have hlim := hv.1
  rw [LOSCFG_BASE_IPC_SEM_LIMIT] at hlim
  simp only [SemState.getSem]
  refine ⟨fun j => ?_,fun j hj => ?_,?_,fun r hr => ?_⟩
  · by_cases he : j = getSemIndex h
    · subst he
      refine ⟨?_,?_,?_,?_,?_,?_,?_,?_⟩
      all_goals simp only [set_self, Bool.false_eq_true, false_imp_iff]
      · intro _
        rw [hidx, setSemId_eq (by omega), getSemCount_eq, hid]
        omega
      · exact hs.fifo
      · exact hs.past
      · exact fun _ => hl
    · refine (hx.sem j).congr (set_of_ne he ..) rfl rfl rfl ?_ (fun _ _ => rfl) (Nat.le_refl _)
      rw [woken, woken]
      simp only [set_of_ne he]
      rfl
  · by_cases he : j = getSemIndex h
    · simp only [he, set_self]
      exact ⟨hv.1,trivial⟩
    · simp only [set_of_ne he]
      exact hx.unused j ((List.mem_append.mp hj).resolve_right fun hj => he (List.mem_singleton.mp hj))
  · refine List.nodup_append'.mpr ⟨hx.nodup,List.nodup_singleton _,?_⟩
    rw [List.disjoint_singleton]
    exact fun hm => absurd ((hx.unused _ hm).2.symm.trans hv.2.1) (by decide)
  · have := hx.resumed r hr
    by_cases he : r.index = getSemIndex h
    · simp only [he, set_self]
      rw [he] at this
      omega
    · simp only [set_of_ne he]
      exact this

/-- A resumed task returns. -/
theorem SemInv.resume (hx : SemInv x) {r : Resumed} (hr : r ∈ x.st.resumed) {pends : Nat → Nat}
    (hp : ∀ j, pends j = x.pends j + if r.index = j ∧ r.deletions = (x.st.allSem j).deletions ∧ r.timeout = false then 1 else 0) :
    SemInv { x with st := { x.st with resumed := x.st.resumed.erase r }, pends := pends } := by
  refine ⟨fun j => ?_,hx.unused,hx.nodup,fun q hq => hx.resumed q (List.mem_of_mem_erase hq)⟩
  have hs := hx.sem j
  refine ⟨hs.semID_eq,hs.count_le,hs.max_pos,hs.count_zero,fun hu => ?_,hs.fifo,hs.past,hs.idle⟩
  have hcons := hs.conserve hu
  have hw := (List.perm_cons_erase hr).countP_eq fun r => decide (r.index = j ∧ r.deletions = (x.st.allSem j).deletions ∧ r.timeout = false)
  rw [List.countP_cons] at hw
  simp only [decide_eq_true_eq] at hw
  simp only [woken, hp] at hcons ⊢
  omega

private theorem osSemCreate_cases (s : SemState) (count maxCount : Nat) :
    (∃ ret, ret ≠ .ok ∧ osSemCreate s count maxCount = (s,ret,0)) ∨
    ∃ index rest, count ≤ maxCount ∧ s.unusedSemList = index :: rest ∧
      osSemCreate s count maxCount = ({ s.set index { s.allSem index with
        semCount := count, semStat := true, maxSemCount := maxCount, semList := [] } with unusedSemList := rest },.ok,
        (s.allSem index).semID) := by
  rw [osSemCreate]
  split_ifs with h1
  · exact .inl ⟨.overflow,by decide,rfl⟩
  · cases hl : s.unusedSemList with
    | nil => exact .inl ⟨.allBusy,by decide,rfl⟩
    | cons index rest => exact .inr ⟨index,rest,Nat.not_lt.mp h1,rfl,rfl⟩

theorem SemCall.run_inv (hx : SemInv x) (c : SemCall) (hp : c.Pre x.st) (hok : c.Ok) : SemInv (c.run x) := by
  cases c with
  | create count binary =>
    have hcreate : ∀ maxCount, 0 < maxCount → SemInv (match osSemCreate x.st count maxCount with
        | (st,.ok,semHandle) => { x with
            st := st
            initCount := Function.update x.initCount (getSemIndex semHandle) count
            posts := Function.update x.posts (getSemIndex semHandle) 0
            pends := Function.update x.pends (getSemIndex semHandle) 0 }
        | (st,_,_) => { x with st := st }) := by
      intro maxCount hm
      rcases osSemCreate_cases x.st count maxCount with ⟨ret,hret,he⟩ | ⟨index,rest,hle,hun,he⟩
      · rw [he]
        cases ret <;> first | exact hx | exact absurd rfl hret
      · have hi := (hx.unused index (by rw [hun]; exact List.mem_cons_self)).1
        rw [he]
        simp only [hx.getSemIndex_semID hi]
        exact hx.create hun hle hm
    cases binary with
    | false => exact hcreate OS_SEM_COUNT_MAX (by decide)
    | true => exact hcreate OS_SEM_BINARY_COUNT_MAX (by decide)
  | delete h =>
    rw [run]
    rcases losSemDelete_cases x.st h with ⟨ret,-,he⟩ | ⟨hv,hl,he⟩
    · rw [he]
      exact hx
    · rw [he]
      exact hx.delete hv hl
  | pend ctx t h n =>
    rw [run]
    rcases losSemPend_cases x.st ctx t h n with ⟨ret,hret,he⟩ | ⟨hv,hpos,he⟩ | ⟨hv,h0,he⟩
    · rw [he]
      cases ret <;> first | exact hx | exact absurd rfl hret
    · rw [he]
      exact hx.pend_ok hv hpos
    · rw [he]
      exact hx.pend_wait hv h0 hp.1
  | post h =>
    rw [run]
    rcases losSemPost_cases x.st h with ⟨ret,hret,he⟩ | ⟨hv,hne,w,rest,hl,he⟩ | ⟨hv,hne,hl,he⟩
    · rw [he]
      cases ret <;> first | exact hx | exact absurd rfl hret
    · rw [he]
      rw [SemState.getSem] at hl
      refine hx.leave ?_ ?_ w.task false ?_ ?_
      · rw [hl]
        exact List.sublist_cons_self w rest
      · rw [hl]
        exact List.cons_ne_nil w rest
      · simp
      · exact fun j hj => Function.update_of_ne hj ..
    · rw [he]
      exact hx.post_count hv hne hl
  | expire i w ops =>
    obtain ⟨hw,-⟩ := hp
    rw [run, semTimeout, hok]
    refine hx.leave List.erase_sublist (List.ne_nil_of_mem hw) w.task true ?_ fun _ _ => rfl
    simp
  | resume r =>
    rw [run, semReturn]
    cases hb : r.timeout with
    | true => exact hx.resume hp fun j => by simp [hb]
    | false =>
      simp only [Bool.false_eq_true, if_false]
      split_ifs with hd
      · refine hx.resume hp fun j => ?_
        by_cases hj : j = r.index
        · subst hj
          rw [Function.update_self, if_pos ⟨rfl,hd,hb⟩]
        · rw [Function.update_of_ne hj, if_neg fun hc => hj hc.1.symm, Nat.add_zero]
      · refine hx.resume hp fun j => ?_
        rw [if_neg, Nat.add_zero]
        rintro ⟨rfl,hd',-⟩
        exact hd hd'

/-- The law of the semaphores. For one in use: its initial count and the posts are the pends that succeeded, those of woken tasks
included, and the count; the count stays below the maximum and is 0 while tasks wait; a post wakes the task that waits longest,
and only that one; a semaphore is deleted only when no task waits. The handle of a deleted semaphore is refused until its
generation has wrapped around. -/
structure SemLaw (x : SemHist) : Prop where
  handle : ∀ i < LOSCFG_BASE_IPC_SEM_LIMIT, (x.st.allSem i).semID = setSemId (x.st.allSem i).deletions i
  conserve : ∀ i, (x.st.allSem i).semStat = true → x.initCount i + x.posts i = x.pends i + woken x.st i + (x.st.allSem i).semCount
  bound : ∀ i, (x.st.allSem i).semStat = true → (x.st.allSem i).semCount ≤ (x.st.allSem i).maxSemCount
  zero : ∀ i, (x.st.allSem i).semStat = true → (x.st.allSem i).semList ≠ [] → (x.st.allSem i).semCount = 0
  wakes : ∀ h, x.st.Valid h → (x.st.getSem h).semList ≠ [] → ∃ w ∈ (x.st.getSem h).semList,
    (∀ v ∈ (x.st.getSem h).semList, x.arrived w.task ≤ x.arrived v.task) ∧
    losSemPost x.st h = (x.st.leave (getSemIndex h) ((x.st.getSem h).semList.erase w) w.task false,.ok)
  deletes : ∀ h, (losSemDelete x.st h).2 = .ok → (x.st.getSem h).semList = []
  stale : ∀ i < LOSCFG_BASE_IPC_SEM_LIMIT, ∀ g < (x.st.allSem i).deletions, (x.st.allSem i).deletions < g + 2^16 →
    (losSemDelete x.st (setSemId g i) = (x.st,.invalid)) ∧ (losSemPost x.st (setSemId g i) = (x.st,.invalid)) ∧
    ∀ ctx t n, ∃ ret, ret ≠ .ok ∧ losSemPend x.st ctx t (setSemId g i) n = (x.st,some ret)

/-- A handle that does not name a semaphore in use is refused. -/
theorem refused (hv : ¬s.Valid h) : losSemDelete s h = (s,.invalid) ∧ losSemPost s h = (s,.invalid) ∧
    ∀ ctx t n, ∃ ret, ret ≠ .ok ∧ losSemPend s ctx t h n = (s,some ret) := by
  have hbad : ¬LOSCFG_BASE_IPC_SEM_LIMIT ≤ getSemIndex h → (s.getSem h).semStat = false ∨ (s.getSem h).semID ≠ h := by
    intro hi
    by_contra hc
    rw [not_or, Bool.not_eq_false, not_not] at hc
    exact hv ⟨Nat.not_le.mp hi,hc⟩
  refine ⟨?_,?_,fun ctx t n => ?_⟩
  · rw [losSemDelete]
    split_ifs with h1
    · rfl
    · simp only [if_pos (hbad h1)]
  · rw [losSemPost, osSemPostUnsafe]
    by_cases h1 : LOSCFG_BASE_IPC_SEM_LIMIT ≤ getSemIndex h
    · rw [if_pos h1]
    · rw [if_neg h1]
      simp only [if_pos (hbad h1).symm]
  · rcases losSemPend_cases s ctx t h n with h1 | ⟨h1,-⟩ | ⟨h1,-⟩
    · exact h1
    · exact absurd h1 hv
    · exact absurd h1 hv

private theorem SemInv.not_valid (hx : SemInv x) (hi : i < LOSCFG_BASE_IPC_SEM_LIMIT) {g : Nat} (hg : g < (x.st.allSem i).deletions)
    (hw : (x.st.allSem i).deletions < g + 2^16) : ¬x.st.Valid (setSemId g i) := by
  have hid := (hx.sem i).semID_eq hi
  rw [LOSCFG_BASE_IPC_SEM_LIMIT] at hi
  have hidx : getSemIndex (setSemId g i) = i := by
    rw [setSemId_eq (by omega), getSemIndex_eq]
    omega
  rintro ⟨-,-,he⟩
  rw [SemState.getSem, hidx, hid, setSemId_eq (by omega)] at he
  omega

private theorem SemInv.semLaw (hx : SemInv x) : SemLaw x := by
  refine ⟨fun i hi => ?_,fun i => (hx.sem i).conserve,fun i => (hx.sem i).count_le,fun i => (hx.sem i).count_zero,fun h hv hne => ?_,
    fun h hd => ?_,fun i hi g hg hw => refused (hx.not_valid hi hg hw)⟩
  · rw [(hx.sem i).semID_eq hi, setSemId_eq]
    exact hi.trans limit_lt
  · have hs := hx.sem (getSemIndex h)
    have hmax := hs.max_pos hv.2.1
    have hzero := hs.count_zero hv.2.1 hne
    rcases losSemPost_cases x.st h with ⟨ret,hret,he⟩ | ⟨-,-,w,rest,hl,he⟩ | ⟨-,-,hl,-⟩
    · rw [losSemPost, osSemPostUnsafe] at he
      rw [if_neg (Nat.not_le.mpr hv.1)] at he
      rw [if_neg (by rw [hv.2.1, hv.2.2]; simp), if_neg (by rw [SemState.getSem]; omega)] at he
      cases hl : (x.st.getSem h).semList with
      | nil => exact absurd hl hne
      | cons w rest =>
        rw [hl] at he
        exact absurd (Prod.mk.inj he).2.symm hret
    · have hfifo := hs.fifo
      have hl' : (x.st.allSem (getSemIndex h)).semList = w :: rest := hl
      rw [hl', List.pairwise_cons] at hfifo
      rw [hl]
      refine ⟨w,List.mem_cons_self,fun v hv => ?_,by rw [List.erase_cons_head]; exact he⟩
      rcases List.mem_cons.mp hv with rfl | hv
      · exact Nat.le_refl _
      · exact Nat.le_of_lt (hfifo.1 v hv)
    · exact absurd hl hne
  · rcases losSemDelete_cases x.st h with ⟨ret,hret,he⟩ | ⟨-,hl,-⟩
    · rw [he] at hd
      exact absurd hd hret
    · exact hl

def semHistInit : SemHist := ⟨osSemInit,fun _ => 0,fun _ => 0,fun _ => 0,fun _ => 0,0⟩

/-- The calls on the semaphores of OsSemInit. -/
def semSystem : Run.System SemHist SemCall where
  init x := x = semHistInit
  pre x c := c.Pre x.st
  run x c := c.run x

abbrev SemReachable (ok : SemCall → Prop) := Run.Reachable semSystem fun _ c => ok c

instance (x : SemHist) (index : Nat) (w : Waiter) (ops : SchedOps) : Decidable (semSystem.pre x (.expire index w ops)) :=
  inferInstanceAs (Decidable (SemCall.Pre x.st (.expire index w ops)))

instance (x : SemHist) (r : Resumed) : Decidable (semSystem.pre x (.resume r)) := inferInstanceAs (Decidable (SemCall.Pre x.st (.resume r)))

private theorem sem_init {ok : SemCall → Prop} : SemReachable ok semHistInit := .init rfl

private theorem semInv_init : SemInv semHistInit := by
  refine ⟨fun i => ⟨fun hi => ?_,nofun,nofun,nofun,nofun,List.Pairwise.nil,by simp [semHistInit, osSemInit],fun _ => rfl⟩,fun i hi => ?_,
    List.nodup_range',by simp [semHistInit, osSemInit]⟩
  · exact setSemId_eq (hi.trans limit_lt)
  · exact ⟨by simpa [semHistInit, osSemInit, List.mem_range'] using hi,rfl⟩

private theorem semInv_of_reachable (h : SemReachable SemCall.Ok x) : SemInv x :=
  h.invariant (fun _ hx => hx ▸ semInv_init) fun _ c hx hp hok => c.run_inv hx hp hok

/-- The semaphores keep their law along every run in which no deadline task times out. -/
theorem semLaw_of_reachable (x : SemHist) (h : SemReachable SemCall.Ok x) : SemLaw x :=
  (semInv_of_reachable h).semLaw

/-- A task context that may wait. -/
def taskContext : PendContext := ⟨false,false,true⟩

/-- Where only the first semaphore was touched and no task waits on it, any task may pend. -/
private theorem pre_pend (h0 : (x.st.allSem 0).semList = []) (hi : ∀ i ≠ 0, x.st.allSem i = osSemInit.allSem i) (hr : x.st.resumed = [])
    (ctx : PendContext) (t h n : Nat) : (SemCall.pend ctx t h n).Pre x.st := by
  refine ⟨fun i w hw => ?_,fun r hr' => ?_⟩
  · by_cases he : i = 0
    · rw [he, h0] at hw
      cases hw
    · rw [hi i he] at hw
      cases hw
  · rw [hr] at hr'
    cases hr'

/-- A task takes the only token, a second one waits, and a post wakes it. -/
theorem semLaw_two_tasks : ∃ x, SemReachable SemCall.Ok x ∧ woken x.st 0 = 1 ∧ x.pends 0 = 1 ∧ SemLaw x := by
  have h1 : SemReachable SemCall.Ok _ := sem_init.call (.create 1 false) trivial trivial
  have h2 : SemReachable SemCall.Ok _ := .call h1 (.pend taskContext 1 0 LOS_WAIT_FOREVER)
    (pre_pend rfl (fun i hi => Function.update_of_ne hi ..) rfl taskContext 1 0 LOS_WAIT_FOREVER) trivial
  have h3 : SemReachable SemCall.Ok _ := .call h2 (.pend taskContext 2 0 LOS_WAIT_FOREVER)
    (pre_pend rfl (fun i hi => (Function.update_of_ne hi ..).trans (Function.update_of_ne hi ..)) rfl taskContext 2 0 LOS_WAIT_FOREVER) trivial
  have h4 : SemReachable SemCall.Ok _ := .call h3 (.post 0) trivial trivial
  exact ⟨_,h4,by decide +kernel,by decide +kernel,semLaw_of_reachable _ h4⟩

/-- A deadline task whose wait times out returns with LOS_OK, although nobody has posted. -/
theorem semLaw_fails_deadline_task : ¬ ∀ x, SemReachable (fun _ => True) x → SemLaw x := by
  intro hall
  have h1 : SemReachable (fun _ => True) _ := sem_init.call (.create 0 false) trivial trivial
  have h2 : SemReachable (fun _ => True) _ := .call h1 (.pend taskContext 1 0 10)
    (pre_pend rfl (fun i hi => Function.update_of_ne hi ..) rfl taskContext 1 0 10) trivial
  have h3 : SemReachable (fun _ => True) _ := .call h2 (.expire 0 ⟨1,10⟩ .edf) (by decide +kernel) trivial
  have h4 : SemReachable (fun _ => True) _ := .call h3 (.resume ⟨1,0,0,false⟩) (by decide +kernel) trivial
  have hc := (hall _ h4).conserve 0 (by decide +kernel)
  exact absurd hc (by decide +kernel)

end LiteOsKernel.Ipc.Sem
