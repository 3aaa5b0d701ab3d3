import LiteOsKernel.Ipc.Mux
import Mathlib.Data.List.Nodup

/-! What holds of the mutexes between two calls: owners, counts and lock lists belong together, and a task waits in one place. -/
namespace LiteOsKernel.Ipc.Mux
open LiteOsKernel.Ipc.Rwlock (lockPend lockPend_perm)
open LiteOsKernel.Sched.Priority (HpfPolicy SchedHPF SchedParam)
open MuxState

/-- A run of the mutexes with its history: how often the owner of each mutex locked and unlocked it since it has it. -/
structure MuxHist where
  st : MuxState
  locks : Nat → Nat
  unlocks : Nat → Nat

inductive MuxCall where
  | lock (ctx : PendContext) (t m timeout : Nat)
  | trylock (ctx : PendContext) (t m : Nat)
  | unlock (ctx : PendContext) (t m : Nat)
  | expire (m : Nat) (w : Waiter)
  | resume (r : Resumed)
  | modify (t : Nat) (threads : List Nat) (policy : HpfPolicy) (basePrio priority : Nat)
  | period (t finishTime : Nat)

namespace MuxHist

/-- The end of a lock call. -/
def locked (x : MuxHist) (m : Nat) (st : MuxState) (ret : Option MuxRet) : MuxHist :=
  if ret = some .ok then
    if (x.st.mux m).muxCount = 0 then
      { st := st, locks := Function.update x.locks m 1, unlocks := Function.update x.unlocks m 0 }
    else { x with st := st, locks := Function.update x.locks m (x.locks m + 1) }
  else { x with st := st }

/-- The end of an unlock call. A task that the mutex passes to has locked it once. -/
def unlocked (x : MuxHist) (t m : Nat) (st : MuxState) (ret : MuxRet) : MuxHist :=
  if ret = .ok then
    if (st.mux m).owner = none ∨ (st.mux m).owner = some t then
      { x with st := st, unlocks := Function.update x.unlocks m (x.unlocks m + 1) }
    else { st := st, locks := Function.update x.locks m 1, unlocks := Function.update x.unlocks m 0 }
  else { x with st := st }

end MuxHist

namespace MuxCall

/-- none: a NULL owner is dereferenced. -/
def run (x : MuxHist) : MuxCall → Option MuxHist
  | lock ctx t m timeout => (x.st.losMuxLock ctx t m timeout).map fun (st,ret) => x.locked m st ret
  | trylock ctx t m => (x.st.losMuxTrylock ctx t m).map fun (st,ret) => x.locked m st ret
  | unlock ctx t m => (x.st.losMuxUnlock ctx t m).map fun (st,ret) => x.unlocked t m st ret
  | expire m w => some { x with st := x.st.muxTimeout m w }
  | resume r => (x.st.muxReturn r).map fun (st,_) => { x with st := st }
  | modify t threads policy basePrio priority => some { x with st := x.st.schedParamModify t threads policy basePrio priority }
  | period t finishTime => some { x with st := x.st.setFinishTime t finishTime }

end MuxCall

/-- The task runs: it is in no list, and has returned from its last call. -/
def MuxState.Idle (s : MuxState) (t : Nat) : Prop := (∀ m, ∀ w ∈ (s.mux m).muxList, w.task ≠ t) ∧ ∀ r ∈ s.resumed, r.task ≠ t

namespace MuxCall

/-- A task that calls runs, a task that times out waits for a bounded time, a task that returns was resumed, and the priorities that
are set are in range. -/
def Pre (s : MuxState) : MuxCall → Prop
  | lock _ t _ _ | trylock _ t _ | unlock _ t _ => s.Idle t
  | expire m w => w ∈ (s.mux m).muxList ∧ w.ticks ≠ LOS_WAIT_FOREVER
  | resume r => r ∈ s.resumed
  | modify _ _ _ _ priority => priority ≤ OS_TASK_PRIORITY_LOWEST
  | period .. => True

/-- The condition: no owner locks a recursive mutex more than MUX_COUNT_MAX times, no deadline task times out, and a mutex with
priority inheritance is not left without an owner before every task that timed out waiting for it has run. -/
def Ok (s : MuxState) : MuxCall → Prop
  | lock ctx t m _ | trylock ctx t m => ctx.intActive = false → (s.mux m).owner = some t → (s.mux m).attr.type = .recursive →
      (s.mux m).muxCount < MUX_COUNT_MAX
  | unlock ctx t m => ctx.intActive = false → (s.mux m).owner = some t → (s.mux m).muxList = [] →
      ((s.mux m).attr.type = .recursive → (s.mux m).muxCount = 1) → (s.mux m).attr.protocol = .inherit →
      ∀ r ∈ s.resumed, r.mutex = m → r.timeout = false
  | expire _ w => (s.tcb w.task).ops = .hpf
  | resume _ | modify .. | period .. => True

end MuxCall

/-- How owners, counts and lock lists belong together. -/
structure OwnInv (x : MuxHist) : Prop where
  owned : ∀ m, 0 < (x.st.mux m).muxCount ↔ (x.st.mux m).owner ≠ none
  held : ∀ m t, m ∈ (x.st.tcb t).lockList ↔ (x.st.mux m).owner = some t
  once : ∀ t, (x.st.tcb t).lockList.Nodup
  count : ∀ m, x.locks m = x.unlocks m + (x.st.mux m).muxCount
  single : ∀ m, (x.st.mux m).attr.type ≠ .recursive → (x.st.mux m).muxCount ≤ 1

/-- Where the tasks are that wait, or waited and have not run since. -/
structure WaitInv (s : MuxState) : Prop where
  waiting : ∀ m, (s.mux m).muxList ≠ [] → (s.mux m).owner ≠ none
  tasks : ∀ m, ((s.mux m).muxList.map Waiter.task).Nodup
  place : ∀ m m', ∀ w ∈ (s.mux m).muxList, ∀ w' ∈ (s.mux m').muxList, w.task = w'.task → m = m'
  left : ∀ r ∈ s.resumed, ∀ m, ∀ w ∈ (s.mux m).muxList, w.task ≠ r.task
  back : (s.resumed.map Resumed.task).Nodup
  granted : ∀ r ∈ s.resumed, r.timeout = false → (s.mux r.mutex).owner = some r.task
  late : ∀ r ∈ s.resumed, r.timeout = true → (s.mux r.mutex).attr.protocol = .inherit → (s.mux r.mutex).owner ≠ none

structure MuxInv (x : MuxHist) : Prop where
  own : OwnInv x
  wait : WaitInv x.st

/-- Nothing but the parameters of the tasks differs. -/
structure SameLocks (s s' : MuxState) : Prop where
  mux : s'.mux = s.mux
  resumed : s'.resumed = s.resumed
  lockList : ∀ t, (s'.tcb t).lockList = (s.tcb t).lockList
  ops : ∀ t, (s'.tcb t).ops = (s.tcb t).ops

variable {x : MuxHist} {s s' : MuxState} {t m : Nat} {w : Waiter} {r : Resumed} {rest : List Waiter} {mutex : LosMux}

theorem SameLocks.refl (s : MuxState) : SameLocks s s := ⟨rfl,rfl,fun _ => rfl,fun _ => rfl⟩

theorem SameLocks.setSp (s : MuxState) (t : Nat) (sp : SchedHPF) : SameLocks s (s.setTcb t { s.tcb t with sp := sp }) := by
  refine ⟨rfl,rfl,fun u => ?_,fun u => ?_⟩ <;>
  · by_cases hu : u = t
    · subst hu
      simp [MuxState.setTcb]
    · simp [MuxState.setTcb, hu]

theorem SameLocks.priorityInheritance (s : MuxState) (owner : Nat) (param : SchedParam) :
    SameLocks s (s.priorityInheritance owner param) := by
  rw [MuxState.priorityInheritance]
  split
  · exact SameLocks.setSp ..
  · exact SameLocks.refl s

theorem SameLocks.priorityRestore (s : MuxState) (owner : Nat) (list : List Waiter) (param : SchedParam) :
    SameLocks s (s.priorityRestore owner list param) := by
  rw [MuxState.priorityRestore]
  split
  · exact SameLocks.setSp ..
  · exact SameLocks.refl s

/-- Only a mutex with priority inheritance and no owner goes wrong. -/
theorem osMuxBitmapSet_eq (h : (s.mux m).owner ≠ none) (t : Nat) : ∃ s', s.osMuxBitmapSet m t = some s' ∧ SameLocks s s' := by
  rw [MuxState.osMuxBitmapSet]
  split_ifs
  · exact ⟨s,rfl,SameLocks.refl s⟩
  · obtain ⟨owner,ho⟩ := Option.ne_none_iff_exists'.mp h
    rw [ho]
    refine ⟨_,rfl,?_⟩
    simp only
    split_ifs
    · exact SameLocks.priorityInheritance ..
    · exact SameLocks.refl s

theorem osMuxBitmapRestore_eq (h : (s.mux m).attr.protocol = .inherit → (s.mux m).owner ≠ none) (list : List Waiter) (t : Nat) :
    ∃ s', s.osMuxBitmapRestore m list t = some s' ∧ SameLocks s s' := by
  rw [MuxState.osMuxBitmapRestore]
  by_cases hp : (s.mux m).attr.protocol ≠ .inherit
  · rw [if_pos hp]
    exact ⟨s,rfl,SameLocks.refl s⟩
  · obtain ⟨owner,ho⟩ := Option.ne_none_iff_exists'.mp (h (not_not.mp hp))
    rw [if_neg hp, ho]
    exact ⟨_,rfl,SameLocks.priorityRestore ..⟩

theorem OwnInv.same (h : OwnInv x) (hs : SameLocks x.st s') : OwnInv { x with st := s' } := by
  refine ⟨?_,?_,?_,?_,?_⟩ <;> simp only [hs.mux, hs.lockList]
  · exact h.owned
  · exact h.held
  · exact h.once
  · exact h.count
  · exact h.single

theorem WaitInv.same {q : MuxState} (h : WaitInv s) (hs : SameLocks s q) : WaitInv q := by
  refine ⟨?_,?_,?_,?_,?_,?_,?_⟩ <;> simp only [hs.mux, hs.resumed]
  · exact h.waiting
  · exact h.tasks
  · exact h.place
  · exact h.left
  · exact h.back
  · exact h.granted
  · exact h.late

theorem MuxInv.same (h : MuxInv x) (hs : SameLocks x.st s') : MuxInv { x with st := s' } :=
  ⟨h.own.same hs,h.wait.same hs⟩

@[simp] theorem setMux_self (s : MuxState) (m : Nat) (mutex : LosMux) : (s.setMux m mutex).mux m = mutex := Function.update_self ..

theorem setMux_of_ne {m' : Nat} (hm : m' ≠ m) (s : MuxState) (mutex : LosMux) : (s.setMux m mutex).mux m' = s.mux m' :=
  Function.update_of_ne hm ..

/-- One mutex changes its owner or its count. -/
theorem OwnInv.step {q : MuxState} (h : OwnInv x) (hmux : q.mux = Function.update x.st.mux m mutex)
    (howned : 0 < mutex.muxCount ↔ mutex.owner ≠ none) (hsingle : mutex.attr.type ≠ .recursive → mutex.muxCount ≤ 1) {a b : Nat}
    (hcount : a = b + mutex.muxCount) (hother : ∀ u m', m' ≠ m → (m' ∈ (q.tcb u).lockList ↔ m' ∈ (x.st.tcb u).lockList))
    (hheld : ∀ u, m ∈ (q.tcb u).lockList ↔ mutex.owner = some u) (honce : ∀ u, (q.tcb u).lockList.Nodup) :
    OwnInv ⟨q,Function.update x.locks m a,Function.update x.unlocks m b⟩ := by
  refine ⟨fun m' => ?_,fun m' u => ?_,honce,fun m' => ?_,fun m' => ?_⟩ <;> simp only [hmux] <;> by_cases hm : m' = m
  · subst hm
    rw [Function.update_self]
    exact howned
  · rw [Function.update_of_ne hm]
    exact h.owned m'
  · subst hm
    rw [Function.update_self]
    exact hheld u
  · rw [Function.update_of_ne hm, hother u m' hm]
    exact h.held m' u
  · subst hm
    rw [Function.update_self, Function.update_self, Function.update_self]
    exact hcount
  · rw [Function.update_of_ne hm, Function.update_of_ne hm, Function.update_of_ne hm]
    exact h.count m'
  · subst hm
    rw [Function.update_self]
    exact hsingle
  · rw [Function.update_of_ne hm]
    exact h.single m'

/-- One mutex changes its owner or its count, and not its list. -/
theorem WaitInv.setOwner (h : WaitInv s) (hmux : s'.mux = Function.update s.mux m mutex) (hres : s'.resumed = s.resumed)
    (hlist : mutex.muxList = (s.mux m).muxList) (hattr : mutex.attr = (s.mux m).attr)
    (hwait : (s.mux m).muxList ≠ [] → mutex.owner ≠ none)
    (hgrant : ∀ r ∈ s.resumed, r.mutex = m → r.timeout = false → mutex.owner = some r.task)
    (hlate : ∀ r ∈ s.resumed, r.mutex = m → r.timeout = true → (s.mux m).attr.protocol = .inherit → mutex.owner ≠ none) :
    WaitInv s' := by
  have hl : ∀ m', (s'.mux m').muxList = (s.mux m').muxList := by
    intro m'
    rw [hmux]
    by_cases hm : m' = m
    · subst hm
      rw [Function.update_self, hlist]
    · rw [Function.update_of_ne hm]
  refine ⟨fun m' => ?_,fun m' => ?_,fun m1 m2 => ?_,fun r hr m' => ?_,?_,fun r hr => ?_,fun r hr => ?_⟩
  · rw [hl, hmux]
    by_cases hm : m' = m
    · subst hm
      rw [Function.update_self]
      exact hwait
    · rw [Function.update_of_ne hm]
      exact h.waiting m'
  · rw [hl]
    exact h.tasks m'
  · rw [hl, hl]
    exact h.place m1 m2
  · rw [hl]
    exact h.left r (hres ▸ hr) m'
  · rw [hres]
    exact h.back
  · rw [hres] at hr
    rw [hmux]
    by_cases hm : r.mutex = m
    · rw [hm, Function.update_self]
      exact hgrant r hr hm
    · rw [Function.update_of_ne hm]
      exact h.granted r hr
  · rw [hres] at hr
    rw [hmux]
    by_cases hm : r.mutex = m
    · rw [hm, Function.update_self, hattr]
      exact hlate r hr hm
    · rw [Function.update_of_ne hm]
      exact h.late r hr

/-- A task joins the list of a mutex that has an owner. -/
theorem WaitInv.join (h : WaitInv s) (hi : s.Idle w.task) (ho : (s.mux m).owner ≠ none) (l : List Waiter)
    (hl : l.Perm (w :: (s.mux m).muxList)) : WaitInv (s.setMux m { s.mux m with muxList := l }) := by
  have hmem : ∀ v, v ∈ l ↔ v = w ∨ v ∈ (s.mux m).muxList := fun v => by rw [hl.mem_iff, List.mem_cons]
  -- a waiter afterwards is the new one or waited before
  have hold : ∀ m' v, v ∈ ((s.setMux m { s.mux m with muxList := l }).mux m').muxList →
      v = w ∧ m' = m ∨ v ∈ (s.mux m').muxList := by
    intro m' v hv
    by_cases hm : m' = m
    · subst hm
      rw [setMux_self] at hv
      exact ((hmem v).mp hv).imp (fun hv => ⟨hv,rfl⟩) id
    · rw [setMux_of_ne hm] at hv
      exact .inr hv
  have howner : ∀ m', ((s.setMux m { s.mux m with muxList := l }).mux m').owner = (s.mux m').owner ∧
      ((s.setMux m { s.mux m with muxList := l }).mux m').attr = (s.mux m').attr := by
    intro m'
    by_cases hm : m' = m
    · subst hm
      rw [setMux_self]
      exact ⟨rfl,rfl⟩
    · rw [setMux_of_ne hm]
      exact ⟨rfl,rfl⟩
  refine ⟨fun m' hne => ?_,fun m' => ?_,fun m1 m2 v1 h1 v2 h2 he => ?_,fun r hr m' v hv => ?_,h.back,fun r hr => ?_,fun r hr => ?_⟩
  · rw [(howner m').1]
    by_cases hm : m' = m
    · exact hm ▸ ho
    · rw [setMux_of_ne hm] at hne
      exact h.waiting m' hne
  · by_cases hm : m' = m
    · subst hm
      rw [setMux_self, (hl.map Waiter.task).nodup_iff, List.map_cons, List.nodup_cons]
      refine ⟨fun hc => ?_,h.tasks m'⟩
      obtain ⟨v,hv,he⟩ := List.mem_map.mp hc
      exact hi.1 m' v hv he
    · rw [setMux_of_ne hm]
      exact h.tasks m'
  · rcases hold m1 v1 h1 with ⟨rfl,rfl⟩ | hv1 <;> rcases hold m2 v2 h2 with ⟨rfl,rfl⟩ | hv2
    · rfl
    · exact absurd he.symm (hi.1 m2 v2 hv2)
    · exact absurd he (hi.1 m1 v1 hv1)
    · exact h.place m1 m2 v1 hv1 v2 hv2 he
  · rcases hold m' v hv with ⟨rfl,rfl⟩ | hv
    · exact (hi.2 r hr).symm
    · exact h.left r hr m' v hv
  · rw [(howner _).1]
    exact h.granted r hr
  · rw [(howner _).1, (howner _).2]
    exact h.late r hr

/-- A task leaves the list of a mutex, which may get another owner. -/
theorem WaitInv.leave (h : WaitInv s) (hw : w ∈ (s.mux m).muxList) {b : Bool} (hmux' : s'.mux = Function.update s.mux m mutex)
    (hres : s'.resumed = s.resumed ++ [⟨w.task,m,b⟩]) (hlist : mutex.muxList = (s.mux m).muxList.erase w)
    (hown : mutex.owner ≠ none) (hbit : b = false → mutex.owner = some w.task)
    (hgrant : ∀ r ∈ s.resumed, r.mutex = m → r.timeout = false → mutex.owner = some r.task) : WaitInv s' := by
  have hself : s'.mux m = mutex := by rw [hmux', Function.update_self]
  have hmux : ∀ m', m' ≠ m → s'.mux m' = s.mux m' := fun m' hm => by rw [hmux', Function.update_of_ne hm]
  have hlist' : (s'.mux m).muxList = (s.mux m).muxList.erase w := hself ▸ hlist
  have ho : (s'.mux m).owner ≠ none := hself ▸ hown
  have hsub : ∀ m', (s'.mux m').muxList.Sublist (s.mux m').muxList := by
    intro m'
    by_cases hm : m' = m
    · subst hm
      rw [hlist']
      exact List.erase_sublist
    · rw [hmux m' hm]
  have hnot : ∀ m', ∀ v ∈ (s'.mux m').muxList, v.task ≠ w.task := by
    intro m' v hv he
    have hm := h.place m' m v ((hsub m').subset hv) w hw he
    subst hm
    have hinj := List.inj_on_of_nodup_map (h.tasks m') ((hsub m').subset hv) hw he
    subst hinj
    rw [hlist'] at hv
    exact (h.tasks m').of_map.not_mem_erase hv
  have hcase : ∀ r ∈ s'.resumed, r ∈ s.resumed ∨ r = ⟨w.task,m,b⟩ := by
    intro r hr
    rw [hres, List.mem_append, List.mem_singleton] at hr
    exact hr
  refine ⟨fun m' hne => ?_,fun m' => (h.tasks m').sublist ((hsub m').map _),fun m1 m2 v1 h1 v2 h2 he => ?_,
    fun r hr m' v hv => ?_,?_,fun r hr hf => ?_,fun r hr hf hp => ?_⟩
  · by_cases hm : m' = m
    · exact hm ▸ ho
    · rw [hmux m' hm] at hne ⊢
      exact h.waiting m' hne
  · exact h.place m1 m2 v1 ((hsub m1).subset h1) v2 ((hsub m2).subset h2) he
  · rcases hcase r hr with hr | rfl
    · exact h.left r hr m' v ((hsub m').subset hv)
    · exact hnot m' v hv
  · rw [hres, List.map_append, List.nodup_append]
    refine ⟨h.back,List.nodup_singleton _,fun a ha b' hb' => ?_⟩
    obtain ⟨r,hr,rfl⟩ := List.mem_map.mp ha
    rw [List.map_singleton, List.mem_singleton] at hb'
    exact hb' ▸ (h.left r hr m w hw).symm
  · rcases hcase r hr with hr | rfl
    · by_cases hm : r.mutex = m
      · rw [hm, hself]
        exact hgrant r hr hm hf
      · rw [hmux r.mutex hm]
        exact h.granted r hr hf
    · exact hself ▸ hbit hf
  · rcases hcase r hr with hr | rfl
    · by_cases hm : r.mutex = m
      · exact hm ▸ ho
      · rw [hmux r.mutex hm] at hp ⊢
        exact h.late r hr hf hp
    · exact ho

/-- A resumed task runs. -/
theorem WaitInv.run (h : WaitInv s) (r : Resumed) : WaitInv { s with resumed := s.resumed.erase r } :=
  have hsub : (s.resumed.erase r).Sublist s.resumed := List.erase_sublist
  ⟨h.waiting,h.tasks,h.place,fun u hu => h.left u (hsub.subset hu),h.back.sublist (hsub.map _),
    fun u hu => h.granted u (hsub.subset hu),fun u hu => h.late u (hsub.subset hu)⟩

end LiteOsKernel.Ipc.Mux
