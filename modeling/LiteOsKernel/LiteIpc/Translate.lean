import LiteOsKernel.LiteIpc.LiteIpc
import LiteOsKernel.Lib.Run

/-! What the special objects of a message become in the process of the receiver, and that HandleObj brings this about or leaves the process
as it was. -/
namespace LiteOsKernel.LiteIpc
open Fs Function Lib

/-- A mapped pool as its allocator has it. -/
structure Region where
  base : Nat
  size : Nat
  blocks : Nat → Option Nat

/-- What a process holds of its pool: the mapping, the blocks, and the used nodes. -/
structure Holding where
  pool : IpcPool
  heap : Option Region
  used : List Nat

/-- The pool lies inside its mapping in the kernel and for the user, and each used node is a block of its own. -/
structure Holding.Ok (k : Holding) : Prop where
  mapped : ∀ r, k.heap = some r → r.base = k.pool.kvaddr ∧ r.size = k.pool.poolSize ∧ 0 < k.pool.uvaddr ∧
    k.pool.uvaddr + k.pool.poolSize ≤ 2^32 ∧ k.pool.kvaddr + k.pool.poolSize ≤ 2^32
  nodup : k.used.Nodup
  used : ∀ a ∈ k.used, ∃ r, k.heap = some r ∧ r.blocks a ≠ none

section
variable {H : Type} {A : Allocator H}

def region (A : Allocator H) (h : H) : Region := ⟨A.base h,A.size h,A.blocks h⟩

def ProcIpcInfo.holding (A : Allocator H) (p : ProcIpcInfo H) : Holding := ⟨p.pool,p.heap.map (region A),p.ipcUsedNodelist⟩

namespace IpcState

def holding (A : Allocator H) (s : IpcState H) (pid : Nat) : Option Holding := (s.procs pid).map fun p => p.holding A

/-- Whether a service lets a process in. -/
def accessMap (s : IpcState H) (pid tid : Nat) : Bool :=
  match (s.tasks tid).ipcTaskInfo with
  | none => false
  | some info => info.accessMap pid

/-- Whether a process is noted to have access to a service. -/
def access (s : IpcState H) (pid tid : Nat) : Bool :=
  match s.procs pid with
  | none => false
  | some p => p.access tid

/-- The messages that wait for a task. -/
def queue (s : IpcState H) (tid : Nat) : List IpcListNode :=
  match (s.tasks tid).ipcTaskInfo with
  | none => []
  | some info => info.msgList

/-- Every pool is in order, and descriptors are not negative as an int. -/
structure Wf (A : Allocator H) (s : IpcState H) : Prop where
  holding : ∀ pid k, s.holding A pid = some k → k.Ok
  tables : ∀ id fdt, s.fds.tables id = some fdt → fdt.maxFds ≤ 2^31

end IpcState

/-- The handle that an SVC object stands for: that of the sender for a new one. -/
def svcHandle (c : WriteCall) (obj : SpecialObj) : Nat := if obj.handle = 2^32 - 1 then c.curTask else obj.handle

/-- There is memory for the ipcTaskInfo of the service. -/
def svcMemory (ans : ObjAnswers) (obj : SpecialObj) : Bool := if obj.handle = 2^32 - 1 then ans.selfInfo || ans.svcInfo else ans.svcInfo

/-- The access to a service for a process, where the service has its ipcTaskInfo. -/
def IpcState.giveAccess (s : IpcState H) (pid tid : Nat) : IpcState H :=
  match (s.tasks tid).ipcTaskInfo, s.procs pid with
  | some info, some p => s.grant pid tid info p
  | _, _ => s

/-- An object in the terms of the receiver. A descriptor is a new one of the receiver for the same system descriptor, a buffer is a new block
of the receiver's pool with the same bytes, and a service is one that the receiver can use. -/
inductive Translates (A : Allocator H) (c : WriteCall) (dstTid : Nat) (ans : ObjAnswers) (s : IpcState H) (obj : SpecialObj) :
    IpcState H → SpecialObj → Prop
  | fd {id d : Nat} {fdt : FdTable} (htype : obj.type = OBJ_FD)
      (hcopy : FdCopy c.fd s.fds (s.tasks c.curTask).processCB (toInt obj.fd) (s.tasks dstTid).processCB id d fdt) :
      Translates A c dstTid ans s obj
        (s.setFds (s.fds.copied c.fd (s.fds.getAssociatedSystemFd (s.tasks c.curTask).processCB (toInt obj.fd)) id d fdt)) (obj.setFd d)
  | ptr {p : ProcIpcInfo H} {h h' : H} {buf : Nat} {bytes : List UInt8} (htype : obj.type = OBJ_PTR) (hbuff : obj.buff ≠ 0)
      (hsize : obj.buffSz ≠ 0) (huser : Vm.losIsUserAddress obj.buff = true) (hproc : s.procs (s.tasks dstTid).processCB = some p)
      (hheap : p.heap = some h) (halloc : A.alloc h obj.buffSz = some (buf,h')) (hcopy : ans.copy = .ok bytes) :
      Translates A c dstTid ans s obj
        (s.setProc (s.tasks dstTid).processCB { p with
          heap := some h'
          buffers := update p.buffers buf bytes
          ipcUsedNodelist := if ans.usedNode then buf :: p.ipcUsedNodelist else p.ipcUsedNodelist })
        (obj.setBuff (getIpcUserAddr p.pool buf))
  | svc {tid : Nat} (htype : obj.type = OBJ_SVC)
      (hnew : obj.handle = 2^32 - 1 → obj.token = 1 ∧ c.curTask ≠ s.cmsTask.taskID) (halive : s.isTaskAlive (svcHandle c obj) = true)
      (haccess : s.hasServiceAccess c.curTask (svcHandle c obj) = true) (htid : s.getTid (svcHandle c obj) = some tid) :
      Translates A c dstTid ans s obj ((s.initTask (svcHandle c obj) (svcMemory ans obj)).giveAccess (s.tasks dstTid).processCB tid)
        (obj.setHandle (svcHandle c obj))

/-- What no message changes of a task. -/
def LosTaskCB.fixed (t : LosTaskCB) : Bool × Bool × Bool × Nat := (t.isUnused,t.isInactive,t.isUserMode,t.processCB)

/-- The same descriptors and pools. -/
structure Same (A : Allocator H) (v w : IpcState H) : Prop where
  fds : ∃ refs, v.fds = w.fds.withRefs refs
  holding : v.holding A = w.holding A
  tasks : ∀ t, (v.tasks t).fixed = (w.tasks t).fixed

/-- The same messages and accesses. -/
structure SameRights (v w : IpcState H) : Prop where
  queue : v.queue = w.queue
  accessMap : v.accessMap = w.accessMap
  access : v.access = w.access

variable {s v w : IpcState H} {p q : ProcIpcInfo H} {c : WriteCall} {ans : ObjAnswers} {obj obj' : SpecialObj} {pid tid t dstTid : Nat}
  {m m' : Bool}

theorem Same.refl (s : IpcState H) : Same A s s := ⟨⟨s.fds.refs,rfl⟩,rfl,fun _ => rfl⟩

theorem Same.trans (h : Same A s v) (h' : Same A v w) : Same A s w := by
  obtain ⟨refs,hrefs⟩ := h.fds
  obtain ⟨refs',hrefs'⟩ := h'.fds
  refine ⟨⟨refs,?_⟩,h.holding.trans h'.holding,fun t => (h.tasks t).trans (h'.tasks t)⟩
  rw [hrefs, hrefs']
  rfl

theorem Same.processCB (h : Same A v w) (t : Nat) : (v.tasks t).processCB = (w.tasks t).processCB := (Prod.ext_iff.mp (Prod.ext_iff.mp
  (Prod.ext_iff.mp (h.tasks t)).2).2).2

theorem isTaskAlive_of_fixed (h : (v.tasks t).fixed = (w.tasks t).fixed) : v.isTaskAlive t = w.isTaskAlive t := by
  obtain ⟨h1,h2⟩ := Prod.ext_iff.mp h
  obtain ⟨h2,h3⟩ := Prod.ext_iff.mp h2
  obtain ⟨h3,-⟩ := Prod.ext_iff.mp h3
  dsimp only [LosTaskCB.fixed] at h1 h2 h3
  rw [IpcState.isTaskAlive, IpcState.isTaskAlive, h1, h2, h3]

theorem Same.isTaskAlive (h : Same A v w) (t : Nat) : v.isTaskAlive t = w.isTaskAlive t := isTaskAlive_of_fixed (h.tasks t)

theorem SameRights.refl (s : IpcState H) : SameRights s s := ⟨rfl,rfl,rfl⟩

namespace IpcState

@[simp] theorem procs_setProc (s : IpcState H) (pid : Nat) (p : ProcIpcInfo H) : (s.setProc pid p).procs = update s.procs pid (some p) := rfl
@[simp] theorem tasks_setProc (s : IpcState H) (pid : Nat) (p : ProcIpcInfo H) : (s.setProc pid p).tasks = s.tasks := rfl
@[simp] theorem procs_setTask (s : IpcState H) (t : Nat) (x : LosTaskCB) : (s.setTask t x).procs = s.procs := rfl
@[simp] theorem tasks_setTask (s : IpcState H) (t : Nat) (x : LosTaskCB) : (s.setTask t x).tasks = update s.tasks t x := rfl

@[simp] theorem setProc_setProc (s : IpcState H) (pid : Nat) (p q : ProcIpcInfo H) : (s.setProc pid p).setProc pid q = s.setProc pid q := by
  rw [setProc, procs_setProc, update_idem]
  rfl

theorem holding_setProc (s : IpcState H) (pid : Nat) (p : ProcIpcInfo H) :
    (s.setProc pid p).holding A = update (s.holding A) pid (some (p.holding A)) := by
  funext x
  by_cases hx : x = pid
  · subst hx
    rw [update_self, holding, procs_setProc, update_self]
    rfl
  · rw [update_of_ne hx, holding, procs_setProc, update_of_ne hx]
    rfl

private theorem holding_setProc_self (hp : s.procs pid = some p) (hq : q.holding A = p.holding A) : (s.setProc pid q).holding A = s.holding A := by
  have hs : s.holding A pid = some (p.holding A) := by
    rw [holding, hp]
    rfl
  rw [holding_setProc, hq, ← hs, update_eq_self]

/-- A process whose accesses are as they were. -/
theorem sameRights_setProc (hp : s.procs pid = some p) (hq : q.access = p.access) : SameRights (s.setProc pid q) s := by
  refine ⟨rfl,rfl,?_⟩
  funext x t
  by_cases hx : x = pid
  · subst hx
    rw [access, access, procs_setProc, update_self, hp]
    exact congrFun hq t
  · rw [access, access, procs_setProc, update_of_ne hx]

-- The pool

theorem liteIpcNodeFree_eq (hp : s.procs pid = some p) (a : Nat) :
    s.liteIpcNodeFree A pid a = s.setProc pid { p with heap := p.heap.map fun h => A.free h a } := by
  rw [liteIpcNodeFree, hp]

/-- The release of a block that was just allocated. -/
private theorem holding_free_alloc {h h' : H} {n a : Nat} (hheap : p.heap = some h) (halloc : A.alloc h n = some (a,h')) :
    ProcIpcInfo.holding A { p with heap := some (A.free h' a) } = p.holding A := by
  obtain ⟨-,-,hbase,hsize⟩ := A.alloc_region halloc
  obtain ⟨hbase',hsize'⟩ := A.free_region (Allocator.alloc_held halloc)
  rw [ProcIpcInfo.holding, ProcIpcInfo.holding, hheap, Option.map_some, Option.map_some, region, region, hbase', hsize', hbase, hsize,
    Allocator.free_alloc halloc rfl]

/-- A task that stays in its process. -/
private theorem same_setTask {x : LosTaskCB} (hx : x.fixed = (s.tasks t).fixed) : Same A (s.setTask t x) s := by
  refine ⟨⟨s.fds.refs,rfl⟩,rfl,fun y => ?_⟩
  by_cases hy : y = t
  · subst hy
    rw [tasks_setTask, update_self, hx]
  · rw [tasks_setTask, update_of_ne hy]

-- LiteIpcTaskInit

theorem initTask_cases (s : IpcState H) (t : Nat) (m : Bool) : s.initTask t m = s ∨ (s.tasks t).ipcTaskInfo = none ∧
    s.initTask t m = s.setTask t { s.tasks t with ipcTaskInfo := some ⟨[],fun _ => false⟩ } := by
  rw [initTask]
  split
  · exact .inl rfl
  · split
    · exact .inr ⟨‹_›,rfl⟩
    · exact .inl rfl

private theorem processCB_initTask (s : IpcState H) (t x : Nat) (m : Bool) : ((s.initTask t m).tasks x).processCB = (s.tasks x).processCB := by
  rcases s.initTask_cases t m with h | ⟨-,h⟩
  · rw [h]
  · rw [h]
    by_cases hx : x = t
    · subst hx
      rw [tasks_setTask, update_self]
    · rw [tasks_setTask, update_of_ne hx]

theorem same_initTask (s : IpcState H) (t : Nat) (m : Bool) : Same A (s.initTask t m) s := by
  rcases s.initTask_cases t m with h | ⟨-,h⟩
  · rw [h]
    exact .refl s
  · rw [h]
    exact same_setTask rfl

/-- New task information has no messages, and lets no process in. -/
theorem sameRights_initTask (s : IpcState H) (t : Nat) (m : Bool) : SameRights (s.initTask t m) s := by
  rcases s.initTask_cases t m with h | ⟨hnone,h⟩
  · rw [h]
    exact .refl s
  · rw [h]
    refine ⟨?_,?_,rfl⟩
    · funext x
      by_cases hx : x = t
      · subst hx
        rw [queue, queue, tasks_setTask, update_self, hnone]
      · rw [queue, queue, tasks_setTask, update_of_ne hx]
    · funext pid x
      by_cases hx : x = t
      · subst hx
        rw [accessMap, accessMap, tasks_setTask, update_self, hnone]
      · rw [accessMap, accessMap, tasks_setTask, update_of_ne hx]

private theorem initTask_of_some {info : IpcTaskInfo} (h : (s.tasks t).ipcTaskInfo = some info) (m : Bool) : s.initTask t m = s := by
  rw [initTask, h]

private theorem initTask_of_none (h : (s.tasks t).ipcTaskInfo = none) : s.initTask t true = s.setTask t { s.tasks t with
    ipcTaskInfo := some ⟨[],fun _ => false⟩ } := by
  rw [initTask, h]
  rfl

private theorem initTask_false (s : IpcState H) (t : Nat) : s.initTask t false = s := by
  rw [initTask]
  split <;> rfl

/-- Task information is made once. -/
private theorem initTask_initTask (s : IpcState H) (t : Nat) (m m' : Bool) : (s.initTask t m).initTask t m' = s.initTask t (m || m') := by
  cases m with
  | false => rw [initTask_false, Bool.false_or]
  | true =>
    rw [Bool.true_or]
    cases hinfo : (s.tasks t).ipcTaskInfo with
    | some info => rw [initTask_of_some hinfo, initTask_of_some hinfo]
    | none =>
      rw [initTask_of_none hinfo]
      have hmade : ((s.setTask t { s.tasks t with ipcTaskInfo := some ⟨[],fun _ => false⟩ }).tasks t).ipcTaskInfo =
          some ⟨[],fun _ => false⟩ := by rw [tasks_setTask, update_self]
      exact initTask_of_some hmade m'

private theorem cmsTask_initTask (s : IpcState H) (t : Nat) (m : Bool) : (s.initTask t m).cmsTask = s.cmsTask := by
  rcases s.initTask_cases t m with h | ⟨-,h⟩
  · rw [h]
  · rw [h]
    rfl

-- AddServiceAccess

theorem giveAccess_of_some {info : IpcTaskInfo} (hi : (s.tasks tid).ipcTaskInfo = some info) (hp : s.procs pid = some p) :
    s.giveAccess pid tid = s.grant pid tid info p := by
  rw [giveAccess, hi, hp]

theorem giveAccess_of_none (h : (s.tasks tid).ipcTaskInfo = none ∨ s.procs pid = none) : s.giveAccess pid tid = s := by
  rw [giveAccess]
  split
  · rename_i hi hp
    rcases h with h | h
    · exact absurd (hi.symm.trans h) (Option.some_ne_none _)
    · exact absurd (hp.symm.trans h) (Option.some_ne_none _)
  · rfl

private theorem giveAccess_cases (s : IpcState H) (pid tid : Nat) : s.giveAccess pid tid = s ∨ ∃ info p, (s.tasks tid).ipcTaskInfo = some info ∧
    s.procs pid = some p ∧ s.giveAccess pid tid = s.grant pid tid info p := by
  cases hi : (s.tasks tid).ipcTaskInfo with
  | none => exact .inl (giveAccess_of_none (.inl hi))
  | some info =>
    cases hp : s.procs pid with
    | none => exact .inl (giveAccess_of_none (.inr hp))
    | some p => exact .inr ⟨info,p,rfl,rfl,giveAccess_of_some hi hp⟩

theorem same_grant {info : IpcTaskInfo} (hp : s.procs pid = some p) : Same A (s.grant pid tid info p) s := by
  have htask : Same A (s.setTask tid { s.tasks tid with ipcTaskInfo := some { info with accessMap := update info.accessMap pid true } }) s :=
    same_setTask rfl
  refine .trans ?_ htask
  exact ⟨⟨s.fds.refs,rfl⟩,holding_setProc_self hp rfl,fun _ => rfl⟩

theorem same_giveAccess (s : IpcState H) (pid tid : Nat) : Same A (s.giveAccess pid tid) s := by
  rcases s.giveAccess_cases pid tid with h | ⟨info,p,-,hp,h⟩
  · rw [h]
    exact .refl s
  · rw [h]
    exact same_grant hp

private theorem cmsTask_giveAccess (s : IpcState H) (pid tid : Nat) : (s.giveAccess pid tid).cmsTask = s.cmsTask := by
  rcases s.giveAccess_cases pid tid with h | ⟨info,p,-,-,h⟩
  · rw [h]
  · rw [h]
    rfl

private theorem getTid_congr (h : v.cmsTask = w.cmsTask) (t : Nat) : v.getTid t = w.getTid t := by
  rw [getTid, getTid, h]

private theorem addServiceAccess_eq (htid : s.getTid t = some tid) :
    (s.addServiceAccess dstTid t).2 = s.giveAccess (s.tasks dstTid).processCB tid := by
  rw [addServiceAccess, htid]
  dsimp only
  cases hi : (s.tasks tid).ipcTaskInfo with
  | none => rw [giveAccess_of_none (.inl hi)]
  | some info =>
    cases hp : s.procs (s.tasks dstTid).processCB with
    | none => rw [giveAccess_of_none (.inr hp)]
    | some p => rw [giveAccess_of_some hi hp]

/-- To make the task information of a task after an access was given is the same as before, if the access is given then. -/
private theorem giveAccess_initTask (s : IpcState H) (pid tid t : Nat) (m : Bool) :
    ((s.giveAccess pid tid).initTask t m).giveAccess pid tid = (s.initTask t m).giveAccess pid tid := by
  rcases s.giveAccess_cases pid tid with h | ⟨info,p,hi,hp,h⟩
  · rw [h]
  have hgi : ((s.grant pid tid info p).tasks tid).ipcTaskInfo = some { info with accessMap := update info.accessMap pid true } := by
    rw [grant, tasks_setProc, tasks_setTask, update_self]
  have hgp : (s.grant pid tid info p).procs pid = some { p with access := update p.access tid true } := by
    rw [grant, procs_setProc, update_self]
  have hagain : (s.grant pid tid info p).giveAccess pid tid = s.grant pid tid info p := by
    rw [giveAccess_of_some hgi hgp]
    ext1
    · rfl
    · simp only [grant, tasks_setProc, tasks_setTask, update_self, update_idem]
    · simp only [grant, procs_setProc, procs_setTask, update_idem]
    · rfl
  rw [h]
  by_cases htid : t = tid
  · subst htid
    rw [initTask_of_some hgi, initTask_of_some hi, hagain, h]
  have hgt : (s.grant pid tid info p).tasks t = s.tasks t := by rw [grant, tasks_setProc, tasks_setTask, update_of_ne htid]
  cases hit : (s.tasks t).ipcTaskInfo with
  | some info' => rw [initTask_of_some (hgt ▸ hit), initTask_of_some hit, hagain, h]
  | none =>
    cases m with
    | false => rw [initTask_false, initTask_false, hagain, h]
    | true =>
      have hne : tid ≠ t := Ne.symm htid
      rw [initTask_of_none (hgt ▸ hit), initTask_of_none hit]
      have hgi' : (((s.grant pid tid info p).setTask t { (s.grant pid tid info p).tasks t with
          ipcTaskInfo := some ⟨[],fun _ => false⟩ }).tasks tid).ipcTaskInfo = some { info with accessMap := update info.accessMap pid true } := by
        rw [tasks_setTask, update_of_ne hne, hgi]
      have hi' : ((s.setTask t { s.tasks t with ipcTaskInfo := some ⟨[],fun _ => false⟩ }).tasks tid).ipcTaskInfo = some info := by
        rw [tasks_setTask, update_of_ne hne, hi]
      rw [giveAccess_of_some hgi' hgp, giveAccess_of_some hi' hp]
      ext1
      · rfl
      · simp only [grant, tasks_setProc, tasks_setTask, update_self, update_of_ne htid, update_of_ne hne, update_idem]
        rw [update_comm htid, update_idem, update_comm hne]
      · simp only [grant, procs_setProc, procs_setTask, update_idem]
      · rfl

/-- A task lets the processes of its own tasks in. -/
private theorem hasServiceAccess_self (h : s.isTaskAlive t = true) : s.hasServiceAccess t t = true := by
  rw [isTaskAlive] at h
  split at h
  · cases h
  rename_i hlt
  have hmax : ¬ MAX_SERVICE_NUM ≤ t := hlt
  rw [hasServiceAccess, if_neg hmax]
  split_ifs with h0
  · rfl
  · rw [getTid, if_neg hmax, if_pos h0]
    exact if_pos rfl

private theorem getTid_of_alive (h : s.isTaskAlive t = true) : ∃ tid, s.getTid t = some tid := by
  rw [isTaskAlive] at h
  split at h
  · cases h
  rename_i hlt
  exact ⟨_,if_neg hlt⟩

end IpcState

-- HandleObj

/-- HandleObj has translated the object, or there is no translation and it has left everything but the references of system descriptors. -/
inductive Handled (A : Allocator H) (c : WriteCall) (dstTid : Nat) (ans : ObjAnswers) (s : IpcState H) (obj : SpecialObj) :
    Int × IpcState H × SpecialObj → Prop
  | ok {s' : IpcState H} {obj' : SpecialObj} (h : Translates A c dstTid ans s obj s' obj') : Handled A c dstTid ans s obj (0,s',obj')
  | refused {ret : Int} {s' : IpcState H} {obj' : SpecialObj} (hret : ret ≠ 0) (h : ∀ v o, ¬ Translates A c dstTid ans s obj v o)
      (hs : Same A s' s) (hr : SameRights s' s) : Handled A c dstTid ans s obj (ret,s',obj')

private theorem handleFd_handled (htype : obj.type = OBJ_FD) :
    Handled A c dstTid ans s obj (handleFd c s (s.tasks dstTid).processCB obj false) := by
  rw [handleFd, if_pos rfl]
  by_cases h : ∃ id d fdt, FdCopy c.fd s.fds (s.tasks c.curTask).processCB (toInt obj.fd) (s.tasks dstTid).processCB id d fdt
  · obtain ⟨id,d,fdt,h⟩ := h
    rw [h.copyFdToProc]
    dsimp only
    rw [if_neg (by omega), Int.toNat_natCast]
    exact .ok (.fd htype h)
  · obtain ⟨hret,refs,hrefs⟩ := copyFdToProc_failed h
    dsimp only
    rw [if_pos hret]
    refine .refused (by omega) ?_ ?_ ⟨rfl,rfl,rfl⟩
    · rintro v o (⟨_,hc⟩ | ⟨ht⟩ | ⟨ht⟩)
      · exact h ⟨_,_,_,hc⟩
      · exact absurd (htype.symm.trans ht) (by decide)
      · exact absurd (htype.symm.trans ht) (by decide)
    · exact ⟨⟨refs,hrefs⟩,rfl,fun _ => rfl⟩

/-- A buffer that can be copied: what the translation of a PTR object asks for. -/
theorem Translates.ptr_inv (h : Translates A c dstTid ans s obj v obj') (htype : obj.type = OBJ_PTR) :
    ∃ p h h' buf bytes, obj.buff ≠ 0 ∧ obj.buffSz ≠ 0 ∧ Vm.losIsUserAddress obj.buff = true ∧ s.procs (s.tasks dstTid).processCB = some p ∧
      p.heap = some h ∧ A.alloc h obj.buffSz = some (buf,h') ∧ ans.copy = .ok bytes ∧
      v = s.setProc (s.tasks dstTid).processCB { p with
        heap := some h'
        buffers := update p.buffers buf bytes
        ipcUsedNodelist := if ans.usedNode then buf :: p.ipcUsedNodelist else p.ipcUsedNodelist } ∧
      obj' = obj.setBuff (getIpcUserAddr p.pool buf) := by
  cases h with
  | fd ht => exact absurd (htype.symm.trans ht) (by decide)
  | svc ht => exact absurd (htype.symm.trans ht) (by decide)
  | ptr ht hbuff hsize huser hproc hheap halloc hcopy => exact ⟨_,_,_,_,_,hbuff,hsize,huser,hproc,hheap,halloc,hcopy,rfl,rfl⟩

private theorem handlePtr_handled (htype : obj.type = OBJ_PTR) :
    Handled A c dstTid ans s obj (handlePtr A ans s (s.tasks dstTid).processCB obj false) := by
  have hkeep : ∀ ret : Int, ret ≠ 0 → (∀ v o, ¬ Translates A c dstTid ans s obj v o) → Handled A c dstTid ans s obj (ret,s,obj) :=
    fun ret hret h => .refused hret h (.refl s) (.refl s)
  rw [handlePtr]
  cases hproc : s.procs (s.tasks dstTid).processCB with
  | none =>
    refine hkeep _ (by decide) fun v o h => ?_
    obtain ⟨p,-,-,-,-,-,-,-,hp,-⟩ := h.ptr_inv htype
    exact Option.some_ne_none p (hp.symm.trans hproc)
  | some p =>
    dsimp only
    by_cases hzero : obj.buff = 0 ∨ obj.buffSz = 0
    · rw [if_pos hzero]
      refine hkeep _ (by decide) fun v o h => ?_
      obtain ⟨-,-,-,-,-,hb,hz,-⟩ := h.ptr_inv htype
      exact hzero.elim hb hz
    rw [if_neg hzero, if_pos rfl]
    by_cases huser : Vm.losIsUserAddress obj.buff = false
    · rw [if_pos huser]
      refine hkeep _ (by decide) fun v o h => ?_
      obtain ⟨-,-,-,-,-,-,-,hu,-⟩ := h.ptr_inv htype
      exact Bool.noConfusion (huser.symm.trans hu)
    obtain ⟨hbuff,hsize⟩ := not_or.mp hzero
    rw [if_neg huser]
    have huser := (Bool.not_eq_false _).mp huser
    rw [IpcState.liteIpcNodeAlloc, hproc]
    dsimp only
    cases hheap : p.heap with
    | none =>
      refine hkeep _ (by decide) fun v o h => ?_
      obtain ⟨q,h,-,-,-,-,-,-,hp,hh,-⟩ := h.ptr_inv htype
      obtain rfl := Option.some.inj (hp.symm.trans hproc)
      exact Option.some_ne_none h (hh.symm.trans hheap)
    | some h =>
      dsimp only
      cases halloc : A.alloc h obj.buffSz with
      | none =>
        refine hkeep _ (by decide) fun v o ht => ?_
        obtain ⟨q,h,_,_,_,-,-,-,hp,hh,ha,-⟩ := ht.ptr_inv htype
        obtain rfl := Option.some.inj (hp.symm.trans hproc)
        obtain rfl := Option.some.inj (hh.symm.trans hheap)
        exact Option.some_ne_none _ (ha.symm.trans halloc)
      | some r =>
        obtain ⟨buf,h'⟩ := r
        dsimp only
        cases hcopy : ans.copy with
        | error left =>
          have hfree : (s.setProc (s.tasks dstTid).processCB { p with heap := some h' }).liteIpcNodeFree A (s.tasks dstTid).processCB buf =
              s.setProc (s.tasks dstTid).processCB { p with heap := some (A.free h' buf) } := by
            rw [IpcState.liteIpcNodeFree_eq (by rw [IpcState.procs_setProc, update_self]), IpcState.setProc_setProc]
            rfl
          refine .refused (Int.natCast_ne_zero.mpr left.2) (fun v o ht => ?_) ?_ ?_
          · obtain ⟨_,_,_,_,_,-,-,-,-,-,-,hc,-⟩ := ht.ptr_inv htype
            cases hc.symm.trans hcopy
          · rw [hfree]
            exact ⟨⟨s.fds.refs,rfl⟩,IpcState.holding_setProc_self hproc (IpcState.holding_free_alloc hheap halloc),fun _ => rfl⟩
          · rw [hfree]
            exact IpcState.sameRights_setProc hproc rfl
        | ok bytes =>
          have hend : ((s.setProc (s.tasks dstTid).processCB { p with heap := some h' }).setBuffer (s.tasks dstTid).processCB buf
              bytes).enableIpcNodeFreeByUser (s.tasks dstTid).processCB buf ans.usedNode = s.setProc (s.tasks dstTid).processCB { p with
                heap := some h'
                buffers := update p.buffers buf bytes
                ipcUsedNodelist := if ans.usedNode then buf :: p.ipcUsedNodelist else p.ipcUsedNodelist } := by
            rw [IpcState.setBuffer, IpcState.procs_setProc, update_self]
            dsimp only
            rw [IpcState.setProc_setProc, IpcState.enableIpcNodeFreeByUser, IpcState.procs_setProc, update_self]
            dsimp only
            split
            · rw [IpcState.setProc_setProc]
            · rfl
          dsimp only
          rw [hend]
          exact .ok (.ptr htype hbuff hsize huser hproc hheap halloc hcopy)

/-- What the translation of an SVC object asks for. -/
theorem Translates.svc_inv (h : Translates A c dstTid ans s obj v obj') (htype : obj.type = OBJ_SVC) :
    ∃ tid, (obj.handle = 2^32 - 1 → obj.token = 1 ∧ c.curTask ≠ s.cmsTask.taskID) ∧ s.isTaskAlive (svcHandle c obj) = true ∧
      s.hasServiceAccess c.curTask (svcHandle c obj) = true ∧ s.getTid (svcHandle c obj) = some tid ∧
      v = (s.initTask (svcHandle c obj) (svcMemory ans obj)).giveAccess (s.tasks dstTid).processCB tid ∧
      obj' = obj.setHandle (svcHandle c obj) := by
  cases h with
  | fd ht => exact absurd (htype.symm.trans ht) (by decide)
  | ptr ht => exact absurd (htype.symm.trans ht) (by decide)
  | svc ht hnew halive haccess htid => exact ⟨_,hnew,halive,haccess,htid,rfl,rfl⟩

/-- The access that is given once a service is known to be there. -/
private theorem svcAccess_ok (halive : s.isTaskAlive obj.handle = true) (haccess : s.hasServiceAccess c.curTask obj.handle = true)
    (htid : s.getTid obj.handle = some tid) :
    svcAccess c ans s dstTid obj = (0,(s.initTask obj.handle ans.svcInfo).giveAccess (s.tasks dstTid).processCB tid,obj) := by
  have htid' : (s.initTask obj.handle ans.svcInfo).getTid obj.handle = some tid := by
    rw [IpcState.getTid_congr (IpcState.cmsTask_initTask ..), htid]
  rw [svcAccess, halive, haccess, if_neg Bool.noConfusion, if_neg Bool.noConfusion]
  dsimp only
  rw [htid']
  dsimp only
  rw [IpcState.addServiceAccess_eq htid', IpcState.processCB_initTask]

private theorem handleSvc_handled (htype : obj.type = OBJ_SVC) (hself : s.isTaskAlive c.curTask = true) :
    Handled A c dstTid ans s obj (handleSvc c ans s dstTid obj false) := by
  rw [handleSvc, if_pos rfl]
  by_cases hnew : obj.handle = 2^32 - 1
  · have hh : svcHandle c obj = c.curTask := if_pos hnew
    rw [if_pos hnew]
    by_cases htoken : obj.token ≠ 1
    · rw [if_pos htoken]
      refine .refused (by decide) (fun v o h => ?_) (.refl s) (.refl s)
      obtain ⟨-,hn,-⟩ := h.svc_inv htype
      exact htoken (hn hnew).1
    rw [if_neg htoken]
    dsimp only
    have hgen : (s.initTask c.curTask ans.selfInfo).generateServiceHandle c.curTask c.curTask =
        if c.curTask ≠ s.cmsTask.taskID then some c.curTask else none := by
      rw [IpcState.generateServiceHandle, ite_self, IpcState.cmsTask_initTask]
    rw [hgen]
    by_cases hcms : c.curTask ≠ s.cmsTask.taskID
    · rw [if_pos hcms]
      obtain ⟨tid,htid⟩ := IpcState.getTid_of_alive hself
      have hsame := IpcState.same_initTask (A := A) s c.curTask ans.selfInfo
      have htid' : (s.initTask c.curTask ans.selfInfo).getTid c.curTask = some tid := by
        rw [IpcState.getTid_congr (IpcState.cmsTask_initTask ..), htid]
      dsimp only
      rw [IpcState.addServiceAccess_eq htid', hsame.processCB]
      have hgive := (IpcState.same_giveAccess (A := A) (s.initTask c.curTask ans.selfInfo) (s.tasks dstTid).processCB tid).trans hsame
      have halive := (hgive.isTaskAlive c.curTask).trans hself
      have htid' : ((s.initTask c.curTask ans.selfInfo).giveAccess (s.tasks dstTid).processCB tid).getTid c.curTask = some tid := by
        rw [IpcState.getTid_congr (IpcState.cmsTask_giveAccess ..), htid']
      have haccess := IpcState.hasServiceAccess_self hself
      have ht : Translates A c dstTid ans s obj _ _ :=
        .svc htype (fun _ => ⟨not_not.mp htoken,hcms⟩) (hh ▸ hself) (hh ▸ haccess) (hh ▸ htid)
      have hm : svcMemory ans obj = (ans.selfInfo || ans.svcInfo) := if_pos hnew
      rw [hh, hm] at ht
      have hend : svcAccess c ans _ dstTid (obj.setHandle c.curTask) = _ :=
        svcAccess_ok halive (IpcState.hasServiceAccess_self halive) htid'
      rw [hend, hgive.processCB, SpecialObj.handle_setHandle, IpcState.giveAccess_initTask, IpcState.initTask_initTask]
      exact .ok ht
    · rw [if_neg hcms]
      refine .refused (by decide) (fun v o h => ?_) (IpcState.same_initTask ..) (IpcState.sameRights_initTask ..)
      obtain ⟨-,hn,-⟩ := h.svc_inv htype
      exact hcms (hn hnew).2
  · have hh : svcHandle c obj = obj.handle := if_neg hnew
    have hm : svcMemory ans obj = ans.svcInfo := if_neg hnew
    rw [if_neg hnew]
    by_cases halive : s.isTaskAlive obj.handle = true
    · by_cases haccess : s.hasServiceAccess c.curTask obj.handle = true
      · obtain ⟨tid,htid⟩ := IpcState.getTid_of_alive halive
        have ht : Translates A c dstTid ans s obj _ _ := .svc htype (fun h => absurd h hnew) (hh ▸ halive) (hh ▸ haccess) (hh ▸ htid)
        rw [hh, hm] at ht
        rw [svcAccess_ok halive haccess htid]
        exact .ok ht
      · rw [svcAccess, halive, if_neg Bool.noConfusion, if_pos (Bool.not_eq_true _ ▸ haccess)]
        refine .refused (by decide) (fun v o h => ?_) (.refl s) (.refl s)
        obtain ⟨-,-,-,ha,-⟩ := h.svc_inv htype
        exact haccess (hh ▸ ha)
    · rw [svcAccess, if_pos (Bool.not_eq_true _ ▸ halive)]
      refine .refused (by decide) (fun v o h => ?_) (.refl s) (.refl s)
      obtain ⟨-,-,ha,-⟩ := h.svc_inv htype
      exact halive (hh ▸ ha)

/-- HandleObj translates an object or leaves the receiver alone. -/
theorem handleObj_handled (hself : s.isTaskAlive c.curTask = true) :
    Handled A c dstTid ans s obj (handleObj A c ans s dstTid obj false) := by
  rw [handleObj]
  by_cases hfd : obj.type = OBJ_FD
  · rw [if_pos hfd]
    exact handleFd_handled hfd
  rw [if_neg hfd]
  by_cases hptr : obj.type = OBJ_PTR
  · rw [if_pos hptr]
    exact handlePtr_handled hptr
  rw [if_neg hptr]
  by_cases hsvc : obj.type = OBJ_SVC
  · rw [if_pos hsvc]
    exact handleSvc_handled hsvc hself
  rw [if_neg hsvc]
  refine .refused (by decide) (fun v o h => ?_) (.refl s) (.refl s)
  cases h with
  | fd h => exact hfd h
  | ptr h => exact hptr h
  | svc h => exact hsvc h

end

end LiteOsKernel.LiteIpc
