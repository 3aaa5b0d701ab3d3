import LiteOsKernel.LiteIpc.Rollback

/-! The special objects of a message one after the other: each translation is an effect at the receiver, and the way back over the objects
that were translated takes these effects back. -/
namespace LiteOsKernel.LiteIpc
open Fs Function Lib

section
variable {H : Type} {A : Allocator H} {s x v : IpcState H} {p : ProcIpcInfo H} {c : WriteCall} {ans : ObjAnswers} {obj obj' : SpecialObj}
  {dstTid pid : Nat} {r : Receiver} {e : Effect}

/-- What an object becomes can be taken back. A descriptor has neither a close-on-exec mark nor a system descriptor when it is taken, the block
of a buffer is noted in the used nodes, and a service is one that the receiver had access to. -/
def Undoable (c : WriteCall) (dstTid : Nat) (ans : ObjAnswers) (s : IpcState H) (obj : SpecialObj) : Prop :=
  (obj.type = OBJ_FD → ∀ id fdt d, s.fds.getProcessFTable (s.tasks dstTid).processCB = some id → s.fds.tables id = some fdt →
    LowestFree fdt 3 d → fdt.cloexecFds d = false ∧ fdt.sysFd d = -1) ∧
  (obj.type = OBJ_PTR → ans.usedNode = true) ∧
  (obj.type = OBJ_SVC → ∀ tid, s.getTid (svcHandle c obj) = some tid →
    ((s.initTask (svcHandle c obj) (svcMemory ans obj)).tasks tid).ipcTaskInfo = none ∨
      s.accessMap (s.tasks dstTid).processCB tid = true ∧ s.access (s.tasks dstTid).processCB tid = true)

/-- The words of an object are words. -/
structure SpecialObj.Fits (o : SpecialObj) : Prop where
  type : o.type < 2^32
  word0 : o.word0 < 2^32
  word1 : o.word1 < 2^32
  word2 : o.word2 < 2^32

/-- What is said of the effect of a translation. -/
structure HasEffect (A : Allocator H) (c : WriteCall) (dstTid : Nat) (ans : ObjAnswers) (s : IpcState H) (obj : SpecialObj)
    (s' : IpcState H) (obj' : SpecialObj) (e : Effect) : Prop where
  possible : effects.Possible e (receiver A s dstTid)
  receiver : receiver A s' dstTid = effects.apply e (receiver A s dstTid)
  marks : Marks c s dstTid e obj'
  fits : obj.Fits → obj'.Fits
  frame : Frame s s'
  wf : s'.Wf A
  clean : effects.Clean e (LiteIpc.receiver A s dstTid) ↔ Undoable c dstTid ans s obj

theorem lowestFree_unique {fdt : FdTable} {m d d' : Nat} (h : LowestFree fdt m d) (h' : LowestFree fdt m d') : d = d' := by
  rcases Nat.lt_trichotomy d d' with hlt | heq | hlt
  · exact absurd (h.free.symm.trans (h'.least d h.le hlt)) Bool.false_ne_true
  · exact heq
  · exact absurd (h'.free.symm.trans (h.least d' h'.le hlt)) Bool.false_ne_true

private theorem fdEffect (hw : s.Wf A) (htype : obj.type = OBJ_FD) {id d : Nat} {fdt : FdTable}
    (h : FdCopy c.fd s.fds (s.tasks c.curTask).processCB (toInt obj.fd) (s.tasks dstTid).processCB id d fdt) :
    HasEffect A c dstTid ans s obj
      (s.setFds (s.fds.copied c.fd (s.fds.getAssociatedSystemFd (s.tasks c.curTask).processCB (toInt obj.fd)) id d fdt)) (obj.setFd d)
      (.fd d (s.fds.getAssociatedSystemFd (s.tasks c.curTask).processCB (toInt obj.fd))) := by
  set sysFd := s.fds.getAssociatedSystemFd (s.tasks c.curTask).processCB (toInt obj.fd)
  have hfd : (receiver A s dstTid).fdTable = some fdt := by
    change (s.fds.getProcessFTable (s.tasks dstTid).processCB).bind s.fds.tables = some fdt
    rw [h.files, Option.bind_some, h.table]
  have hmax := hw.tables id fdt h.table
  have hlt := h.free.lt
  refine ⟨⟨fdt,hfd,h.free.free,hlt,h.sys⟩,?_,.fd htype rfl (by omega) h.pid h.files h.sem,
    fun ho => ⟨ho.type,show d < 2^32 by omega,ho.word1,ho.word2⟩,⟨rfl,rfl,fun _ => rfl,fun _ => rfl⟩,⟨hw.holding,fun i f hf => ?_⟩,?_⟩
  · have hset := receiver_setTable (A := A) (fdt.occupy d sysFd)
      (s.fds.addRefs sysFd (s.fds.fdRefer sysFd (c.fd.queue sysFd))).refs h.files
    refine hset.trans ?_
    change _ = Receiver.mk ((receiver A s dstTid).fdTable.map _) _ _ _ _
    rw [hfd]
    rfl
  · change update s.fds.tables id (some (fdt.occupy d sysFd)) i = some f at hf
    by_cases hi : i = id
    · rw [hi, update_self] at hf
      exact Option.some.inj hf ▸ hmax
    · rw [update_of_ne hi] at hf
      exact hw.tables i f hf
  · have hclean : effects.Clean (.fd d sysFd) (receiver A s dstTid) ↔ (fdt.occupy d sysFd).clear d = fdt := by
      change Receiver.mk (((receiver A s dstTid).fdTable.map _).map _) _ _ _ _ = _ ↔ _
      rw [Receiver.ext_iff, hfd]
      exact ⟨fun he => Option.some.inj he.1,fun he => ⟨congrArg some he,rfl,rfl,rfl,rfl⟩⟩
    rw [hclean, FdTable.clear_occupy, FdTable.clear_eq_self_iff]
    constructor
    · rintro ⟨-,hcs⟩
      refine ⟨fun _ i f e hi hf he => ?_,fun ht => absurd (htype.symm.trans ht) (by decide),
        fun ht => absurd (htype.symm.trans ht) (by decide)⟩
      obtain rfl := Option.some.inj (h.files.symm.trans hi)
      obtain rfl := Option.some.inj (h.table.symm.trans hf)
      rwa [← lowestFree_unique h.free he]
    · rintro ⟨hcs,-⟩
      exact ⟨h.free.free,hcs htype id fdt d h.files h.table h.free⟩

/-- The address of a block for the user, which leads back to the block. -/
private theorem ipcUserAddr {pool : IpcPool} {buf : Nat} (hlo : pool.kvaddr < buf) (hhi : buf < pool.kvaddr + pool.poolSize) (hu : 0 < pool.uvaddr)
    (huser : pool.uvaddr + pool.poolSize ≤ 2^32) (hkernel : pool.kvaddr + pool.poolSize ≤ 2^32) :
    getIpcUserAddr pool buf ≠ 0 ∧ getIpcUserAddr pool buf < 2^32 ∧ getIpcKernelAddr pool (getIpcUserAddr pool buf) = buf := by
  have haddr : getIpcUserAddr pool buf = pool.uvaddr + (buf - pool.kvaddr) := by
    rw [getIpcUserAddr, Word.add, Word.sub]
    split <;> omega
  rw [haddr, getIpcKernelAddr, Word.sub, Word.sub]
  refine ⟨by omega,by omega,?_⟩
  split <;> split <;> omega

/-- A pool after an allocation. -/
theorem holding_alloc {h h' : H} {n buf m : Nat} (hheap : p.heap = some h) (halloc : A.alloc h n = some (buf,h'))
    (hm : A.blocks h' = update (A.blocks h) buf (some m)) (noted : Bool) :
    Holding.mk p.pool (some (region A h')) (if noted then buf :: p.ipcUsedNodelist else p.ipcUsedNodelist) =
      (p.holding A).take buf m noted := by
  obtain ⟨-,-,hbase,hsize⟩ := A.alloc_region halloc
  rw [Holding.take, ProcIpcInfo.holding, hheap, Option.map_some, Option.map_some, region, region, hbase, hsize, hm]

/-- A new block, noted or not, leaves the pool in order. -/
theorem Holding.Ok.take {k : Holding} {g : Region} {buf : Nat} (hk : k.Ok) (hg : k.heap = some g) (hnew : g.blocks buf = none) (m : Nat)
    (noted : Bool) : buf ∉ k.used ∧ (k.take buf m noted).Ok := by
  have hused : buf ∉ k.used := by
    intro hmem
    obtain ⟨g',hg',hb⟩ := hk.used buf hmem
    obtain rfl := Option.some.inj (hg.symm.trans hg')
    exact hb hnew
  refine ⟨hused,?_⟩
  rw [Holding.take, hg, Option.map_some]
  have hheld : ∀ a ∈ k.used, update g.blocks buf (some m) a ≠ none := by
    intro a ha
    obtain ⟨g',hg',hb⟩ := hk.used a ha
    obtain rfl := Option.some.inj (hg.symm.trans hg')
    rwa [update_of_ne (ne_of_mem_of_not_mem ha hused)]
  refine ⟨fun r hr => ?_,?_,fun a ha => ⟨_,rfl,?_⟩⟩
  · obtain rfl := Option.some.inj hr
    exact hk.mapped g hg
  · cases noted with
    | false => exact hk.nodup
    | true => exact List.nodup_cons.mpr ⟨hused,hk.nodup⟩
  · cases noted with
    | false => exact hheld a ha
    | true =>
      rcases List.mem_cons.mp ha with rfl | ha
      · dsimp only
        rw [update_self]
        exact Option.some_ne_none m
      · exact hheld a ha

/-- A process whose pool is in order after a change. -/
theorem IpcState.Wf.setProc (hw : s.Wf A) {q : ProcIpcInfo H} (hq : (q.holding A).Ok) (pid : Nat) : (s.setProc pid q).Wf A := by
  refine ⟨fun i k hk => ?_,hw.tables⟩
  rw [IpcState.holding_setProc] at hk
  by_cases hi : i = pid
  · rw [hi, update_self] at hk
    exact Option.some.inj hk ▸ hq
  · rw [update_of_ne hi] at hk
    exact hw.holding i k hk

private theorem ptrEffect (hw : s.Wf A) {h h' : H} {buf : Nat} {bytes : List UInt8} (htype : obj.type = OBJ_PTR) (hsize : obj.buffSz ≠ 0)
    (hproc : s.procs (s.tasks dstTid).processCB = some p) (hheap : p.heap = some h) (halloc : A.alloc h obj.buffSz = some (buf,h')) :
    ∃ e, HasEffect A c dstTid ans s obj
      (s.setProc (s.tasks dstTid).processCB { p with
        heap := some h'
        buffers := update p.buffers buf bytes
        ipcUsedNodelist := if ans.usedNode then buf :: p.ipcUsedNodelist else p.ipcUsedNodelist })
      (obj.setBuff (getIpcUserAddr p.pool buf)) e := by
  obtain ⟨hnew,m,-,hm⟩ := A.alloc_blocks halloc
  obtain ⟨hlo,hhi,-⟩ := A.alloc_region halloc
  have hhold : (receiver A s dstTid).holding = some (p.holding A) := by
    rw [receiver, IpcState.holding, hproc, Option.map_some]
  have hk : (p.holding A).Ok := hw.holding (s.tasks dstTid).processCB _ hhold
  have hg : (p.holding A).heap = some (region A h) := by rw [ProcIpcInfo.holding, hheap, Option.map_some]
  obtain ⟨hbase,hsz,hu,huser,hkernel⟩ := hk.mapped _ hg
  change A.base h = p.pool.kvaddr at hbase
  change A.size h = p.pool.poolSize at hsz
  rw [hbase] at hlo hhi
  rw [hsz] at hhi
  obtain ⟨haddr0,hword,haddr⟩ := ipcUserAddr hlo hhi hu huser hkernel
  obtain ⟨hused,hok⟩ := hk.take hg hnew m ans.usedNode
  have hholding := holding_alloc hheap halloc hm ans.usedNode
  refine ⟨.ptr buf m ans.usedNode,⟨⟨_,_,hhold,hg,hnew,hused⟩,?_,.ptr htype haddr0 hsize ?_ haddr,
    fun ho => ⟨ho.type,ho.word0,hword,ho.word2⟩,frame_setProc hproc rfl,?_,?_⟩⟩
  · refine (receiver_setProc hproc ?_).trans ?_
    · rfl
    change Receiver.mk _ (some (Holding.mk p.pool (some (region A h')) _)) _ _ _ = Receiver.mk _ ((receiver A s dstTid).holding.map _) _ _ _
    rw [hholding, hhold, Option.map_some]
  · rw [hproc, Option.map_some]
  · refine hw.setProc ?_ _
    change (Holding.mk p.pool (some (region A h')) _).Ok
    rw [hholding]
    exact hok
  · have hclean : effects.Clean (.ptr buf m ans.usedNode) (receiver A s dstTid) ↔
        ((p.holding A).take buf m ans.usedNode).giveBack buf = p.holding A := by
      change Receiver.mk _ (((receiver A s dstTid).holding.map _).map _) _ _ _ = _ ↔ _
      rw [Receiver.ext_iff, hhold]
      exact ⟨fun he => Option.some.inj he.2.1,fun he => ⟨rfl,congrArg some he,rfl,rfl,rfl⟩⟩
    rw [hclean]
    constructor
    · intro he
      refine ⟨fun ht => absurd (htype.symm.trans ht) (by decide),fun _ => ?_,fun ht => absurd (htype.symm.trans ht) (by decide)⟩
      by_contra hnoted
      rw [Bool.not_eq_true] at hnoted
      rw [hnoted, Holding.giveBack_unnoted hused] at he
      obtain ⟨g',hg',hb⟩ := Holding.held_take hg m false
      rw [he, hg] at hg'
      exact hb (Option.some.inj hg' ▸ hnew)
    · rintro ⟨-,hnoted,-⟩
      rw [hnoted htype]
      exact Holding.giveBack_noted hg hnew m

/-- The state after a state with the same pools and descriptors is as good. -/
theorem IpcState.Wf.same (hw : s.Wf A) (h : Same A x s) : x.Wf A := by
  obtain ⟨refs,hrefs⟩ := h.fds
  refine ⟨fun i k hk => hw.holding i k ?_,fun i f hf => hw.tables i f ?_⟩
  · rwa [h.holding] at hk
  · rwa [hrefs] at hf

/-- The access that a process is given. -/
private theorem receiver_grant {tid : Nat} {info : IpcTaskInfo} (hinfo : (s.tasks tid).ipcTaskInfo = some info)
    (hproc : s.procs (s.tasks dstTid).processCB = some p) :
    receiver A (s.grant (s.tasks dstTid).processCB tid info p) dstTid = effects.apply (.svc (some tid)) (receiver A s dstTid) := by
  have hsame : Same A (s.grant (s.tasks dstTid).processCB tid info p) s := IpcState.same_grant hproc
  refine Receiver.ext ?_ ?_ ?_ ?_ ?_
  · rw [receiver, hsame.processCB]
    rfl
  · rw [receiver, hsame.processCB, hsame.holding]
    rfl
  · funext t
    change IpcState.queue (s.grant (s.tasks dstTid).processCB tid info p) t = s.queue t
    rw [IpcState.queue, IpcState.queue, IpcState.grant, IpcState.tasks_setProc, IpcState.tasks_setTask]
    by_cases ht : t = tid
    · rw [ht, update_self, hinfo]
    · rw [update_of_ne ht]
  · funext t
    rw [receiver, hsame.processCB]
    change IpcState.accessMap _ _ t = update (s.accessMap (s.tasks dstTid).processCB) tid true t
    rw [IpcState.accessMap, IpcState.grant, IpcState.tasks_setProc, IpcState.tasks_setTask]
    by_cases ht : t = tid
    · rw [ht, update_self, update_self]
      exact update_self ..
    · rw [update_of_ne ht, update_of_ne ht, IpcState.accessMap]
  · funext t
    rw [receiver, hsame.processCB]
    change IpcState.access _ _ t = update (s.access (s.tasks dstTid).processCB) tid true t
    rw [IpcState.access, IpcState.grant, IpcState.procs_setProc, update_self]
    dsimp only
    by_cases ht : t = tid
    · rw [ht, update_self, update_self]
    · rw [update_of_ne ht, update_of_ne ht, IpcState.access, hproc]

private theorem clean_svc (tid : Nat) (r : Receiver) : effects.Clean (.svc (some tid)) r ↔ r.accessMap tid = true ∧ r.access tid = true := by
  change Receiver.mk _ _ _ (update r.accessMap tid true) (update r.access tid true) = r ↔ _
  rw [Receiver.ext_iff]
  constructor
  · rintro ⟨-,-,-,hmap,haccess⟩
    exact ⟨update_eq_self_iff.mp hmap ▸ rfl,update_eq_self_iff.mp haccess ▸ rfl⟩
  · rintro ⟨hmap,haccess⟩
    exact ⟨rfl,rfl,rfl,update_eq_self_iff.mpr hmap.symm,update_eq_self_iff.mpr haccess.symm⟩

private theorem lt_of_alive {t : Nat} (h : s.isTaskAlive t = true) : t < LOSCFG_BASE_CORE_TSK_LIMIT := by
  rw [IpcState.isTaskAlive] at h
  split at h
  case isTrue => cases h
  case isFalse hlt => exact Nat.lt_of_not_le hlt

private theorem svcEffect (hw : s.Wf A) (htype : obj.type = OBJ_SVC) {tid : Nat} (hproc : s.procs (s.tasks dstTid).processCB = some p)
    (halive : s.isTaskAlive (svcHandle c obj) = true) (htid : s.getTid (svcHandle c obj) = some tid) :
    ∃ e, HasEffect A c dstTid ans s obj
      ((s.initTask (svcHandle c obj) (svcMemory ans obj)).giveAccess (s.tasks dstTid).processCB tid) (obj.setHandle (svcHandle c obj)) e := by
  have hfits : obj.Fits → (obj.setHandle (svcHandle c obj)).Fits :=
    fun ho => ⟨ho.type,(lt_of_alive halive).trans (by decide),ho.word1,ho.word2⟩
  set v := s.initTask (svcHandle c obj) (svcMemory ans obj) with hv
  have hinit : Same A v s := IpcState.same_initTask ..
  have hrights : SameRights v s := IpcState.sameRights_initTask ..
  have hsame := (IpcState.same_giveAccess (A := A) v (s.tasks dstTid).processCB tid).trans hinit
  have hback : Undoable c dstTid ans s obj ↔ (v.tasks tid).ipcTaskInfo = none ∨
      s.accessMap (s.tasks dstTid).processCB tid = true ∧ s.access (s.tasks dstTid).processCB tid = true := by
    constructor
    · exact fun h => h.2.2 htype tid htid
    · intro h
      refine ⟨fun ht => absurd (htype.symm.trans ht) (by decide),fun ht => absurd (htype.symm.trans ht) (by decide),fun _ t ht => ?_⟩
      rw [← Option.some.inj (htid.symm.trans ht)]
      exact h
  cases hinfo : (v.tasks tid).ipcTaskInfo with
  | none =>
    have hgive : v.giveAccess (s.tasks dstTid).processCB tid = v := IpcState.giveAccess_of_none (.inl hinfo)
    rw [hgive]
    refine ⟨.svc none,trivial,hinit.receiver hrights dstTid,.svc htype,hfits,hinit.frame,hw.same hinit,?_⟩
    exact ⟨fun _ => hback.mpr (.inl hinfo),fun _ => rfl⟩
  | some info =>
    have hproc' : v.procs (v.tasks dstTid).processCB = some p := by
      rw [hinit.processCB]
      rcases s.initTask_cases (svcHandle c obj) (svcMemory ans obj) with h | ⟨-,h⟩
      · rwa [hv, h]
      · rwa [hv, h, IpcState.procs_setTask]
    have hgive : v.giveAccess (s.tasks dstTid).processCB tid = v.grant (v.tasks dstTid).processCB tid info p := by
      rw [← hinit.processCB]
      exact IpcState.giveAccess_of_some hinfo hproc'
    refine ⟨.svc (some tid),trivial,?_,.svc htype,hfits,hsame.frame,hw.same hsame,?_⟩
    · rw [hgive, receiver_grant hinfo hproc', hinit.receiver hrights]
    · rw [clean_svc, hback, hinfo]
      exact ⟨.inr,fun h => h.resolve_left (Option.some_ne_none info)⟩

/-- Each translation of an object has an effect. -/
theorem Translates.hasEffect (hw : s.Wf A) (hproc : s.procs (s.tasks dstTid).processCB = some p)
    (h : Translates A c dstTid ans s obj v obj') : ∃ e, HasEffect A c dstTid ans s obj v obj' e := by
  cases h with
  | fd htype hcopy => exact ⟨_,fdEffect hw htype hcopy⟩
  | ptr htype hbuff hsize huser hp hheap halloc hcopy => exact ptrEffect hw htype hsize hp hheap halloc
  | svc htype hnew halive haccess htid => exact svcEffect hw htype hproc halive htid

-- The objects in their bytes

theorem getObj_fits (data : Nat → UInt8) (off : Nat) : (getObj data off).Fits :=
  ⟨Bytes.get32_lt ..,Bytes.get32_lt ..,Bytes.get32_lt ..,Bytes.get32_lt ..⟩

private theorem getObj_putObj {o : SpecialObj} (ho : o.Fits) (data : Nat → UInt8) (off : Nat) : getObj (putObj data off o) off = o := by
  have hother : ∀ m a b v, a + 4 ≤ b ∨ b + 4 ≤ a → Bytes.get32 (Bytes.set32 m b v) a = Bytes.get32 m a :=
    fun m a b v h => Bytes.get32_set32_of_disjoint h v
  rw [getObj, putObj, hother _ off _ _ (by omega), hother _ off _ _ (by omega), hother _ off _ _ (by omega), Bytes.get32_set32 ho.type,
    hother _ (off+4) _ _ (by omega), hother _ (off+4) _ _ (by omega), Bytes.get32_set32 ho.word0, hother _ (off+8) _ _ (by omega),
    Bytes.get32_set32 ho.word1, Bytes.get32_set32 ho.word2]

theorem putObj_outside {a off : Nat} (h : a < off ∨ off + sizeofSpecialObj ≤ a) (data : Nat → UInt8) (o : SpecialObj) :
    putObj data off o a = data a := by
  rw [sizeofSpecialObj] at h
  rw [putObj, Bytes.set32_of_outside (by omega), Bytes.set32_of_outside (by omega), Bytes.set32_of_outside (by omega),
    Bytes.set32_of_outside (by omega)]

theorem getObj_congr {data data' : Nat → UInt8} {off : Nat} (h : ∀ a, off ≤ a → a < off + sizeofSpecialObj → data' a = data a) :
    getObj data' off = getObj data off := by
  rw [sizeofSpecialObj] at h
  rw [getObj, getObj, Bytes.get32_congr fun a h1 h2 => h a (by omega) (by omega), Bytes.get32_congr fun a h1 h2 => h a (by omega) (by omega),
    Bytes.get32_congr fun a h1 h2 => h a (by omega) (by omega), Bytes.get32_congr fun a h1 h2 => h a (by omega) (by omega)]

/-- The data with objects in place of those at some offsets; the last one is in front. -/
def placed (data : Nat → UInt8) : List (Nat × SpecialObj) → Nat → UInt8
  | [] => data
  | (off,o) :: l => putObj (placed data l) off o

/-- Offsets in order, without overlap; the last one is in front. -/
def Spaced (done : List Nat) : Prop := done.Pairwise fun off prev => prev + sizeofSpecialObj ≤ off

theorem placed_outside {data : Nat → UInt8} {a : Nat} {l : List (Nat × SpecialObj)}
    (h : ∀ q ∈ l, a < q.1 ∨ q.1 + sizeofSpecialObj ≤ a) : placed data l a = data a := by
  induction l with
  | nil => rfl
  | cons q l ih =>
    rw [placed, putObj_outside (h q List.mem_cons_self)]
    exact ih fun q hq => h q (List.mem_cons_of_mem _ hq)

/-- An object behind those that were placed is as it was. -/
theorem getObj_placed_above {data : Nat → UInt8} {off : Nat} {l : List (Nat × SpecialObj)} (h : ∀ q ∈ l, q.1 + sizeofSpecialObj ≤ off) :
    getObj (placed data l) off = getObj data off :=
  getObj_congr fun _ ha _ => placed_outside fun q hq => .inr ((h q hq).trans ha)

/-- The objects that were placed are read back, and so they are when one behind them is written. -/
theorem map_getObj_placed (data : Nat → UInt8) {l : List (Nat × SpecialObj)} (hl : Spaced (l.map Prod.fst)) (hfits : ∀ q ∈ l, q.2.Fits) :
    (l.map Prod.fst).map (getObj (placed data l)) = l.map Prod.snd := by
  rw [List.map_map]
  refine List.map_congr_left fun q hq => ?_
  induction l with
  | nil => cases hq
  | cons q' l ih =>
    obtain ⟨habove,hl⟩ := List.pairwise_cons.mp hl
    rcases List.mem_cons.mp hq with rfl | hq
    · exact getObj_putObj (hfits q List.mem_cons_self) _ _
    · have hlow : q.1 + sizeofSpecialObj ≤ q'.1 := habove q.1 (List.mem_map_of_mem hq)
      refine .trans (getObj_congr fun a _ h2 => ?_) (ih hl (fun q hq => hfits q (List.mem_cons_of_mem _ hq)) hq)
      exact putObj_outside (.inl (h2.trans_le hlow)) _ _

end

end LiteOsKernel.LiteIpc
