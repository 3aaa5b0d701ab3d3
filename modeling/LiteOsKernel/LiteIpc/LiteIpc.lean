import LiteOsKernel.Fs.ProcFdCall
import LiteOsKernel.Lib.Allocator
import LiteOsKernel.Lib.Bytes
import LiteOsKernel.Vm.Syscall

/-! Sending a message with LiteIPC (hm_liteipc.c): the checks of the message, the copy into the receiver's pool, and the special objects that
are handled in place, one after the other. -/
namespace LiteOsKernel.LiteIpc
open Fs Function Lib

def LOSCFG_BASE_CORE_TSK_LIMIT : Nat := 128
def MAX_SERVICE_NUM : Nat := LOSCFG_BASE_CORE_TSK_LIMIT
def IPC_IO_DATA_MAX : Nat := 8192
def sizeofSpecialObj : Nat := 16
def sizeofSizeT : Nat := 4
def IPC_MSG_DATA_SZ_MAX : Nat := IPC_IO_DATA_MAX * sizeofSpecialObj / (sizeofSpecialObj + sizeofSizeT)
def IPC_MSG_OBJECT_NUM_MAX : Nat := IPC_MSG_DATA_SZ_MAX / sizeofSpecialObj
def LITEIPC_TIMEOUT_NS : Nat := 5000000000
def LITEIPC_FLAG_ONEWAY : Nat := 1
def BUFF_FREE : Nat := 4
def ENOMEM : Int := 12
def EACCES : Int := 13
def ETIME : Int := 62

inductive MsgType where
  | MT_REQUEST
  | MT_REPLY
  | MT_FAILED_REPLY
  | MT_DEATH_NOTIFY
  | MT_NUM
  deriving DecidableEq

structure SvcIdentity where
  handle : Nat
  token : Nat
  cookie : Nat
  deriving DecidableEq

structure IpcMsg where
  type : MsgType
  target : SvcIdentity
  code : Nat
  flag : Nat
  timestamp : Nat
  dataSz : Nat
  data : Nat
  spObjNum : Nat
  offsets : Nat
  processID : Nat
  taskID : Nat
  deriving DecidableEq

def OBJ_FD : Nat := 0
def OBJ_PTR : Nat := 1
def OBJ_SVC : Nat := 2

/-- SpecialObj: the type and the three words of the union ObjContent. -/
structure SpecialObj where
  type : Nat
  word0 : Nat
  word1 : Nat
  word2 : Nat
  deriving DecidableEq

namespace SpecialObj

def fd (o : SpecialObj) : Nat := o.word0
def setFd (o : SpecialObj) (fd : Nat) : SpecialObj := { o with word0 := fd }
def buffSz (o : SpecialObj) : Nat := o.word0
def buff (o : SpecialObj) : Nat := o.word1
def setBuff (o : SpecialObj) (buff : Nat) : SpecialObj := { o with word1 := buff }
def handle (o : SpecialObj) : Nat := o.word0
def setHandle (o : SpecialObj) (handle : Nat) : SpecialObj := { o with word0 := handle }
def token (o : SpecialObj) : Nat := o.word1

@[simp] theorem handle_setHandle (o : SpecialObj) (h : Nat) : (o.setHandle h).handle = h := rfl
@[simp] theorem fd_setFd (o : SpecialObj) (n : Nat) : (o.setFd n).fd = n := rfl
@[simp] theorem buff_setBuff (o : SpecialObj) (a : Nat) : (o.setBuff a).buff = a := rfl
@[simp] theorem buffSz_setBuff (o : SpecialObj) (a : Nat) : (o.setBuff a).buffSz = o.buffSz := rfl
@[simp] theorem type_setHandle (o : SpecialObj) (h : Nat) : (o.setHandle h).type = o.type := rfl
@[simp] theorem type_setFd (o : SpecialObj) (n : Nat) : (o.setFd n).type = o.type := rfl
@[simp] theorem type_setBuff (o : SpecialObj) (a : Nat) : (o.setBuff a).type = o.type := rfl

end SpecialObj

/-- The object at an offset of the data. -/
def getObj (data : Nat → UInt8) (off : Nat) : SpecialObj :=
  ⟨Bytes.get32 data off,Bytes.get32 data (off+4),Bytes.get32 data (off+8),Bytes.get32 data (off+12)⟩

/-- An object in place of the one at an offset. -/
def putObj (data : Nat → UInt8) (off : Nat) (o : SpecialObj) : Nat → UInt8 :=
  Bytes.set32 (Bytes.set32 (Bytes.set32 (Bytes.set32 data off o.type) (off+4) o.word0) (off+8) o.word1) (off+12) o.word2

/-- A message in the pool of its receiver, with the data and the offsets that follow it there. -/
structure IpcListNode where
  addr : Nat
  msg : IpcMsg
  data : Nat → UInt8
  offsets : List Nat

structure IpcTaskInfo where
  msgList : List IpcListNode
  accessMap : Nat → Bool

/-- A task; processCB is the number of its process. -/
structure LosTaskCB where
  isUnused : Bool
  isInactive : Bool
  isUserMode : Bool
  processCB : Nat
  waitLiteIpc : Bool
  ipcTaskInfo : Option IpcTaskInfo

structure IpcPool where
  uvaddr : Nat
  kvaddr : Nat
  poolSize : Nat

/-- ProcIpcInfo; heap is the pool once it is mapped, and buffers what the blocks of PTR objects hold. -/
structure ProcIpcInfo (H : Type) where
  pool : IpcPool
  heap : Option H
  ipcUsedNodelist : List Nat
  access : Nat → Bool
  buffers : Nat → List UInt8

structure HandleInfo where
  taskID : Nat
  maxMsgSize : Nat

/-- The descriptor tables, the tasks, the ipcInfo of each process, and g_cmsTask. -/
@[ext] structure IpcState (H : Type) where
  fds : FdState
  tasks : Nat → LosTaskCB
  procs : Nat → Option (ProcIpcInfo H)
  cmsTask : HandleInfo

/-- What copy_from_user returns when it fails: the bytes left. -/
abbrev CopyLeft := { n : Nat // n ≠ 0 }

/-- What the handling of an object is told: whether there is memory for the node of the used list and for the task information of the
sender and of the service, and what copy_from_user reads. -/
structure ObjAnswers where
  usedNode : Bool
  selfInfo : Bool
  svcInfo : Bool
  copy : Except CopyLeft (List UInt8)

/-- A call of LiteIpcWrite: who sends, the content with the request it replies to, the message, and what the call is told. -/
structure WriteCall where
  curTask : Nat
  securityCapability : Bool
  flag : Nat
  request : IpcMsg
  outMsg : IpcMsg
  now : Nat
  copyData : Except CopyLeft (Nat → UInt8)
  copyOffsets : Except CopyLeft (Nat → UInt32)
  dstInfo : Bool
  fd : FdAnswers
  obj : Nat → ObjAnswers

def toInt (x : Nat) : Int := if x < 2^31 then x else x - 2^32

namespace IpcState

variable {H : Type}

def setTask (s : IpcState H) (tid : Nat) (t : LosTaskCB) : IpcState H := { s with tasks := update s.tasks tid t }

def setProc (s : IpcState H) (pid : Nat) (p : ProcIpcInfo H) : IpcState H := { s with procs := update s.procs pid (some p) }

def setFds (s : IpcState H) (fds : FdState) : IpcState H := { s with fds := fds }

/-- Where a task has no ipcTaskInfo, LiteIpcTaskInit makes one if there is memory. -/
def initTask (s : IpcState H) (tid : Nat) (memory : Bool) : IpcState H :=
  match (s.tasks tid).ipcTaskInfo with
  | some _ => s
  | none => if memory then s.setTask tid { s.tasks tid with ipcTaskInfo := some ⟨[],fun _ => false⟩ } else s

/-- GetTid. -/
def getTid (s : IpcState H) (serviceHandle : Nat) : Option Nat :=
  if MAX_SERVICE_NUM ≤ serviceHandle then none else some (if serviceHandle ≠ 0 then serviceHandle else s.cmsTask.taskID)

/-- GenerateServiceHandle. -/
def generateServiceHandle (s : IpcState H) (curTask taskID : Nat) : Option Nat :=
  let serviceHandle := if taskID ≠ 0 then taskID else curTask
  if serviceHandle ≠ s.cmsTask.taskID then some serviceHandle else none

/-- Both sides of the access of a process to the service of a task. -/
def grant (s : IpcState H) (pid serviceTid : Nat) (info : IpcTaskInfo) (p : ProcIpcInfo H) : IpcState H :=
  (s.setTask serviceTid { s.tasks serviceTid with ipcTaskInfo := some { info with accessMap := update info.accessMap pid true } }).setProc pid
    { p with access := update p.access serviceTid true }

/-- AddServiceAccess. -/
def addServiceAccess (s : IpcState H) (taskID serviceHandle : Nat) : Int × IpcState H :=
  match s.getTid serviceHandle with
  | none => (-EINVAL,s)
  | some serviceTid =>
    match (s.tasks serviceTid).ipcTaskInfo, s.procs (s.tasks taskID).processCB with
    | some info, some p => (0,s.grant (s.tasks taskID).processCB serviceTid info p)
    | _, _ => (-EINVAL,s)

/-- HasServiceAccess. -/
def hasServiceAccess (s : IpcState H) (curTask serviceHandle : Nat) : Bool :=
  let curr := (s.tasks curTask).processCB
  if MAX_SERVICE_NUM ≤ serviceHandle then false
  else if serviceHandle = 0 then true
  else
    match s.getTid serviceHandle with
    | none => false
    | some serviceTid =>
      if (s.tasks serviceTid).processCB = curr then true
      else
        match (s.tasks serviceTid).ipcTaskInfo with
        | none => false
        | some info => info.accessMap curr

/-- IsTaskAlive. -/
def isTaskAlive (s : IpcState H) (taskID : Nat) : Bool :=
  if LOSCFG_BASE_CORE_TSK_LIMIT ≤ taskID then false
  else if (s.tasks taskID).isUnused then false
  else if (s.tasks taskID).isInactive then false
  else (s.tasks taskID).isUserMode

end IpcState

/-- GetIpcUserAddr. -/
def getIpcUserAddr (pool : IpcPool) (kernelAddr : Nat) : Nat := Word.add kernelAddr (Word.sub pool.uvaddr pool.kvaddr)

/-- GetIpcKernelAddr. -/
def getIpcKernelAddr (pool : IpcPool) (userAddr : Nat) : Nat := Word.sub userAddr (Word.sub pool.uvaddr pool.kvaddr)

section
variable {H : Type} (A : Allocator H)

namespace IpcState

/-- LiteIpcNodeAlloc; a pool that is not mapped has no memory. -/
def liteIpcNodeAlloc (s : IpcState H) (pid size : Nat) : Option (Nat × IpcState H) :=
  match s.procs pid with
  | none => none
  | some p =>
    match p.heap with
    | none => none
    | some h =>
      match A.alloc h size with
      | none => none
      | some (ptr,h') => some (ptr,s.setProc pid { p with heap := some h' })

/-- LiteIpcNodeFree. -/
def liteIpcNodeFree (s : IpcState H) (pid buf : Nat) : IpcState H :=
  match s.procs pid with
  | none => s
  | some p => s.setProc pid { p with heap := p.heap.map fun h => A.free h buf }

/-- EnableIpcNodeFreeByUser. -/
def enableIpcNodeFreeByUser (s : IpcState H) (pid buf : Nat) (memory : Bool) : IpcState H :=
  match s.procs pid with
  | none => s
  | some p => if memory then s.setProc pid { p with ipcUsedNodelist := buf :: p.ipcUsedNodelist } else s

/-- IsIpcNode takes the node off the list. -/
def isIpcNode (s : IpcState H) (pid buf : Nat) : Bool × IpcState H :=
  match s.procs pid with
  | none => (false,s)
  | some p =>
    if buf ∈ p.ipcUsedNodelist then (true,s.setProc pid { p with ipcUsedNodelist := p.ipcUsedNodelist.erase buf }) else (false,s)

/-- The bytes of a PTR object in their block. -/
def setBuffer (s : IpcState H) (pid buf : Nat) (bytes : List UInt8) : IpcState H :=
  match s.procs pid with
  | none => s
  | some p => s.setProc pid { p with buffers := update p.buffers buf bytes }

end IpcState

/-- HandleFd; pid is the process of the receiver. -/
def handleFd (c : WriteCall) (s : IpcState H) (pid : Nat) (obj : SpecialObj) (isRollback : Bool) : Int × IpcState H × SpecialObj :=
  if isRollback = false then
    let (ret,fds) := copyFdToProc c.fd s.fds (s.tasks c.curTask).processCB (toInt obj.fd) pid
    if ret < 0 then (ret,s.setFds fds,obj) else (0,s.setFds fds,obj.setFd ret.toNat)
  else
    let (ret,fds) := closeProcFd c.fd s.fds (toInt obj.fd) pid
    if ret < 0 then (ret,s.setFds fds,obj) else (0,s.setFds fds,obj)

/-- HandlePtr. -/
def handlePtr (ans : ObjAnswers) (s : IpcState H) (pid : Nat) (obj : SpecialObj) (isRollback : Bool) : Int × IpcState H × SpecialObj :=
  match s.procs pid with
  | none => (-EINVAL,s,obj)
  | some p =>
    if obj.buff = 0 ∨ obj.buffSz = 0 then (-EINVAL,s,obj)
    else if isRollback = false then
      if Vm.losIsUserAddress obj.buff = false then (-EINVAL,s,obj)
      else
        match s.liteIpcNodeAlloc A pid obj.buffSz with
        | none => (-EINVAL,s,obj)
        | some (buf,s) =>
          match ans.copy with
          | .error ret => (ret.1,s.liteIpcNodeFree A pid buf,obj)
          | .ok bytes =>
            (0,(s.setBuffer pid buf bytes).enableIpcNodeFreeByUser pid buf ans.usedNode,obj.setBuff (getIpcUserAddr p.pool buf))
    else
      let buf := getIpcKernelAddr p.pool obj.buff
      match s.isIpcNode pid buf with
      | (true,s) => (0,s.liteIpcNodeFree A pid buf,obj)
      | (false,s) => (0,s,obj)

/-- The end of HandleSvc, which a handle just made goes through as well. -/
def svcAccess (c : WriteCall) (ans : ObjAnswers) (s : IpcState H) (dstTid : Nat) (obj : SpecialObj) : Int × IpcState H × SpecialObj :=
  if s.isTaskAlive obj.handle = false then (-EINVAL,s,obj)
  else if s.hasServiceAccess c.curTask obj.handle = false then (-EACCES,s,obj)
  else
    let s := s.initTask obj.handle ans.svcInfo
    match s.getTid obj.handle with
    | none => (0,s,obj)
    | some _ => (0,(s.addServiceAccess dstTid obj.handle).2,obj)

/-- HandleSvc: there is nothing that it rolls back. -/
def handleSvc (c : WriteCall) (ans : ObjAnswers) (s : IpcState H) (dstTid : Nat) (obj : SpecialObj) (isRollback : Bool) :
    Int × IpcState H × SpecialObj :=
  if isRollback = false then
    if obj.handle = 2^32 - 1 then
      if obj.token ≠ 1 then (-EINVAL,s,obj)
      else
        let selfTid := c.curTask
        let s := s.initTask selfTid ans.selfInfo
        match s.generateServiceHandle c.curTask selfTid with
        | none => (-EINVAL,s,obj)
        | some serviceHandle => svcAccess c ans (s.addServiceAccess dstTid serviceHandle).2 dstTid (obj.setHandle serviceHandle)
    else svcAccess c ans s dstTid obj
  else (0,s,obj)

/-- HandleObj: the result, the state, and the object as it is then. -/
def handleObj (c : WriteCall) (ans : ObjAnswers) (s : IpcState H) (dstTid : Nat) (obj : SpecialObj) (isRollback : Bool) :
    Int × IpcState H × SpecialObj :=
  let pid := (s.tasks dstTid).processCB
  if obj.type = OBJ_FD then handleFd c s pid obj isRollback
  else if obj.type = OBJ_PTR then handlePtr A ans s pid obj isRollback
  else if obj.type = OBJ_SVC then handleSvc c ans s dstTid obj isRollback
  else (-EINVAL,s,obj)

/-- The way back over the objects that were handled, the last one first. -/
def rollback (c : WriteCall) (dstTid : Nat) (data : Nat → UInt8) : IpcState H → List Nat → IpcState H
  | s, [] => s
  | s, off :: offs => rollback c dstTid data (handleObj A c (c.obj offs.length) s dstTid (getObj data off) true).2.1 offs

/-- An object begins before the one in front of it ends. -/
def overlaps (done : List Nat) (off : Nat) : Bool :=
  match done with
  | [] => false
  | prev :: _ => off < Word.add prev sizeofSpecialObj

/-- The objects one after the other; done are the offsets of those that are handled, the last one first. -/
def handleLoop (c : WriteCall) (dstTid dataSz : Nat) : IpcState H → (Nat → UInt8) → List Nat → List Nat → Int × IpcState H × (Nat → UInt8)
  | s, data, _, [] => (0,s,data)
  | s, data, done, off :: offs =>
    if Word.sub dataSz sizeofSpecialObj < off then (-EINVAL,rollback A c dstTid data s done,data)
    else if overlaps done off then (-EINVAL,rollback A c dstTid data s done,data)
    else
      let (ret,s,obj) := handleObj A c (c.obj done.length) s dstTid (getObj data off) false
      let data := putObj data off obj
      if ret ≠ 0 then (ret,rollback A c dstTid data s done,data) else handleLoop c dstTid dataSz s data (off :: done) offs

/-- HandleSpecialObjects. -/
def handleSpecialObjects (c : WriteCall) (s : IpcState H) (dstTid : Nat) (node : IpcListNode) (isRollback : Bool) :
    Int × IpcState H × (Nat → UInt8) :=
  if isRollback then (0,rollback A c dstTid node.data s node.offsets.reverse,node.data)
  else handleLoop A c dstTid node.msg.dataSz s node.data [] node.offsets

/-- The sizes of the PTR objects on top of total; none is -EINVAL. -/
def msgSizeLoop (data : Nat → UInt8) (dataSz : Nat) : List Nat → Nat → List Nat → Option Nat
  | _, total, [] => some total
  | done, total, off :: offs =>
    if Word.sub dataSz sizeofSpecialObj < off then none
    else if overlaps done off then none
    else
      let obj := getObj data off
      msgSizeLoop data dataSz (off :: done) (if obj.type = OBJ_PTR then total + obj.buffSz else total) offs

def sizeofIpcMsg (c : WriteCall) : Nat := if c.securityCapability then 64 else 56

def sizeofIpcListNode (c : WriteCall) : Nat := sizeofIpcMsg c + 8

/-- CheckMsgSize. -/
def checkMsgSize (c : WriteCall) (s : IpcState H) (node : IpcListNode) : Bool :=
  if node.msg.target.handle ≠ 0 then true
  else
    match msgSizeLoop node.data node.msg.dataSz [] (sizeofIpcMsg c + node.msg.dataSz + node.msg.spObjNum * 4) node.offsets with
    | none => false
    | some totalSize => decide (totalSize ≤ s.cmsTask.maxMsgSize)

/-- CopyDataFromUser: the message in its block. -/
def copyDataFromUser (c : WriteCall) (s : IpcState H) (buf : Nat) (msg : IpcMsg) : Except Int IpcListNode :=
  let copyData := if msg.dataSz ≠ 0 then c.copyData else .ok fun _ => 0
  let copyOffsets := if msg.spObjNum ≠ 0 then c.copyOffsets else .ok fun _ => 0
  match copyData with
  | .error ret => .error ret.1
  | .ok data =>
    match copyOffsets with
    | .error ret => .error ret.1
    | .ok offsets =>
      let node : IpcListNode :=
        { addr := buf
          msg := { msg with
            data := if msg.dataSz ≠ 0 then Word.add buf (sizeofIpcListNode c) else 0
            offsets := if msg.spObjNum ≠ 0 then Word.add (Word.add buf (sizeofIpcListNode c)) msg.dataSz else 0
            taskID := c.curTask
            processID := (s.tasks c.curTask).processCB }
          data := data
          offsets := (List.range msg.spObjNum).map fun i => (offsets i).toNat }
      if checkMsgSize c s node then .ok node else .error (-EINVAL)

/-- IsValidReply. -/
def isValidReply (c : WriteCall) (s : IpcState H) : Bool :=
  if c.request.type ≠ .MT_REQUEST ∨ c.request.flag = LITEIPC_FLAG_ONEWAY ∨ c.outMsg.timestamp ≠ c.request.timestamp ∨
      c.outMsg.target.handle ≠ c.request.taskID then false
  else
    match s.getTid c.request.target.handle with
    | none => false
    | some reqDstTid => decide ((s.tasks reqDstTid).processCB = (s.tasks c.curTask).processCB)

/-- CheckPara: the receiver, and the message with its time. -/
def checkPara (c : WriteCall) (s : IpcState H) : Except Int (Nat × IpcMsg) :=
  let msg := c.outMsg
  if (0 < msg.dataSz ∧ msg.data = 0) ∨ (0 < msg.spObjNum ∧ msg.offsets = 0) ∨ IPC_MSG_DATA_SZ_MAX < msg.dataSz ∨
      IPC_MSG_OBJECT_NUM_MAX < msg.spObjNum ∨ msg.dataSz < msg.spObjNum * sizeofSpecialObj then .error (-EINVAL)
  else
    let dst : Except Int (Nat × IpcMsg) :=
      match msg.type with
      | .MT_REQUEST =>
        if s.hasServiceAccess c.curTask msg.target.handle then
          match s.getTid msg.target.handle with
          | none => .error (-EINVAL)
          | some dstTid => .ok (dstTid,{ msg with timestamp := c.now })
        else .error (-EACCES)
      | .MT_REPLY | .MT_FAILED_REPLY =>
        if c.flag &&& BUFF_FREE ≠ BUFF_FREE then .error (-EINVAL)
        else if isValidReply c s = false then .error (-EINVAL)
        else if (msg.timestamp + LITEIPC_TIMEOUT_NS) % 2^64 < c.now then .error (-ETIME)
        else .ok (msg.target.handle,msg)
      | .MT_DEATH_NOTIFY => .ok (msg.target.handle,{ msg with timestamp := c.now })
      | .MT_NUM => .error (-EINVAL)
    match dst with
    | .error ret => .error ret
    | .ok (dstTid,msg) => if s.isTaskAlive dstTid = false then .error (-EINVAL) else .ok (dstTid,msg)

/-- The message at the end of the receiver's queue, and the receiver woken up. -/
def IpcState.enqueue (s : IpcState H) (dstTid : Nat) (info : IpcTaskInfo) (node : IpcListNode) : IpcState H :=
  s.setTask dstTid { s.tasks dstTid with waitLiteIpc := false, ipcTaskInfo := some { info with msgList := info.msgList ++ [node] } }

/-- LiteIpcWrite; none where the queue of a task without ipcTaskInfo is written. -/
def liteIpcWrite (c : WriteCall) (s : IpcState H) : Option (Int × IpcState H) :=
  match checkPara c s with
  | .error ret => some (ret,s)
  | .ok (dstTid,msg) =>
    let pid := (s.tasks dstTid).processCB
    match s.procs pid with
    | none => some (-EINVAL,s)
    | some _ =>
      let bufSz := sizeofIpcListNode c + msg.dataSz + msg.spObjNum * 4
      match s.liteIpcNodeAlloc A pid bufSz with
      | none => some (-ENOMEM,s)
      | some (buf,s) =>
        match copyDataFromUser c s buf msg with
        | .error ret => some (ret,s.liteIpcNodeFree A pid buf)
        | .ok node =>
          let (ret,s,data) := handleSpecialObjects A c (s.initTask dstTid c.dstInfo) dstTid node false
          if ret ≠ 0 then some (ret,s.liteIpcNodeFree A pid buf)
          else
            match (s.tasks dstTid).ipcTaskInfo with
            | none => none
            | some info => some (0,s.enqueue dstTid info { node with data := data })

end

end LiteOsKernel.LiteIpc
