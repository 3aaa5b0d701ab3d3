import Mathlib.Algebra.Group.Nat.Defs
import Mathlib.Logic.Function.Basic
import LiteOsKernel.Lib.Chain

/-! POSIX message queues, after mqueue.c, over LOS_QueueCreate and LOS_QueueDelete. Every call here holds IPC_QUEUE_MUTEX from its first
step to its last. The messages are left out, and so are mq_notify and the limits of a process group. -/
namespace LiteOsKernel.Posix.Mqueue

def LOSCFG_BASE_IPC_QUEUE_LIMIT : Nat := 1024
def MAX_MQ_FD : Nat := 256
def MQUEUE_FD_OFFSET : Int := 512
def PATH_MAX : Nat := 256
def QUEUE_SPLIT_BIT : Nat := 16
def OS_NULL_SHORT : Nat := 0xFFFF
def MQ_USE_MAGIC : Nat := 0x89abcdef
def MQ_MAX_MSG_NUM : Nat := 16
def MQ_MAX_MSG_LEN : Nat := 64
def O_CREAT : Nat := 0o100
def O_EXCL : Nat := 0o200
def FNONBLOCK : Nat := 0o4000
def S_IRUSR : Nat := 0o400
def S_IWUSR : Nat := 0o200
def S_IRGRP : Nat := 0o40
def S_IWGRP : Nat := 0o20
def S_IROTH : Nat := 0o4
def S_IWOTH : Nat := 0o2
/-- -1 as a uid_t or gid_t. -/
def NO_ID : Nat := 0xFFFFFFFF

inductive Errno where
  | ENOENT
  | EBADF
  | EAGAIN
  | ENOMEM
  | EACCES
  | EFAULT
  | EEXIST
  | EINVAL
  | ENFILE
  | ENOSPC
  | ENAMETOOLONG
  deriving DecidableEq

/-- A name, as the bytes in front of the final 0. -/
abbrev Name := List UInt8

/-- The ID of a kernel queue, and whether its queueState is OS_QUEUE_INUSED. -/
structure LosQueueCB where
  queueID : Nat
  inUsed : Bool

/-- mqcb is an index of IPC_ALL_QUEUE, and mqPersonal an address. -/
structure Mqarray where
  mqId : Nat
  unlinkflag : Bool
  mqName : Option Name
  unlinkRef : Nat
  modeData : Nat
  euid : Nat
  egid : Nat
  mqcb : Option Nat
  mqPersonal : Option Nat

/-- mqPosixdes is an index of IPC_QUEUE_TABLE; it never is NULL. -/
structure Mqpersonal where
  mqPosixdes : Nat
  mqNext : Option Nat
  mqFlags : Nat
  mqMode : Nat
  mqStatus : Nat
  mqRefcount : Nat
  deriving Inhabited

/-- fdSet is g_queueFdSet, by the descriptor less MQUEUE_FD_OFFSET; heap holds the nodes that are allocated. -/
structure MqState where
  allQueue : Nat → LosQueueCB
  freeQueueList : List Nat
  queueTable : Nat → Mqarray
  heap : Nat → Option Mqpersonal
  fdSet : Nat → Bool
  mqPrivBuf : Nat → Option Nat

/-- What a call returns, and the errno that it sets. -/
structure MqRet where
  ret : Int
  errno : Option Errno
  deriving DecidableEq

/-- LOS_OK and the codes LOS_ERRNO_QUEUE_xxx of LOS_QueueDelete; inTskUse stands for IN_TSKWRITE too. -/
inductive QueueRet where
  | ok
  | notFound
  | notCreate
  | inTskUse
  deriving DecidableEq

/-- struct mq_attr without mq_curmsgs, which is not read. -/
structure MqAttr where
  mqFlags : Nat
  mqMaxmsg : Int
  mqMsgsize : Int

/-- The attr argument: NULL, an address that cannot be copied from, or what is there. -/
inductive AttrArg where
  | null
  | fault
  | given (attr : MqAttr)

structure User where
  effUserID : Nat
  effGid : Nat

/-- The arguments of mq_open besides the name, the caller, and what LOS_MemAlloc returns: memory for the messages, memory for the name,
and a node with junk in its mq_mode. The addresses of the kernel heap are positive as an INT32. -/
structure OpenArgs where
  openFlag : Nat
  mode : Nat
  attr : AttrArg
  user : User
  queueMem : Bool
  nameMem : Bool
  personal : Option Nat
  junk : Nat

namespace MqState

def setSlot (st : MqState) (s : Nat) (q : Mqarray) : MqState := { st with queueTable := Function.update st.queueTable s q }

def setNode (st : MqState) (a : Nat) (p : Option Mqpersonal) : MqState := { st with heap := Function.update st.heap a p }

def node (st : MqState) (a : Nat) : Mqpersonal := (st.heap a).getD default

def next (st : MqState) (a : Nat) : Option Nat := (st.node a).mqNext

end MqState

def getQueueIndex (queueID : Nat) : Nat := queueID % 2^QUEUE_SPLIT_BIT

def getQueueCount (queueID : Nat) : Nat := queueID >>> QUEUE_SPLIT_BIT

def setQueueId (count index : Nat) : Nat := (count <<< QUEUE_SPLIT_BIT) % 2^32 ||| index

/-- LOS_QueueCreate, with its code mapped by map_errno. -/
def losQueueCreate (st : MqState) (len maxMsgSize : Nat) (queue : Bool) : MqState × Except Errno Nat :=
  if OS_NULL_SHORT - 4 < maxMsgSize then (st,.error .EINVAL)
  else if len = 0 ∨ maxMsgSize = 0 then (st,.error .EINVAL)
  else if queue = false then (st,.error .ENOSPC)
  else match st.freeQueueList with
    | [] => (st,.error .ENFILE)
    | unusedQueue :: freeQueueList =>
      let queueID := (st.allQueue unusedQueue).queueID
      ({ st with
        freeQueueList := freeQueueList
        allQueue := Function.update st.allQueue unusedQueue ⟨queueID,true⟩ },.ok queueID)

/-- inUse says that a task waits in the queue or is about to copy a message. -/
def losQueueDelete (st : MqState) (queueID : Nat) (inUse : Bool) : MqState × QueueRet :=
  let index := getQueueIndex queueID
  if LOSCFG_BASE_IPC_QUEUE_LIMIT ≤ index then (st,.notFound)
  else if (st.allQueue index).queueID ≠ queueID ∨ (st.allQueue index).inUsed = false then (st,.notCreate)
  else if inUse then (st,.inTskUse)
  else
    ({ st with
      allQueue := Function.update st.allQueue index ⟨setQueueId (getQueueCount queueID + 1) index,false⟩
      freeQueueList := st.freeQueueList ++ [index] },.ok)

def mqNameCheck : Option Name → Option Errno
  | none => some .EINVAL
  | some mqName =>
    if mqName.length = 0 then some .EINVAL
    else if PATH_MAX - 1 < mqName.length then some .ENAMETOOLONG
    else none

def getMqueueCBByID (st : MqState) (queueID : Nat) : Option Nat :=
  let index := getQueueIndex queueID
  if LOSCFG_BASE_IPC_QUEUE_LIMIT ≤ index ∨ (st.allQueue index).queueID ≠ queueID then none else some index

def getMqueueCBByName (st : MqState) (name : Name) : Option Nat :=
  (List.range LOSCFG_BASE_IPC_QUEUE_LIMIT).find? fun index => (st.queueTable index).mqName = some name

def doMqueueDelete (st : MqState) (s : Nat) (inUse : Bool) : MqState × MqRet :=
  let q := st.queueTable s
  let st := st.setSlot s { q with mqName := none, mqcb := none, modeData := 0, euid := NO_ID, egid := NO_ID }
  match losQueueDelete st q.mqId inUse with
  | (st,.ok) => (st,⟨0,none⟩)
  | (st,.notFound) | (st,.notCreate) | (st,.inTskUse) => (st,⟨-1,some .EAGAIN⟩)

/-- MqueueCBInit, with the node that mq_personal was just set to. -/
def mqueueCBInit (st : MqState) (s a : Nat) (attr : MqAttr) (openFlag mode : Nat) : MqState :=
  let st := st.setSlot s { st.queueTable s with unlinkflag := false, unlinkRef := 0, mqPersonal := some a }
  st.setNode a (some ⟨s,none,openFlag ||| (attr.mqFlags &&& FNONBLOCK),mode,MQ_USE_MAGIC,0⟩)

/-- DoMqueueCreate, once the control block has its ID. The name is freed again on every error. -/
def mqueueCBSetup (st : MqState) (s : Nat) (attr : MqAttr) (mqName : Name) (args : OpenArgs) : MqState × Except Errno Nat :=
  let q := st.queueTable s
  if args.nameMem = false then (st.setSlot s { q with mqName := none },.error .ENOMEM)
  else match getMqueueCBByID st q.mqId with
    | none => (st.setSlot s { q with mqName := none, mqcb := none },.error .ENOSPC)
    | some mqcb => match args.personal with
      | none => ((losQueueDelete (st.setSlot s { q with mqName := none, mqcb := none, mqPersonal := none }) q.mqId false).1,.error .ENOSPC)
      | some a => (mqueueCBInit (st.setSlot s { q with mqName := some mqName, mqcb := some mqcb }) s a attr args.openFlag args.mode,.ok a)

def doMqueueCreate (st : MqState) (attr : MqAttr) (mqName : Name) (args : OpenArgs) : MqState × Except Errno Nat :=
  match losQueueCreate st attr.mqMaxmsg.toNat attr.mqMsgsize.toNat args.queueMem with
  | (st,.error e) => (st,.error e)
  | (st,.ok mqueueID) =>
    let s := getQueueIndex mqueueID
    if (st.queueTable s).mqcb ≠ none then (st,.error .EINVAL)
    -- mq_id is a field of 31 bits
    else mqueueCBSetup (st.setSlot s { st.queueTable s with mqId := mqueueID % 2^31 }) s attr mqName args

def doMqueueOpen (st : MqState) (s : Nat) (args : OpenArgs) : MqState × Except Errno Nat :=
  if (st.queueTable s).unlinkflag then (st,.error .EINVAL)
  else match args.personal with
    | none => (st,.error .ENOSPC)
    | some a =>
      -- mq_mode keeps what the memory held
      let st := st.setNode a (some ⟨s,(st.queueTable s).mqPersonal,args.openFlag,args.junk,MQ_USE_MAGIC,0⟩)
      (st.setSlot s { st.queueTable s with mqPersonal := some a },.ok a)

/-- The node is the last of a queue that was unlinked, by its place in the list. -/
def lastReference (st : MqState) (p : Mqpersonal) : Bool := (st.queueTable p.mqPosixdes).unlinkflag && p.mqNext.isNone

/-- The second half of DoMqueueClose: the node is taken from the list and freed. The walk needs no more steps than there are nodes,
one for each descriptor and the one that is being opened. -/
def mqpersonalRemove (st : MqState) (a : Nat) : MqState × MqRet :=
  let p := st.node a
  let q := st.queueTable p.mqPosixdes
  if q.mqPersonal = some a then ((st.setSlot p.mqPosixdes { q with mqPersonal := p.mqNext }).setNode a none,⟨0,none⟩)
  else match q.mqPersonal.bind (Chain.findPrev st.next a (MAX_MQ_FD + 1)) with
    | none => (st,⟨1,some .EBADF⟩)
    | some tmp => ((st.setNode tmp (some { st.node tmp with mqNext := p.mqNext })).setNode a none,⟨0,none⟩)

def doMqueueClose (st : MqState) (a : Nat) (inUse : Bool) : MqState × MqRet :=
  let p := st.node a
  if (st.queueTable p.mqPosixdes).mqPersonal = none then (st,⟨1,some .EBADF⟩)
  else if lastReference st p then
    match doMqueueDelete st p.mqPosixdes inUse with
    | (st,ret) => if ret.ret < 0 then (st,ret) else mqpersonalRemove st a
  else mqpersonalRemove st a

/-- The address in IPC_QUEUE_MQ_PRIV_BUF, or none where the descriptor is none of a message queue. -/
def mqGetPrivDataBuff (st : MqState) (personal : Int) : Option (Option Nat) :=
  let id := personal - MQUEUE_FD_OFFSET
  if id < 0 ∨ (MAX_MQ_FD : Int) ≤ id then none else some (st.mqPrivBuf id.toNat)

/-- The loop of MqAllocSysFd over the last n descriptors, from i on. -/
def allocSysFdLoop (st : MqState) (a : Nat) : Nat → Nat → MqState × Option Nat
  | 0, _ => (st,none)
  | n + 1, i =>
    if st.fdSet i then allocSysFdLoop st a n (i + 1)
    else
      let st := { st with fdSet := Function.update st.fdSet i true }
      if st.mqPrivBuf i = none then ({ st with mqPrivBuf := Function.update st.mqPrivBuf i (some a) },some i)
      else allocSysFdLoop st a n (i + 1)

def mqAllocSysFd (st : MqState) (maxfdp a : Nat) : MqState × Option Nat := allocSysFdLoop st a maxfdp 0

def mqFreeSysFd (st : MqState) (i : Nat) : MqState :=
  if st.fdSet i then
    { st with fdSet := Function.update st.fdSet i false, mqPrivBuf := Function.update st.mqPrivBuf i none }
  else st

def mqueueRefer (st : MqState) (sysFd : Int) : MqState :=
  match mqGetPrivDataBuff st sysFd with
  | some (some a) => st.setNode a (some { st.node a with mqRefcount := ((st.node a).mqRefcount + 1) % 2^32 })
  | _ => st

/-- MqTryClose: whether the descriptor can be closed; otherwise it has one reference less. -/
def mqTryClose (st : MqState) (a : Nat) : MqState × Bool :=
  let p := st.node a
  if p.mqRefcount = 0 then (st,true) else (st.setNode a (some { p with mqRefcount := p.mqRefcount - 1 }),false)

/-- The bits of usr, grp and oth all lie in data, at their own places. -/
def modeBits : List Nat := [S_IRUSR,S_IWUSR,S_IRGRP,S_IWGRP,S_IROTH,S_IWOTH]

/-- MqueueModeAnalysisSet, on the node that the queue was opened with, or -1. -/
def mqueueModeAnalysisSet (st : MqState) (user : User) : Except Errno Nat → MqState
  | .error _ => st
  | .ok a =>
    let s := (st.node a).mqPosixdes
    let q := st.queueTable s
    let mode := (st.node (q.mqPersonal.getD 0)).mqMode
    let modeData := modeBits.foldl (fun data bit => if mode &&& bit ≠ 0 then data ||| bit else data) q.modeData
    st.setSlot s { q with euid := user.effUserID, egid := user.effGid, modeData := modeData }

def getPermissionOfVisitor (st : MqState) (user : User) : Option Nat → Except Errno Nat
  | none => .error .ENOENT
  | some s =>
    let q := st.queueTable s
    if user.effUserID = 0 then .ok s
    else if user.effUserID = q.euid then
      if q.modeData &&& S_IRUSR ≠ 0 ∨ q.modeData &&& S_IWUSR ≠ 0 then .ok s else .error .EACCES
    else if user.effGid = q.egid then
      if q.modeData &&& S_IRGRP ≠ 0 ∨ q.modeData &&& S_IWGRP ≠ 0 then .ok s else .error .EACCES
    else
      if q.modeData &&& S_IROTH ≠ 0 ∨ q.modeData &&& S_IWOTH ≠ 0 then .ok s else .error .EACCES

def getMqueueAttr : AttrArg → Except Errno MqAttr
  | .null => .ok ⟨0,MQ_MAX_MSG_NUM,MQ_MAX_MSG_LEN⟩
  | .fault => .error .EFAULT
  | .given attr =>
    if attr.mqMaxmsg < 0 ∨ (0xFFFF : Int) < attr.mqMaxmsg ∨ attr.mqMsgsize < 0 ∨ (0xFFFF - 4 : Int) < attr.mqMsgsize then .error .EINVAL
    else .ok attr

/-- mq_open up to the node of the queue that is created or opened. -/
def mqOpenPersonal (st : MqState) (mqName : Name) (args : OpenArgs) : MqState × Except Errno Nat :=
  let mqueueCB := getMqueueCBByName st mqName
  if args.openFlag &&& O_CREAT ≠ 0 then
    match mqueueCB with
    | some s =>
      if args.openFlag &&& O_EXCL ≠ 0 then (st,.error .EEXIST)
      else
        let (st,personal) := doMqueueOpen st s args
        (mqueueModeAnalysisSet st args.user personal,personal)
    | none => match getMqueueAttr args.attr with
      | .error e => (st,.error e)
      | .ok attr =>
        let (st,personal) := doMqueueCreate st attr mqName args
        (mqueueModeAnalysisSet st args.user personal,personal)
  else match getPermissionOfVisitor st args.user mqueueCB with
    | .error e => (st,.error e)
    | .ok s => doMqueueOpen st s args

def mqOpen (st : MqState) (mqName : Option Name) (args : OpenArgs) : MqState × MqRet :=
  match mqNameCheck mqName with
  | some e => (st,⟨-1,some e⟩)
  | none => match mqOpenPersonal st (mqName.getD []) args with
    | (st,.error e) => (st,⟨-1,some e⟩)
    | (st,.ok a) => match mqAllocSysFd st MAX_MQ_FD a with
      | (st,some i) => (st,⟨i + MQUEUE_FD_OFFSET,none⟩)
      -- the queue is linked, so that DoMqueueClose deletes nothing
      | (st,none) => ((doMqueueClose st a false).1,⟨-1,some .ENFILE⟩)

def mqClose (st : MqState) (personal : Int) (inUse : Bool) : MqState × MqRet :=
  match mqGetPrivDataBuff st personal with
  | none => (st,⟨-1,some .EBADF⟩)
  | some none => (st,⟨-1,none⟩)
  | some (some a) =>
    if (st.node a).mqStatus ≠ MQ_USE_MAGIC then (st,⟨-1,some .EBADF⟩)
    else match mqTryClose st a with
      | (st,false) => (st,⟨0,none⟩)
      | (st,true) => match doMqueueClose st a inUse with
        | (st,ret) => if ret.ret < 0 then (st,ret) else (mqFreeSysFd st (personal - MQUEUE_FD_OFFSET).toNat,ret)

def mqUnlink (st : MqState) (mqName : Option Name) (inUse : Bool) : MqState × MqRet :=
  match mqNameCheck mqName with
  | some e => (st,⟨-1,some e⟩)
  | none => match getMqueueCBByName st (mqName.getD []) with
    | none => (st,⟨-1,some .ENOENT⟩)
    | some s =>
      let q := st.queueTable s
      if q.mqPersonal ≠ none then (st.setSlot s { q with unlinkflag := true },⟨0,none⟩)
      else if q.unlinkRef = 0 then doMqueueDelete st s inUse
      else (st,⟨0,none⟩)

end LiteOsKernel.Posix.Mqueue
