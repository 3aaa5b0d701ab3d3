import LiteOsKernel.Posix.Mqueue
import LiteOsKernel.Lib.Run

/-! The histories of the message queues under mq_open, MqueueRefer, mq_close and mq_unlink, by any processes: when a queue should exist,
and what its descriptors should refer to. -/
namespace LiteOsKernel.Posix.Mqueue

/-- A descriptor that is open: the number of its queue, and its references besides the first. -/
structure Desc where
  queue : Nat
  refs : Nat
  deriving DecidableEq

inductive Answer where
  | opened (queue : Nat)
  | created (queue : Nat)
  | failed (errno : Option Errno)
  deriving DecidableEq

/-- An mq_open: the queue that its name was linked to, what it asked for, and its answer. -/
structure Opened where
  linked : Option Nat
  creat : Bool
  excl : Bool
  attrValid : Bool
  answer : Answer

/-- The queues are numbered as they are created. born gives the last queue that was created at an index, linked and desc what the
calls that succeeded say is linked and open, and deletes the queue of every run of DoMqueueDelete. -/
structure MqHist where
  st : MqState
  created : Nat
  born : Nat → Nat
  linked : Name → Option Nat
  desc : Nat → Option Desc
  deletes : List Nat
  opens : List Opened

def startMq : MqState where
  allQueue i := ⟨i,false⟩
  freeQueueList := List.range LOSCFG_BASE_IPC_QUEUE_LIMIT
  queueTable _ := ⟨0,false,none,0,0,0,0,none,none⟩
  heap _ := none
  fdSet _ := false
  mqPrivBuf _ := none

def startHist : MqHist := ⟨startMq,0,fun _ => 0,fun _ => none,fun _ => none,[],[]⟩

inductive MqCall where
  | openQueue (mqName : Option Name) (args : OpenArgs)
  | refer (sysFd : Int)
  | close (personal : Int) (inUse : Bool)
  | unlink (mqName : Option Name) (inUse : Bool)

def AttrArg.valid : AttrArg → Bool
  | null => true
  | fault => false
  | given attr => 0 < attr.mqMaxmsg ∧ attr.mqMaxmsg ≤ 0xFFFF ∧ 0 < attr.mqMsgsize ∧ attr.mqMsgsize ≤ 0xFFFF - 4

namespace MqHist

/-- A queue was created at an index when its name is found there and was not before. -/
def link (x : MqHist) (name : Name) (before after : Option Nat) : MqHist :=
  match before, after with
  | none, some s =>
    { x with
      created := x.created + 1
      born := Function.update x.born s (x.created + 1)
      linked := Function.update x.linked name (some (x.created + 1)) }
  | _, _ => x

/-- What mq_open returns, on the queue that is found under the name after it. -/
def answer (x : MqHist) (before after : Option Nat) (ret : MqRet) : Answer :=
  match after with
  | none => .failed ret.errno
  | some s =>
    if ret.ret = -1 then .failed ret.errno
    else if before = none then .created (x.born s)
    else .opened (x.born s)

def openDesc (x : MqHist) (i : Nat) (answer : Answer) : MqHist :=
  match answer with
  | .opened q | .created q => { x with desc := Function.update x.desc i (some ⟨q,0⟩) }
  | .failed _ => x

/-- An mq_open with a name: the state after it, and what was found under the name before and after. -/
def openAt (x : MqHist) (name : Name) (args : OpenArgs) (st : MqState) (ret : MqRet) : MqHist :=
  let before := getMqueueCBByName x.st name
  let after := getMqueueCBByName st name
  let y := { x.link name before after with st := st }
  let answer := y.answer before after ret
  let opened : Opened := ⟨x.linked name,args.openFlag &&& O_CREAT ≠ 0,args.openFlag &&& O_EXCL ≠ 0,args.attr.valid,answer⟩
  { y.openDesc (ret.ret - MQUEUE_FD_OFFSET).toNat answer with opens := x.opens ++ [opened] }

/-- A descriptor with one reference less, or closed. -/
def closeDesc (x : MqHist) (i : Nat) : MqHist :=
  match x.desc i with
  | none => x
  | some d => { x with desc := Function.update x.desc i (if d.refs = 0 then none else some { d with refs := d.refs - 1 }) }

def referDesc (x : MqHist) (i : Nat) : MqHist :=
  match x.desc i with
  | none => x
  | some d => { x with desc := Function.update x.desc i (some { d with refs := d.refs + 1 }) }

def unlinkName (x : MqHist) (name : Name) : MqHist := { x with linked := Function.update x.linked name none }

/-- DoMqueueDelete runs on the queue at this index. -/
def logDelete (x : MqHist) : Option Nat → MqHist
  | none => x
  | some s => { x with deletes := x.deletes ++ [x.born s] }

end MqHist

/-- The index whose queue mq_close passes to DoMqueueDelete. -/
def closeDeletes (st : MqState) (personal : Int) : Option Nat :=
  match mqGetPrivDataBuff st personal with
  | none | some none => none
  | some (some a) =>
    let p := st.node a
    if p.mqStatus = MQ_USE_MAGIC ∧ p.mqRefcount = 0 ∧ (st.queueTable p.mqPosixdes).mqPersonal ≠ none ∧ lastReference st p = true then
      some p.mqPosixdes
    else none

/-- The index whose queue mq_unlink passes to DoMqueueDelete. -/
def unlinkDeletes (st : MqState) (name : Name) : Option Nat :=
  (getMqueueCBByName st name).filter fun s => (st.queueTable s).mqPersonal = none ∧ (st.queueTable s).unlinkRef = 0

namespace MqCall

def run (x : MqHist) : MqCall → MqHist
  | openQueue mqName args =>
    let (st,ret) := mqOpen x.st mqName args
    if mqNameCheck mqName = none then x.openAt (mqName.getD []) args st ret else { x with st := st }
  | refer sysFd =>
    let y := if sysFd < MQUEUE_FD_OFFSET then x else x.referDesc (sysFd - MQUEUE_FD_OFFSET).toNat
    { y with st := mqueueRefer x.st sysFd }
  | close personal inUse =>
    let (st,ret) := mqClose x.st personal inUse
    let y := if ret.ret = 0 then x.closeDesc (personal - MQUEUE_FD_OFFSET).toNat else x
    { y.logDelete (closeDeletes x.st personal) with st := st }
  | unlink mqName inUse =>
    let (st,ret) := mqUnlink x.st mqName inUse
    if mqNameCheck mqName = none then
      let name := mqName.getD []
      let y := if ret.ret = 0 then x.unlinkName name else x
      { y.logDelete (unlinkDeletes x.st name) with st := st }
    else { x with st := st }

/-- The memory for a node is free. -/
def Pre (x : MqHist) : MqCall → Prop
  | openQueue _ args => ∀ a, args.personal = some a → x.st.heap a = none
  | refer _ | close .. | unlink .. => True

/-- The condition. No name is opened that was unlinked and is still open. When LOS_QueueCreate has returned a queue there is memory for
its name, and its ID fits in mq_id. The reference counter does not wrap around. A descriptor of an unlinked queue that is at the end of
the list is closed last, and no task waits in a queue that is deleted. -/
def Ok (x : MqHist) : MqCall → Prop
  | openQueue mqName args => mqNameCheck mqName = none →
    (∀ s, getMqueueCBByName x.st (mqName.getD []) = some s → (x.st.queueTable s).unlinkflag = false) ∧
    (args.openFlag &&& O_CREAT ≠ 0 → getMqueueCBByName x.st (mqName.getD []) = none → ∀ attr, getMqueueAttr args.attr = .ok attr →
      ∀ st mqueueID, losQueueCreate x.st attr.mqMaxmsg.toNat attr.mqMsgsize.toNat args.queueMem = (st,.ok mqueueID) →
        args.nameMem = true ∧ mqueueID < 2^31)
  | refer sysFd => ∀ a, mqGetPrivDataBuff x.st sysFd = some (some a) → (x.st.node a).mqRefcount + 1 < 2^32
  | close personal inUse => ∀ a, mqGetPrivDataBuff x.st personal = some (some a) → (x.st.node a).mqRefcount = 0 →
    lastReference x.st (x.st.node a) = true → (x.st.queueTable (x.st.node a).mqPosixdes).mqPersonal = some a ∧ inUse = false
  | unlink mqName inUse => ∀ s, getMqueueCBByName x.st (mqName.getD []) = some s → (x.st.queueTable s).mqPersonal = none → inUse = false

end MqCall

@[reducible] def mqSystem : Run.System MqHist MqCall where
  init x := x = startHist
  pre x c := c.Pre x
  run x c := c.run x

namespace MqHist

/-- The kernel queue that was created with this number is in use. -/
def Exists (x : MqHist) (q : Nat) : Prop := ∃ s, (x.st.allQueue s).inUsed = true ∧ x.born s = q

def Linked (x : MqHist) (q : Nat) : Prop := ∃ name, x.linked name = some q

def Open (x : MqHist) (q : Nat) : Prop := ∃ i d, x.desc i = some d ∧ d.queue = q

end MqHist

/-- mq_open answers as if a queue that was unlinked were gone. -/
def Opened.AsIfGone (r : Opened) : Prop :=
  match r.answer with
  | .opened q => r.linked = some q ∧ (r.creat = true → r.excl = false)
  | .created _ => r.linked = none ∧ r.creat = true
  | .failed e =>
    (e = some .ENOENT ↔ r.linked = none ∧ r.creat = false) ∧
    (e = some .EEXIST ↔ r.linked ≠ none ∧ r.creat = true ∧ r.excl = true) ∧
    (e = some .EINVAL → r.linked = none ∧ r.creat = true ∧ r.attrValid = false)

/-- The nodes in the list of a queue are those of its descriptors. -/
def MqState.Lists (st : MqState) (s : Nat) : Prop :=
  ∃ l, Chain.Chained st.next (st.queueTable s).mqPersonal l ∧ l.Nodup ∧
    ∀ a, a ∈ l ↔ ∃ i, st.mqPrivBuf i = some a ∧ (st.node a).mqPosixdes = s

structure MqLaw (x : MqHist) : Prop where
  lifetime : ∀ q, x.Exists q ↔ x.Linked q ∨ x.Open q
  once : ∀ q, 0 < q → q ≤ x.created → (x.Exists q → x.deletes.count q = 0) ∧ (¬ x.Exists q → x.deletes.count q = 1)
  control : ∀ s, (x.st.queueTable s).mqcb ≠ none ↔ (x.st.allQueue s).inUsed = true
  refers : ∀ i d, x.desc i = some d → ∃ a p, x.st.mqPrivBuf i = some a ∧ x.st.heap a = some p ∧
    (x.st.allQueue p.mqPosixdes).inUsed = true ∧ d = ⟨x.born p.mqPosixdes,p.mqRefcount⟩
  sets : ∀ i, (x.st.fdSet i = true ↔ x.desc i ≠ none) ∧ (x.st.mqPrivBuf i ≠ none ↔ x.desc i ≠ none)
  lists : ∀ s, x.st.Lists s
  distinct : ∀ i j a, x.st.mqPrivBuf i = some a → x.st.mqPrivBuf j = some a → i = j
  opens : ∀ r ∈ x.opens, r.AsIfGone

/-- The kernel queues and the control blocks. -/
structure PoolInv (st : MqState) : Prop where
  nodup : st.freeQueueList.Nodup
  free : ∀ i ∈ st.freeQueueList, i < LOSCFG_BASE_IPC_QUEUE_LIMIT ∧ (st.allQueue i).inUsed = false
  index : ∀ i, i < LOSCFG_BASE_IPC_QUEUE_LIMIT → getQueueIndex (st.allQueue i).queueID = i
  used : ∀ s, (st.allQueue s).inUsed = true → s < LOSCFG_BASE_IPC_QUEUE_LIMIT ∧ (st.queueTable s).mqcb ≠ none ∧
    (st.queueTable s).mqId = (st.allQueue s).queueID ∧ (st.queueTable s).unlinkRef = 0
  unused : ∀ s, (st.allQueue s).inUsed = false → (st.queueTable s).mqcb = none ∧ (st.queueTable s).mqName = none ∧
    (st.queueTable s).mqPersonal = none

/-- The queues in use, their names, and those that were deleted. -/
structure LifeInv (x : MqHist) : Prop where
  name : ∀ s, (x.st.allQueue s).inUsed = true → (x.st.queueTable s).unlinkflag = false →
    ∃ n, (x.st.queueTable s).mqName = some n ∧ x.linked n = some (x.born s)
  unlinked : ∀ s, (x.st.allQueue s).inUsed = true → (x.st.queueTable s).unlinkflag = true → (x.st.queueTable s).mqPersonal ≠ none
  linked : ∀ n q, x.linked n = some q → ∃ s, (x.st.allQueue s).inUsed = true ∧ (x.st.queueTable s).unlinkflag = false ∧
    (x.st.queueTable s).mqName = some n ∧ x.born s = q
  unique : ∀ s t n, (x.st.queueTable s).mqName = some n → (x.st.queueTable t).mqName = some n → s = t
  born : ∀ s, (x.st.allQueue s).inUsed = true → 0 < x.born s ∧ x.born s ≤ x.created
  inj : ∀ s t, (x.st.allQueue s).inUsed = true → (x.st.allQueue t).inUsed = true → x.born s = x.born t → s = t
  nodup : x.deletes.Nodup
  gone : ∀ q ∈ x.deletes, q ≤ x.created ∧ ¬ x.Exists q
  remains : ∀ q, 0 < q → q ≤ x.created → q ∉ x.deletes → x.Exists q

/-- The three tables of descriptors. -/
structure DescInv (x : MqHist) : Prop where
  lists : ∀ s, x.st.Lists s
  desc : ∀ i a, x.st.mqPrivBuf i = some a → ∃ p, x.st.heap a = some p ∧ p.mqStatus = MQ_USE_MAGIC ∧ i < MAX_MQ_FD ∧
    x.st.fdSet i = true ∧ x.desc i = some ⟨x.born p.mqPosixdes,p.mqRefcount⟩
  closed : ∀ i, x.st.mqPrivBuf i = none → x.st.fdSet i = false ∧ x.desc i = none
  distinct : ∀ i j a, x.st.mqPrivBuf i = some a → x.st.mqPrivBuf j = some a → i = j

structure MqInv (x : MqHist) : Prop where
  pool : PoolInv x.st
  life : LifeInv x
  descs : DescInv x
  opens : ∀ r ∈ x.opens, r.AsIfGone

end LiteOsKernel.Posix.Mqueue
