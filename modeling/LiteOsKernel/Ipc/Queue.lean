import LiteOsKernel.Ipc.Wait
import LiteOsKernel.Lib.Ring

/-! A message queue, after los_queue.c: the circular buffer, the two counters and the tasks that wait for a message or for room. -/
namespace LiteOsKernel.Ipc.Queue

def OS_NULL_SHORT : Nat := 0xFFFF
def LOS_NO_WAIT : Nat := 0
def QUEUE_SPLIT_BIT : Nat := 16

/-- LOS_OK and the codes LOS_ERRNO_QUEUE_xxx. -/
inductive QueueRet where
  | ok
  | sizeTooBig
  | paraIsZero
  | createNoMemory
  | readPtrNull
  | readSizeIsInvalid
  | readInInterrupt
  | writePtrNull
  | writeSizeIsZero
  | writeInInterrupt
  | notCreate
  | writeSizeTooBig
  | isEmpty
  | isFull
  | pendInLock
  | timeout
  | inTskUse
  | inTskWrite
  deriving DecidableEq

/-- A node of the buffer: its bytes in front of the size, and the size in its last four bytes. -/
structure QueueNode where
  data : List UInt8
  msgDataSize : Nat
  deriving Inhabited

/-- OS_QUEUE_READ_HEAD, OS_QUEUE_WRITE_HEAD and OS_QUEUE_WRITE_TAIL, with the size of the reader's buffer or the bytes to write. -/
inductive Operate where
  | readHead (bufferSize : Nat)
  | writeHead (buffer : List UInt8)
  | writeTail (buffer : List UInt8)
  deriving DecidableEq

def Operate.isRead : Operate → Bool
  | readHead _ => true
  | writeHead _ | writeTail _ => false

/-- A task in readWriteList, with the operation it is in. -/
structure QueueWaiter extends Waiter where
  operate : Operate
  deriving DecidableEq

/-- readCnt and writeCnt are readWriteableCnt, readList and writeList are readWriteList. memList is always empty and left out. -/
structure LosQueueCB where
  queueHandle : Nat → QueueNode
  queueState : Bool
  queueLen : Nat
  queueSize : Nat
  queueID : Nat
  queueHead : Nat
  queueTail : Nat
  readCnt : Nat
  writeCnt : Nat
  readList : List QueueWaiter
  writeList : List QueueWaiter

/-- A task that left readWriteList and has not run since, with its OS_TASK_STATUS_TIMEOUT. -/
structure Resumed where
  task : Nat
  operate : Operate
  timeout : Bool
  deriving DecidableEq

/-- A control block, and the tasks that are about to run again. -/
structure QueueState where
  queueCB : LosQueueCB
  resumed : List Resumed

/-- LOS_QueueCreate on this control block; queue is the memory that LOS_MemAlloc returns. -/
def losQueueCreate (s : QueueState) (len maxMsgSize : Nat) (queue : Option (Nat → QueueNode)) : QueueState × QueueRet :=
  if OS_NULL_SHORT - 4 < maxMsgSize then (s,.sizeTooBig)
  else if len = 0 ∨ maxMsgSize = 0 then (s,.paraIsZero)
  else match queue with
    | none => (s,.createNoMemory)
    | some queue =>
      let queueCB := { s.queueCB with
        queueLen := len
        queueHandle := queue
        queueSize := maxMsgSize + 4
        readCnt := 0
        writeCnt := len
        queueState := true
        queueHead := 0
        queueTail := 0
        readList := []
        writeList := [] }
      ({ s with queueCB := queueCB },.ok)

/-- The message is copied over the first bytes of the node, and its size to the end. -/
def storeMessage (queueCB : LosQueueCB) (queuePosition : Nat) (buffer : List UInt8) : LosQueueCB :=
  let queueNode := ⟨buffer ++ (queueCB.queueHandle queuePosition).data.drop buffer.length,buffer.length⟩
  { queueCB with queueHandle := Function.update queueCB.queueHandle queuePosition queueNode }

/-- The control block, and what a reader gets. -/
def osQueueBufferOperate (queueCB : LosQueueCB) : Operate → LosQueueCB × List UInt8
  | .readHead bufferSize =>
    let queuePosition := queueCB.queueHead
    let queueNode := queueCB.queueHandle queuePosition
    let msgDataSize := if bufferSize < queueNode.msgDataSize then bufferSize else queueNode.msgDataSize
    ({ queueCB with queueHead := Ring.next queueCB.queueLen queueCB.queueHead },queueNode.data.take msgDataSize)
  | .writeHead buffer =>
    let queueCB := { queueCB with queueHead := Ring.pred queueCB.queueLen queueCB.queueHead }
    (storeMessage queueCB queueCB.queueHead buffer,[])
  | .writeTail buffer =>
    let queuePosition := queueCB.queueTail
    (storeMessage { queueCB with queueTail := Ring.next queueCB.queueLen queueCB.queueTail } queuePosition buffer,[])

def osQueueOperateParamCheck (queueCB : LosQueueCB) (queueID : Nat) (operate : Operate) : QueueRet :=
  if queueCB.queueID ≠ queueID ∨ queueCB.queueState = false then .notCreate
  else match operate with
    | .readHead _ => .ok
    | .writeHead buffer | .writeTail buffer => if queueCB.queueSize - 4 < buffer.length then .writeSizeTooBig else .ok

/-- The second half of OsQueueOperate: the copy, and then the wake-up of a task that waits for the other operation, which gets
the message or the room without its being counted. -/
def osQueueOperateEnd (s : QueueState) (operate : Operate) : QueueState × List UInt8 :=
  let (queueCB,bytes) := osQueueBufferOperate s.queueCB operate
  match operate.isRead, queueCB.readList, queueCB.writeList with
  | true, _, resumedTask :: rest =>
    (⟨{ queueCB with writeList := rest },s.resumed ++ [⟨resumedTask.task,resumedTask.operate,false⟩]⟩,bytes)
  | true, _, [] => (⟨{ queueCB with writeCnt := queueCB.writeCnt + 1 },s.resumed⟩,bytes)
  | false, resumedTask :: rest, _ =>
    (⟨{ queueCB with readList := rest },s.resumed ++ [⟨resumedTask.task,resumedTask.operate,false⟩]⟩,bytes)
  | false, [], _ => (⟨{ queueCB with readCnt := queueCB.readCnt + 1 },s.resumed⟩,bytes)

/-- none: the task waits, in ops->wait. -/
def osQueueOperate (s : QueueState) (preemptable : Bool) (task queueID : Nat) (operate : Operate) (timeout : Nat) :
    QueueState × Option (QueueRet × List UInt8) :=
  let ret := osQueueOperateParamCheck s.queueCB queueID operate
  let count := if operate.isRead then s.queueCB.readCnt else s.queueCB.writeCnt
  if ret ≠ .ok then (s,some (ret,[]))
  else if count = 0 then
    if timeout = LOS_NO_WAIT then (s,some (if operate.isRead then .isEmpty else .isFull,[]))
    else if preemptable = false then (s,some (.pendInLock,[]))
    else
      let w : QueueWaiter := ⟨⟨task,timeout⟩,operate⟩
      let q := s.queueCB
      ({ s with queueCB := if operate.isRead then { q with readList := q.readList ++ [w] }
          else { q with writeList := q.writeList ++ [w] } },none)
  else
    let q := s.queueCB
    let queueCB := if operate.isRead then { q with readCnt := count - 1 } else { q with writeCnt := count - 1 }
    let (s,bytes) := osQueueOperateEnd { s with queueCB := queueCB } operate
    (s,some (.ok,bytes))

/-- bufferAddr says that the buffer is not NULL. -/
def losQueueReadCopy (s : QueueState) (ctx : PendContext) (task queueID : Nat) (bufferAddr : Bool) (bufferSize timeout : Nat) :
    QueueState × Option (QueueRet × List UInt8) :=
  if bufferAddr = false then (s,some (.readPtrNull,[]))
  else if bufferSize = 0 ∨ OS_NULL_SHORT - 4 < bufferSize then (s,some (.readSizeIsInvalid,[]))
  else if timeout ≠ LOS_NO_WAIT ∧ ctx.intActive then (s,some (.readInInterrupt,[]))
  else osQueueOperate s ctx.preemptable task queueID (.readHead bufferSize) timeout

/-- The write calls: bufferAddr holds the bytes of the buffer, or none where it is NULL. -/
def queueWrite (mk : List UInt8 → Operate) (s : QueueState) (ctx : PendContext) (task queueID : Nat) (bufferAddr : Option (List UInt8))
    (timeout : Nat) : QueueState × Option (QueueRet × List UInt8) :=
  match bufferAddr with
  | none => (s,some (.writePtrNull,[]))
  | some buffer =>
    if buffer.length = 0 then (s,some (.writeSizeIsZero,[]))
    else if timeout ≠ LOS_NO_WAIT ∧ ctx.intActive then (s,some (.writeInInterrupt,[]))
    else osQueueOperate s ctx.preemptable task queueID (mk buffer) timeout

def losQueueWriteHeadCopy := queueWrite .writeHead

def losQueueWriteCopy := queueWrite .writeTail

def losQueueDelete (s : QueueState) (queueID : Nat) : QueueState × QueueRet :=
  let q := s.queueCB
  if q.queueID ≠ queueID ∨ q.queueState = false then (s,.notCreate)
  else if q.readList ≠ [] then (s,.inTskUse)
  else if q.writeList ≠ [] then (s,.inTskUse)
  else if q.writeCnt + q.readCnt ≠ q.queueLen then (s,.inTskWrite)
  else
    let queueID := (((q.queueID >>> QUEUE_SPLIT_BIT) + 1) <<< QUEUE_SPLIT_BIT) % 2^32 ||| (q.queueID &&& (1 <<< QUEUE_SPLIT_BIT) - 1)
    ({ s with queueCB := { q with queueState := false, queueID := queueID } },.ok)

/-- SchedTimeoutTaskWake for a task that waits on the queue. -/
def queueTimeout (s : QueueState) (w : QueueWaiter) (ops : SchedOps) : QueueState :=
  let q := s.queueCB
  { queueCB := if w.operate.isRead then { q with readList := q.readList.erase w } else { q with writeList := q.writeList.erase w }
    resumed := s.resumed ++ [⟨w.task,w.operate,ops.timeoutBit⟩] }

/-- A resumed task runs: OsQueueOperate ends with the timeout, or does its copy. -/
def queueReturn (s : QueueState) (r : Resumed) : QueueState × QueueRet × List UInt8 :=
  let s := { s with resumed := s.resumed.erase r }
  if r.timeout then (s,.timeout,[])
  else
    let (s,bytes) := osQueueOperateEnd s r.operate
    (s,.ok,bytes)

end LiteOsKernel.Ipc.Queue
