import LiteOsKernel.Common
import LiteOsKernel.Lib.Ring

/-! The hilog driver, after los_hilog.c: a ring buffer of bytes with records of a header and a message, and the copies from and to
the callers' buffers, which may fault. The field count of the device is never read and is left out, as are the printed lines. -/
namespace LiteOsKernel.Log

def EAGAIN : Int := 11
def ENOMEM : Int := 12
def EINVAL : Int := 22
def ENODATA : Int := 61
def ERANGE : Int := 34
def ERANGE_AND_RESET : Int := 162

/-- LOSCFG_HILOG_BUFFER_SIZE, an int of the configuration. -/
structure Config where
  HILOG_BUFFER : Nat
  pos : 0 < HILOG_BUFFER
  lt : HILOG_BUFFER < 2^31

/-- sizeof(struct HiLogEntry). -/
def HILOG_ENTRY_SIZE : Nat := 24

/-- What HiLogHeadInit writes into a header besides the length of the message; reserved is what the stack held. -/
structure HiLogEntry where
  pid : Nat
  taskId : Nat
  sec : Nat
  nsec : Nat
  reserved : Nat

def le16 (n : Nat) : List UInt8 := [UInt8.ofNat n,UInt8.ofNat (n / 2^8)]

def le32 (n : Nat) : List UInt8 := [UInt8.ofNat n,UInt8.ofNat (n / 2^8),UInt8.ofNat (n / 2^16),UInt8.ofNat (n / 2^24)]

/-- The bytes of the header of a message of len bytes. -/
def hiLogHeadInit (e : HiLogEntry) (len : Nat) : List UInt8 :=
  le32 len ++ le32 HILOG_ENTRY_SIZE ++ le16 e.pid ++ le16 e.taskId ++ le32 e.sec ++ le32 e.nsec ++ le32 e.reserved

/-- header.len. -/
def headerLen (header : List UInt8) : Nat :=
  (header.getD 0 0).toNat + (header.getD 1 0).toNat * 2^8 + (header.getD 2 0).toNat * 2^16 + (header.getD 3 0).toNat * 2^24

/-- g_hiLogDev. -/
structure HiLogCharDevice where
  buffer : Nat → UInt8
  writeOffset : Nat
  headOffset : Nat
  size : Nat

/-- memcpy_s: its result, and the bytes that it puts at the start of the destination. -/
def memcpyS (dstLen : Nat) (src : List UInt8) : Int × List UInt8 :=
  if dstLen = 0 then (ERANGE,[])
  else if dstLen < src.length then (ERANGE_AND_RESET,List.replicate dstLen 0)
  else (0,src)

/-- user says that one side is a user address range, which an empty range never is; left is the number of bytes that
LOS_ArchCopyToUser or LOS_ArchCopyFromUser does not copy because of a fault, and which it returns. -/
def hiLogBufferCopy (user : Bool) (left dstLen : Nat) (src : List UInt8) : Int × List UInt8 :=
  let minLen := if src.length < dstLen then src.length else dstLen
  if user ∧ 0 < minLen then (left,src.take (minLen - left)) else memcpyS dstLen src

section
variable (cfg : Config)

def hiLogBufferInc (d : HiLogCharDevice) (sz : Nat) : HiLogCharDevice :=
  if Word.add d.size sz ≤ cfg.HILOG_BUFFER then
    { d with size := Word.add d.size sz, writeOffset := Word.add d.writeOffset sz % cfg.HILOG_BUFFER }
  else d

def hiLogBufferDec (d : HiLogCharDevice) (sz : Nat) : HiLogCharDevice :=
  if sz ≤ d.size then { d with size := d.size - sz, headOffset := Word.add d.headOffset sz % cfg.HILOG_BUFFER } else d

/-- The result, and the destination after the copy to its place off. -/
def hiLogReadRingBuffer (d : HiLogCharDevice) (user : Bool) (left left' : Nat) (buffer : Nat → UInt8) (off bufLen : Nat) :
    Int × (Nat → UInt8) :=
  let bufLeft := cfg.HILOG_BUFFER - d.headOffset
  if bufLen < bufLeft then
    let (retval,bytes) := hiLogBufferCopy user left bufLen (Ring.cells d.buffer d.headOffset bufLen)
    (retval,Ring.put buffer off bytes)
  else
    let (retval,bytes) := hiLogBufferCopy user left bufLen (Ring.cells d.buffer d.headOffset bufLeft)
    let buffer := Ring.put buffer off bytes
    if retval < 0 then (retval,buffer)
    else
      let (retval,bytes) := hiLogBufferCopy user left' (bufLen - bufLeft) (Ring.cells d.buffer 0 (bufLen - bufLeft))
      (retval,Ring.put buffer (off + bufLeft) bytes)

/-- The header at the head of the ring buffer, as it is read into a variable on the stack. -/
def readHeader (d : HiLogCharDevice) : Int × List UInt8 :=
  let (retval,header) := hiLogReadRingBuffer cfg d false 0 0 (fun _ => 0) 0 HILOG_ENTRY_SIZE
  (retval,Ring.cells header 0 HILOG_ENTRY_SIZE)

/-- An int that holds an unsigned word. -/
def toInt (x : Nat) : Int := if x < 2^31 then x else x - 2^32

/-- The faults of the copies of one HiLogRead: that of the header, and the two pieces of the message. -/
structure ReadFaults where
  header : Nat
  first : Nat
  second : Nat

/-- The end of HiLogRead. -/
def hiLogReadOut (d : HiLogCharDevice) (retval : Int) (buffer : Nat → UInt8) : HiLogCharDevice × Int × (Nat → UInt8) :=
  (if retval = -ENOMEM then { d with writeOffset := 0, headOffset := 0, size := 0 } else d,retval,buffer)

/-- HiLogRead under the mutex; the last component is the caller's buffer. -/
def hiLogRead (d : HiLogCharDevice) (user : Bool) (left : ReadFaults) (buffer : Nat → UInt8) (bufLen : Nat) :
    HiLogCharDevice × Int × (Nat → UInt8) :=
  let (retval,header) := readHeader cfg d
  let len := headerLen header
  if retval < 0 then hiLogReadOut d (-EINVAL) buffer
  else if bufLen < Word.add len HILOG_ENTRY_SIZE then hiLogReadOut d (-ENOMEM) buffer
  else
    let d := hiLogBufferDec cfg d HILOG_ENTRY_SIZE
    let (retval,bytes) := hiLogBufferCopy user left.header bufLen header
    let buffer := Ring.put buffer 0 bytes
    if retval < 0 then hiLogReadOut d (-EINVAL) buffer
    else
      let (retval,buffer) := hiLogReadRingBuffer cfg d user left.first left.second buffer HILOG_ENTRY_SIZE len
      if retval < 0 then hiLogReadOut d (-EINVAL) buffer
      else hiLogReadOut (hiLogBufferDec cfg d len) (toInt (Word.add len HILOG_ENTRY_SIZE)) buffer

/-- true: the result is 0, false: it is -1. -/
def hiLogWriteRingBuffer (d : HiLogCharDevice) (user : Bool) (left left' : Nat) (buffer : List UInt8) : HiLogCharDevice × Bool :=
  let bufLeft := cfg.HILOG_BUFFER - d.writeOffset
  if bufLeft < buffer.length then
    let (retval,bytes) := hiLogBufferCopy user left bufLeft (buffer.take bufLeft)
    let d := { d with buffer := Ring.put d.buffer d.writeOffset bytes }
    if retval ≠ 0 then (d,false)
    else
      let (retval,bytes) := hiLogBufferCopy user left' cfg.HILOG_BUFFER (buffer.drop bufLeft)
      ({ d with buffer := Ring.put d.buffer 0 bytes },decide (0 ≤ retval))
  else
    let (retval,bytes) := hiLogBufferCopy user left bufLeft buffer
    ({ d with buffer := Ring.put d.buffer d.writeOffset bytes },decide (0 ≤ retval))

/-- The loop of HiLogCoverOldLog. A round that does not make size smaller leaves the device as it is, so that size + 1 rounds
are enough or the loop never ends: none. -/
def hiLogCoverLoop (totalSize : Nat) : Nat → HiLogCharDevice → Option HiLogCharDevice
  | 0, _ => none
  | fuel + 1, d =>
    if Word.add totalSize d.size ≤ cfg.HILOG_BUFFER then some d
    else
      let (retval,header) := readHeader cfg d
      if retval < 0 then some d
      else hiLogCoverLoop totalSize fuel (hiLogBufferDec cfg (hiLogBufferDec cfg d HILOG_ENTRY_SIZE) (headerLen header))

def hiLogCoverOldLog (d : HiLogCharDevice) (bufLen : Nat) : Option HiLogCharDevice :=
  hiLogCoverLoop cfg (Word.add bufLen HILOG_ENTRY_SIZE) (d.size + 1) d

/-- printOnly: there is no buffer, or the caller is an interrupt or a system task. none: the call does not return. -/
def hiLogWriteInternal (d : HiLogCharDevice) (printOnly : Bool) (e : HiLogEntry) (user : Bool) (left left' : Nat)
    (buffer : List UInt8) : Option (HiLogCharDevice × Int) :=
  if printOnly then some (d,-EAGAIN)
  else match hiLogCoverOldLog cfg d buffer.length with
    | none => none
    | some d =>
      match hiLogWriteRingBuffer cfg d false 0 0 (hiLogHeadInit e buffer.length) with
      | (d,false) => some (d,-ENODATA)
      | (d,true) =>
        let d := hiLogBufferInc cfg d HILOG_ENTRY_SIZE
        match hiLogWriteRingBuffer cfg d user left left' buffer with
        | (d,false) => some (d,-ENODATA)
        | (d,true) => some (hiLogBufferInc cfg d buffer.length,toInt buffer.length)

def hiLogWrite (d : HiLogCharDevice) (printOnly : Bool) (e : HiLogEntry) (user : Bool) (left left' : Nat) (buffer : List UInt8) :
    Option (HiLogCharDevice × Int) :=
  let totalBufLen := Word.add buffer.length HILOG_ENTRY_SIZE
  if totalBufLen < buffer.length ∨ cfg.HILOG_BUFFER < totalBufLen then some (d,-ENOMEM)
  else hiLogWriteInternal cfg d printOnly e user left left' buffer

/-- HiLogDeviceInit; buffer is the memory that LOS_MemAlloc returns. -/
def hiLogDeviceInit (buffer : Nat → UInt8) : HiLogCharDevice := ⟨buffer,0,0,0⟩

end

end LiteOsKernel.Log
