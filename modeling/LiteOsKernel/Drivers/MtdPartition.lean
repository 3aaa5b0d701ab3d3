import LiteOsKernel.Common

/-! The partition tables of mtd_partition.c. The device list and the block and character drivers are other code: what they and the
memory allocations answer is an input of each call. -/
namespace LiteOsKernel.Drivers

def ENOERR : Int := 0
def ENOMEM : Int := 12
def EBUSY : Int := 16
def ENODEV : Int := 19
def EINVAL : Int := 22
def ENAMETOOLONG : Int := 36
def DRIVER_NAME_ADD_SIZE : Nat := 3
def CONFIG_MTD_PATTITION_NUM : Nat := 20

inductive FlashType where
  | nand
  | spinor
  deriving DecidableEq

structure MtdDev where
  size : Nat
  eraseSize : Nat

/-- The device of each type, and the names NANDBLK_NAME, NANDCHR_NAME, SPIBLK_NAME and SPICHR_NAME, any of which may be NULL. -/
structure MtdConfig where
  mtd : FlashType → MtdDev
  blkName : FlashType → Option (List Char)
  chrName : FlashType → Option (List Char)

structure MtdPartition where
  startBlock : Nat
  endBlock : Nat
  patitionnum : Nat
  blockdriverName : Option (List Char)
  chardriverName : Option (List Char)
  mountpointName : Option (List Char)
  deriving DecidableEq

/-- The list that hangs at partition_head; none once the head has been freed. -/
structure PartitionParam where
  partitionHead : Option (List MtdPartition)
  flashMtd : MtdDev
  blockname : Option (List Char)
  charname : Option (List Char)
  blockSize : Nat

/-- g_nandPartParam, g_spinorPartParam, and the names that are registered. -/
structure MtdState where
  nandPartParam : Option PartitionParam
  spinorPartParam : Option PartitionParam
  blockDrivers : List (List Char)
  charDrivers : List (List Char)

def MtdState.param (s : MtdState) : FlashType → Option PartitionParam
  | .nand => s.nandPartParam
  | .spinor => s.spinorPartParam

def MtdState.setParam (s : MtdState) (p : Option PartitionParam) : FlashType → MtdState
  | .nand => { s with nandPartParam := p }
  | .spinor => { s with spinorPartParam := p }

/-- What GetMtd, Jffs2LockInit and the two allocations for a new table answer. -/
structure InitAnswers where
  mtd : Bool
  lock : Bool
  param : Bool
  head : Bool

/-- What an allocation of a driver's name and the registration under it answer. -/
structure RegisterAnswers where
  malloc : Bool
  ret : Int

structure AddAnswers where
  init : InitAnswers
  node : Bool
  block : RegisterAnswers
  char : RegisterAnswers
  rollback : Int

/-- What unregister_blockdriver and unregister_driver answer. -/
structure DeleteAnswers where
  block : Int
  char : Int

def mtdParamAssign (cfg : MtdConfig) (type : FlashType) : PartitionParam where
  partitionHead := some []
  flashMtd := cfg.mtd type
  blockname := cfg.blkName type
  charname := cfg.chrName type
  blockSize := (cfg.mtd type).eraseSize

def mtdInitParam (cfg : MtdConfig) (type : FlashType) (lock : Bool) (a : InitAnswers) (param : Option PartitionParam) :
    Option PartitionParam :=
  if a.mtd then
    match param with
    | some p => some p
    | none => if lock && a.param && a.head then some (mtdParamAssign cfg type) else none
  else none

def mtdInitNandParam (cfg : MtdConfig) (a : InitAnswers) (nandParam : Option PartitionParam) : Option PartitionParam :=
  mtdInitParam cfg .nand true a nandParam

def mtdInitSpinorParam (cfg : MtdConfig) (a : InitAnswers) (spinorParam : Option PartitionParam) : Option PartitionParam :=
  mtdInitParam cfg .spinor a.lock a spinorParam

/-- The comparisons of the type's name. -/
def flashType (type : String) : Option FlashType :=
  if type = "nand" then some .nand
  else if type = "spinor" ∨ type = "cfi-flash" then some .spinor
  else none

/-- The table of a type is set, to NULL when it cannot be had. -/
def mtdInitFsparParam (cfg : MtdConfig) (s : MtdState) (type : String) (a : InitAnswers) : Int × MtdState × Option PartitionParam :=
  match flashType type with
  | none => (-EINVAL,s,none)
  | some f =>
    let p := match f with
      | .nand => mtdInitNandParam cfg a s.nandPartParam
      | .spinor => mtdInitSpinorParam cfg a s.spinorPartParam
    (if p.isNone then -ENODEV else ENOERR,s.setParam p f,p)

def mtdDeinitFsparParam (s : MtdState) (type : String) : Int × MtdState :=
  match flashType type with
  | none => (-EINVAL,s)
  | some f => (ENOERR,s.setParam none f)

/-- startBlk of ALIGN_ASSIGN. -/
def alignStartBlk (startAddr blkSize : Nat) : Nat := (startAddr &&& Word.not (Word.sub blkSize 1))/blkSize

/-- endBlk of ALIGN_ASSIGN. -/
def alignEndBlk (len startAddr blkSize : Nat) : Nat :=
  Word.add (roundup len blkSize/blkSize) (Word.sub (alignStartBlk startAddr blkSize) 1)

/-- The walk of AddParamCheck over the partitions. -/
def addListCheck (startBlk endBlk partitionNum : Nat) : List MtdPartition → Int
  | [] => ENOERR
  | node :: nodes =>
    if node.startBlock ≠ 0 ∧ node.patitionnum = partitionNum then -EINVAL
    else if startBlk > node.endBlock ∨ endBlk < node.startBlock then addListCheck startBlk endBlk partitionNum nodes
    else -EINVAL

/-- None where the walk starts from a head that has been freed. -/
def addParamCheck (startAddr : Nat) (param : PartitionParam) (partitionNum length : Nat) : Option Int :=
  if param.blockname = none ∧ param.charname = none then some (-EINVAL)
  else if length = 0 ∨ length < param.blockSize ∨ startAddr + length > param.flashMtd.size then some (-EINVAL)
  else
    let startBlk := alignStartBlk startAddr param.blockSize
    let endBlk := alignEndBlk length startAddr param.blockSize
    if startBlk > endBlk then some (-EINVAL)
    else param.partitionHead.map (addListCheck startBlk endBlk partitionNum)

/-- PAR_ASSIGNMENT on a node that zalloc has cleared. -/
def parAssignment (len startAddr num blkSize : Nat) : MtdPartition where
  startBlock := startAddr/blkSize
  endBlock := Word.add (len/blkSize) (Word.sub (startAddr/blkSize) 1)
  patitionnum := num
  blockdriverName := none
  chardriverName := none
  mountpointName := none

/-- The name is the base name and the number, printed into DRIVER_NAME_ADD_SIZE bytes more than the base name has. -/
def driverName (base : List Char) (partitionNum : Nat) : Option (List Char) :=
  let name := base ++ Nat.toDigits 10 partitionNum
  if name.length ≤ base.length + DRIVER_NAME_ADD_SIZE - 1 then some name else none

def driverRegisterOperate (base : Option (List Char)) (partitionNum : Nat) (a : RegisterAnswers) (drivers : List (List Char)) :
    Int × Option (List Char) × List (List Char) :=
  match base with
  | none => (ENOERR,none,drivers)
  | some base =>
    if a.malloc then
      match driverName base partitionNum with
      | none => (-ENAMETOOLONG,none,drivers)
      | some name => if a.ret ≠ 0 then (a.ret,none,drivers) else (ENOERR,some name,name :: drivers)
    else (-ENOMEM,none,drivers)

def blockDriverRegisterOperate (s : MtdState) (newNode : MtdPartition) (param : PartitionParam) (partitionNum : Nat)
    (a : RegisterAnswers) : Int × MtdState × MtdPartition :=
  let (ret,name,drivers) := driverRegisterOperate param.blockname partitionNum a s.blockDrivers
  (ret,{ s with blockDrivers := drivers },{ newNode with blockdriverName := name })

def charDriverRegisterOperate (s : MtdState) (newNode : MtdPartition) (param : PartitionParam) (partitionNum : Nat)
    (a : RegisterAnswers) : Int × MtdState × MtdPartition :=
  let (ret,name,drivers) := driverRegisterOperate param.charname partitionNum a s.charDrivers
  (ret,{ s with charDrivers := drivers },{ newNode with chardriverName := name })

/-- Only -EBUSY is taken for a failure. -/
def driverUnregister (name : Option (List Char)) (ret : Int) (drivers : List (List Char)) :
    Int × Option (List Char) × List (List Char) :=
  match name with
  | none => (ENOERR,none,drivers)
  | some name =>
    if ret = -EBUSY then (ret,some name,drivers)
    else (ENOERR,none,if ret = 0 then drivers.erase name else drivers)

def blockDriverUnregister (s : MtdState) (node : MtdPartition) (ret : Int) : Int × MtdState × MtdPartition :=
  let (ret,name,drivers) := driverUnregister node.blockdriverName ret s.blockDrivers
  (ret,{ s with blockDrivers := drivers },{ node with blockdriverName := name })

def charDriverUnregister (s : MtdState) (node : MtdPartition) (ret : Int) : Int × MtdState × MtdPartition :=
  let (ret,name,drivers) := driverUnregister node.chardriverName ret s.charDrivers
  (ret,{ s with charDrivers := drivers },{ node with chardriverName := name })

/-- None where a head that has been freed is read. -/
def addMtdPartition (cfg : MtdConfig) (s : MtdState) (type : Option String) (startAddr length partitionNum : Nat) (a : AddAnswers) :
    Option (Int × MtdState) :=
  match type with
  | none => some (-EINVAL,s)
  | some type =>
    if partitionNum ≥ CONFIG_MTD_PATTITION_NUM then some (-EINVAL,s)
    else
      match mtdInitFsparParam cfg s type a.init with
      | (ret,s,none) => some (ret,s)
      | (_,s,some param) =>
        match addParamCheck startAddr param partitionNum length with
        | none => none
        | some ret =>
          if ret ≠ ENOERR then some (ret,s)
          else if a.node then
            let newNode := parAssignment length startAddr partitionNum param.blockSize
            let (ret,s,newNode) := blockDriverRegisterOperate s newNode param partitionNum a.block
            if ret ≠ 0 then some (ret,s)
            else
              let (ret,s,newNode) := charDriverRegisterOperate s newNode param partitionNum a.char
              if ret ≠ 0 then some (ret,(blockDriverUnregister s newNode a.rollback).2.1)
              else
                let param := { param with partitionHead := param.partitionHead.map (· ++ [newNode]) }
                some (ENOERR,match flashType type with
                  | none => s
                  | some f => s.setParam (some param) f)
          else some (-ENOMEM,s)

/-- The partition head seen as a partition: zalloc has cleared it. -/
def headNode : MtdPartition := ⟨0,0,0,none,none,none⟩

/-- The cursor that OsNodeGet leaves: a place in the list, or none for the list head when nothing matches. -/
def osNodeGet (partitionNum : Nat) (nodes : List MtdPartition) : Int × Option Nat × MtdPartition :=
  let cursor := nodes.findIdx? (·.patitionnum = partitionNum)
  let node := match cursor with
    | none => headNode
    | some i => nodes.getD i headNode
  (if node.patitionnum ≠ partitionNum ∨ node.mountpointName ≠ none then -EINVAL else ENOERR,cursor,node)

def deletePartitionUnregister (s : MtdState) (node : MtdPartition) (a : DeleteAnswers) : Int × MtdState × MtdPartition :=
  let (ret,s,node) := blockDriverUnregister s node a.block
  if ret = -EBUSY then (ret,s,node)
  else
    let (ret,s,node) := charDriverUnregister s node a.char
    if ret = -EBUSY then (ret,s,node) else (ENOERR,s,node)

/-- The node at the cursor is unlinked, cleared and freed. When it is the list head, LOS_ListEmpty reads the cleared links. -/
def osResourceRelease (s : MtdState) (cursor : Option Nat) (nodes : List MtdPartition) (type : String) (f : FlashType)
    (param : PartitionParam) : Int × MtdState :=
  match cursor with
  | none => (ENOERR,s.setParam (some { param with partitionHead := none }) f)
  | some i =>
    if nodes.eraseIdx i = [] then mtdDeinitFsparParam s type
    else (ENOERR,s.setParam (some { param with partitionHead := some (nodes.eraseIdx i) }) f)

/-- None where a head that has been freed is read. -/
def deleteMtdPartition (s : MtdState) (partitionNum : Nat) (type : Option String) (a : DeleteAnswers) : Option (Int × MtdState) :=
  match type with
  | none => some (-EINVAL,s)
  | some type =>
    match flashType type with
    | none => some (-EINVAL,s)
    | some f =>
      match s.param f with
      | none => some (-EINVAL,s)
      | some param =>
        if partitionNum ≥ CONFIG_MTD_PATTITION_NUM then some (-EINVAL,s)
        else
          match param.partitionHead with
          | none => none
          | some nodes =>
            let (ret,cursor,node) := osNodeGet partitionNum nodes
            if ret ≠ 0 then some (ret,s)
            else
              let (ret,s,node) := deletePartitionUnregister s node a
              -- the node keeps the names that are left
              let nodes := match cursor with
                | none => nodes
                | some i => nodes.set i node
              if ret ≠ 0 then some (ret,s.setParam (some { param with partitionHead := some nodes }) f)
              else some (osResourceRelease s cursor nodes type f param)

/-- A file system is mounted on a partition or taken off it. -/
def setMountpoint (s : MtdState) (f : FlashType) (i : Nat) (name : Option (List Char)) : MtdState :=
  match s.param f with
  | none => s
  | some param =>
    let mounted := fun nodes : List MtdPartition => nodes.set i { nodes.getD i headNode with mountpointName := name }
    s.setParam (some { param with partitionHead := param.partitionHead.map mounted }) f

end LiteOsKernel.Drivers
