import LiteOsKernel.Common
import Mathlib.Tactic.Linarith

/-! Disks and their partitions (disk.c): adding a partition, and reads and writes through a partition. Sectors are 64-bit words and
counts 32-bit words. -/
namespace LiteOsKernel.Drivers

def UINT_MAX : Nat := 2^32 - 1
/-- The type of an eMMC device, whose sectors are counted from the start of the partition. -/
def EMMC : Nat := 0xEC

/-- Sum and difference of 64-bit words, with wrap-around. -/
def add64 (x y : Nat) : Nat := (x + y) % 2^64
def sub64 (x y : Nat) : Nat := (x + 2^64 - y) % 2^64

theorem add64_eq {x y : Nat} (h : x + y < 2^64) : add64 x y = x + y := Nat.mod_eq_of_lt h

theorem sub64_eq {x y : Nat} (h : y ≤ x) (hx : x < 2^64) : sub64 x y = x - y := by
  rw [sub64, Nat.sub_add_comm h, Nat.add_mod_right, Nat.mod_eq_of_lt (by omega)]

inductive DiskStatus where
  | unused
  | inused
  | unready
  deriving DecidableEq

/-- los_part; dev says whether the device is there. -/
structure LosPart where
  dev : Bool
  type : Nat
  filesystemType : Nat
  partNoMbr : Nat
  sectorStart : Nat
  sectorCount : Nat
  deriving DecidableEq

/-- los_disk, with the sector size of its cache when it has one and its partitions in the order of the list. -/
structure LosDisk where
  diskStatus : DiskStatus
  dev : Bool
  devData : Bool
  bcache : Option Nat
  sectorSize : Nat
  sectorCount : Nat
  type : Nat
  head : List LosPart
  deriving DecidableEq

/-- What the calls of DiskAddPart answer: the name fits, the driver is registered, the node is found, a slot is free, and the type
that the slot still has. -/
structure AddPartAnswers where
  name : Bool
  register : Bool
  partDev : Bool
  slot : Bool
  slotType : Nat
  slotFilesystem : Nat

/-- DiskAddPart; none is VFS_ERROR. The new partition is the last of the list. -/
def diskAddPart (disk : LosDisk) (sectorStart sectorCount : Nat) (isValidPart : Bool) (a : AddPartAnswers) : Option LosDisk :=
  if disk.diskStatus = .unused ∨ disk.dev = false then none
  else if disk.sectorCount < sectorCount ∨ sub64 disk.sectorCount sectorCount < sectorStart then none
  else if isValidPart = true ∧ (a.name = false ∨ a.register = false) then none
  else if a.slot = false then none
  else
    let dev := if isValidPart then a.partDev else true
    let type := if disk.type = EMMC then EMMC else a.slotType
    some { disk with head := disk.head ++ [⟨dev,type,a.slotFilesystem,0,sectorStart,sectorCount⟩] }

/-- GetFirstPartStart. -/
def getFirstPartStart (disk : LosDisk) : Nat :=
  match disk.head with
  | [] => 0
  | firstPart :: _ => firstPart.sectorStart

/-- What los_disk_read and los_disk_write do with a request, by the answer of the block cache: none is VFS_ERROR, and otherwise the
sectors that are moved, as a start and a count. -/
def diskTransfer (disk : LosDisk) (buf : Bool) (sector count : Nat) (io : Nat → Nat → Int) : Option (Nat × Nat) :=
  if buf = false ∨ count = 0 then none
  else if disk.diskStatus ≠ .inused then none
  else if disk.sectorCount < count ∨ sub64 disk.sectorCount count < sector then none
  else match disk.bcache with
    | none => none
    | some sectorSize =>
      if UINT_MAX < sectorSize*count then none
      else if io sector count ≠ 0 then none
      else some (sector,count)

/-- los_disk_read. -/
def losDiskRead (disk : LosDisk) (buf : Bool) (sector count : Nat) (io : Nat → Nat → Int) : Option (Nat × Nat) :=
  diskTransfer disk buf sector count io

/-- los_disk_write. -/
def losDiskWrite (disk : LosDisk) (buf : Bool) (sector count : Nat) (io : Nat → Nat → Int) : Option (Nat × Nat) :=
  if disk.dev = false ∨ disk.devData = false then none else diskTransfer disk buf sector count io

/-- The sector of the disk that a request on a partition starts at; none where the request on an eMMC partition is refused. -/
def absoluteSector (disk : LosDisk) (part : LosPart) (sector : Nat) : Option Nat :=
  if part.type = EMMC then
    if sector < sub64 disk.sectorCount part.sectorStart then some (add64 sector part.sectorStart) else none
  else some sector

/-- What los_part_read and los_part_write do with a request that the disk then serves. -/
def partTransfer (serve : Nat → Nat → Option (Nat × Nat)) (disk : LosDisk) (part : LosPart) (sector count : Nat) : Option (Nat × Nat) :=
  if part.dev = false ∨ disk.diskStatus ≠ .inused then none
  else if part.sectorCount < count then none
  else match absoluteSector disk part sector with
    | none => none
    | some sector =>
      if getFirstPartStart disk ≤ sector ∧
          (add64 part.sectorStart part.sectorCount < add64 sector count ∨ sector < part.sectorStart) then none
      else serve sector count

/-- los_part_read. -/
def losPartRead (disk : LosDisk) (part : LosPart) (buf : Bool) (sector count : Nat) (io : Nat → Nat → Int) : Option (Nat × Nat) :=
  partTransfer (fun sector count => losDiskRead disk buf sector count io) disk part sector count

/-- los_part_write. -/
def losPartWrite (disk : LosDisk) (part : LosPart) (buf : Bool) (sector count : Nat) (io : Nat → Nat → Int) : Option (Nat × Nat) :=
  partTransfer (fun sector count => losDiskWrite disk buf sector count io) disk part sector count

end LiteOsKernel.Drivers
