import LiteOsKernel.Drivers.Disk
import Mathlib.Logic.Function.Basic
import Mathlib.Data.Fin.Basic

/-! Recognition of the partition table of a disk (disk.c): GPT, or MBR with the chain of extended boot records, and the registration
of what is found. Reads of the disk succeed. -/
namespace LiteOsKernel.Drivers

def MAX_DIVIDE_PART_PER_DISK : Nat := 16
def MAX_PRIMARY_PART_PER_DISK : Nat := 4
def PAR_OFFSET : Nat := 446
def BS_SIG55AA : Nat := 510
def BS_FILSYSTEMTYPE32 : Nat := 82
def BS_FILSYSTYPE : Nat := 0x36
def BS_JMPBOOT : Nat := 0
def BS_SIG55AA_VALUE : Nat := 0xAA55
def PAR_TYPE_OFFSET : Nat := 4
def PAR_START_OFFSET : Nat := 8
def PAR_COUNT_OFFSET : Nat := 12
def PAR_TABLE_SIZE : Nat := 16
def EXTENDED_PAR : Nat := 0x0F
def EXTENDED_8G : Nat := 0x05
def BS_FS_TYPE_VALUE : Nat := 0x544146
def BS_FS_TYPE_FAT : Nat := 0x0B
def BS_FS_TYPE_NTFS : Nat := 0x07
def PARTION_MODE_BTYE : Nat := PAR_OFFSET + PAR_TYPE_OFFSET
def PARTION_MODE_GPT : Nat := 0xEE
def HEADER_SIZE : Nat := 0x5C
def TABLE_NUM_OFFSET : Nat := 80
def TABLE_START_SECTOR : Nat := 2
def TABLE_MAX_NUM : Nat := 128
def TABLE_SIZE : Nat := 128
def GPT_PAR_START_OFFSET : Nat := 32
def GPT_PAR_END_OFFSET : Nat := 40
def PAR_ENTRY_NUM_PER_SECTOR : Nat := 4
def HARD_DISK_GUID_OFFSET : Nat := 56
def HARD_DISK_GUID_FOR_ESP : Nat := 0x0020004900460045
def HARD_DISK_GUID_FOR_MSP : Nat := 0x007200630069004D
def VFS_ERROR : Int := -1

/-- A sector as its bytes, and a disk as its sectors. -/
abbrev Sector := Nat → Fin 256
abbrev Image := Nat → Sector

/-- LD_WORD_DISK, LD_DWORD_DISK and LD_QWORD_DISK. -/
def ldWord (b : Sector) (off : Nat) : Nat := b (off + 1)*2^8 + b off
def ldDword (b : Sector) (off : Nat) : Nat := b (off + 3)*2^24 + b (off + 2)*2^16 + b (off + 1)*2^8 + b off
def ldQword (b : Sector) (off : Nat) : Nat := ldDword b (off + 4)*2^32 + ldDword b off

/-- The bytes from off on are those of s, as strncmp compares them. -/
def bytesAt (b : Sector) : Nat → List Nat → Bool
  | _, [] => true
  | off, c :: s => (b off : Nat) == c && bytesAt b (off + 1) s

def fatName : List Nat := [0x46,0x41,0x54]
def ntfsName : List Nat := [0xEB,0x52,0x90,0x4E,0x54,0x46,0x53,0x20,0x20,0x20,0x20]
def efiName : List Nat := [0x45,0x46,0x49,0x20,0x50,0x41,0x52,0x54]

/-- VERIFY_FS. -/
def verifyFs (b : Sector) : Bool :=
  ldDword b BS_FILSYSTEMTYPE32 % 2^24 = BS_FS_TYPE_VALUE || bytesAt b BS_FILSYSTYPE fatName || bytesAt b BS_JMPBOOT ntfsName

/-- VERIFY_GPT. -/
def verifyGpt (b : Sector) : Bool := bytesAt b 0 efiName && ldDword b 12 = HEADER_SIZE

/-- VERITY_PAR_VALID of the table entry at off. -/
def verityParValid (b : Sector) (off : Nat) : Bool :=
  (ldDword b off + ldDword b (off + 4) + ldDword b (off + 8) + ldDword b (off + 12)) % 2^32 ≠ 0

/-- VERITY_AVAILABLE_PAR of the table entry at off. -/
def verityAvailablePar (b : Sector) (off : Nat) : Bool :=
  ldQword b (off + HARD_DISK_GUID_OFFSET) ≠ HARD_DISK_GUID_FOR_ESP && ldQword b (off + HARD_DISK_GUID_OFFSET) ≠ HARD_DISK_GUID_FOR_MSP

structure PartitionInfo where
  type : Nat
  sectorStart : Nat
  sectorCount : Nat
  deriving DecidableEq

/-- info->part, by place. -/
abbrev PartTable := Nat → PartitionInfo

/-- The number of places of info->part. -/
def PART_SIZE : Nat := MAX_DIVIDE_PART_PER_DISK + MAX_PRIMARY_PART_PER_DISK

def emptyTable : PartTable := fun _ => ⟨0,0,0⟩

/-- GPTPartitionTypeRecognition. -/
def gptPartitionTypeRecognition (b : Sector) : Nat :=
  if ldDword b BS_FILSYSTEMTYPE32 % 2^24 = BS_FS_TYPE_VALUE ∨ bytesAt b BS_FILSYSTYPE fatName then BS_FS_TYPE_FAT
  else if bytesAt b BS_JMPBOOT ntfsName then BS_FS_TYPE_NTFS
  else 0

/-- OsGPTPartitionRecognitionSub on the table and the count so far. -/
def osGPTPartitionRecognitionSub (b : Sector) (start stop count : Nat) (part : PartTable) : Int × Nat × PartTable :=
  if verifyFs b then
    let type := gptPartitionTypeRecognition b
    if type ≠ 0 then
      if MAX_DIVIDE_PART_PER_DISK ≤ count then (VFS_ERROR,count,part)
      else (0,count + 1,Function.update part count ⟨type,start,add64 (sub64 stop start) 1⟩)
    else (0,count,part)
  else (0,count,part)

/-- OsGPTPartitionRecognition over the table entries left in the sector, with the return code so far. -/
def osGPTPartitionRecognition (img : Image) (sectorCount : Nat) (gptBuf : Sector) :
    List Nat → Int → Nat → PartTable → Int × Nat × PartTable
  | [], ret, count, part => (ret,count,part)
  | j :: js, ret, count, part =>
    if !verityAvailablePar gptBuf (j*TABLE_SIZE) then osGPTPartitionRecognition img sectorCount gptBuf js ret count part
    else if !verityParValid gptBuf (j*TABLE_SIZE) then (VFS_ERROR,count,part)
    else
      let start := ldQword gptBuf (j*TABLE_SIZE + GPT_PAR_START_OFFSET)
      let stop := ldQword gptBuf (j*TABLE_SIZE + GPT_PAR_END_OFFSET)
      if stop ≤ start ∨ sectorCount < stop then (VFS_ERROR,count,part)
      else
        let (ret,count,part) := osGPTPartitionRecognitionSub (img start) start stop count part
        if ret ≠ 0 then (VFS_ERROR,count,part) else osGPTPartitionRecognition img sectorCount gptBuf js ret count part

/-- The loop of DiskGPTPartitionRecognition over the sectors of the table that are left. -/
def gptSectors (img : Image) (sectorCount : Nat) : List Nat → Nat → PartTable → Int × PartTable
  | [], count, part => (count,part)
  | i :: is, count, part =>
    let (ret,count,part) := osGPTPartitionRecognition img sectorCount (img (TABLE_START_SECTOR + i))
      (List.range PAR_ENTRY_NUM_PER_SECTOR) VFS_ERROR count part
    if ret < 0 then (if ret = VFS_ERROR then (count : Int) else ret,part) else gptSectors img sectorCount is count part

/-- DiskGPTPartitionRecognition. -/
def diskGPTPartitionRecognition (img : Image) (sectorCount : Nat) (part : PartTable) : Int × PartTable :=
  if !verifyGpt (img 1) then (VFS_ERROR,part)
  else
    let tableNum := min (ldDword (img 1) TABLE_NUM_OFFSET) TABLE_MAX_NUM
    let index := if tableNum % PAR_ENTRY_NUM_PER_SECTOR ≠ 0 then tableNum/PAR_ENTRY_NUM_PER_SECTOR + 1
      else tableNum/PAR_ENTRY_NUM_PER_SECTOR
    gptSectors img sectorCount (List.range index) 0 part

/-- OsMBRInfoGet: the signature of the boot record. -/
def osMBRInfoGet (mbr : Sector) : Bool := ldWord mbr BS_SIG55AA = BS_SIG55AA_VALUE

/-- OsEBRInfoGet: a boot record that is itself a file system is refused unless its first entry leads to one. -/
def osEBRInfoGet (img : Image) (sectorCount : Nat) (mbr : Sector) : Bool :=
  if verifyFs mbr then
    if sectorCount ≤ ldDword mbr (PAR_OFFSET + PAR_START_OFFSET) then false
    else verifyFs (img (ldDword mbr (PAR_OFFSET + PAR_START_OFFSET)))
  else true

/-- The entry at place i of the table of a boot record. -/
def tableEntry (mbr : Sector) (i : Nat) : PartitionInfo :=
  ⟨mbr (PAR_OFFSET + PAR_TYPE_OFFSET + i*PAR_TABLE_SIZE),ldDword mbr (PAR_OFFSET + PAR_START_OFFSET + i*PAR_TABLE_SIZE),
    ldDword mbr (PAR_OFFSET + PAR_COUNT_OFFSET + i*PAR_TABLE_SIZE)⟩

def IsExtended (type : Nat) : Prop := type = EXTENDED_PAR ∨ type = EXTENDED_8G

instance (type : Nat) : Decidable (IsExtended type) := inferInstanceAs (Decidable (_ ∨ _))

/-- What OsPrimaryPartitionRecognition has found so far. -/
structure Primary where
  part : PartTable
  extendedFlag : Bool
  extendedPos : Nat
  mbrCount : Nat

/-- The body of the loop of OsPrimaryPartitionRecognition. -/
def primaryStep (mbr : Sector) (p : Primary) (i : Nat) : Primary :=
  let e := tableEntry mbr i
  if e.type ≠ 0 then
    let part := Function.update p.part i e
    if IsExtended e.type then { p with part := part, extendedFlag := true, extendedPos := i }
    else { p with part := part, mbrCount := p.mbrCount + 1 }
  else p

/-- OsPrimaryPartitionRecognition. -/
def osPrimaryPartitionRecognition (mbr : Sector) (part : PartTable) : Primary :=
  (List.range MAX_PRIMARY_PART_PER_DISK).foldl (primaryStep mbr) ⟨part,false,0,0⟩

/-- The sector of the extended record at an offset, a sum of 32-bit words. -/
def ebrSector (extendedAddress extendedOffset : Nat) : Nat := Word.add extendedAddress extendedOffset

/-- OsLogicalPartitionRecognition for at most fuel records: the number of logical partitions and the table. -/
def osLogicalPartitionRecognition (img : Image) (sectorCount extendedAddress mbrCount : Nat) :
    Nat → Nat → Nat → PartTable → Option (Nat × PartTable)
  | 0, _, _, _ => none
  | fuel + 1, extendedOffset, ebrCount, part =>
    if sectorCount ≤ extendedAddress + extendedOffset then some (ebrCount,part)
    else
      let ebrBuf := img (ebrSector extendedAddress extendedOffset)
      let e := tableEntry ebrBuf 0
      let (ebrCount,part) :=
        if e.type ≠ 0 ∧ mbrCount + ebrCount < MAX_DIVIDE_PART_PER_DISK then
          (ebrCount + 1,Function.update part (MAX_PRIMARY_PART_PER_DISK + ebrCount)
            { e with sectorStart := Word.add (ebrSector extendedAddress extendedOffset) e.sectorStart })
        else (ebrCount,part)
      let next := tableEntry ebrBuf 1
      if next.type ≠ 0 ∧ mbrCount + ebrCount < MAX_DIVIDE_PART_PER_DISK then
        osLogicalPartitionRecognition img sectorCount extendedAddress mbrCount fuel next.sectorStart ebrCount part
      else some (ebrCount,part)

/-- DiskPartitionRecognition on a table of zeros: the return code and the table. -/
def diskPartitionRecognition (fuel : Nat) (img : Image) (sectorCount : Nat) : Option (Int × PartTable) :=
  let mbr := img 0
  if !osMBRInfoGet mbr then some (VFS_ERROR,emptyTable)
  else if (mbr PARTION_MODE_BTYE : Nat) = PARTION_MODE_GPT then some (diskGPTPartitionRecognition img sectorCount emptyTable)
  else if !osEBRInfoGet img sectorCount mbr then some (0,emptyTable)
  else
    let p := osPrimaryPartitionRecognition mbr emptyTable
    if p.extendedFlag then
      match osLogicalPartitionRecognition img sectorCount (tableEntry mbr p.extendedPos).sectorStart p.mbrCount fuel 0 0 p.part with
      | none => none
      | some (ret,part) => if ret = 0 then some (0,part) else some ((ret + p.mbrCount : Nat),part)
    else some (p.mbrCount,p.part)

/-- An entry of the table that DiskPartitionRegister registers. -/
def Wanted (e : PartitionInfo) : Prop := e.type ≠ 0 ∧ ¬ IsExtended e.type

instance (e : PartitionInfo) : Decidable (Wanted e) := inferInstanceAs (Decidable (_ ∧ _))

/-- DiskAddPart, with what its caller then writes into the new partition. -/
def addPart (disk : LosDisk) (start count : Nat) (valid : Bool) (a : AddPartAnswers) (mark : LosPart → LosPart) : Option LosDisk :=
  (diskAddPart disk start count valid a).map fun d => { d with head := d.head.dropLast ++ (d.head.getLast?.map mark).toList }

/-- The loop of DiskPartitionRegister over the places left. -/
def registerParts (part : PartTable) (a : Nat → AddPartAnswers) : List Nat → LosDisk → Int × LosDisk
  | [], disk => (0,disk)
  | i :: is, disk =>
    if Wanted (part i) then
      match addPart disk (part i).sectorStart (part i).sectorCount true (a i)
          (fun p => { p with partNoMbr := i + 1, filesystemType := (part i).type }) with
      | none => (VFS_ERROR,disk)
      | some disk => registerParts part a is disk
    else registerParts part a is disk

/-- DiskPartitionRegister, with what DiskAddPart is answered at each place and for the whole disk. -/
def diskPartitionRegister (fuel : Nat) (img : Image) (disk : LosDisk) (a : Nat → AddPartAnswers) (whole : AddPartAnswers) :
    Option (Int × LosDisk) :=
  match diskPartitionRecognition fuel img disk.sectorCount with
  | none => none
  | some (count,part) =>
    if count ≤ 0 then
      if count < VFS_ERROR then some (VFS_ERROR,disk)
      else
        match addPart disk 0 disk.sectorCount (count = 0) whole (fun p => { p with partNoMbr := 0 }) with
        | none => some (VFS_ERROR,disk)
        | some disk => some (0,disk)
    else some (registerParts part a (List.range PART_SIZE) disk)

end LiteOsKernel.Drivers
