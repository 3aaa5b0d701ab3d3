import LiteOsKernel.Common
import Mathlib.Logic.Basic

/-! The id maps of user containers (los_user_container.c): ids are translated through at most five extents, which are read from the
text written to the map and then moved into the id space of the parent. Ids are 32-bit words. -/
namespace LiteOsKernel.Container

def UID_GID_MAP_MAX_EXTENTS : Nat := 5
def LEVEL_MAX : Nat := 3
def EPERM : Int := 1
def ENOMEM : Int := 12
def EINVAL : Int := 22
def HEX : Nat := 16
def OCT : Nat := 8
def DEC : Nat := 10

/-- (UINT32)-1. -/
def noId : Nat := 2^32 - 1

structure UidGidExtent where
  first : Nat
  lowerFirst : Nat
  count : Nat
  deriving DecidableEq

/-- The extents in use; extentCount is their number. -/
structure UidGidMap where
  extent : List UidGidExtent
  deriving DecidableEq

namespace UidGidMap

def extentCount (map : UidGidMap) : Nat := map.extent.length

/-- A map of zeros. -/
def unset : UidGidMap := ⟨[]⟩

end UidGidMap

/-- The last id of a range, first + count - 1 in 32 bits. -/
def rangeLast (first count : Nat) : Nat := Word.sub (Word.add first count) 1

/-- MapIdUpBase. -/
def mapIdUpBase (map : UidGidMap) (id : Nat) : Option UidGidExtent :=
  map.extent.find? fun e => decide (e.lowerFirst ≤ id ∧ id ≤ rangeLast e.lowerFirst e.count)

/-- MapIdUp. -/
def mapIdUp (map : UidGidMap) (id : Nat) : Nat :=
  if UID_GID_MAP_MAX_EXTENTS < map.extentCount then noId
  else match mapIdUpBase map id with
    | some extent => Word.add (Word.sub id extent.lowerFirst) extent.first
    | none => noId

/-- MapIdRangeDownBase. -/
def mapIdRangeDownBase (map : UidGidMap) (id count : Nat) : Option UidGidExtent :=
  let id2 := rangeLast id count
  map.extent.find? fun e =>
    let last := rangeLast e.first e.count
    decide ((e.first ≤ id ∧ id ≤ last) ∧ e.first ≤ id2 ∧ id2 ≤ last)

/-- MapIdRangeDown. -/
def mapIdRangeDown (map : UidGidMap) (id count : Nat) : Nat :=
  if UID_GID_MAP_MAX_EXTENTS < map.extentCount then noId
  else match mapIdRangeDownBase map id count with
    | some extent => Word.add (Word.sub id extent.first) extent.lowerFirst
    | none => noId

/-- MapIdDown. -/
def mapIdDown (map : UidGidMap) (id : Nat) : Nat := mapIdRangeDown map id 1

/-- InsertExtent. -/
def insertExtent (idMap : UidGidMap) (extent : UidGidExtent) : Int × UidGidMap :=
  if UID_GID_MAP_MAX_EXTENTS < idMap.extentCount then (-EINVAL,idMap)
  else (0,⟨idMap.extent ++ [extent]⟩)

/-- MappingsOverlap. -/
def mappingsOverlap (idMap : UidGidMap) (extent : UidGidExtent) : Bool :=
  let upperLast := rangeLast extent.first extent.count
  let lowerLast := rangeLast extent.lowerFirst extent.count
  idMap.extent.any fun prev =>
    let prevUpperLast := rangeLast prev.first prev.count
    let prevLowerLast := rangeLast prev.lowerFirst prev.count
    decide (UID_GID_MAP_MAX_EXTENTS < idMap.extentCount ∨ prev.first ≤ upperLast ∧ extent.first ≤ prevUpperLast ∨
      prev.lowerFirst ≤ lowerLast ∧ extent.lowerFirst ≤ prevLowerLast)

def isspace (c : Char) : Bool := c = ' ' || ('\t' ≤ c && c ≤ '\r')

/-- The value of a hexadecimal digit; none where isxdigit fails. -/
def digitValue (c : Char) : Option Nat :=
  if c.isDigit then some (c.toNat - '0'.toNat)
  else if 'a' ≤ c ∧ c ≤ 'f' then some (c.toNat - 'a'.toNat + DEC)
  else if 'A' ≤ c ∧ c ≤ 'F' then some (c.toNat - 'A'.toNat + DEC)
  else none

/-- SkipSpaces. -/
def skipSpaces (str : List Char) : List Char := str.dropWhile isspace

/-- The digits of StrToUInt, with the result as a word. -/
def strDigits (base : Nat) : Nat → List Char → Nat × List Char
  | result, [] => (result,[])
  | result, c :: str =>
    match digitValue c with
    | none => (result,c :: str)
    | some value => if value < base then strDigits base ((result*base + value) % 2^32) str else (result,c :: str)

/-- StrToUInt: the value and what is left of the string. -/
def strToUInt (str : List Char) (base : Nat) : Nat × List Char :=
  match str with
  | '0' :: 'x' :: c :: rest =>
    if (digitValue c).isSome then strDigits HEX 0 (c :: rest) else strDigits (if base = 0 then OCT else base) 0 ('x' :: c :: rest)
  | '0' :: rest => strDigits (if base = 0 then OCT else base) 0 rest
  | _ => strDigits (if base = 0 then DEC else base) 0 str

/-- ParsePosData; none is -EINVAL. -/
def parsePosData (pos : List Char) : Option UidGidExtent :=
  let (first,pos) := strToUInt (skipSpaces pos) DEC
  if pos.head?.all (!isspace ·) then none
  else
    let (lowerFirst,pos) := strToUInt (skipSpaces pos) DEC
    if pos.head?.all (!isspace ·) then none
    else
      let (count,pos) := strToUInt (skipSpaces pos) DEC
      if pos.head?.any (!isspace ·) then none
      else if skipSpaces pos ≠ [] then none
      else some ⟨first,lowerFirst,count⟩

/-- The lines that the loop of ParseUserData goes through: a newline at the very end starts no line. -/
def userLines : List Char → List (List Char)
  | [] => [[]]
  | c :: rest =>
    if c = '\n' then if rest = [] then [[]] else [] :: userLines rest
    else match userLines rest with
      | [] => [[c]]
      | line :: lines => (c :: line) :: lines

/-- The loop of ParseUserData over the lines left. A line that is refused ends it with the last return code, which is 0 once a line
has been stored. -/
def parseLines (ret : Int) (newMap : UidGidMap) : List (List Char) → Int × UidGidMap
  | [] => if newMap.extentCount = 0 then (-EINVAL,newMap) else (ret,newMap)
  | pos :: nextLine =>
    match parsePosData pos with
    | none => (ret,newMap)
    | some extent =>
      if extent.first = noId ∨ extent.lowerFirst = noId then (ret,newMap)
      else if Word.add extent.first extent.count ≤ extent.first then (ret,newMap)
      else if Word.add extent.lowerFirst extent.count ≤ extent.lowerFirst then (ret,newMap)
      else if mappingsOverlap newMap extent then (ret,newMap)
      else if newMap.extentCount + 1 = UID_GID_MAP_MAX_EXTENTS ∧ nextLine ≠ [] then (ret,newMap)
      else
        let (ret,newMap) := insertExtent newMap extent
        if ret < 0 then (ret,newMap) else parseLines 0 newMap nextLine

/-- ParseUserData on a new map of zeros. -/
def parseUserData (kbuf : List Char) : Int × UidGidMap := parseLines (-EINVAL) .unset (userLines kbuf)

/-- The loop of ParentMapIdRange over the extents; none is -EPERM. -/
def parentExtents (extentCount : Nat) (parentMap : UidGidMap) : List UidGidExtent → Option (List UidGidExtent)
  | [] => some []
  | extent :: rest =>
    if UID_GID_MAP_MAX_EXTENTS < extentCount then none
    else
      let lowerFirst := mapIdRangeDown parentMap extent.lowerFirst extent.count
      if lowerFirst = noId then none
      else (parentExtents extentCount parentMap rest).map fun l => { extent with lowerFirst := lowerFirst } :: l

/-- ParentMapIdRange. -/
def parentMapIdRange (newMap parentMap : UidGidMap) : Option UidGidMap :=
  (parentExtents newMap.extentCount parentMap newMap.extent).map UidGidMap.mk

/-- OsUserContainerMapWrite on a buffer that ends at its first null character. -/
def osUserContainerMapWrite (kbuf : List Char) (count : Nat) (capPermit : Bool) (map parentMap : UidGidMap) : Int × UidGidMap :=
  if map.extentCount ≠ 0 then (-EPERM,map)
  else if !capPermit then (-EPERM,map)
  else
    let (ret,newMap) := parseUserData (kbuf.takeWhile (· ≠ '\x00'))
    if ret < 0 then (-EPERM,map)
    else match parentMapIdRange newMap parentMap with
      | none => (-EPERM,map)
      | some newMap =>
        -- above the limit the extents would not be copied, and an unset map holds zeros
        if newMap.extentCount ≤ UID_GID_MAP_MAX_EXTENTS then (count,newMap)
        else (count,⟨newMap.extent.map fun _ => ⟨0,0,0⟩⟩)

/-- A user container, with its parent as a place in the list of containers. -/
structure UserContainer where
  parent : Option Nat
  level : Nat
  uidMap : UidGidMap
  gidMap : UidGidMap
  deriving DecidableEq

def fromKuid (c : UserContainer) (kuid : Nat) : Nat := mapIdUp c.uidMap kuid

def fromKgid (c : UserContainer) (kgid : Nat) : Nat := mapIdUp c.gidMap kgid

def osMakeKuid (c : UserContainer) (uid : Nat) : Nat := mapIdDown c.uidMap uid

def osMakeKgid (c : UserContainer) (gid : Nat) : Nat := mapIdDown c.gidMap gid

/-- The map of the root container. -/
def rootMap : UidGidMap := ⟨[⟨0,0,4294967295⟩]⟩

/-- OsCreateUserContainer: the error, or the containers with the new one. Without a parent it is a root. -/
def osCreateUserContainer (limit : Nat) (euid egid : Int) (mem : Bool) (containers : List UserContainer) (parent : Option Nat) :
    Except Int (List UserContainer) :=
  let p := parent.bind fun i => containers[i]?
  if limit ≤ containers.length then .error EPERM
  else if p.any fun p => LEVEL_MAX ≤ p.level then .error EINVAL
  else if euid < 0 ∨ egid < 0 then .error EINVAL
  else if !mem then .error ENOMEM
  else match p with
    | some p => .ok (containers ++ [⟨parent,p.level + 1,.unset,.unset⟩])
    | none => .ok (containers ++ [⟨none,0,rootMap,rootMap⟩])

/-- PROC_UID_MAP or PROC_GID_MAP. -/
inductive IdType where
  | uid
  | gid

namespace UserContainer

def map (c : UserContainer) : IdType → UidGidMap
  | .uid => c.uidMap
  | .gid => c.gidMap

def setMap (c : UserContainer) (m : UidGidMap) : IdType → UserContainer
  | .uid => { c with uidMap := m }
  | .gid => { c with gidMap := m }

end UserContainer

/-- ProcIDMapWrite on the container at place i, with the memory for the copy of the text. -/
def procIDMapWrite (containers : List UserContainer) (type : IdType) (i : Nat) (kbuf : List Char) (mem capPermit : Bool) :
    Int × List UserContainer :=
  if kbuf.length = 0 ∨ PAGE_SIZE ≤ kbuf.length then (-EINVAL,containers)
  else if !mem then (-EINVAL,containers)
  else match containers[i]? with
    | none => (-EINVAL,containers)
    | some c => match c.parent.bind fun j => containers[j]? with
      | none => (-EPERM,containers)
      | some p =>
        let (ret,m) := osUserContainerMapWrite kbuf kbuf.length capPermit (c.map type) (p.map type)
        (ret,containers.set i (c.setMap m type))

end LiteOsKernel.Container
