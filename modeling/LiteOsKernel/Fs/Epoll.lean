import LiteOsKernel.Lib.Bytes
import Mathlib.Data.List.Perm.Basic
import Mathlib.Data.List.Nodup

/-! Instances of epoll (fs_epoll.c): the array of registered descriptors, with its bytes, since a deletion moves a number of bytes. -/
namespace LiteOsKernel.Epoll
open LiteOsKernel.Bytes

abbrev Fd := BitVec 32
abbrev Events := BitVec 32

def EPOLL_DEFAULT_SIZE : Nat := 100
def EPOLL_CTL_ADD : Int := 1
def EPOLL_CTL_DEL : Int := 2
def EPOLL_CTL_MOD : Int := 3
def POLLERR : Events := 0x008
def POLLHUP : Events := 0x010

inductive Errno where
  | EEXIST
  | ENOMEM
  | ENOENT
  | EINVAL
  deriving DecidableEq

/-- sizeof(struct epoll_event): events, four bytes of padding, and the union data with fd in its first four bytes. -/
def EPOLL_EVENT_SIZE : Nat := 16

/-- epoll_head. -/
structure EpollHead where
  nodeCount : Nat
  evs : Nat → UInt8

namespace EpollHead

/-- evs[i].events. -/
def events (h : EpollHead) (i : Nat) : Events := BitVec.ofNat 32 (get32 h.evs (EPOLL_EVENT_SIZE * i))

/-- evs[i].data.fd. -/
def fd (h : EpollHead) (i : Nat) : Fd := BitVec.ofNat 32 (get32 h.evs (EPOLL_EVENT_SIZE * i + 8))

def setEvents (h : EpollHead) (i : Nat) (events : Events) : EpollHead :=
  { h with evs := set32 h.evs (EPOLL_EVENT_SIZE * i) events.toNat }

def setFd (h : EpollHead) (i : Nat) (fd : Fd) : EpollHead :=
  { h with evs := set32 h.evs (EPOLL_EVENT_SIZE * i + 8) fd.toNat }

/-- The first place with a descriptor. -/
def find (h : EpollHead) (fd : Fd) : Option Nat := (List.range h.nodeCount).find? fun i => h.fd i = fd

end EpollHead

/-- CheckFdExist. -/
def checkFdExist (h : EpollHead) (fd : Fd) : Int := if (h.find fd).isSome then -1 else 0

section
-- memmove_s with the size of the destination and the bytes to move: its result, and what it leaves at the destination
variable (memmoveS : Nat → List UInt8 → Int × List UInt8)

/-- The call of memmove_s in epoll_ctl: &evs[i], nodeCount - i, &evs[i + 1], nodeCount - i. -/
def moveDown (h : EpollHead) (i : Nat) : EpollHead :=
  let (_,xs) := memmoveS (h.nodeCount - i) (bytes h.evs (EPOLL_EVENT_SIZE * (i + 1)) (h.nodeCount - i))
  { h with evs := store h.evs (EPOLL_EVENT_SIZE * i) xs }

/-- epoll_ctl on an instance: the result, the error number that is set, and the instance; ev has the events of *ev, or is NULL. -/
def epollCtl (h : EpollHead) (op : Int) (fd : Fd) (ev : Option Events) : Int × Option Errno × EpollHead :=
  match ev with
  | none => (-1,some .EINVAL,h)
  | some events =>
    if op = EPOLL_CTL_ADD then
      let ret := checkFdExist h fd
      if ret = -1 then (ret,some .EEXIST,h)
      else if h.nodeCount = EPOLL_DEFAULT_SIZE then (ret,some .ENOMEM,h)
      else
        let h := (h.setEvents h.nodeCount (events ||| POLLERR ||| POLLHUP)).setFd h.nodeCount fd
        (0,none,{ h with nodeCount := h.nodeCount + 1 })
    else if op = EPOLL_CTL_DEL then
      match h.find fd with
      | none => (-1,some .ENOENT,h)
      | some i =>
        let h := if i ≠ h.nodeCount - 1 then moveDown memmoveS h i else h
        (0,none,{ h with nodeCount := h.nodeCount - 1 })
    else if op = EPOLL_CTL_MOD then
      match h.find fd with
      | none => (-1,some .ENOENT,h)
      | some i => (0,none,h.setEvents i (events ||| POLLERR ||| POLLHUP))
    else (-1,some .EINVAL,h)

end

/-- pollfd after poll. -/
structure Pollfd where
  fd : Fd
  revents : BitVec 16

/-- The loop of epoll_wait over what poll has left, ret entries of which are reported. -/
def collect : Nat → List Pollfd → List Pollfd
  | 0, _ => []
  | _+1, [] => []
  | ret+1, p :: pFd => if p.revents ≠ 0 then p :: collect ret pFd else collect (ret + 1) pFd

/-- epoll_wait on an instance: the result, the error number that is set, and what it has written to evs. poll has a list of descriptors with
the events that are asked for, and tells its result and revents. evs and malloc tell whether evs is there and the array pFd. -/
def epollWait (h : EpollHead) (poll : List (Fd × BitVec 16) → Int × List Pollfd) (evs malloc : Bool) (maxevents : Int) :
    Int × Option Errno × List Pollfd :=
  if maxevents ≤ 0 ∨ evs = false then (-1,some .EINVAL,[])
  else
    let pollSize := if (h.nodeCount : Int) < maxevents then h.nodeCount else maxevents.toNat
    if malloc = false then (-1,some .EINVAL,[])
    else
      let (ret,pFd) := poll ((List.range pollSize).map fun i => (h.fd i,(h.events i).setWidth 16))
      if ret ≤ 0 then (0,none,[])
      else
        let reported := collect ret.toNat pFd
        (reported.length,none,reported)

end LiteOsKernel.Epoll
