import LiteOsKernel.Fs.EpollEntries
import LiteOsKernel.Lib.Run

/-! An instance of epoll along any run as a map from descriptors to events. -/
namespace LiteOsKernel.Epoll
open LiteOsKernel.Bytes LiteOsKernel.Run

/-- The descriptors added and not deleted since, with the events last set. -/
abbrev Regs := List (Fd × Events)

def Regs.Present (regs : Regs) (fd : Fd) : Prop := ∃ e ∈ regs, e.1 = fd

instance (regs : Regs) (fd : Fd) : Decidable (regs.Present fd) := inferInstanceAs (Decidable (∃ e ∈ regs, e.1 = fd))

/-- When an operation of epoll_ctl should succeed. -/
def Regs.Succeeds (regs : Regs) (op : Int) (fd : Fd) : Prop :=
  op = EPOLL_CTL_ADD ∧ ¬regs.Present fd ∧ regs.length ≠ EPOLL_DEFAULT_SIZE ∨ (op = EPOLL_CTL_MOD ∨ op = EPOLL_CTL_DEL) ∧ regs.Present fd

instance (regs : Regs) (op : Int) (fd : Fd) : Decidable (regs.Succeeds op fd) := inferInstanceAs (Decidable (_ ∨ _))

/-- What is asked for, and what is always reported. -/
def watched (events : Events) : Events := events ||| POLLERR ||| POLLHUP

/-- New events for a descriptor. -/
def change (fd : Fd) (events : Events) (e : Fd × Events) : Fd × Events := if e.1 = fd then (fd,events) else e

/-- An operation that succeeds. -/
def Regs.ctl (regs : Regs) (op : Int) (fd : Fd) (events : Events) : Regs :=
  if op = EPOLL_CTL_ADD then regs ++ [(fd,watched events)]
  else if op = EPOLL_CTL_DEL then regs.filter fun e => e.1 ≠ fd
  else regs.map (change fd (watched events))

/-- The array holds exactly the registered descriptors, each once. -/
def Holds (h : EpollHead) (regs : Regs) : Prop := (entries h).Perm regs ∧ (regs.map Prod.fst).Nodup

/-- An instance with what was registered. -/
structure Instance where
  head : EpollHead
  regs : Regs

/-- A descriptor is ready for the events that are asked for. -/
def Ready (ready : Fd → BitVec 16 → BitVec 16) (e : Fd × Events) : Prop := ready e.1 (e.2.setWidth 16) ≠ 0

def Pollfd.isReady (p : Pollfd) : Bool := decide (p.revents ≠ 0)

/-- poll, when ready tells the events of each descriptor: exactly those that are passed to it are reported. -/
def pollReady (ready : Fd → BitVec 16 → BitVec 16) (fds : List (Fd × BitVec 16)) : Int × List Pollfd :=
  let pFd := fds.map fun (fd,events) => (⟨fd,ready fd events⟩ : Pollfd)
  (pFd.countP Pollfd.isReady,pFd)

inductive EpollCall where
  | ctl (op : Int) (fd : Fd) (ev : Option Events)
  | wait (ready : Fd → BitVec 16 → BitVec 16) (evs malloc : Bool) (maxevents : Int)

variable (memmoveS : Nat → List UInt8 → Int × List UInt8)

namespace Instance

def run (x : Instance) : EpollCall → Instance
  | .ctl op fd ev =>
    ⟨(epollCtl memmoveS x.head op fd ev).2.2,
      match ev with
      | some events => if x.regs.Succeeds op fd then x.regs.ctl op fd events else x.regs
      | none => x.regs⟩
  | .wait .. => x

/-- The operation succeeds when it should; else it returns -1 and changes nothing. The array holds what is registered after it. -/
def CtlLaw (x : Instance) (op : Int) (fd : Fd) (ev : Option Events) : Prop :=
  let r := epollCtl memmoveS x.head op fd ev
  (r.1 = 0 ↔ x.regs.Succeeds op fd) ∧ (r.1 ≠ 0 → r.1 = -1 ∧ r.2.2 = x.head) ∧ Holds r.2.2 (x.run memmoveS (.ctl op fd ev)).regs

/-- When a registered descriptor is ready, one is reported. -/
def WaitLaw (x : Instance) (ready : Fd → BitVec 16 → BitVec 16) (evs malloc : Bool) (maxevents : Int) : Prop :=
  0 < maxevents → (∃ e ∈ x.regs, Ready ready e) →
    (epollWait x.head (pollReady ready) evs malloc maxevents).1 = (epollWait x.head (pollReady ready) evs malloc maxevents).2.2.length ∧
      ∃ p ∈ (epollWait x.head (pollReady ready) evs malloc maxevents).2.2, ∃ e ∈ x.regs, Ready ready e ∧ p.fd = e.1

def Law (x : Instance) : EpollCall → Prop
  | .ctl op fd ev => x.CtlLaw memmoveS op fd ev
  | .wait ready evs malloc maxevents => x.WaitLaw ready evs malloc maxevents

/-- An operation that should succeed has events; no absent descriptor is added to a full instance; what is deleted is the last entry, or the
entry that the move tears becomes the last one. -/
def CtlOk (x : Instance) (op : Int) (fd : Fd) : Option Events → Prop
  | none => ¬x.regs.Succeeds op fd
  | some _ => (op = EPOLL_CTL_ADD → x.regs.Present fd ∨ x.head.nodeCount ≠ EPOLL_DEFAULT_SIZE) ∧
      (op = EPOLL_CTL_DEL → ∀ i, x.head.find fd = some i →
        i + 1 = x.head.nodeCount ∨ tornEntry x.head i = entryOf x.head.evs (x.head.nodeCount - 1))

/-- When a registered descriptor is ready, one of the first maxevents entries is, and there is memory for them. -/
def WaitOk (x : Instance) (ready : Fd → BitVec 16 → BitVec 16) (evs malloc : Bool) (maxevents : Int) : Prop :=
  0 < maxevents → (∃ e ∈ x.regs, Ready ready e) →
    evs = true ∧ malloc = true ∧ ∃ i < x.head.nodeCount, (i : Int) < maxevents ∧ Ready ready (entryOf x.head.evs i)

def Ok (x : Instance) : EpollCall → Prop
  | .ctl op fd ev => x.CtlOk op fd ev
  | .wait ready evs malloc maxevents => x.WaitOk ready evs malloc maxevents

end Instance

/-- Any instance from its creation on. -/
@[reducible] def epollSystem : System Instance EpollCall where
  init x := x.head.nodeCount = 0 ∧ x.regs = []
  pre _ _ := True
  run := Instance.run memmoveS

variable {memmoveS} {h : EpollHead} {regs : Regs} {fd : Fd} {events : Events} {i : Nat} {op : Int}

theorem Holds.length (hh : Holds h regs) : regs.length = h.nodeCount := by
  rw [← length_entries, hh.1.length_eq]

/-- The descriptors of the entries are apart. -/
theorem Holds.inj (hh : Holds h regs) {i j : Nat} (hi : i < h.nodeCount) (hj : j < h.nodeCount) (he : h.fd i = h.fd j) : i = j := by
  have hnodup := (hh.1.map Prod.fst).nodup_iff.mpr hh.2
  rw [entries, List.map_map] at hnodup
  exact List.inj_on_of_nodup_map hnodup (List.mem_range.mpr hi) (List.mem_range.mpr hj) he

private theorem Holds.present_iff (hh : Holds h regs) (fd : Fd) : regs.Present fd ↔ ∃ i < h.nodeCount, h.fd i = fd := by
  constructor
  · rintro ⟨e,he,rfl⟩
    obtain ⟨i,hi,rfl⟩ := List.mem_map.mp (hh.1.mem_iff.mpr he)
    exact ⟨i,List.mem_range.mp hi,rfl⟩
  · rintro ⟨i,hi,rfl⟩
    exact ⟨_,hh.1.mem_iff.mp (List.mem_map_of_mem (List.mem_range.mpr hi)),rfl⟩

private theorem find_some (hf : h.find fd = some i) : i < h.nodeCount ∧ h.fd i = fd := by
  have hi := List.find?_range_eq_some.mp hf
  exact ⟨List.mem_range.mp hi.2.1,of_decide_eq_true hi.1⟩

private theorem Holds.find_isSome_iff (hh : Holds h regs) (fd : Fd) : (h.find fd).isSome = true ↔ regs.Present fd := by
  rw [hh.present_iff, EpollHead.find, List.find?_isSome]
  simp

/-- The other entries are those of the other descriptors. -/
private theorem Holds.without_eq (hh : Holds h regs) (hi : i < h.nodeCount) : (entries h).filter (fun e => e.1 ≠ h.fd i) = without h i := by
  have hkeep : ∀ j < h.nodeCount, j ≠ i → decide ((entryOf h.evs j).1 ≠ h.fd i) = true := fun j hj hne =>
    decide_eq_true fun he => hne (hh.inj hj hi he)
  rw [entries_eq hi, without, List.filter_append, List.filter_cons_of_neg (by simp [entryOf_fst])]
  congr 1
  · refine List.filter_eq_self.mpr fun e he => ?_
    obtain ⟨j,hj,rfl⟩ := List.mem_map.mp he
    have hji := List.mem_range.mp hj
    exact hkeep j (by omega) (by omega)
  · refine List.filter_eq_self.mpr fun e he => ?_
    obtain ⟨j,hj,rfl⟩ := List.mem_map.mp he
    have hji := List.mem_range'_1.mp hj
    exact hkeep j (by omega) (by omega)

private theorem Holds.delete_iff (hh : Holds h regs) (hi : i < h.nodeCount) {h' : EpollHead} :
    Holds h' (regs.filter fun e => e.1 ≠ h.fd i) ↔ (entries h').Perm (without h i) := by
  have hperm : (without h i).Perm (regs.filter fun e => e.1 ≠ h.fd i) := hh.without_eq hi ▸ hh.1.filter _
  have hnodup : ((regs.filter fun e => e.1 ≠ h.fd i).map Prod.fst).Nodup := hh.2.sublist (List.filter_sublist.map _)
  exact ⟨fun h' => h'.1.trans hperm.symm,fun h' => ⟨h'.trans hperm,hnodup⟩⟩

/-- New events at the place of a descriptor. -/
theorem Holds.modify (hh : Holds h regs) (hi : i < h.nodeCount) (events : Events) :
    Holds (h.setEvents i events) (regs.map (change (h.fd i) events)) := by
  have hentries : entries (h.setEvents i events) = (entries h).map (change (h.fd i) events) := by
    rw [entries, entries, List.map_map]
    refine List.map_congr_left fun j hj => ?_
    rw [entryOf_setEvents, Function.comp_apply, change]
    split_ifs with h1 h2 h2
    · rfl
    · exact absurd (h1 ▸ rfl) h2
    · exact absurd (hh.inj (List.mem_range.mp hj) hi h2) h1
    · rfl
  refine ⟨hentries ▸ hh.1.map _,?_⟩
  have hfst : ∀ e : Fd × Events, (change (h.fd i) events e).1 = e.1 := by
    intro e
    rw [change]
    split_ifs with he
    · exact he.symm
    · rfl
  rw [List.map_map]
  simp only [Function.comp_def, hfst]
  exact hh.2

theorem Holds.add (hh : Holds h regs) (habs : ¬regs.Present fd) (events : Events) :
    Holds { (h.setEvents h.nodeCount events).setFd h.nodeCount fd with nodeCount := h.nodeCount + 1 } (regs ++ [(fd,events)]) := by
  refine ⟨entries_add h fd events ▸ hh.1.append_right _,?_⟩
  rw [List.map_append, List.map_singleton, List.nodup_append]
  refine ⟨hh.2,List.nodup_singleton _,fun a ha b hb => ?_⟩
  rintro rfl
  obtain ⟨e,he,hea⟩ := List.mem_map.mp ha
  exact habs ⟨e,he,hea.trans (List.mem_singleton.mp hb)⟩

private theorem succeeds_add_iff : regs.Succeeds EPOLL_CTL_ADD fd ↔ ¬regs.Present fd ∧ regs.length ≠ EPOLL_DEFAULT_SIZE :=
  ⟨fun h => h.elim And.right fun h => absurd h.1 (by decide),fun h => .inl ⟨rfl,h⟩⟩

private theorem succeeds_delete_iff : regs.Succeeds EPOLL_CTL_DEL fd ↔ regs.Present fd :=
  ⟨fun h => h.elim (fun h => absurd h.1 (by decide)) And.right,fun h => .inr ⟨.inr rfl,h⟩⟩

private theorem succeeds_modify_iff : regs.Succeeds EPOLL_CTL_MOD fd ↔ regs.Present fd :=
  ⟨fun h => h.elim (fun h => absurd h.1 (by decide)) And.right,fun h => .inr ⟨.inl rfl,h⟩⟩

-- What epoll_ctl returns

private theorem epollCtl_add_present (hf : (h.find fd).isSome = true) :
    epollCtl memmoveS h EPOLL_CTL_ADD fd (some events) = (-1,some .EEXIST,h) := by
  rw [epollCtl, if_pos rfl, checkFdExist, if_pos hf]
  rfl

/-- The result is the one of CheckFdExist. -/
private theorem epollCtl_add_full (hf : ¬(h.find fd).isSome = true) (hfull : h.nodeCount = EPOLL_DEFAULT_SIZE) :
    epollCtl memmoveS h EPOLL_CTL_ADD fd (some events) = (0,some .ENOMEM,h) := by
  rw [epollCtl, if_pos rfl, checkFdExist, if_neg hf]
  exact if_pos hfull

private theorem epollCtl_add (hf : ¬(h.find fd).isSome = true) (hfull : h.nodeCount ≠ EPOLL_DEFAULT_SIZE) :
    epollCtl memmoveS h EPOLL_CTL_ADD fd (some events) =
      (0,none,{ (h.setEvents h.nodeCount (watched events)).setFd h.nodeCount fd with nodeCount := h.nodeCount + 1 }) := by
  rw [epollCtl, if_pos rfl, checkFdExist, if_neg hf]
  exact if_neg hfull

private theorem epollCtl_delete_absent (hf : h.find fd = none) :
    epollCtl memmoveS h EPOLL_CTL_DEL fd (some events) = (-1,some .ENOENT,h) := by
  rw [epollCtl, if_neg (by decide), if_pos rfl, hf]

private theorem epollCtl_delete (hf : h.find fd = some i) :
    epollCtl memmoveS h EPOLL_CTL_DEL fd (some events) =
      (0,none,{ (if i ≠ h.nodeCount - 1 then moveDown memmoveS h i else h) with nodeCount := h.nodeCount - 1 }) := by
  rw [epollCtl, if_neg (by decide), if_pos rfl, hf]
  by_cases hi : i ≠ h.nodeCount - 1
  · simp only [if_pos hi]
    rfl
  · simp only [if_neg hi]

private theorem epollCtl_modify_absent (hf : h.find fd = none) :
    epollCtl memmoveS h EPOLL_CTL_MOD fd (some events) = (-1,some .ENOENT,h) := by
  rw [epollCtl, if_neg (by decide), if_neg (by decide), if_pos rfl, hf]

private theorem epollCtl_modify (hf : h.find fd = some i) :
    epollCtl memmoveS h EPOLL_CTL_MOD fd (some events) = (0,none,h.setEvents i (watched events)) := by
  rw [epollCtl, if_neg (by decide), if_neg (by decide), if_pos rfl, hf]
  rfl

namespace Instance
variable {x : Instance} {ev : Option Events} {errno : Option Errno} {h' : EpollHead}

/-- An operation that fails, and should. -/
private theorem ctlLaw_of_fail (hret : epollCtl memmoveS x.head op fd (some events) = (-1,errno,x.head)) (hh : Holds x.head x.regs)
    (hs : ¬x.regs.Succeeds op fd) : x.CtlLaw memmoveS op fd (some events) := by
  rw [CtlLaw, hret]
  refine ⟨iff_of_false (show ¬(-1 : Int) = 0 by decide) hs,fun _ => ⟨rfl,rfl⟩,?_⟩
  rw [run]
  simp only [if_neg hs]
  exact hh

/-- An operation that returns 0 has to lead to what is registered then. -/
private theorem ctlLaw_of_ok (hret : epollCtl memmoveS x.head op fd (some events) = (0,errno,h')) :
    x.CtlLaw memmoveS op fd (some events) ↔ x.regs.Succeeds op fd ∧ Holds h' (x.regs.ctl op fd events) := by
  rw [CtlLaw, hret, run]
  constructor
  · rintro ⟨hs,_,hh⟩
    have hs := hs.mp rfl
    simp only [if_pos hs] at hh
    exact ⟨hs,hh⟩
  · rintro ⟨hs,hh⟩
    refine ⟨iff_of_true rfl hs,fun h0 => absurd rfl h0,?_⟩
    simp only [if_pos hs]
    exact hh

private theorem add_iff (hh : Holds x.head x.regs) :
    x.CtlLaw memmoveS EPOLL_CTL_ADD fd (some events) ↔ x.CtlOk EPOLL_CTL_ADD fd (some events) := by
  have hok : x.CtlOk EPOLL_CTL_ADD fd (some events) ↔ x.regs.Present fd ∨ x.head.nodeCount ≠ EPOLL_DEFAULT_SIZE :=
    ⟨fun h => h.1 rfl,fun h => ⟨fun _ => h,fun hc => absurd hc (by decide)⟩⟩
  have hfind := hh.find_isSome_iff fd
  rw [hok]
  by_cases hp : x.regs.Present fd
  · exact iff_of_true (ctlLaw_of_fail (epollCtl_add_present (hfind.mpr hp)) hh fun hs => (succeeds_add_iff.mp hs).1 hp) (.inl hp)
  · rw [or_iff_right hp]
    have hf := fun hc => hp (hfind.mp hc)
    by_cases hfull : x.head.nodeCount = EPOLL_DEFAULT_SIZE
    · refine iff_of_false (fun hlaw => ?_) (not_not.mpr hfull)
      rw [ctlLaw_of_ok (epollCtl_add_full hf hfull), succeeds_add_iff] at hlaw
      exact hlaw.1.2 (hh.length.trans hfull)
    · refine iff_of_true ?_ hfull
      rw [ctlLaw_of_ok (epollCtl_add hf hfull), succeeds_add_iff]
      exact ⟨⟨hp,fun hlen => hfull (hh.length.symm.trans hlen)⟩,hh.add hp (watched events)⟩

private theorem delete_iff (hm : Copies memmoveS EPOLL_DEFAULT_SIZE) (hh : Holds x.head x.regs) (hn : x.head.nodeCount ≤ EPOLL_DEFAULT_SIZE) :
    x.CtlLaw memmoveS EPOLL_CTL_DEL fd (some events) ↔ x.CtlOk EPOLL_CTL_DEL fd (some events) := by
  have hok : x.CtlOk EPOLL_CTL_DEL fd (some events) ↔ ∀ i, x.head.find fd = some i →
      i + 1 = x.head.nodeCount ∨ tornEntry x.head i = entryOf x.head.evs (x.head.nodeCount - 1) :=
    ⟨fun h => h.2 rfl,fun h => ⟨fun hc => absurd hc (by decide),fun _ => h⟩⟩
  have hfind := hh.find_isSome_iff fd
  rw [hok]
  cases hf : x.head.find fd with
  | none =>
    rw [hf] at hfind
    refine iff_of_true (ctlLaw_of_fail (epollCtl_delete_absent hf) hh fun hs => ?_) fun i hi => by cases hi
    exact absurd (hfind.mpr (succeeds_delete_iff.mp hs)) (by decide)
  | some i =>
    rw [hf] at hfind
    obtain ⟨hi,rfl⟩ := find_some hf
    rw [ctlLaw_of_ok (epollCtl_delete hf), succeeds_delete_iff, and_iff_right (hfind.mp rfl)]
    simp only [Option.some_inj, forall_eq']
    refine (hh.delete_iff hi).trans ?_
    by_cases hlast : i + 1 = x.head.nodeCount
    · refine iff_of_true ?_ (.inl hlast)
      simp only [if_neg (show ¬i ≠ x.head.nodeCount - 1 by omega)]
      exact entries_delete_last hlast ▸ List.Perm.refl _
    · rw [or_iff_right hlast]
      simp only [if_pos (show i ≠ x.head.nodeCount - 1 by omega)]
      exact entries_delete_middle hm hn (by omega)

private theorem modify_iff (hh : Holds x.head x.regs) :
    x.CtlLaw memmoveS EPOLL_CTL_MOD fd (some events) ↔ x.CtlOk EPOLL_CTL_MOD fd (some events) := by
  have hok : x.CtlOk EPOLL_CTL_MOD fd (some events) := ⟨fun hc => absurd hc (by decide),fun hc => absurd hc (by decide)⟩
  have hfind := hh.find_isSome_iff fd
  refine iff_of_true ?_ hok
  cases hf : x.head.find fd with
  | none =>
    rw [hf] at hfind
    refine ctlLaw_of_fail (epollCtl_modify_absent hf) hh fun hs => ?_
    exact absurd (hfind.mpr (succeeds_modify_iff.mp hs)) (by decide)
  | some i =>
    rw [hf] at hfind
    obtain ⟨hi,rfl⟩ := find_some hf
    rw [ctlLaw_of_ok (epollCtl_modify hf), succeeds_modify_iff]
    exact ⟨hfind.mp rfl,hh.modify hi (watched events)⟩

private theorem ctlLaw_iff (hm : Copies memmoveS EPOLL_DEFAULT_SIZE) (hh : Holds x.head x.regs) (hn : x.head.nodeCount ≤ EPOLL_DEFAULT_SIZE) :
    x.CtlLaw memmoveS op fd ev ↔ x.CtlOk op fd ev := by
  cases ev with
  | none =>
    rw [CtlLaw, CtlOk, epollCtl, run]
    have hret : ¬(-1 : Int) = 0 := by decide
    exact ⟨fun hlaw hs => hret (hlaw.1.mpr hs),fun hs => ⟨iff_of_false hret hs,fun _ => ⟨rfl,rfl⟩,hh⟩⟩
  | some events =>
    by_cases hadd : op = EPOLL_CTL_ADD
    · subst hadd
      exact add_iff hh
    by_cases hdel : op = EPOLL_CTL_DEL
    · subst hdel
      exact delete_iff hm hh hn
    by_cases hmod : op = EPOLL_CTL_MOD
    · subst hmod
      exact modify_iff hh
    -- no operation at all
    refine iff_of_true ?_ ⟨fun hc => absurd hc hadd,fun hc => absurd hc hdel⟩
    have hret : epollCtl memmoveS x.head op fd (some events) = (-1,some .EINVAL,x.head) := by
      rw [epollCtl, if_neg hadd, if_neg hdel, if_neg hmod]
    exact ctlLaw_of_fail hret hh fun hs => hs.elim (fun hs => hadd hs.1) fun hs => hs.1.elim hmod hdel

end Instance

-- What epoll_wait reports

private theorem isReady_iff {p : Pollfd} : p.isReady = true ↔ p.revents ≠ 0 := decide_eq_true_iff

private theorem collect_eq : ∀ pFd : List Pollfd, collect (pFd.countP Pollfd.isReady) pFd = pFd.filter Pollfd.isReady := by
  intro pFd
  induction pFd with
  | nil => rfl
  | cons p pFd ih =>
    by_cases hp : p.revents ≠ 0
    · have hready := isReady_iff.mpr hp
      rw [List.countP_cons_of_pos hready, List.filter_cons_of_pos hready, collect, if_pos hp, ih]
    · have hready : ¬p.isReady = true := fun hc => hp (isReady_iff.mp hc)
      rw [List.countP_cons_of_neg hready, List.filter_cons_of_neg hready, ← ih]
      cases pFd.countP Pollfd.isReady with
      | zero => cases pFd <;> rfl
      | succ n => rw [collect, if_neg hp]

/-- The number of entries that epoll_wait looks at. -/
def polled (h : EpollHead) (maxevents : Int) : Nat := if (h.nodeCount : Int) < maxevents then h.nodeCount else maxevents.toNat

private theorem lt_polled_iff {maxevents : Int} (hpos : 0 < maxevents) : i < polled h maxevents ↔ i < h.nodeCount ∧ (i : Int) < maxevents := by
  rw [polled]
  split_ifs <;> omega

/-- The entries it looks at that are ready. -/
def reported (h : EpollHead) (ready : Fd → BitVec 16 → BitVec 16) (maxevents : Int) : List Pollfd :=
  ((List.range (polled h maxevents)).map fun i => (⟨h.fd i,ready (h.fd i) ((h.events i).setWidth 16)⟩ : Pollfd)).filter Pollfd.isReady

variable {ready : Fd → BitVec 16 → BitVec 16} {maxevents : Int}

private theorem mem_reported (hpos : 0 < maxevents) {p : Pollfd} : p ∈ reported h ready maxevents ↔
    ∃ i, (i < h.nodeCount ∧ (i : Int) < maxevents) ∧ Ready ready (entryOf h.evs i) ∧
      p = ⟨h.fd i,ready (h.fd i) ((h.events i).setWidth 16)⟩ := by
  rw [reported, List.mem_filter, List.mem_map]
  constructor
  · rintro ⟨⟨i,hi,rfl⟩,hready⟩
    exact ⟨i,(lt_polled_iff hpos).mp (List.mem_range.mp hi),isReady_iff.mp hready,rfl⟩
  · rintro ⟨i,hi,hready,rfl⟩
    exact ⟨⟨i,List.mem_range.mpr ((lt_polled_iff hpos).mpr hi),rfl⟩,isReady_iff.mpr hready⟩

/-- With its buffers, epoll_wait reports them. -/
private theorem epollWait_eq (hpos : 0 < maxevents) :
    epollWait h (pollReady ready) true true maxevents = (((reported h ready maxevents).length : Int),none,reported h ready maxevents) := by
  have hargs : ¬(maxevents ≤ 0 ∨ true = false) := by
    rintro (hc | hc)
    · omega
    · cases hc
  have hmalloc : ¬true = false := by decide
  simp only [epollWait, if_neg hargs, if_neg hmalloc, pollReady, List.map_map]
  rw [← polled, reported]
  generalize hpFd : (List.range (polled h maxevents)).map ((fun p : Fd × BitVec 16 => (⟨p.1,ready p.1 p.2⟩ : Pollfd)) ∘
    fun i => (h.fd i,(h.events i).setWidth 16)) = pFd
  rw [show ((List.range (polled h maxevents)).map fun i => (⟨h.fd i,ready (h.fd i) ((h.events i).setWidth 16)⟩ : Pollfd)) = pFd from hpFd,
    Int.toNat_natCast, collect_eq]
  split_ifs with hnone
  · have hempty : pFd.filter Pollfd.isReady = [] := by
      rw [← List.length_eq_zero_iff, ← List.countP_eq_length_filter]
      omega
    rw [hempty]
    rfl
  · rfl

namespace Instance
variable {x : Instance} {evs malloc : Bool}

private theorem waitLaw_iff (hh : Holds x.head x.regs) :
    x.WaitLaw ready evs malloc maxevents ↔ x.WaitOk ready evs malloc maxevents := by
  rw [WaitLaw, WaitOk]
  refine forall_congr' fun hpos => forall_congr' fun _ => ?_
  cases evs with
  | false =>
    have hret : epollWait x.head (pollReady ready) false malloc maxevents = (-1,some .EINVAL,[]) := if_pos (.inr rfl)
    rw [hret]
    exact iff_of_false (fun hlaw => by cases hlaw.1) fun hok => by cases hok.1
  | true =>
    cases malloc with
    | false =>
      have hargs : ¬(maxevents ≤ 0 ∨ true = false) := by
        rintro (hc | hc)
        · omega
        · cases hc
      have hret : epollWait x.head (pollReady ready) true false maxevents = (-1,some .EINVAL,[]) := (if_neg hargs).trans (if_pos rfl)
      rw [hret]
      exact iff_of_false (fun hlaw => by cases hlaw.1) fun hok => by cases hok.2.1
    | true =>
      rw [epollWait_eq hpos]
      simp only [mem_reported hpos, true_and]
      constructor
      · rintro ⟨p,⟨i,hi,hready,_⟩,_⟩
        exact ⟨i,hi.1,hi.2,hready⟩
      · rintro ⟨i,hi,hmax,hready⟩
        exact ⟨_,⟨i,⟨hi,hmax⟩,hready,rfl⟩,entryOf x.head.evs i,hh.1.mem_iff.mp (List.mem_map_of_mem (List.mem_range.mpr hi)),hready,rfl⟩

/-- What is registered fits into the array. -/
private theorem length_run (hlen : x.regs.length ≤ EPOLL_DEFAULT_SIZE) : (x.run memmoveS (.ctl op fd ev)).regs.length ≤ EPOLL_DEFAULT_SIZE := by
  cases ev with
  | none => exact hlen
  | some events =>
    simp only [run]
    split_ifs with hs
    · rw [Regs.ctl]
      split_ifs with hadd hdel
      · subst hadd
        have hfull := (succeeds_add_iff.mp hs).2
        rw [List.length_append, List.length_singleton]
        omega
      · exact Nat.le_trans (List.length_filter_le ..) hlen
      · rwa [List.length_map]
    · exact hlen

end Instance

private theorem reachable_holds (hm : Copies memmoveS EPOLL_DEFAULT_SIZE) {x : Instance} (h : Reachable (epollSystem memmoveS) Instance.Ok x) :
    Holds x.head x.regs ∧ x.head.nodeCount ≤ EPOLL_DEFAULT_SIZE := by
  refine h.invariant (I := fun x => Holds x.head x.regs ∧ x.head.nodeCount ≤ EPOLL_DEFAULT_SIZE) (fun x hx => ?_) fun x c hi _ hok => ?_
  · obtain ⟨hn,hregs⟩ := hx
    rw [Holds, entries, hn, hregs]
    exact ⟨⟨List.Perm.refl _,List.nodup_nil⟩,Nat.zero_le _⟩
  · obtain ⟨hh,hn⟩ := hi
    cases c with
    | wait => exact ⟨hh,hn⟩
    | ctl op fd ev =>
      have hlaw : x.CtlLaw memmoveS op fd ev := (Instance.ctlLaw_iff hm hh hn).mpr hok
      have hrun : Holds (x.run memmoveS (.ctl op fd ev)).head (x.run memmoveS (.ctl op fd ev)).regs := hlaw.2.2
      exact ⟨hrun,hrun.length ▸ Instance.length_run (hh.length ▸ hn)⟩

/-- Along any run whose calls meet the condition, a call does what a map from descriptors to events would do iff it meets the condition. -/
theorem epoll_law_iff (hm : Copies memmoveS EPOLL_DEFAULT_SIZE) {x : Instance} (h : Reachable (epollSystem memmoveS) Instance.Ok x)
    (c : EpollCall) : x.Law memmoveS c ↔ x.Ok c := by
  obtain ⟨hh,hn⟩ := reachable_holds hm h
  cases c with
  | ctl op fd ev => exact Instance.ctlLaw_iff hm hh hn
  | wait ready evs malloc maxevents => exact Instance.waitLaw_iff hh

/-- memmove_s. -/
def memmoveTest (destMax : Nat) (src : List UInt8) : Int × List UInt8 := if src.length ≤ destMax then (0,src) else (34,[])

private theorem copies_memmoveTest : Copies memmoveTest EPOLL_DEFAULT_SIZE := fun _ _ _ _ hlen => if_pos hlen

/-- The descriptors of a list, each added with the event 1. -/
def adds (fds : List Fd) (x : Instance) : Instance :=
  fds.foldl (fun x fd => x.run memmoveTest (.ctl EPOLL_CTL_ADD fd (some 1))) x

def added (fds : List Fd) : Instance := adds fds ⟨⟨0,fun _ => 0⟩,[]⟩

/-- As long as the array is not full, descriptors can be added. -/
private theorem reachable_adds (fds : List Fd) {x : Instance} (h : Reachable (epollSystem memmoveTest) Instance.Ok x)
    (hlen : x.regs.length + fds.length ≤ EPOLL_DEFAULT_SIZE) : Reachable (epollSystem memmoveTest) Instance.Ok (adds fds x) := by
  induction fds generalizing x with
  | nil => exact h
  | cons fd fds ih =>
    rw [List.length_cons] at hlen
    have hn := (reachable_holds copies_memmoveTest h).1.length
    refine ih (h.call (.ctl EPOLL_CTL_ADD fd (some 1)) trivial ?_) ?_
    · exact ⟨fun _ => .inr (by omega),fun hc => absurd hc (by decide)⟩
    · simp only [Instance.run]
      split_ifs
      · rw [Regs.ctl, if_pos rfl, List.length_append, List.length_singleton]
        omega
      · omega

private theorem reachable_added (fds : List Fd) (hlen : fds.length ≤ EPOLL_DEFAULT_SIZE) :
    Reachable (epollSystem memmoveTest) Instance.Ok (added fds) :=
  reachable_adds fds (.init ⟨rfl,rfl⟩) (Nat.le_trans (Nat.le_of_eq (Nat.zero_add _)) hlen)

/-- Of three descriptors the last one is deleted, while the move for the first one tears its entry. Of nine descriptors the first
one is deleted by the move of nine bytes, which makes its entry that of the last one. -/
theorem epoll_law_delete : (added [5,6,7]).Law memmoveTest (.ctl EPOLL_CTL_DEL 7 (some 0)) ∧
    ¬(added [5,6,7]).Law memmoveTest (.ctl EPOLL_CTL_DEL 5 (some 0)) ∧
    (added [256,5,1,2,3,4,6,7,261]).Law memmoveTest (.ctl EPOLL_CTL_DEL 256 (some 0)) := by
  have hthree := epoll_law_iff copies_memmoveTest (reachable_added [5,6,7] (by decide))
  have hnine := epoll_law_iff copies_memmoveTest (reachable_added [256,5,1,2,3,4,6,7,261] (by decide))
  refine ⟨(hthree _).mpr ⟨fun hc => absurd hc (by decide),fun _ i hi => ?_⟩,fun hlaw => ?_,
    (hnine _).mpr ⟨fun hc => absurd hc (by decide),fun _ i hi => ?_⟩⟩
  · obtain rfl : 2 = i := Option.some.inj ((show some 2 = (added [5,6,7]).head.find 7 by decide +kernel).trans hi)
    exact .inl (by decide +kernel)
  · exact absurd (((hthree _).mp hlaw).2 rfl 0 (by decide +kernel)) (by decide +kernel)
  · obtain rfl : 0 = i := Option.some.inj ((show some 0 = (added [256,5,1,2,3,4,6,7,261]).head.find 256 by decide +kernel).trans hi)
    exact .inr (by decide +kernel)

/-- Two descriptors, the first of which is deleted. -/
theorem epoll_delete_first : ∃ x, Reachable (epollSystem memmoveTest) Instance.Ok x ∧ ¬x.Law memmoveTest (.ctl EPOLL_CTL_DEL 5 (some 0)) := by
  have htwo := reachable_added [5,6] (by decide)
  refine ⟨_,htwo,fun hlaw => ?_⟩
  obtain ⟨hh,hn⟩ := reachable_holds copies_memmoveTest htwo
  have hok := ((Instance.ctlLaw_iff copies_memmoveTest hh hn).mp hlaw).2 rfl 0 (by decide)
  revert hok
  decide

end LiteOsKernel.Epoll
