import LiteOsKernel.Vm.Shm
import LiteOsKernel.Lib.Run
import Mathlib.Algebra.BigOperators.Group.Finset.Basic
import Mathlib.Algebra.BigOperators.Ring.Finset
import Mathlib.Algebra.Order.BigOperators.Group.Finset
import Mathlib.Tactic.Linarith

/-! The accounting of shared memory over every run of its calls: pages, quotas and keys. -/
namespace LiteOsKernel.Vm.Shm

/-- The pages of a segment that is not free. -/
def livePages (seg : ShmIDSource) : Nat := if seg.status.free then 0 else seg.segsz >>> PAGE_SHIFT

/-- The bytes of a segment that is not free and whose creator is one of P. -/
def liveBytes (P : Nat → Bool) (seg : ShmIDSource) : Nat := if seg.status.free then 0 else if P seg.cpid then seg.segsz else 0

namespace ShmState

/-- The sum over the segments. -/
def total (s : ShmState) (f : ShmIDSource → Nat) : Nat := ∑ i ∈ Finset.range SHM_MNI, f (s.segs i)

/-- The page count and the quotas are those of the live segments, and a key other than the private one is used once. -/
structure Accounted (s : ShmState) : Prop where
  pages : s.usedPageCount = s.total livePages
  shmall : s.usedPageCount ≤ SHM_ALL
  quota : ∀ p, s.limitStat p = s.total (liveBytes fun q => q = p)
  limiter : ∀ l, (s.limits l).shmSize = s.total (liveBytes fun q => s.plimits q = l)
  unique : ∀ i < SHM_MNI, ∀ j < SHM_MNI, (s.segs i).status.used = true → (s.segs j).status.used = true →
    (s.segs i).key = (s.segs j).key → (s.segs i).key ≠ IPC_PRIVATE → i = j

/-- A segment is free and without pages, or used with its pages, and attached if it is to be removed. -/
def Sound (seg : ShmIDSource) : Prop :=
  seg.status = SHM_SEG_FREE ∧ seg.node = 0 ∨
    0 < seg.node ∧ seg.node ≤ SHM_ALL ∧ seg.segsz = seg.node*PAGE_SIZE ∧ seg.status.free = false ∧ seg.status.used = true ∧
      (seg.status.remove = true → 0 < seg.nattch)

structure Good (s : ShmState) : Prop extends Accounted s where
  sound : ∀ i < SHM_MNI, Sound (s.segs i)

/-- Segments, page count and quotas are the same in both states. -/
structure Unchanged (s s' : ShmState) : Prop where
  segs : s'.segs = s.segs
  usedPageCount : s'.usedPageCount = s.usedPageCount
  limitStat : s'.limitStat = s.limitStat
  limits : ∀ l, (s'.limits l).shmSize = (s.limits l).shmSize
  plimits : s'.plimits = s.plimits

variable {s s' : ShmState} {c : Caller} {i j : Nat} {seg : ShmIDSource} {f : ShmIDSource → Nat} {P : Nat → Bool}

theorem Unchanged.refl (s : ShmState) : Unchanged s s := ⟨rfl,rfl,rfl,fun _ => rfl,rfl⟩

theorem Unchanged.total (h : Unchanged s s') (f : ShmIDSource → Nat) : s'.total f = s.total f := by
  rw [ShmState.total, h.segs, ShmState.total]

theorem Unchanged.good (h : Unchanged s s') (hg : Good s) : Good s' := by
  refine ⟨⟨?_,?_,fun p => ?_,fun l => ?_,?_⟩,?_⟩
  · rw [h.total, h.usedPageCount, hg.pages]
  · rw [h.usedPageCount]
    exact hg.shmall
  · rw [h.total, h.limitStat, hg.quota]
  · rw [h.total, h.limits, h.plimits, hg.limiter]
  · rw [h.segs]
    exact hg.unique
  · rw [h.segs]
    exact hg.sound

@[simp] theorem segs_setSeg_self : (s.setSeg i seg).segs i = seg := by
  simp only [setSeg, Function.update_self]

private theorem segs_setSeg_ne (h : j ≠ i) : (s.setSeg i seg).segs j = s.segs j := by
  simp only [setSeg, Function.update_of_ne h]

private theorem total_setSeg (s : ShmState) (seg : ShmIDSource) (hi : i < SHM_MNI) (f : ShmIDSource → Nat) :
    (s.setSeg i seg).total f + f (s.segs i) = s.total f + f seg := by
  have hmem : i ∈ Finset.range SHM_MNI := Finset.mem_range.mpr hi
  have hsame : ∑ j ∈ (Finset.range SHM_MNI).erase i, f ((s.setSeg i seg).segs j) = ∑ j ∈ (Finset.range SHM_MNI).erase i, f (s.segs j) :=
    Finset.sum_congr rfl fun j hj => by rw [segs_setSeg_ne (Finset.ne_of_mem_erase hj)]
  rw [total, ← Finset.add_sum_erase _ _ hmem, segs_setSeg_self, hsame, total, ← Finset.add_sum_erase _ _ hmem]
  omega

theorem Sound.live (h : Sound seg) (hf : seg.status.free = false) : 0 < seg.node ∧ seg.node ≤ SHM_ALL ∧ seg.segsz = seg.node*PAGE_SIZE ∧
    seg.status.used = true ∧ (seg.status.remove = true → 0 < seg.nattch) := by
  rcases h with ⟨h,-⟩ | ⟨h1,h2,h3,-,h5,h6⟩
  · rw [h] at hf
    cases hf
  · exact ⟨h1,h2,h3,h5,h6⟩

theorem Sound.free (h : Sound seg) (hf : seg.status.free = true) : seg.status = SHM_SEG_FREE ∧ seg.node = 0 := by
  rcases h with h | ⟨-,-,-,h4,-⟩
  · exact h
  · rw [h4] at hf
    cases hf

private theorem pages_shift (n : Nat) : (n*PAGE_SIZE) >>> PAGE_SHIFT = n := by
  rw [Nat.shiftRight_eq_div_pow]
  exact Nat.mul_div_cancel n (by decide)

theorem Sound.bytes_le (h : Sound seg) (P : Nat → Bool) : liveBytes P seg ≤ livePages seg*PAGE_SIZE := by
  rw [liveBytes, livePages]
  cases hf : seg.status.free with
  | true => exact Nat.zero_le _
  | false =>
    rw [if_neg Bool.false_ne_true, if_neg Bool.false_ne_true, (h.live hf).2.2.1, pages_shift]
    split
    · exact Nat.le_refl _
    · exact Nat.zero_le _

/-- What is charged fits a word with room to spare. -/
theorem Good.bytes_le (hg : Good s) (P : Nat → Bool) : s.total (liveBytes P) ≤ SHM_MAX := by
  calc s.total (liveBytes P) ≤ ∑ i ∈ Finset.range SHM_MNI, livePages (s.segs i)*PAGE_SIZE :=
        Finset.sum_le_sum fun i hi => (hg.sound i (Finset.mem_range.mp hi)).bytes_le P
    _ = s.total livePages*PAGE_SIZE := (Finset.sum_mul ..).symm
    _ ≤ SHM_MAX := by
      rw [← hg.pages]
      exact Nat.mul_le_mul_right _ hg.shmall

private theorem Good.limitStat_le (hg : Good s) (p : Nat) : s.limitStat p ≤ SHM_MAX := by
  rw [hg.quota]
  exact hg.bytes_le _

private theorem Good.limits_le (hg : Good s) (l : Nat) : (s.limits l).shmSize ≤ SHM_MAX := by
  rw [hg.limiter]
  exact hg.bytes_le _

/-- A change that keeps what is charged for a segment. -/
theorem Good.setSeg (hg : Good s) (hi : i < SHM_MNI) (hf : seg.status.free = (s.segs i).status.free) (hz : seg.segsz = (s.segs i).segsz)
    (hc : seg.cpid = (s.segs i).cpid) (hk : seg.key = (s.segs i).key) (hu : seg.status.used = (s.segs i).status.used)
    (hs : Sound seg) : Good (s.setSeg i seg) := by
  have htotal : ∀ f, f seg = f (s.segs i) → (s.setSeg i seg).total f = s.total f := by
    intro f h
    have := total_setSeg s seg hi f
    omega
  have hbytes : ∀ P, liveBytes P seg = liveBytes P (s.segs i) := fun P => by rw [liveBytes, liveBytes, hf, hz, hc]
  have hused : ∀ j, ((s.setSeg i seg).segs j).status.used = (s.segs j).status.used := by
    intro j
    by_cases h : j = i
    · rw [h, segs_setSeg_self, hu]
    · rw [segs_setSeg_ne h]
  have hkey : ∀ j, ((s.setSeg i seg).segs j).key = (s.segs j).key := by
    intro j
    by_cases h : j = i
    · rw [h, segs_setSeg_self, hk]
    · rw [segs_setSeg_ne h]
  refine ⟨⟨?_,hg.shmall,fun p => ?_,fun l => ?_,?_⟩,fun j hj => ?_⟩
  · rw [htotal _ (by rw [livePages, livePages, hf, hz])]
    exact hg.pages
  · rw [htotal _ (hbytes _)]
    exact hg.quota p
  · rw [htotal _ (hbytes _)]
    exact hg.limiter l
  · simp only [hused, hkey]
    exact hg.unique
  · by_cases h : j = i
    · rw [h, segs_setSeg_self]
      exact hs
    · rw [segs_setSeg_ne h]
      exact hg.sound j hj

/-- A request gets past the checks of its size, of the page count and of the quota. -/
def Asks (s : ShmState) (c : Caller) (size : Nat) : Prop :=
  ¬ (size = 0 ∨ size < SHM_MIN ∨ SHM_MAX < size) ∧ ¬ SHM_ALL < Word.add s.usedPageCount (losAlign size PAGE_SIZE >>> PAGE_SHIFT) ∧
    ¬ (s.limits (s.plimits c.pid)).shmSizeLimit ≤ Word.add (s.limits (s.plimits c.pid)).shmSize (losAlign size PAGE_SIZE)

/-- A size in range is rounded up to a positive number of pages. -/
private theorem losAlign_page {size : Nat} (h : ¬ (size = 0 ∨ size < SHM_MIN ∨ SHM_MAX < size)) :
    ∃ n, 0 < n ∧ n ≤ SHM_ALL ∧ losAlign size PAGE_SIZE = n*PAGE_SIZE := by
  rw [not_or, not_or, SHM_MAX, PAGE_SIZE] at h
  refine ⟨(size + 2^12 - 1)/2^12,by omega,?_,losAlign_two_pow (k := 12) (by decide) (by decide) (by omega)⟩
  rw [SHM_ALL]
  omega

theorem Asks.alloc {size : Nat} (h : Asks s c size) : s.osIPCLimitShmAlloc c (losAlign size PAGE_SIZE) =
    (true,{ s with
      limitStat := Function.update s.limitStat c.pid (Word.add (s.limitStat c.pid) (losAlign size PAGE_SIZE))
      limits := Function.update s.limits (s.plimits c.pid) { s.limits (s.plimits c.pid) with
        shmSize := Word.add (s.limits (s.plimits c.pid)).shmSize (losAlign size PAGE_SIZE) } }) := by
  rw [osIPCLimitShmAlloc]
  exact if_neg h.2.2

private theorem shmAllocSeg_refused (key : Int) {size : Nat} (shmflg pages : Nat) (h : ¬ Asks s c size) :
    ∃ e, (s.shmAllocSeg c key size shmflg pages).1 = .error e ∧ Unchanged s (s.shmAllocSeg c key size shmflg pages).2 := by
  rw [shmAllocSeg, shmAllocSegCheck]
  by_cases h1 : size = 0 ∨ size < SHM_MIN ∨ SHM_MAX < size
  · rw [if_pos h1]
    exact ⟨_,rfl,.refl s⟩
  rw [if_neg h1]
  by_cases h2 : SHM_ALL < Word.add s.usedPageCount (losAlign size PAGE_SIZE >>> PAGE_SHIFT)
  · simp only [if_pos h2]
    exact ⟨_,rfl,.refl s⟩
  simp only [if_neg h2]
  have h3 : (s.limits (s.plimits c.pid)).shmSizeLimit ≤ Word.add (s.limits (s.plimits c.pid)).shmSize (losAlign size PAGE_SIZE) :=
    not_not.mp fun h3 => h ⟨h1,h2,h3⟩
  simp only [osIPCLimitShmAlloc, if_pos h3]
  refine ⟨_,rfl,rfl,rfl,rfl,fun l => ?_,rfl⟩
  by_cases hl : l = s.plimits c.pid
  · simp only [hl, Function.update_self]
  · simp only [Function.update_of_ne hl]

private theorem shmAllocSeg_full {key : Int} {size shmflg pages : Nat} (h : Asks s c size) (hf : s.findFree = none) :
    s.shmAllocSeg c key size shmflg pages = (.error ENOSPC,(s.osIPCLimitShmAlloc c (losAlign size PAGE_SIZE)).2) := by
  rw [shmAllocSeg, shmAllocSegCheck, if_neg h.1]
  simp only [if_neg h.2.1, h.alloc]
  have hsame : findFree { s with
      limitStat := Function.update s.limitStat c.pid (Word.add (s.limitStat c.pid) (losAlign size PAGE_SIZE))
      limits := Function.update s.limits (s.plimits c.pid) { s.limits (s.plimits c.pid) with
        shmSize := Word.add (s.limits (s.plimits c.pid)).shmSize (losAlign size PAGE_SIZE) } } = none := hf
  simp only [hsame]

private theorem findFree_some (h : s.findFree = some i) : i < SHM_MNI ∧ (s.segs i).status.free = true :=
  ⟨List.mem_range.mp (List.mem_of_find?_eq_some h),List.find?_some (p := fun i => (s.segs i).status.free) h⟩

/-- With too few pages the request leaves everything as it was. -/
private theorem shmAllocSeg_short (key : Int) {size pages : Nat} (shmflg : Nat) (hg : Good s) (h : Asks s c size) (hf : s.findFree = some i)
    (hp : min pages (losAlign size PAGE_SIZE >>> PAGE_SHIFT) ≠ losAlign size PAGE_SIZE >>> PAGE_SHIFT) :
    (s.shmAllocSeg c key size shmflg pages).1 = .error ENOMEM ∧ Unchanged s (s.shmAllocSeg c key size shmflg pages).2 := by
  obtain ⟨hi,hfree⟩ := findFree_some hf
  obtain ⟨hst,hnode⟩ := (hg.sound i hi).free hfree
  have hfound : findFree { s with
      limitStat := Function.update s.limitStat c.pid (Word.add (s.limitStat c.pid) (losAlign size PAGE_SIZE))
      limits := Function.update s.limits (s.plimits c.pid) { s.limits (s.plimits c.pid) with
        shmSize := Word.add (s.limits (s.plimits c.pid)).shmSize (losAlign size PAGE_SIZE) } } = some i := hf
  rw [shmAllocSeg, shmAllocSegCheck, if_neg h.1]
  simp only [if_neg h.2.1, h.alloc, hfound, if_pos hp]
  obtain ⟨n,-,hn,hsize⟩ := losAlign_page h.1
  have hword : ∀ x ≤ SHM_MAX, Word.sub (Word.add x (losAlign size PAGE_SIZE)) (losAlign size PAGE_SIZE) = x := by
    intro x hx
    rw [SHM_ALL] at hn
    rw [SHM_MAX, PAGE_SIZE] at hx
    rw [hsize, PAGE_SIZE, Word.add_eq (by omega), Word.sub_eq (by omega), Nat.add_sub_cancel]
  refine ⟨trivial,?_,rfl,?_,fun l => ?_,rfl⟩
  · funext j
    by_cases hj : j = i
    · simp only [osIPCLimitShmFree, ShmState.setSeg, hj, Function.update_self, ← hst, ← hnode]
    · simp only [osIPCLimitShmFree, ShmState.setSeg, Function.update_of_ne hj]
  · funext p
    by_cases hp : p = c.pid
    · simp only [osIPCLimitShmFree, ShmState.setSeg, hp, Function.update_self, hword _ (hg.limitStat_le _)]
    · simp only [osIPCLimitShmFree, ShmState.setSeg, Function.update_of_ne hp]
  · by_cases hl : l = s.plimits c.pid
    · simp only [osIPCLimitShmFree, ShmState.setSeg, hl, Function.update_self, hword _ (hg.limits_le _)]
    · simp only [osIPCLimitShmFree, ShmState.setSeg, Function.update_of_ne hl]

/-- The segment that a request makes. -/
def newSeg (c : Caller) (key : Int) (size shmflg : Nat) : ShmIDSource :=
  { key := key, uid := c.uid, gid := c.gid, cuid := c.uid, cgid := c.gid, mode := shmflg &&& ACCESSPERMS, segsz := size, cpid := c.pid,
    nattch := 0, status := ⟨false,true,false⟩, node := size >>> PAGE_SHIFT }

/-- The state with a new segment at a free place. -/
def withNew (s : ShmState) (c : Caller) (i size : Nat) (seg : ShmIDSource) : ShmState :=
  { segs := Function.update s.segs i seg
    usedPageCount := Word.add s.usedPageCount (size >>> PAGE_SHIFT)
    limitStat := Function.update s.limitStat c.pid (Word.add (s.limitStat c.pid) size)
    limits := Function.update s.limits (s.plimits c.pid) { s.limits (s.plimits c.pid) with
      shmSize := Word.add (s.limits (s.plimits c.pid)).shmSize size }
    plimits := s.plimits }

private theorem shmAllocSeg_new {key : Int} {size shmflg pages : Nat} (hg : Good s) (h : Asks s c size) (hf : s.findFree = some i)
    (hp : min pages (losAlign size PAGE_SIZE >>> PAGE_SHIFT) = losAlign size PAGE_SIZE >>> PAGE_SHIFT) :
    s.shmAllocSeg c key size shmflg pages =
      (.id i,s.withNew c i (losAlign size PAGE_SIZE) (newSeg c key (losAlign size PAGE_SIZE) shmflg)) := by
  obtain ⟨hi,hfree⟩ := findFree_some hf
  obtain ⟨hst,hnode⟩ := (hg.sound i hi).free hfree
  have hfound : findFree { s with
      limitStat := Function.update s.limitStat c.pid (Word.add (s.limitStat c.pid) (losAlign size PAGE_SIZE))
      limits := Function.update s.limits (s.plimits c.pid) { s.limits (s.plimits c.pid) with
        shmSize := Word.add (s.limits (s.plimits c.pid)).shmSize (losAlign size PAGE_SIZE) } } = some i := hf
  rw [shmAllocSeg, shmAllocSegCheck, if_neg h.1]
  simp only [if_neg h.2.1, h.alloc, hfound, hp, ne_eq, not_true_eq_false, if_false, ShmState.setSeg, Function.update_idem,
    Function.update_self, hst, hnode, SHM_SEG_FREE, Nat.zero_add, withNew, newSeg]

private theorem total_withNew (s : ShmState) (c : Caller) (size : Nat) (seg : ShmIDSource) (hi : i < SHM_MNI) (f : ShmIDSource → Nat) :
    (s.withNew c i size seg).total f + f (s.segs i) = s.total f + f seg := total_setSeg s seg hi f

private theorem Good.withNew {key : Int} {n size shmflg : Nat} (hg : Good s) (hf : s.findFree = some i) (hn0 : 0 < n) (hn : n ≤ SHM_ALL)
    (hsize : size = n*PAGE_SIZE) (hpages : ¬ SHM_ALL < Word.add s.usedPageCount (size >>> PAGE_SHIFT))
    (hkey : key ≠ IPC_PRIVATE → s.shmFindSegByKey key = none) : Good (s.withNew c i size (newSeg c key size shmflg)) := by
  obtain ⟨hi,hfree⟩ := findFree_some hf
  have hshift : size >>> PAGE_SHIFT = n := by rw [hsize, pages_shift]
  have hused : Word.add s.usedPageCount n = s.usedPageCount + n := by
    have := hg.shmall
    rw [SHM_ALL] at this hn
    exact Word.add_eq (by omega)
  have hword : ∀ x ≤ SHM_MAX, Word.add x size = x + size := by
    intro x hx
    rw [SHM_ALL] at hn
    rw [SHM_MAX, PAGE_SIZE] at hx
    rw [hsize, PAGE_SIZE]
    exact Word.add_eq (by omega)
  have hcount : (s.withNew c i size (newSeg c key size shmflg)).usedPageCount = Word.add s.usedPageCount n :=
    congrArg (Word.add s.usedPageCount) hshift
  have hpage0 : livePages (s.segs i) = 0 := if_pos hfree
  have hbyte0 : ∀ P, liveBytes P (s.segs i) = 0 := fun P => if_pos hfree
  have hpage1 : livePages (newSeg c key size shmflg) = n := hshift
  have hbyte1 : ∀ P, liveBytes P (newSeg c key size shmflg) = if P c.pid then size else 0 := fun P => rfl
  have hold : ∀ j, j ≠ i → (s.withNew c i size (newSeg c key size shmflg)).segs j = s.segs j := fun j hj => Function.update_of_ne hj _ _
  have hnew : (s.withNew c i size (newSeg c key size shmflg)).segs i = newSeg c key size shmflg := Function.update_self _ _ _
  have hother : ∀ j < SHM_MNI, (s.segs j).status.used = true → (s.segs j).key = key → key = IPC_PRIVATE := by
    intro j hj hu hk
    by_contra hpriv
    have := List.find?_eq_none.mp (hkey hpriv) j (List.mem_range.mpr hj)
    rw [hu, hk, Bool.true_and, decide_eq_true_eq] at this
    exact this rfl
  refine ⟨⟨?_,?_,fun p => ?_,fun l => ?_,?_⟩,fun j hj => ?_⟩
  · have htotal := total_withNew s c size (newSeg c key size shmflg) hi livePages
    rw [hpage0, hpage1, Nat.add_zero, ← hg.pages] at htotal
    rw [htotal, hcount, hused]
  · rw [hshift, ← hcount] at hpages
    exact not_lt.mp hpages
  · have htotal := total_withNew s c size (newSeg c key size shmflg) hi (liveBytes fun q => q = p)
    rw [hbyte0, hbyte1, Nat.add_zero, ← hg.quota] at htotal
    simp only [decide_eq_true_eq] at htotal
    rw [htotal, ShmState.withNew]
    by_cases hp : p = c.pid
    · simp only [hp, Function.update_self, if_true, hword _ (hg.limitStat_le _)]
    · simp only [Function.update_of_ne hp, if_neg (Ne.symm hp), Nat.add_zero]
  · have htotal := total_withNew s c size (newSeg c key size shmflg) hi
      (liveBytes fun q => s.plimits q = l)
    rw [hbyte0, hbyte1, Nat.add_zero, ← hg.limiter] at htotal
    simp only [decide_eq_true_eq] at htotal
    have hplim : (s.withNew c i size (newSeg c key size shmflg)).plimits = s.plimits := rfl
    rw [hplim, htotal, ShmState.withNew]
    by_cases hl : l = s.plimits c.pid
    · simp only [hl, Function.update_self, if_true, hword _ (hg.limits_le _)]
    · simp only [Function.update_of_ne hl, if_neg (Ne.symm hl), Nat.add_zero]
  · intro j hj k hk huj huk hjk hpriv
    by_cases h1 : j = i
    · by_cases h2 : k = i
      · rw [h1, h2]
      · rw [hold k h2] at huk hjk
        rw [h1, hnew] at hjk hpriv
        exact absurd (hother k hk huk hjk.symm) hpriv
    · rw [hold j h1] at huj hjk hpriv
      by_cases h2 : k = i
      · rw [h2, hnew] at hjk
        rw [hjk] at hpriv
        exact absurd (hother j hj huj hjk) hpriv
      · rw [hold k h2] at huk hjk
        exact hg.unique j hj k hk huj huk hjk hpriv
  · by_cases h : j = i
    · rw [h, hnew]
      refine Or.inr ⟨?_,?_,?_,rfl,rfl,fun h => by cases h⟩
      · exact hn0.trans_eq hshift.symm
      · exact hshift.trans_le hn
      · exact hsize.trans (congrArg (· * PAGE_SIZE) hshift.symm)
    · rw [hold j h]
      exact hg.sound j hj

/-- The state with the segment at a place given back by a process. -/
def withFree (s : ShmState) (c : Caller) (i : Nat) (seg : ShmIDSource) : ShmState :=
  { segs := Function.update s.segs i { seg with status := SHM_SEG_FREE, node := 0 }
    usedPageCount := Word.sub s.usedPageCount (seg.segsz >>> PAGE_SHIFT)
    limitStat := Function.update s.limitStat c.pid (Word.sub (s.limitStat c.pid) seg.segsz)
    limits := Function.update s.limits (s.plimits c.pid) { s.limits (s.plimits c.pid) with
      shmSize := Word.sub (s.limits (s.plimits c.pid)).shmSize seg.segsz }
    plimits := s.plimits }

private theorem shmFreeSeg_eq (s : ShmState) (c : Caller) (i : Nat) (seg : ShmIDSource) (h : seg.node = seg.segsz >>> PAGE_SHIFT) :
    (s.setSeg i seg).shmFreeSeg c i = s.withFree c i seg := by
  rw [shmFreeSeg, segs_setSeg_self]
  simp only [h, ne_eq, not_true_eq_false, if_false, osIPCLimitShmFree, ShmState.setSeg, Function.update_idem, withFree]

private theorem total_withFree (s : ShmState) (c : Caller) (seg : ShmIDSource) (hi : i < SHM_MNI) (f : ShmIDSource → Nat)
    (h0 : f { seg with status := SHM_SEG_FREE, node := 0 } = 0) :
    (s.withFree c i seg).total f + f (s.segs i) = s.total f := by
  have := total_setSeg s { seg with status := SHM_SEG_FREE, node := 0 } hi f
  rw [h0, Nat.add_zero] at this
  exact this

private theorem Good.withFree (hg : Good s) (hi : i < SHM_MNI) (hlive : (s.segs i).status.free = false) (hz : seg.segsz = (s.segs i).segsz)
    (hown : (s.segs i).cpid = c.pid) : Good (s.withFree c i seg) := by
  obtain ⟨hn0,hn,hsize,-⟩ := (hg.sound i hi).live hlive
  have hpage : livePages (s.segs i) = seg.segsz >>> PAGE_SHIFT := by rw [livePages, if_neg (by rw [hlive]; decide), hz]
  have hbyte : ∀ P : Nat → Bool, liveBytes P (s.segs i) = if P c.pid then seg.segsz else 0 := fun P => by
    rw [liveBytes, if_neg (by rw [hlive]; decide), hown, hz]
  have hold : ∀ j, j ≠ i → (s.withFree c i seg).segs j = s.segs j := fun j hj => Function.update_of_ne hj _ _
  have hnew : (s.withFree c i seg).segs i = { seg with status := SHM_SEG_FREE, node := 0 } := Function.update_self _ _ _
  have hused : ∀ j, ((s.withFree c i seg).segs j).status.used = true → j ≠ i := by
    rintro j hj rfl
    rw [hnew] at hj
    cases hj
  refine ⟨⟨?_,?_,fun p => ?_,fun l => ?_,?_⟩,fun j hj => ?_⟩
  · have htotal := total_withFree s c seg hi livePages rfl
    rw [hpage, ← hg.pages] at htotal
    rw [ShmState.withFree, Word.sub_eq (by omega)]
    exact (Nat.eq_sub_of_add_eq htotal).symm
  · have htotal := total_withFree s c seg hi livePages rfl
    have hmax := hg.shmall
    rw [hpage, ← hg.pages] at htotal
    rw [ShmState.withFree, Word.sub_eq (by omega)]
    exact (Nat.sub_le _ _).trans hmax
  · have htotal := total_withFree s c seg hi (liveBytes fun q => q = p) rfl
    rw [hbyte, ← hg.quota] at htotal
    simp only [decide_eq_true_eq] at htotal
    by_cases hp : p = c.pid
    · rw [if_pos hp.symm] at htotal
      simp only [ShmState.withFree, hp, Function.update_self] at htotal ⊢
      rw [Word.sub_eq (by omega)]
      exact (Nat.eq_sub_of_add_eq htotal).symm
    · rw [if_neg (Ne.symm hp), Nat.add_zero] at htotal
      rw [htotal]
      exact Function.update_of_ne hp _ _
  · have htotal := total_withFree s c seg hi (liveBytes fun q => s.plimits q = l) rfl
    rw [hbyte, ← hg.limiter] at htotal
    simp only [decide_eq_true_eq] at htotal
    by_cases hl : l = s.plimits c.pid
    · rw [if_pos hl.symm] at htotal
      simp only [ShmState.withFree, hl, Function.update_self] at htotal ⊢
      rw [Word.sub_eq (by omega)]
      exact (Nat.eq_sub_of_add_eq htotal).symm
    · rw [if_neg (Ne.symm hl), Nat.add_zero] at htotal
      have hplim : (s.withFree c i seg).plimits = s.plimits := rfl
      rw [hplim, htotal, ShmState.withFree]
      simp only [Function.update_of_ne hl]
  · intro j hj k hk huj huk hjk hpriv
    have hji := hused j huj
    have hki := hused k huk
    rw [hold j hji] at huj hjk hpriv
    rw [hold k hki] at huk hjk
    exact hg.unique j hj k hk huj huk hjk hpriv
  · by_cases h : j = i
    · rw [h, hnew]
      exact Or.inl ⟨rfl,rfl⟩
    · rw [hold j h]
      exact hg.sound j hj

/-- Given back by another process, the segment stays charged to its creator, and the other process is credited for it. -/
private theorem not_accounted_withFree (hg : Good s) (hi : i < SHM_MNI) (hlive : (s.segs i).status.free = false)
    (hz : seg.segsz = (s.segs i).segsz) (hown : (s.segs i).cpid ≠ c.pid) : ¬ Accounted (s.withFree c i seg) := by
  intro ha
  obtain ⟨hn0,hn,hsize,-⟩ := (hg.sound i hi).live hlive
  have hbyte : liveBytes (fun q => q = c.pid) (s.segs i) = 0 := by
    rw [liveBytes, if_neg (by rw [hlive]; decide), if_neg (by rw [decide_eq_true_eq]; exact hown)]
  have htotal := total_withFree s c seg hi (liveBytes fun q => q = c.pid) rfl
  rw [hbyte, ← hg.quota, ← ha.quota, Nat.add_zero] at htotal
  have hsub : Word.sub (s.limitStat c.pid) seg.segsz = s.limitStat c.pid := by
    simp only [ShmState.withFree, Function.update_self] at htotal
    exact htotal
  have hle := hg.limitStat_le c.pid
  rw [SHM_ALL] at hn
  rw [hz, hsize, PAGE_SIZE] at hsub
  by_cases hlt : s.limitStat c.pid < (s.segs i).node*4096
  · rw [Word.sub_eq_of_lt hlt] at hsub
    omega
  · rw [Word.sub_eq (not_lt.mp hlt)] at hsub
    omega

private theorem shmFindSeg_ok {shmid : Int} (h : s.shmFindSeg shmid = .ok i) :
    i < SHM_MNI ∧ (s.segs i).status.free = false ∧ ¬ ((s.segs i).nattch = 0 ∧ (s.segs i).status.remove = true) := by
  rw [shmFindSeg] at h
  split at h
  · cases h
  rename_i hrange
  simp only at h
  split at h
  · cases h
  rename_i hseg
  obtain rfl := Except.ok.inj h
  rw [not_or, Bool.not_eq_true] at hseg
  rw [not_or] at hrange
  exact ⟨by omega,hseg⟩

end ShmState

/-- The calls: ShmGet with the pages that can be had, ShmCtl with IPC_RMID, and what attaching and detaching do to a segment. -/
inductive ShmCall where
  | get (c : Caller) (key : Int) (size shmflg pages : Nat)
  | rmid (c : Caller) (shmid : Int)
  | attach (c : Caller) (shmid : Int) (accMode : Nat) (region : Option Int)
  | fork (shmid : Int)
  | detach (c : Caller) (shmid : Int)

def ShmCall.run (s : ShmState) : ShmCall → ShmState
  | .get c key size shmflg pages => (s.shmGet c key size shmflg pages).2
  | .rmid c shmid => (s.shmCtlRmid c shmid).2
  | .attach c shmid accMode region => (s.shmAt c shmid accMode region).2
  | .fork shmid => s.osShmFork shmid
  | .detach c shmid => s.shmDt c shmid

/-- A region is forked or detached while its segment counts it. -/
def ShmCall.pre (s : ShmState) : ShmCall → Prop
  | .fork shmid => ∀ i, s.shmFindSeg shmid = .ok i → 0 < (s.segs i).nattch
  | .detach _ shmid => ∀ i, s.shmFindSeg shmid = .ok i → 0 < (s.segs i).nattch
  | _ => True

/-- After OsShmCBInit, with nothing charged. -/
structure Initial (s : ShmState) : Prop where
  segs : ∀ i, (s.segs i).status = SHM_SEG_FREE ∧ (s.segs i).node = 0
  usedPageCount : s.usedPageCount = 0
  limitStat : ∀ p, s.limitStat p = 0
  limits : ∀ l, (s.limits l).shmSize = 0

def shmSystem : Run.System ShmState ShmCall := ⟨Initial,ShmCall.pre,ShmCall.run⟩

/-- A request that gets as far as the search finds a free segment, and a segment is given back by the process that made it. -/
def ShmOk (s : ShmState) : ShmCall → Prop
  | .get c key size shmflg _ =>
    key = IPC_PRIVATE ∨ s.shmFindSegByKey key = none ∧ shmflg &&& IPC_CREAT ≠ 0 → s.Asks c size → s.findFree ≠ none
  | .rmid c shmid => ∀ i, s.shmFindSeg shmid = .ok i → ShmState.shmPermCheck (s.segs i) c SHM_M = 0 → (s.segs i).nattch = 0 →
    (s.segs i).cpid = c.pid
  | .detach c shmid => ∀ i, s.shmFindSeg shmid = .ok i → (s.segs i).nattch = 1 → (s.segs i).status.remove = true →
    (s.segs i).cpid = c.pid
  | _ => True

/-- After the call everything is accounted for, and a request that failed has changed nothing. -/
structure ShmLaw (s : ShmState) (call : ShmCall) : Prop where
  accounted : (call.run s).Accounted
  failed : ∀ c key size shmflg pages, call = .get c key size shmflg pages → ¬ (s.shmGet c key size shmflg pages).1.IsId →
    s.Unchanged (call.run s)

namespace ShmState

variable {s : ShmState} {c : Caller} {key shmid : Int} {size shmflg pages accMode : Nat} {region : Option Int}

private theorem shmAllocSeg_law (hg : Good s) (hkey : key ≠ IPC_PRIVATE → s.shmFindSegByKey key = none) (hok : s.Asks c size → s.findFree ≠ none) :
    Good (s.shmAllocSeg c key size shmflg pages).2 ∧
      (¬ (s.shmAllocSeg c key size shmflg pages).1.IsId → s.Unchanged (s.shmAllocSeg c key size shmflg pages).2) := by
  by_cases ha : s.Asks c size
  · obtain ⟨i,hf⟩ := Option.ne_none_iff_exists'.mp (hok ha)
    by_cases hp : min pages (losAlign size PAGE_SIZE >>> PAGE_SHIFT) = losAlign size PAGE_SIZE >>> PAGE_SHIFT
    · obtain ⟨n,hn0,hn,hsize⟩ := losAlign_page ha.1
      rw [shmAllocSeg_new hg ha hf hp]
      exact ⟨hg.withNew hf hn0 hn hsize ha.2.1 hkey,fun h => absurd trivial h⟩
    · have hsame := (shmAllocSeg_short key shmflg hg ha hf hp).2
      exact ⟨hsame.good hg,fun _ => hsame⟩
  · obtain ⟨e,-,hsame⟩ := shmAllocSeg_refused key shmflg pages ha
    exact ⟨hsame.good hg,fun _ => hsame⟩

/-- With every segment in use, a request that is refused has been charged. -/
private theorem shmAllocSeg_leak (key : Int) (shmflg pages : Nat) (ha : s.Asks c size) (hf : s.findFree = none) :
    ¬ (s.shmAllocSeg c key size shmflg pages).1.IsId ∧ ¬ s.Unchanged (s.shmAllocSeg c key size shmflg pages).2 := by
  rw [shmAllocSeg_full ha hf]
  refine ⟨id,fun hsame => ?_⟩
  obtain ⟨n,hn0,hn,hsize⟩ := losAlign_page ha.1
  have hquota := congrFun hsame.limitStat c.pid
  rw [ha.alloc] at hquota
  simp only [Function.update_self] at hquota
  rw [hsize, PAGE_SIZE, Word.add] at hquota
  rw [SHM_ALL] at hn
  omega

/-- A request makes a new segment, or looks up one that exists and leaves everything as it was. -/
private theorem shmGet_cases (s : ShmState) (c : Caller) (key : Int) (size shmflg pages : Nat) :
    ((key = IPC_PRIVATE ∨ s.shmFindSegByKey key = none ∧ shmflg &&& IPC_CREAT ≠ 0) ∧
      s.shmGet c key size shmflg pages = s.shmAllocSeg c key size shmflg pages) ∨
    (¬ (key = IPC_PRIVATE ∨ s.shmFindSegByKey key = none ∧ shmflg &&& IPC_CREAT ≠ 0) ∧ (s.shmGet c key size shmflg pages).2 = s) := by
  rw [shmGet]
  by_cases hpriv : key = IPC_PRIVATE
  · exact Or.inl ⟨Or.inl hpriv,if_pos hpriv⟩
  rw [if_neg hpriv]
  cases hkey : s.shmFindSegByKey key with
  | none =>
    by_cases hflg : shmflg &&& IPC_CREAT = 0
    · exact Or.inr ⟨by rintro (h | ⟨-,h⟩); exacts [hpriv h,h hflg],congrArg Prod.snd (if_pos hflg)⟩
    · exact Or.inl ⟨Or.inr ⟨rfl,hflg⟩,if_neg hflg⟩
  | some i =>
    refine Or.inr ⟨by rintro (h | ⟨h,-⟩); exacts [hpriv h,Option.some_ne_none i h],?_⟩
    simp only
    split
    · rfl
    split
    · rfl
    split
    · rfl
    · rfl

private theorem shmGet_law (hg : Good s) (hok : ShmOk s (.get c key size shmflg pages)) : Good (s.shmGet c key size shmflg pages).2 ∧
    (¬ (s.shmGet c key size shmflg pages).1.IsId → s.Unchanged (s.shmGet c key size shmflg pages).2) := by
  rcases shmGet_cases s c key size shmflg pages with ⟨hnew,heq⟩ | ⟨-,heq⟩
  · rw [heq]
    exact shmAllocSeg_law hg (fun h => (hnew.resolve_left h).1) (hok hnew)
  · rw [heq]
    exact ⟨hg,fun _ => .refl s⟩

private theorem shmCtlRmid_good (hg : Good s) (hok : ShmOk s (.rmid c shmid)) : Good (s.shmCtlRmid c shmid).2 := by
  rw [shmCtlRmid]
  cases hfind : s.shmFindSeg shmid with
  | error e => exact hg
  | ok i =>
    obtain ⟨hi,hlive,-⟩ := shmFindSeg_ok hfind
    obtain ⟨hn0,hn,hsize,hused,-⟩ := (hg.sound i hi).live hlive
    simp only
    by_cases hperm : shmPermCheck (s.segs i) c SHM_M = 0
    · rw [if_neg (not_not.mpr hperm)]
      by_cases hatt : (s.segs i).nattch = 0
      · rw [if_pos hatt]
        have hnode : (s.segs i).node = (s.segs i).segsz >>> PAGE_SHIFT := by rw [hsize, pages_shift]
        have hfree := shmFreeSeg_eq s c i { s.segs i with status := { (s.segs i).status with remove := true } } hnode
        rw [hfree]
        exact hg.withFree hi hlive rfl (hok i hfind hperm hatt)
      · rw [if_neg hatt]
        exact hg.setSeg hi rfl rfl rfl rfl rfl (Or.inr ⟨hn0,hn,hsize,hlive,hused,fun _ => Nat.pos_of_ne_zero hatt⟩)
    · rw [if_pos hperm]
      exact hg

private theorem shmDt_good (hg : Good s) (hpre : ShmCall.pre s (.detach c shmid)) (hok : ShmOk s (.detach c shmid)) : Good (s.shmDt c shmid) := by
  rw [shmDt]
  cases hfind : s.shmFindSeg shmid with
  | error e => exact hg
  | ok i =>
    obtain ⟨hi,hlive,-⟩ := shmFindSeg_ok hfind
    obtain ⟨hn0,hn,hsize,hused,-⟩ := (hg.sound i hi).live hlive
    have hatt := hpre i hfind
    simp only
    by_cases hlast : (s.segs i).nattch - 1 = 0 ∧ (s.segs i).status.remove = true
    · rw [if_pos hlast]
      have hnode : (s.segs i).node = (s.segs i).segsz >>> PAGE_SHIFT := by rw [hsize, pages_shift]
      have hfree := shmFreeSeg_eq s c i { s.segs i with nattch := (s.segs i).nattch - 1 } hnode
      rw [hfree]
      exact hg.withFree hi hlive rfl (hok i hfind (by omega) hlast.2)
    · rw [if_neg hlast]
      refine hg.setSeg hi rfl rfl rfl rfl rfl (Or.inr ⟨hn0,hn,hsize,hlive,hused,fun hr => Nat.pos_of_ne_zero fun h0 => ?_⟩)
      exact hlast ⟨h0,hr⟩

private theorem shmAt_good (hg : Good s) : Good (s.shmAt c shmid accMode region).2 := by
  rw [shmAt]
  cases hfind : s.shmFindSeg shmid with
  | error e => exact hg
  | ok i =>
    obtain ⟨hi,hlive,-⟩ := shmFindSeg_ok hfind
    obtain ⟨hn0,hn,hsize,hused,-⟩ := (hg.sound i hi).live hlive
    simp only
    split
    · exact hg
    split
    · exact hg
    · exact hg.setSeg hi rfl rfl rfl rfl rfl (Or.inr ⟨hn0,hn,hsize,hlive,hused,fun _ => Nat.succ_pos _⟩)

private theorem osShmFork_good (hg : Good s) : Good (s.osShmFork shmid) := by
  rw [osShmFork]
  cases hfind : s.shmFindSeg shmid with
  | error e => exact hg
  | ok i =>
    obtain ⟨hi,hlive,-⟩ := shmFindSeg_ok hfind
    obtain ⟨hn0,hn,hsize,hused,-⟩ := (hg.sound i hi).live hlive
    exact hg.setSeg hi rfl rfl rfl rfl rfl (Or.inr ⟨hn0,hn,hsize,hlive,hused,fun _ => Nat.succ_pos _⟩)

private theorem not_accounted_rmid {i : Nat} (hg : Good s) (hfind : s.shmFindSeg shmid = .ok i) (hperm : shmPermCheck (s.segs i) c SHM_M = 0)
    (hatt : (s.segs i).nattch = 0) (hown : (s.segs i).cpid ≠ c.pid) : ¬ Accounted (s.shmCtlRmid c shmid).2 := by
  obtain ⟨hi,hlive,-⟩ := shmFindSeg_ok hfind
  obtain ⟨-,-,hsize,-⟩ := (hg.sound i hi).live hlive
  have hnode : (s.segs i).node = (s.segs i).segsz >>> PAGE_SHIFT := by rw [hsize, pages_shift]
  have hfree := shmFreeSeg_eq s c i { s.segs i with status := { (s.segs i).status with remove := true } } hnode
  rw [shmCtlRmid, hfind]
  simp only [if_neg (not_not.mpr hperm), if_pos hatt, hfree]
  exact not_accounted_withFree hg hi hlive rfl hown

private theorem not_accounted_detach {i : Nat} (hg : Good s) (hfind : s.shmFindSeg shmid = .ok i) (hatt : (s.segs i).nattch = 1)
    (hrem : (s.segs i).status.remove = true) (hown : (s.segs i).cpid ≠ c.pid) : ¬ Accounted (s.shmDt c shmid) := by
  obtain ⟨hi,hlive,-⟩ := shmFindSeg_ok hfind
  obtain ⟨-,-,hsize,-⟩ := (hg.sound i hi).live hlive
  have hnode : (s.segs i).node = (s.segs i).segsz >>> PAGE_SHIFT := by rw [hsize, pages_shift]
  have hfree := shmFreeSeg_eq s c i { s.segs i with nattch := (s.segs i).nattch - 1 } hnode
  have hlast : (s.segs i).nattch - 1 = 0 ∧ (s.segs i).status.remove = true := ⟨by omega,hrem⟩
  rw [shmDt, hfind]
  simp only [if_pos hlast, hfree]
  exact not_accounted_withFree hg hi hlive rfl hown

theorem Initial.good (h : Initial s) : Good s := by
  have hfree : ∀ i, (s.segs i).status.free = true := fun i => by rw [(h.segs i).1]; rfl
  have hzero : ∀ f : ShmIDSource → Nat, (∀ i, f (s.segs i) = 0) → s.total f = 0 := fun f hf => Finset.sum_eq_zero fun i _ => hf i
  refine ⟨⟨?_,?_,fun p => ?_,fun l => ?_,fun i _ j _ hu => ?_⟩,fun i _ => Or.inl (h.segs i)⟩
  · rw [h.usedPageCount, hzero _ fun i => if_pos (hfree i)]
  · rw [h.usedPageCount]
    exact Nat.zero_le _
  · rw [h.limitStat, hzero _ fun i => if_pos (hfree i)]
  · rw [h.limits, hzero _ fun i => if_pos (hfree i)]
  · rw [(h.segs i).1] at hu
    cases hu

end ShmState

open ShmState

variable {s : ShmState} {call : ShmCall}

private theorem step_law (hg : Good s) (hpre : call.pre s) (hok : ShmOk s call) : Good (call.run s) ∧ ShmLaw s call := by
  have hgood : Good (call.run s) := by
    cases call with
    | get c key size shmflg pages => exact (shmGet_law hg hok).1
    | rmid c shmid => exact shmCtlRmid_good hg hok
    | attach c shmid accMode region => exact shmAt_good hg
    | fork shmid => exact osShmFork_good hg
    | detach c shmid => exact shmDt_good hg hpre hok
  refine ⟨hgood,hgood.toAccounted,?_⟩
  rintro c key size shmflg pages rfl
  exact (shmGet_law hg hok).2

private theorem step_ok (hg : Good s) (hlaw : ShmLaw s call) : ShmOk s call := by
  cases call with
  | get c key size shmflg pages =>
    intro hnew ha hf
    obtain ⟨hfail,hchanged⟩ := shmAllocSeg_leak key shmflg pages ha hf
    rcases shmGet_cases s c key size shmflg pages with ⟨-,heq⟩ | ⟨hold,-⟩
    · have hsame := hlaw.failed c key size shmflg pages rfl
      rw [ShmCall.run, heq] at hsame
      exact hchanged (hsame hfail)
    · exact hold hnew
  | rmid c shmid =>
    intro i hfind hperm hatt
    by_contra hown
    exact not_accounted_rmid hg hfind hperm hatt hown hlaw.accounted
  | attach c shmid accMode region => trivial
  | fork shmid => trivial
  | detach c shmid =>
    intro i hfind hatt hrem
    by_contra hown
    exact not_accounted_detach hg hfind hatt hrem hown hlaw.accounted

/-- Along every run whose calls meet the condition the accounts are right, and the next call keeps to the law exactly when it meets
the condition too. -/
theorem shm_accounted (h : Run.Reachable shmSystem ShmOk s) :
    Accounted s ∧ ∀ call, shmSystem.pre s call → (ShmLaw s call ↔ ShmOk s call) := by
  have hg : Good s := h.invariant (fun s hs => Initial.good hs) fun s call hg hpre hok => (step_law hg hpre hok).1
  exact ⟨hg.toAccounted,fun call hpre => ⟨step_ok hg,fun hok => (step_law hg hpre hok).2⟩⟩

/-- No segment, and a limiter without a bound below the largest word. -/
def emptyShm : ShmState :=
  { segs := fun _ => ⟨0,0,0,0,0,0,0,0,0,SHM_SEG_FREE,0⟩, usedPageCount := 0, limitStat := fun _ => 0, limits := fun _ => ⟨0,0,2^32 - 1⟩,
    plimits := fun _ => 0 }

private theorem emptyShm_initial : Initial emptyShm := ⟨fun _ => ⟨rfl,rfl⟩,rfl,fun _ => rfl,fun _ => rfl⟩

/-- Process 1 makes a segment of one page under key 7. -/
def firstGet : ShmCall := .get ⟨1,0,0,[]⟩ 7 1 IPC_CREAT 1

/-- Process 2 asks for two pages under key 8, and only one can be had. -/
def shortGet : ShmCall := .get ⟨2,0,0,[]⟩ 8 8192 IPC_CREAT 1

/-- Process 1 makes a segment, process 2 gets none and has its charge taken back, and process 1 removes its segment again. -/
theorem shm_accounted_removed : ∃ s, (s.usedPageCount = 0 ∧ s.limitStat 1 = 0 ∧ s.limitStat 2 = 0) ∧ Accounted s := by
  have h0 : Run.Reachable shmSystem ShmOk emptyShm := .init emptyShm_initial
  have h1 := h0.call firstGet trivial fun _ _ => by decide +kernel
  have h2 := h1.call shortGet trivial fun _ _ => by decide +kernel
  have hseg : shmFindSeg (shortGet.run (firstGet.run emptyShm)) 0 = .ok 0 ∧
      ((shortGet.run (firstGet.run emptyShm)).segs 0).cpid = 1 := by decide +kernel
  have h3 := h2.call (.rmid ⟨1,0,0,[]⟩ 0) trivial fun i hfind _ _ => by
    obtain rfl : 0 = i := Except.ok.inj (hseg.1.symm.trans hfind)
    exact hseg.2
  exact ⟨_,by decide +kernel,(shm_accounted h3).1⟩

/-- Process 2 of the same user removes it: it stays charged to process 1. -/
theorem not_shm_accounted : ¬ ∀ s, Run.Reachable shmSystem (fun _ _ => True) s → Accounted s := by
  intro h
  have hrun : Run.Reachable shmSystem (fun _ _ => True) ((ShmCall.rmid ⟨2,0,0,[]⟩ 0).run (firstGet.run emptyShm)) :=
    .call (.call (.init emptyShm_initial) firstGet trivial trivial) (.rmid ⟨2,0,0,[]⟩ 0) trivial trivial
  have hquota := (h _ hrun).quota 1
  revert hquota
  decide +kernel

end LiteOsKernel.Vm.Shm
