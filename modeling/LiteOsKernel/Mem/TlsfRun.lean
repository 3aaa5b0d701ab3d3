import LiteOsKernel.Mem.TlsfHeld
import LiteOsKernel.Mem.TlsfInit
import LiteOsKernel.Lib.Run

/-! Whole runs of a TLSF pool: creation, the calls clients may make, and the representation
invariant in every state reached. -/
namespace LiteOsKernel.Mem.Tlsf
open LiteOsKernel Links Lib

variable {p : MemPool}

-- Creation

/-- A fresh pool holds no pointers. -/
theorem Good.losMemInit {mem : Nat → Nat} {pages : List Nat} {pool size : Nat} (hpos : 0 < pool) (hmod : pool%4 = 0)
    (hsz : 992 ≤ osMemAlign size 4) (hlt : size < 2^29) (htop : pool + osMemAlign size 4 ≤ 2^32)
    (hi : Tlsf.losMemInit mem pages pool size = some p) : Good p [] := by
  rw [Tlsf.losMemInit] at hi
  split at hi
  case isTrue => cases hi
  obtain rfl := Option.some.inj hi
  rw [osMemAlign_four (by omega)] at hsz htop
  rw [OS_MEM_ALIGN_SIZE, osMemAlign_four (by omega)]
  obtain ⟨hc,F,L,hI⟩ := inv_poolInit mem pages pool _ hpos hmod (by omega) hsz (by omega) htop
  exact ⟨⟨_,F,L,id,hI,by simp,by simp⟩,by rw [hc.attr]; rfl⟩

-- Runs

/-- A pool with the pointers its clients hold. -/
structure Heap where
  pool : MemPool
  live : List Nat

/-- What a client can do: the four calls, and a write into a block it holds. -/
inductive Call where
  | alloc (size : Nat)
  | allocAlign (size boundary : Nat)
  | realloc (ptr size : Nat)
  | free (ptr : Nat)
  | store (ptr addr value : Nat)

/-- Arguments are words, and a freed or reallocated pointer is one the pool returned and that is
still live; a write stays between the pointer and the end of its node. -/
def Heap.Legal (h : Heap) : Call → Prop
  | .alloc size => size < 2^32
  | .allocAlign size boundary => size < 2^32 ∧ boundary < 2^32
  | .realloc ptr size => (ptr = 0 ∨ ptr ∈ h.live) ∧ size < 2^32
  | .free ptr => ptr ∈ h.live
  | .store ptr addr _ => ptr ∈ h.live ∧ ptr ≤ addr ∧
      addr < osMemNextNode h.pool (Word.sub (osGetRealPtr h.pool ptr) OS_MEM_NODE_HEAD_SIZE)

def Heap.call (largeNodeFree : Nat → Bool) (h : Heap) : Call → Heap
  | .alloc size =>
    let (p, r) := losMemAlloc h.pool size
    ⟨p,if r = 0 then h.live else r :: h.live⟩
  | .allocAlign size boundary =>
    let (p, r) := losMemAllocAlign h.pool size boundary
    ⟨p,if r = 0 then h.live else r :: h.live⟩
  | .realloc ptr size =>
    let (p, r) := losMemRealloc largeNodeFree h.pool ptr size
    ⟨p,if r = 0 then h.live else r :: h.live.filter (· ≠ ptr)⟩
  | .free ptr =>
    let (p, ret) := losMemFree largeNodeFree h.pool ptr
    ⟨p,if ret = LOS_OK then h.live.filter (· ≠ ptr) else h.live⟩
  | .store _ addr value => ⟨h.pool.setWord addr value,h.live⟩

/-- A pool that LOS_MemInit creates below 2^29 bytes with room for a free node, in memory that was there before. -/
inductive HeapCreated : Heap → Prop
  | mk {mem : Nat → Nat} {pages : List Nat} {pool size : Nat} {p : MemPool} (aligned : pool%4 = 0)
      (room : sizeofPoolHead + OS_MEM_NODE_HEAD_SIZE + 20 ≤ osMemAlign size OS_MEM_ALIGN_SIZE) (below : size < 2^29)
      (inside : pool + osMemAlign size OS_MEM_ALIGN_SIZE ≤ 2^32) (created : losMemInit mem pages pool size = some p) : HeapCreated ⟨p,[]⟩

def tlsfSystem (largeNodeFree : Nat → Bool) : Run.System Heap Call := ⟨HeapCreated,Heap.Legal,Heap.call largeNodeFree⟩

/-- The heaps that legal calls within ok lead to. -/
abbrev Reachable (largeNodeFree : Nat → Bool) (ok : Call → Prop) := Run.Reachable (tlsfSystem largeNodeFree) fun _ c => ok c

/-- The call is not LOS_MemAllocAlign with the boundary 2^29. -/
def Call.BoundaryBelow : Call → Prop
  | .allocAlign _ boundary => boundary ≠ 2^29
  | _ => True

/-- One legal call keeps the invariant. -/
theorem Good.call {h : Heap} (hg : Good h.pool h.live) (largeNodeFree : Nat → Bool) {c : Call} (hc : h.Legal c)
    (hb : c.BoundaryBelow) : Good (h.call largeNodeFree c).pool (h.call largeNodeFree c).live := by
  cases c with
  | alloc size =>
    rcases he : Tlsf.losMemAlloc h.pool size with ⟨p',r⟩
    simp only [Heap.call, he]
    rcases hg.losMemAlloc hc he with h1 | ⟨rfl,h1⟩
    · split
      · exact h1.mono fun q hq => List.mem_cons_of_mem _ hq
      · exact h1
    · exact h1
  | allocAlign size boundary =>
    rcases he : Tlsf.losMemAllocAlign h.pool size boundary with ⟨p',r⟩
    simp only [Heap.call, he]
    rcases hg.losMemAllocAlign hc.1 hc.2 hb he with h1 | ⟨rfl,h1⟩
    · split
      · exact h1.mono fun q hq => List.mem_cons_of_mem _ hq
      · exact h1
    · exact h1
  | realloc ptr size =>
    rcases he : Tlsf.losMemRealloc largeNodeFree h.pool ptr size with ⟨p',r⟩
    simp only [Heap.call, he]
    rcases hc.1 with h0 | hm
    · subst h0
      rcases hg.losMemRealloc_null hc.2 largeNodeFree he with h1 | ⟨rfl,h1⟩
      · split
        · exact h1.mono fun q hq => List.mem_cons_of_mem _ hq
        · refine h1.mono fun q hq => ?_
          rcases List.mem_cons.mp hq with h2 | h2
          · exact h2 ▸ List.mem_cons_self
          · exact List.mem_cons_of_mem _ (List.mem_of_mem_filter h2)
      · exact h1
    · rcases hg.losMemRealloc hm hc.2 largeNodeFree he with ⟨hr,h1⟩ | ⟨rfl,h1⟩
      · rw [if_neg hr]
        exact h1
      · exact h1
  | free ptr =>
    obtain ⟨p',he,h1⟩ := hg.losMemFree hc largeNodeFree
    simp only [Heap.call, he, if_true]
    exact h1
  | store ptr addr value => exact hg.store hc.1 hc.2.1 hc.2.2

theorem HeapCreated.good {h : Heap} (hc : HeapCreated h) : Good h.pool h.live := by
  obtain @⟨mem,pages,pool,size,p,aligned,room,below,inside,created⟩ := hc
  have hpos : 0 < pool := by
    by_contra h0
    simp [losMemInit, show pool = 0 by omega] at created
  exact Good.losMemInit hpos aligned room below inside created

theorem good_of_reachable {largeNodeFree : Nat → Bool} {h : Heap} (hr : Reachable largeNodeFree Call.BoundaryBelow h) :
    Good h.pool h.live :=
  hr.invariant (I := fun h => Good h.pool h.live) (fun _ hc => hc.good) fun _ _ hg legal within => hg.call largeNodeFree legal within

/-- The representation invariant holds in every state of every run without an aligned
allocation to the boundary 2^29. -/
theorem poolInvariant_of_reachable (largeNodeFree : Nat → Bool) (h : Heap)
    (hr : Reachable largeNodeFree Call.BoundaryBelow h) : PoolInvariant h.pool := (good_of_reachable hr).poolInvariant

/-- The invariant after an aligned allocation from a small pool. -/
theorem poolInvariant_small_pool : PoolInvariant
    (Heap.call (fun _ => false) ⟨osMemPoolInit (fun _ => 0) [] 0x1000 0x1000,[]⟩ (.allocAlign 100 64)).pool := by
  have h0 : Reachable (fun _ => false) Call.BoundaryBelow ⟨osMemPoolInit (fun _ => 0) [] 0x1000 0x1000,[]⟩ :=
    .init (HeapCreated.mk (by decide) (by decide +kernel) (by decide) (by decide +kernel)
      (show losMemInit (fun _ => 0) [] 0x1000 0x1000 = some _ by
        rw [losMemInit, if_neg (by decide), show osMemAlign 0x1000 OS_MEM_ALIGN_SIZE = 0x1000 by decide +kernel]))
  exact poolInvariant_of_reachable _ _ (h0.call (.allocAlign 100 64) ⟨by norm_num,by norm_num⟩ (by norm_num [Call.BoundaryBelow]))

-- The boundary 2^29

/-- Four calls on a pool whose second node's head ends at a multiple of 2^29: the aligned request is
served by the node before it, and its gap word overwrites that head. -/
def overrunRun : List Call :=
  [.alloc 301989876,.alloc 8,.free 771751936,.allocAlign 8 (2^29)]

def overrunHeap (n : Nat) : Heap :=
  (overrunRun.take n).foldl (Heap.call fun _ => false) ⟨osMemPoolInit (fun _ => 0) [] 771750964 301990980,[]⟩

private theorem overrunHeap_reachable : Reachable (fun _ => false) (fun _ => True) (overrunHeap 4) := by
  have h0 : Reachable (fun _ => false) (fun _ => True) (overrunHeap 0) :=
    .init (HeapCreated.mk (by decide) (by decide +kernel) (by decide) (by decide +kernel)
      (show losMemInit (fun _ => 0) [] 771750964 301990980 = some _ by
        rw [losMemInit, if_neg (by decide), show osMemAlign 301990980 OS_MEM_ALIGN_SIZE = 301990980 by decide +kernel]))
  have h1 : Reachable (fun _ => false) (fun _ => True) (overrunHeap 1) :=
    h0.call (.alloc 301989876) (by norm_num [tlsfSystem, Heap.Legal]) trivial
  have h2 : Reachable (fun _ => false) (fun _ => True) (overrunHeap 2) :=
    h1.call (.alloc 8) (by norm_num [tlsfSystem, Heap.Legal]) trivial
  have hlive : 771751936 ∈ (overrunHeap 2).live := by decide +kernel
  have h3 : Reachable (fun _ => false) (fun _ => True) (overrunHeap 3) :=
    h2.call (.free 771751936) hlive trivial
  exact h3.call (.allocAlign 8 (2^29)) ⟨by norm_num,by norm_num⟩ trivial

/-- With the boundary 2^29 allowed the invariant fails: the size class search takes a request of
2^29 bytes or more for one eight classes smaller, and the aligned pointer leaves the node. -/
theorem poolInvariant_fails_at_boundary :
    ¬∀ (largeNodeFree : Nat → Bool) (h : Heap), Reachable largeNodeFree (fun _ => True) h → PoolInvariant h.pool := by
  intro hall
  obtain ⟨ns,L,hpath,-⟩ := hall _ _ overrunHeap_reachable
  have hend : osMemEndNode (overrunHeap 4).pool.pool (overrunHeap 4).pool.totalSize = 1073741932 := by decide +kernel
  have hfirst : osMemFirstNode (overrunHeap 4).pool = 771751924 := by decide +kernel
  have hs1 : (overrunHeap 4).pool.size 771751924 = 301989888 := by decide +kernel
  have hs2 : (overrunHeap 4).pool.size 1073741812 = 301989888 := by decide +kernel
  rw [hend, hfirst] at hpath
  -- the first node leads to the overwritten one, and that beyond the sentinel
  cases ns with
  | nil =>
    have : 771751924 = 1073741932 := hpath
    omega
  | cons n ns =>
    obtain ⟨rfl,hpath⟩ := hpath
    rw [hs1] at hpath
    cases ns with
    | nil =>
      have : 771751924 + 301989888 = 1073741932 := hpath
      omega
    | cons n ns =>
      obtain ⟨rfl,hpath⟩ := hpath
      have := hpath.le
      rw [hs2] at this
      omega

end LiteOsKernel.Mem.Tlsf
