import LiteOsKernel.Mem.KernelMalloc

/-! Whole runs of the kernel's allocator: heap and page-backed blocks stay apart, and the page counts of the latter
stay as recorded. -/
namespace LiteOsKernel.Mem.Kernel
open LiteOsKernel Tlsf Run

variable {k : KernelMem} {N F : Set Nat} {L : Nat → List Nat} {own : Nat → Nat} {b d : Block} {x y : Area} {c : Call}
  {pages : List Nat} {a n ptr size answer : Nat}

/-- A page-backed block: whole pages outside the heap, counted by their first frame. -/
structure Paged (k : KernelMem) (b : Block) : Prop where
  pages : (span b).Pages k.heap.pool k.heap.areas
  count : k.osVmVaddrToPage b.ptr = some (span b).nPages
  size_lt : b.size < 2^32

/-- The heap is sound, its plain blocks start at a payload, the page-backed blocks are apart from it and from each
other, and the frames of the heap's areas record their pages. -/
structure KernelInv (k : KernelMem) (N F : Set Nat) (L : Nat → List Nat) (own : Nat → Nat) : Prop where
  heap : Sound k.heap N F L own
  straight : Straight k.heap.pool k.heap.live
  paged : ∀ b ∈ k.large, Paged k b
  apart : k.large.Pairwise fun b d => Apart (span b) (span d)
  areas : ∀ x ∈ k.heap.areas, k.osVmVaddrToPage x.node = some x.nPages

-- Frames

theorem frame_inj {a b : Nat} (ha : a%4096 = 0) (hb : b%4096 = 0) (h : a >>> PAGE_SHIFT = b >>> PAGE_SHIFT) : a = b := by
  simp only [PAGE_SHIFT, Nat.shiftRight_eq_div_pow] at h
  omega

private theorem roundup_page {n : Nat} (h : n < 2^32) : roundup n PAGE_SIZE = if n + 4096 ≤ 2^32 then (n + 4095)/4096*4096 else 0 := by
  rw [show PAGE_SIZE = 2^12 from rfl]
  split
  case isTrue hle => exact roundup_two_pow (by norm_num) hle
  case isFalse hno =>
    rw [roundup, Word.sub_eq (by norm_num), Word.add, show (n + (2^12 - 1))%2^32 = n + 4095 - 2^32 by omega]
    have hlow : n + 4095 - 2^32 < 2^12 := by omega
    rw [Word.and_not_low (by omega) (by norm_num), Nat.div_eq_of_lt hlow, Nat.zero_mul]

theorem Paged.size_eq (h : Paged k b) : (span b).size = (b.size + 4095)/4096*4096 ∧ b.size ≤ (span b).size := by
  have h1 := h.pages.size_pos
  have h2 := roundup_page h.size_lt
  rw [show (span b).size = roundup b.size PAGE_SIZE from rfl] at *
  split at h2
  all_goals omega

/-- A block stays page-backed while the pool stays in place, no area comes in its way, and its count stays. -/
theorem Paged.of_kept {k' : KernelMem} (h : Paged k b) (hpool : k'.heap.pool.pool = k.heap.pool.pool)
    (htot : k'.heap.pool.totalSize = k.heap.pool.totalSize) (hareas : ∀ y ∈ k'.heap.areas, Apart (span b) y)
    (hcount : k'.osVmVaddrToPage b.ptr = k.osVmVaddrToPage b.ptr) : Paged k' b :=
  ⟨⟨h.pages.node_pos,h.pages.node_mod,h.pages.size_pos,h.pages.size_mod,h.pages.top,
    by rw [hpool, htot]; exact h.pages.outside,hareas⟩,hcount.trans h.count,h.size_lt⟩

theorem Apart.symm (h : Apart x y) : Apart y x := Or.symm h

private theorem Apart.frame_ne (h : Apart x y) (hx : x.node%4096 = 0) (hy : y.node%4096 = 0) (hxp : 0 < x.size) (hyp : 0 < y.size) :
    x.node >>> PAGE_SHIFT ≠ y.node >>> PAGE_SHIFT := by
  intro he
  have := frame_inj hx hy he
  rcases h with h1 | h1 <;> omega

namespace KernelMem

@[simp] theorem setNPages_heap (k : KernelMem) (ptr count : Nat) : (k.setNPages ptr count).heap = k.heap := rfl

@[simp] theorem setNPages_large (k : KernelMem) (ptr count : Nat) : (k.setNPages ptr count).large = k.large := rfl

theorem setNPages_page (k : KernelMem) (ptr count a : Nat) : (k.setNPages ptr count).osVmVaddrToPage a =
    if a >>> PAGE_SHIFT = ptr >>> PAGE_SHIFT then some (count%2^16) else k.osVmVaddrToPage a := by
  simp only [osVmVaddrToPage, setNPages, Function.update_apply]

/-- A free of pages changes the record of their first frame only. -/
private theorem largeNodeFree_spec (k : KernelMem) (ptr : Nat) : (k.osMemLargeNodeFree ptr).1.heap = k.heap ∧
    (k.osMemLargeNodeFree ptr).1.large = k.large ∧ (k.osMemLargeNodeFree ptr).1.kHeapInited = k.kHeapInited ∧
      ∀ a, a >>> PAGE_SHIFT ≠ ptr >>> PAGE_SHIFT →
        (k.osMemLargeNodeFree ptr).1.osVmVaddrToPage a = k.osVmVaddrToPage a := by
  rw [osMemLargeNodeFree]
  split
  · exact ⟨rfl,rfl,rfl,fun _ _ => rfl⟩
  · split_ifs
    · exact ⟨rfl,rfl,rfl,fun _ _ => rfl⟩
    · rw [losPhysPagesFreeContiguous]
      split_ifs
      · exact ⟨rfl,rfl,rfl,fun _ _ => rfl⟩
      · exact ⟨rfl,rfl,rfl,fun a ha => (k.setNPages_page ptr 0 a).trans (if_neg ha)⟩

private theorem largeNodeFree_eq (h : k.osVmVaddrToPage ptr = some n) (hn : n ≠ 0) (h0 : ptr ≠ 0) :
    k.osMemLargeNodeFree ptr = ({ k.setNPages ptr 0 with freed := (ptr,n) :: k.freed }, LOS_OK) := by
  simp only [osMemLargeNodeFree, h, hn, if_false, losPhysPagesFreeContiguous, h0, reduceCtorEq, or_self]

/-- The page allocator finds nothing, or the answer becomes a block. -/
theorem allocPages_eq (k : KernelMem) (size answer : Nat) : k.allocPages size answer = (k, 0) ∨
    roundup size PAGE_SIZE ≠ 0 ∧ answer ≠ 0 ∧ k.allocPages size answer =
      ({ k.setNPages answer (roundup size PAGE_SIZE >>> PAGE_SHIFT) with large := ⟨answer,size,PAGE_SIZE⟩ :: k.large }, answer) := by
  by_cases h0 : roundup size PAGE_SIZE >>> PAGE_SHIFT = 0 ∨ answer = 0
  · refine .inl ?_
    rw [allocPages, losPhysPagesAllocContiguous, if_pos h0]
    exact congrArg (·,0) (if_pos rfl)
  · obtain ⟨h1,h2⟩ := not_or.mp h0
    refine .inr ⟨fun he => h1 (by rw [he, Nat.zero_shiftRight]),h2,?_⟩
    rw [allocPages, losPhysPagesAllocContiguous, if_neg h0]
    exact congrArg (·,answer) (if_neg h2)

theorem heapCall_large (k : KernelMem) (c : Call) (pages : List Nat) : (k.heapCall c pages).large = k.large ∧
    (k.heapCall c pages).kHeapInited = k.kHeapInited := by
  rcases hg : c.grown { k.heap.pool with pages := pages } with _ | x <;>
    rcases hn : c.returned { k.heap.pool with pages := pages } with _ | node <;>
    simp only [heapCall, hg, hn, true_and]
  · exact ⟨(k.largeNodeFree_spec node).2.1,(k.largeNodeFree_spec node).2.2.1⟩
  · exact ⟨rfl,rfl⟩
  · obtain ⟨-,h1,h2,-⟩ := (k.setNPages x.node (x.size >>> PAGE_SHIFT)).largeNodeFree_spec node
    exact ⟨h1,h2⟩

/-- A heap call changes the records of the area that it obtains and of the one that it gives back. -/
private theorem heapCall_page (k : KernelMem) (c : Call) (pages : List Nat) {a : Nat}
    (hr : ∀ node, c.returned { k.heap.pool with pages := pages } = some node → a >>> PAGE_SHIFT ≠ node >>> PAGE_SHIFT) :
    (k.heapCall c pages).osVmVaddrToPage a = match c.grown { k.heap.pool with pages := pages } with
      | none => k.osVmVaddrToPage a
      | some x => if a >>> PAGE_SHIFT = x.node >>> PAGE_SHIFT then some x.nPages else k.osVmVaddrToPage a := by
  rcases hg : c.grown { k.heap.pool with pages := pages } with _ | x <;>
    rcases hn : c.returned { k.heap.pool with pages := pages } with _ | node <;> simp only [heapCall, hg, hn]
  · rfl
  · exact (k.largeNodeFree_spec node).2.2.2 a (hr node hn)
  · exact k.setNPages_page _ _ a
  · exact ((k.setNPages x.node _).largeNodeFree_spec node).2.2.2 a (hr node hn) |>.trans (k.setNPages_page _ _ a)

end KernelMem

-- Calls of the heap

/-- What a heap call keeps: the pool's place, the words elsewhere, and the areas but for the one obtained and the one
given back. -/
structure Kept (k : KernelMem) (c : Call) (pages : List Nat) : Prop where
  confined : Confined k.heap.pool (k.heapCall c pages).heap.pool
    (k.heap.areas ++ (c.grown { k.heap.pool with pages := pages }).toList)
  areas : ∀ x ∈ (k.heapCall c pages).heap.areas, x ∈ k.heap.areas ++ (c.grown { k.heap.pool with pages := pages }).toList ∧
    c.returned { k.heap.pool with pages := pages } ≠ some x.node
  returned : ∀ node, c.returned { k.heap.pool with pages := pages } = some node →
    ∃ x ∈ k.heap.areas ++ (c.grown { k.heap.pool with pages := pages }).toList, x.node = node

private theorem mem_grown {c : Call} {p : MemPool} (hx : x ∈ (c.grown p).toList) : c.grown p = some x := by
  simpa using hx

namespace KernelInv

theorem pre (_ : KernelInv k N F L own) (hp : k.HeapPre c pages) : k.heap.Pre (.call c pages) :=
  ⟨hp.1,fun x hx => (hp.2 x hx).pages⟩

theorem call_kept (hI : KernelInv k N F L own) (hp : k.HeapPre c pages) (hf : k.heap.Fits (.call c pages)) :
    Kept k c pages := by
  have hS := hI.heap.setPages pages
  obtain ⟨hx,hfit⟩ := hI.heap.within (hI.pre hp) hf
  obtain ⟨N',F',L',own',-,hc⟩ := hI.heap.callWithin (hI.pre hp) hf
  have hconf := hS.confined hp.1 hx hfit hf.2.2
  have hwhole : ∀ node, c.returned { k.heap.pool with pages := pages } = some node →
      ∃ x ∈ k.heap.areas ++ (c.grown { k.heap.pool with pages := pages }).toList, x.node = node := by
    intro node hn
    obtain ⟨⟨v,a⟩,hrel,hb⟩ := Option.bind_eq_some_iff.mp hn
    rw [hrel] at hc
    obtain ⟨y,hy,he,-⟩ := hc.whole hS.held.inv hb
    exact ⟨y,hy,he⟩
  refine ⟨⟨hconf.pool,hconf.totalSize,hconf.mem⟩,fun x hx' => ?_,fun node hn => ?_⟩
  · have hareas := k.heap.call_areas { k.heap.pool with pages := pages } c
    rw [Arena.givenBack_eq hf.2.2 hwhole] at hareas
    have hmem : x ∈ remaining (k.heap.areas ++ (c.grown { k.heap.pool with pages := pages }).toList)
        (c.returned { k.heap.pool with pages := pages }) := hareas ▸ hx'
    obtain ⟨h1,h2⟩ := List.mem_filter.mp hmem
    exact ⟨h1,of_decide_eq_true h2⟩
  · exact hwhole node hn

/-- An area of the heap, or one that it obtains, is apart from a page-backed block. -/
theorem apart_area (hI : KernelInv k N F L own) (hp : k.HeapPre c pages) (hb : b ∈ k.large)
    (hx : x ∈ k.heap.areas ++ (c.grown { k.heap.pool with pages := pages }).toList) :
    Apart (span b) x ∧ x.node%4096 = 0 ∧ 12 ≤ x.size := by
  rcases List.mem_append.mp hx with h1 | h1
  · have hok := hI.heap.held.inv.fixed.areas x h1
    have hpos := hok.size_pos
    have hmod := hok.size_mod
    exact ⟨(hI.paged b hb).pages.apart x h1,hok.node_mod,by omega⟩
  · have hU := hp.2 x (mem_grown h1)
    have hpos := hU.pages.size_pos
    have hmod := hU.pages.size_mod
    exact ⟨(hU.apart b hb).symm,hU.pages.node_mod,by omega⟩

theorem heapCall (hI : KernelInv k N F L own) (hp : k.HeapPre c pages) (hf : k.heap.Fits (.call c pages)) :
    ∃ N' F' L' own', KernelInv (k.heapCall c pages) N' F' L' own' := by
  have hS := hI.heap.setPages pages
  obtain ⟨hx,hfit⟩ := hI.heap.within (hI.pre hp) hf
  obtain ⟨N',F',L',own',hS',-⟩ := hI.heap.callWithin (hI.pre hp) hf
  have hk := hI.call_kept hp hf
  have hlarge := (k.heapCall_large c pages).1
  refine ⟨N',F',L',own',hS',hS.straight_call hI.straight hp.1 hx hfit hf.2.2,fun b hb => ?_,?_,fun x hx' => ?_⟩
  · rw [hlarge] at hb
    have hP := hI.paged b hb
    refine hP.of_kept hk.confined.pool hk.confined.totalSize (fun y hy => (hI.apart_area hp hb (hk.areas y hy).1).1) ?_
    have hframe : ∀ y ∈ k.heap.areas ++ (c.grown { k.heap.pool with pages := pages }).toList,
        b.ptr >>> PAGE_SHIFT ≠ y.node >>> PAGE_SHIFT := by
      intro y hy
      obtain ⟨h1,h2,h3⟩ := hI.apart_area hp hb hy
      exact h1.frame_ne hP.pages.node_mod h2 hP.pages.size_pos (by omega)
    rw [k.heapCall_page c pages fun node hn => ?_]
    · rcases hg : c.grown { k.heap.pool with pages := pages } with _ | y
      · rfl
      · exact if_neg (hframe y (by simp [hg]))
    · obtain ⟨y,hy,rfl⟩ := hk.returned node hn
      exact hframe y hy
  · rw [hlarge]
    exact hI.apart
  · -- an area that stays records its pages, and the one obtained gets its record
    obtain ⟨h1,h2⟩ := hk.areas x hx'
    have hok : ∀ y ∈ k.heap.areas ++ (c.grown { k.heap.pool with pages := pages }).toList, y.node%4096 = 0 := by
      intro y hy
      rcases List.mem_append.mp hy with h3 | h3
      · exact (hI.heap.held.inv.fixed.areas y h3).node_mod
      · exact (hp.2 y (mem_grown h3)).pages.node_mod
    rw [k.heapCall_page c pages fun node hn he => ?_]
    · rcases hg : c.grown { k.heap.pool with pages := pages } with _ | y
      · simp only [hg, Option.toList_none, List.append_nil] at h1
        exact hI.areas x h1
      · simp only [hg, Option.toList_some, List.mem_append, List.mem_singleton] at h1
        rcases h1 with h3 | rfl
        · have hU := hp.2 y hg
          have hap : Apart x y := (hU.pages.apart x h3).symm
          have hx₁ := hI.heap.held.inv.fixed.areas x h3
          exact (if_neg (hap.frame_ne hx₁.node_mod hU.pages.node_mod hx₁.size_pos hU.pages.size_pos)).trans (hI.areas x h3)
        · exact if_pos rfl
    · obtain ⟨y,hy,rfl⟩ := hk.returned node hn
      exact h2 (by rw [hn, frame_inj (hok x h1) (hok y hy) he])

-- Pages

theorem allocPages (hI : KernelInv k N F L own) (hp : k.PagesPre size answer) :
    KernelInv (k.allocPages size answer).1 N F L own := by
  rcases k.allocPages_eq size answer with he | ⟨h1,h2,he⟩ <;> rw [he]
  · exact hI
  have hU := hp.2 h1 h2
  refine ⟨hI.heap,hI.straight,fun b hb => ?_,List.pairwise_cons.mpr ⟨hU.apart,hI.apart⟩,fun x hx => ?_⟩
  · rcases List.mem_cons.mp hb with rfl | hb
    · exact ⟨hU.pages,(k.setNPages_page _ _ _).trans (if_pos rfl),hp.1⟩
    · have hP := hI.paged b hb
      exact ⟨hP.pages,(k.setNPages_page _ _ _).trans ((if_neg ((hU.apart b hb).symm.frame_ne hP.pages.node_mod hU.pages.node_mod
        hP.pages.size_pos hU.pages.size_pos)).trans hP.count),hP.size_lt⟩
  · have hok := hI.heap.held.inv.fixed.areas x hx
    have hap : Apart x ⟨answer,roundup size PAGE_SIZE⟩ := (hU.pages.apart x hx).symm
    exact (k.setNPages_page _ _ _).trans ((if_neg (hap.frame_ne hok.node_mod hU.pages.node_mod hok.size_pos
      hU.pages.size_pos)).trans (hI.areas x hx))

/-- OsMemLargeNodeFree finds the count of a block's pages, and refuses where it reads 0. -/
theorem freePages_eq (hI : KernelInv k N F L own) (hb : b ∈ k.large) : k.freePages b.ptr =
    if (span b).nPages = 0 then (k, LOS_NOK)
    else ({ k.setNPages b.ptr 0 with
      large := k.large.filter (·.ptr ≠ b.ptr), freed := (b.ptr,(span b).nPages) :: k.freed }, LOS_OK) := by
  have hP := hI.paged b hb
  split
  case isTrue h0 =>
    have hno : LOS_NOK ≠ LOS_OK := by decide
    simp only [KernelMem.freePages, KernelMem.osMemLargeNodeFree, hP.count, h0, if_true, hno, if_false]
  case isFalse h0 =>
    rw [KernelMem.freePages, KernelMem.largeNodeFree_eq hP.count h0 (Nat.pos_iff_ne_zero.mp hP.pages.node_pos)]
    rfl

theorem freePages (hI : KernelInv k N F L own) (hb : b ∈ k.large) : KernelInv (k.freePages b.ptr).1 N F L own := by
  rw [hI.freePages_eq hb]
  split
  · exact hI
  have hB := hI.paged b hb
  refine ⟨hI.heap,hI.straight,fun d hd => ?_,hI.apart.filter _,fun x hx => ?_⟩
  · obtain ⟨h1,h2⟩ := Sound.mem_filter hd
    have hP := hI.paged d h1
    exact ⟨hP.pages,(k.setNPages_page _ _ _).trans ((if_neg fun he => h2 (frame_inj hP.pages.node_mod hB.pages.node_mod he)).trans
      hP.count),hP.size_lt⟩
  · have hok := hI.heap.held.inv.fixed.areas x hx
    exact (k.setNPages_page _ _ _).trans ((if_neg (Apart.frame_ne (hB.pages.apart x hx).symm hok.node_mod hB.pages.node_mod
      hok.size_pos hB.pages.size_pos)).trans (hI.areas x hx))

-- Writes

/-- A write outside the heap. -/
private theorem setWord_outside (hI : KernelInv k N F L own) {v : Nat} (hy : Beyond k.heap.pool k.heap.areas a) :
    KernelInv (k.setMem (Function.update k.heap.pool.mem a v)) N F L own := by
  obtain ⟨hq,hk⟩ := hI.heap.held.inv.setOutside (v := v) hy
  have howns : ∀ q ∈ k.heap.live.map Block.ptr, own q ∈ N ∧ Owns (k.heap.pool.setWord a v) (own q) q := fun q hq =>
    (hI.heap.held.owns q hq).2.kept (hI.heap.held.owns q hq).1 (Set.notMem_empty _) hk
  refine ⟨⟨⟨hq,howns,hI.heap.held.inj⟩,hI.heap.nodup,fun b hb => hI.heap.room_kept hb (Set.notMem_empty _) hk,hI.heap.dvd⟩,
    hI.heap.straight_kept hI.straight hq hk fun b hb => ⟨hb,Set.notMem_empty _⟩,fun b hb => ?_,hI.apart,hI.areas⟩
  exact (hI.paged b hb).of_kept rfl rfl (hI.paged b hb).pages.apart rfl

/-- A write into a block of the heap. -/
private theorem setWord_block (hI : KernelInv k N F L own) {v : Nat} (hb : b ∈ k.heap.live) (hl : b.ptr ≤ a)
    (hr : a < b.ptr + b.size) : KernelInv (k.setMem (Function.update k.heap.pool.mem a v)) N F L own := by
  have hroom := hI.heap.room b hb
  obtain ⟨hH,-,hk⟩ := hI.heap.held.store (Sound.ptr_mem hb) (v := v) hl (by omega)
  refine ⟨hI.heap.kept hH hk.sizeAndFlag,fun d hd h4 => ?_,fun d hd => ?_,hI.apart,hI.areas⟩
  · obtain ⟨h1,h2⟩ := hH.owns d.ptr (Sound.ptr_mem hd)
    refine (getRealPtr_eq hH.inv h1 h2).trans ?_
    rw [← hI.heap.realPtr_eq hd]
    exact hI.straight d hd h4
  · exact (hI.paged d hd).of_kept rfl rfl (hI.paged d hd).pages.apart rfl

/-- The bytes of a page-backed block are outside the heap, with whatever areas it has that are apart from it. -/
theorem beyond (hI : KernelInv k N F L own) (hb : b ∈ k.large) {E : List Area} (hE : ∀ x ∈ E, Apart (span b) x ∧ 12 ≤ x.size)
    (hl : b.ptr ≤ a) (hr : a < b.ptr + (span b).size) : Beyond k.heap.pool E a := by
  have hP := (hI.paged b hb).pages
  have hge := hI.heap.held.inv.fixed.total_ge
  simp only [sizeofPoolHead] at hge
  intro e he
  rcases mem_extents.mp he with rfl | ⟨x,hx,rfl⟩
  · have h1 := hP.outside
    simp only [endAddr, Inv.first_eq]
    simp only [span] at h1 hr
    omega
  · obtain ⟨h1,h2⟩ := hE x hx
    simp only [Area.extent, Area.sentinel]
    simp only [Apart, span] at h1 hr
    omega

private theorem beyond_paged (hI : KernelInv k N F L own) (hb : b ∈ k.large) (hl : b.ptr ≤ a) (hr : a < b.ptr + (span b).size) :
    Beyond k.heap.pool k.heap.areas a := by
  refine hI.beyond hb (fun x hx => ⟨(hI.paged b hb).pages.apart x hx,?_⟩) hl hr
  have h2 := (hI.heap.held.inv.fixed.areas x hx).size_pos
  have h3 := (hI.heap.held.inv.fixed.areas x hx).size_mod
  omega

/-- A write into a block. -/
theorem store (hI : KernelInv k N F L own) {v : Nat} (hb : b ∈ k.large ∨ b ∈ k.heap.live) (hl : b.ptr ≤ a)
    (hr : a < b.ptr + b.size) : KernelInv (k.setMem (Function.update k.heap.pool.mem a v)) N F L own := by
  rcases hb with hb | hb
  · have := (hI.paged b hb).size_eq.2
    exact hI.setWord_outside (hI.beyond_paged hb hl (by omega))
  · exact hI.setWord_block hb hl hr

theorem copyWords (hI : KernelInv k N F L own) (hb : b ∈ k.large ∨ b ∈ k.heap.live) (src : Nat) {n : Nat} (hn : 4*n ≤ b.size) :
    KernelInv (k.setMem (Tlsf.copyWords k.heap.pool.mem b.ptr src n)) N F L own := by
  induction n with
  | zero => exact hI
  | succ n ih => exact (ih (by omega)).store (b := b) hb (by omega) (by omega)

theorem zeroWords (hI : KernelInv k N F L own) (hb : b ∈ k.large ∨ b ∈ k.heap.live) {n : Nat} (hn : 4*n ≤ b.size) :
    KernelInv (k.setMem (Tlsf.zeroWords k.heap.pool.mem b.ptr n)) N F L own := by
  induction n with
  | zero => exact hI
  | succ n ih => exact (ih (by omega)).store (b := b) hb (by omega) (by omega)

theorem clearBytes (hI : KernelInv k N F L own) (hb : b ∈ k.large ∨ b ∈ k.heap.live) :
    KernelInv (k.setMem (Kernel.clearBytes k.heap.pool.mem b.ptr b.size)) N F L own := by
  have hz := hI.zeroWords hb (show 4*(b.size/4) ≤ b.size by omega)
  rw [Kernel.clearBytes]
  by_cases h4 : b.size%4 = 0
  · simp only [h4, if_true]
    exact hz
  · simp only [h4, if_false]
    exact hz.store (b := b) hb (by omega) (by omega)

/-- memcpy_s into a block writes in that block. -/
theorem memcpyS (hI : KernelInv k N F L own) (hb : b ∈ k.large ∨ b ∈ k.heap.live) (src count : Nat) :
    KernelInv (k.setMem (Kernel.memcpyS k.heap.pool.mem b.ptr b.size src count).1) N F L own := by
  rw [Kernel.memcpyS]
  split_ifs with h1 h2
  · exact hI
  · exact hI.clearBytes hb
  · exact hI.copyWords hb src (by omega)

-- The calls

/-- The blocks of the heap are heap nodes, and page-backed ones are not. -/
theorem heapNode_live (hI : KernelInv k N F L own) (hb : b ∈ k.heap.live) : osMemIsHeapNode k.heap.pool b.ptr = true := by
  have hinv := hI.heap.held.inv
  obtain ⟨h1,h2⟩ := hI.heap.held.owns b.ptr (Sound.ptr_mem hb)
  have hroom := hI.heap.room b hb
  have hle := h2.le
  rw [hinv.heapNode_iff, hinv.endNode_eq]
  obtain ⟨e,he,h3,h4⟩ := hinv.nodes.tiling.home _ h1
  rcases mem_extents.mp he with rfl | ⟨x,hx,rfl⟩
  · left
    dsimp only at h3 h4
    omega
  · right
    simp only [Area.extent] at h3 h4
    exact ⟨x,hx,by omega,by omega⟩

theorem heapNode_paged (hI : KernelInv k N F L own) (hb : b ∈ k.large) : osMemIsHeapNode k.heap.pool b.ptr = false := by
  have hinv := hI.heap.held.inv
  have hP := (hI.paged b hb).pages
  have hpos : 0 < (span b).size := hP.size_pos
  have hb₀ := hI.beyond_paged hb (a := b.ptr) le_rfl (by omega)
  rw [← Bool.not_eq_true, hinv.heapNode_iff, hinv.endNode_eq]
  rintro (h1 | ⟨x,hx,h1⟩)
  · rcases hb₀ _ pool_mem_extents with h2 | h2
    · dsimp only at h2
      omega
    · dsimp only at h2
      omega
  · rcases hb₀ _ (area_mem_extents hx) with h2 | h2
    · simp only [Area.extent] at h2
      omega
    · simp only [Area.extent] at h2
      omega

theorem malloc (hI : KernelInv k N F L own) (hp : k.MallocPre size answer pages) (hf : k.MallocFits size pages) :
    ∃ N' F' L' own', KernelInv (k.losKernelMalloc size answer pages).1 N' F' L' own' := by
  rw [KernelMem.losKernelMalloc]
  rw [KernelMem.MallocPre] at hp
  by_cases hl : k.osMemLargeAlloc size = true
  · simp only [hl, if_true] at hp ⊢
    exact ⟨N,F,L,own,hI.allocPages hp⟩
  · rw [if_neg hl] at hp ⊢
    exact hI.heapCall hp (hf (eq_false_of_ne_true hl))

theorem free (hI : KernelInv k N F L own) (hb : b ∈ k.large ∨ b ∈ k.heap.live) (hf : k.FreeFits b.ptr) :
    ∃ N' F' L' own', KernelInv (k.losKernelFree b.ptr) N' F' L' own' := by
  rw [KernelMem.losKernelFree]
  rcases hb with hb | hb
  · rw [if_pos (hI.heapNode_paged hb)]
    exact ⟨N,F,L,own,hI.freePages hb⟩
  · rw [if_neg (by rw [hI.heapNode_live hb]; exact Bool.true_eq_false.mp)]
    have hnone : (Call.free b.ptr).grown { k.heap.pool with pages := [] } = none := rfl
    exact hI.heapCall ⟨⟨b,hb,rfl⟩,fun x hx => by cases hnone.symm.trans hx⟩ (hf (hI.heapNode_live hb))

/-- The block that LOS_KernelMalloc returns. -/
theorem malloc_block (k : KernelMem) (size answer : Nat) (pages : List Nat)
    (h0 : (k.losKernelMalloc size answer pages).2 ≠ 0) :
    ∃ boundary, (k.osMemLargeAlloc size = true ∧ (k.losKernelMalloc size answer pages).1.heap = k.heap ∧
        (k.losKernelMalloc size answer pages).1.large = ⟨(k.losKernelMalloc size answer pages).2,size,boundary⟩ :: k.large) ∨
      (k.osMemLargeAlloc size = false ∧ (k.losKernelMalloc size answer pages).1 = k.heapCall (.alloc size) pages ∧
        (k.losKernelMalloc size answer pages).1.heap.live =
          ⟨(k.losKernelMalloc size answer pages).2,size,boundary⟩ :: k.heap.live) := by
  by_cases hl : k.osMemLargeAlloc size = true
  · refine ⟨PAGE_SIZE,.inl ⟨hl,?_⟩⟩
    rw [KernelMem.losKernelMalloc, if_pos hl] at h0 ⊢
    rcases k.allocPages_eq size answer with he | ⟨-,-,he⟩ <;> rw [he] at h0 ⊢
    · exact absurd rfl h0
    · exact ⟨rfl,rfl⟩
  · refine ⟨OS_MEM_ALIGN_SIZE,.inr ⟨eq_false_of_ne_true hl,?_⟩⟩
    rw [KernelMem.losKernelMalloc, if_neg hl] at h0 ⊢
    exact ⟨rfl,if_neg h0⟩

theorem realloc (hI : KernelInv k N F L own) {e : Request} (he : e = .realloc ptr size answer pages) (hp : k.Pre e) (hf : k.Fits e) :
    ∃ N' F' L' own', KernelInv (k.losKernelRealloc ptr size answer pages).1 N' F' L' own' := by
  subst he
  rw [KernelMem.losKernelRealloc]
  simp only [KernelMem.Pre] at hp
  simp only [KernelMem.Fits] at hf
  by_cases h0 : ptr = 0
  · simp only [h0, if_true] at hp hf ⊢
    exact hI.malloc hp hf
  simp only [h0, if_false] at hp hf ⊢
  rcases hp with ⟨b,hb,rfl,hp⟩ | hp
  · -- a page-backed block moves by copying, or the new block is given up
    have hn := hI.heapNode_paged hb
    simp only [hn, if_true] at hf ⊢
    simp only [(hI.paged b hb).count]
    obtain ⟨hf,hback⟩ := hf
    obtain ⟨N₁,F₁,L₁,own₁,h₁⟩ := hI.malloc hp hf
    have hblock := malloc_block k size answer pages
    rw [KernelMem.reallocCopied] at hback
    rcases hm : k.losKernelMalloc size answer pages with ⟨k₁,tmpPtr⟩
    rw [hm] at h₁ hblock hback
    dsimp only at h₁ hblock hback ⊢
    by_cases ht : tmpPtr = 0
    · rw [if_pos ht]
      exact ⟨_,_,_,_,h₁⟩
    rw [if_neg ht]
    obtain ⟨boundary,hcase⟩ := hblock ht
    have hlive : (⟨tmpPtr,size,boundary⟩ : Block) ∈ k₁.large ∨ (⟨tmpPtr,size,boundary⟩ : Block) ∈ k₁.heap.live := by
      rcases hcase with ⟨-,-,hlarge⟩ | ⟨-,-,hlarge⟩
      · exact .inl (hlarge ▸ List.mem_cons_self)
      · exact .inr (hlarge ▸ List.mem_cons_self)
    have hb₁ : b ∈ k₁.large := by
      rcases hcase with ⟨-,-,hlarge⟩ | ⟨-,rfl,-⟩
      · exact hlarge ▸ List.mem_cons_of_mem _ hb
      · exact (k.heapCall_large (.alloc size) pages).1.symm ▸ hb
    have h₂ := h₁.memcpyS hlive b.ptr (Word.shl ((k₁.osVmVaddrToPage b.ptr).getD 0) PAGE_SHIFT)
    rcases hc : Kernel.memcpyS k₁.heap.pool.mem tmpPtr size b.ptr (Word.shl ((k₁.osVmVaddrToPage b.ptr).getD 0) PAGE_SHIFT) with
      ⟨mem,ok⟩
    rw [hc] at h₂ hback
    cases ok with
    | true => exact ⟨_,_,_,_,h₂.freePages hb₁⟩
    | false => exact h₂.free hlive hback
  · have hl : ∃ b ∈ k.heap.live, b.ptr = ptr := hp.1.1.resolve_left h0
    obtain ⟨b,hb,rfl⟩ := hl
    have hn := hI.heapNode_live hb
    simp only [hn, Bool.true_eq_false, if_false] at hf ⊢
    exact hI.heapCall hp hf

theorem run (hI : KernelInv k N F L own) {e : Request} (hp : k.Pre e) (hf : k.Fits e) :
    ∃ N' F' L' own', KernelInv (k.run e) N' F' L' own' := by
  cases e with
  | malloc size answer pages => exact hI.malloc hp hf
  | mallocAlign size boundary answer pages =>
    rw [KernelMem.run, KernelMem.losKernelMallocAlign]
    rw [KernelMem.Pre] at hp
    rw [KernelMem.Fits] at hf
    split_ifs at hp ⊢ with hl
    · exact ⟨N,F,L,own,hI.allocPages hp⟩
    · exact hI.heapCall hp (hf hl)
  | realloc ptr size answer pages => exact hI.realloc rfl hp hf
  | free ptr =>
    obtain ⟨b,hb,rfl⟩ := hp
    exact hI.free hb hf
  | heapCall c pages => exact hI.heapCall hp hf
  | foreign addr value =>
    exact ⟨N,F,L,own,hI.setWord_outside (hI.heap.outside hp)⟩
  | expandEnable =>
    exact ⟨N,F,L,own,hI.heap.expandEnable,hI.straight,fun b hb => (hI.paged b hb).of_kept rfl rfl (hI.paged b hb).pages.apart rfl,
      hI.apart,hI.areas⟩
  | heapInited =>
    exact ⟨N,F,L,own,hI.heap,hI.straight,fun b hb => (hI.paged b hb).of_kept rfl rfl (hI.paged b hb).pages.apart rfl,hI.apart,
      hI.areas⟩

end KernelInv

theorem kernelInv_of_reachable (hr : Run.Reachable (kernelSystem PoolBelow) KernelMem.Fits k) :
    ∃ N F L own, KernelInv k N F L own := by
  refine hr.invariant (I := fun k => ∃ N F L own, KernelInv k N F L own) ?_ ?_
  · rintro k ⟨hi,hl,-,-⟩
    obtain ⟨F,L,-,hareas,-,hS⟩ := init_sound hi
    obtain ⟨mem,pages,pool,size,p,-,-,-,-,-,-,he⟩ := hi
    have hlive : k.heap.live = [] := by rw [he]
    refine ⟨_,F,L,id,hS,fun b hb => ?_,fun b hb => ?_,hl ▸ List.Pairwise.nil,fun x hx => ?_⟩
    · rw [hlive] at hb
      cases hb
    · rw [hl] at hb
      cases hb
    · rw [hareas] at hx
      cases hx
  · rintro k e ⟨N,F,L,own,hI⟩ hp hf
    exact hI.run hp hf

end LiteOsKernel.Mem.Kernel
