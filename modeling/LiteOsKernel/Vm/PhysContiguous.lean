import LiteOsKernel.Vm.PhysRun

/-! Requests for contiguous pages: what is given was free, what is refused is not there, and the sizes for which this fails. -/
namespace LiteOsKernel.Vm
open Buddy

variable {s s' : VmPhys} {i j k p n c : Nat} {A : Set Nat}

/-- Free maximal blocks from page p on, one behind the other, that cover n pages. -/
def MaximalRun (s : VmPhys) (i p n : Nat) : Prop :=
  ∀ j < (n + 255)/256, FreeBlock s i (VM_LIST_ORDER_MAX - 1) (p + j*2^8)

/-- A request is served with free pages of one segment, or refused with nothing changed because there are none that serve it. -/
def ContiguousCorrect (s : VmPhys) (A : Set Nat) (n : Nat) : Prop :=
  (∃ s' p, losPhysPagesAllocContiguous s n = .ok (s',some p) ∧ Served s s' A p n) ∨
  (losPhysPagesAllocContiguous s n = .ok (s,none) ∧
    (n ≤ 2^(VM_LIST_ORDER_MAX - 1) → ∀ i < s.segNum, ∀ k p, FreeBlock s i k p → 2^k < n) ∧
    (2^(VM_LIST_ORDER_MAX - 1) < n → ∀ i < s.segNum, ∀ p, ¬ MaximalRun s i p n))

/-- The walk over the blocks of a run gets to the end of the run. -/
private theorem largeWalk_complete {seg : VmPhysSeg} {pa paEnd : Nat} (hend : segEnd seg < 2^32) (hle : paEnd ≤ segEnd seg)
    (hpa : seg.start ≤ pa) (hc : paEnd ≤ pa + c*2^20) (hin : pa + c*2^20 ≤ segEnd seg)
    (hord : ∀ j, 0 < j → j < c → (s.page (seg.pageBase + (pa + j*2^20 - seg.start)/4096)).order = VM_LIST_ORDER_MAX - 1) :
    ∀ fuel j, j < c → c ≤ j + fuel → paEnd ≤ largeWalk s seg paEnd fuel (pa + j*2^20)
  | 0, j, hj, hf => by omega
  | fuel + 1, j, hj, hf => by
    have hmono : (j + 1)*2^20 ≤ c*2^20 := Nat.mul_le_mul_right _ hj
    have hstep : Word.add (pa + j*2^20) (Word.shl PAGE_SIZE (VM_LIST_ORDER_MAX - 1)) = pa + (j + 1)*2^20 := by
      rw [show Word.shl PAGE_SIZE (VM_LIST_ORDER_MAX - 1) = 2^20 by decide +kernel, Word.add_eq (by omega)]
      ring
    rw [largeWalk]
    simp only [hstep]
    by_cases hlast : paEnd ≤ pa + (j + 1)*2^20
    · rw [if_pos (.inl hlast)]
      exact hlast
    · have hj' : j + 1 < c := by
        by_contra hjc
        have : c = j + 1 := by omega
        rw [this] at hc
        exact hlast hc
      rw [if_neg (by omega), Word.sub_eq (by omega), Nat.shiftRight_eq_div_pow, show 2^PAGE_SHIFT = 4096 by norm_num [PAGE_SHIFT],
        if_neg (not_not.mpr (hord (j + 1) (Nat.succ_pos j) hj'))]
      exact largeWalk_complete hend hle hpa hc hin hord fuel (j + 1) hj' (by omega)

/-- The first page of a run passes the scan. -/
private theorem SegInv.largeFits_of_run (h : SegInv s i A) (hn : 0 < n) (hr : MaximalRun s i p n) : largeFits s (s.seg i) n p = true := by
  have hblock (j : Nat) (hj : j < (n + 255)/256) : segLo s i ≤ p + j*2^8 ∧ p + j*2^8 + 2^8 ≤ segHi s i ∧ (s.page (p + j*2^8)).order = 8 := by
    obtain ⟨⟨h1,h2⟩,h3⟩ := (h.lists _ (hr j hj).1 _).mp (hr j hj).2
    have := h.free.inside _ h1 h2 (by rw [h3]; decide)
    rw [h3] at this
    exact ⟨h1,this,h3⟩
  obtain ⟨hp,-,-⟩ := hblock 0 (by omega)
  obtain ⟨-,hlast,-⟩ := hblock ((n + 255)/256 - 1) (by omega)
  rw [Nat.zero_mul, Nat.add_zero] at hp
  have haddr := h.addr p hp (by omega)
  have hend : segEnd (s.seg i) = (s.seg i).start + (s.seg i).size := Word.add_eq h.end_lt
  have hlt := h.end_lt
  have hsm := h.start_mod
  have hcn : n ≤ (n + 255)/256*2^8 ∧ (n + 255)/256 - 1 + 1 = (n + 255)/256 := by omega
  have hpages : p - segLo s i + (n + 255)/256*2^8 ≤ (s.seg i).size/4096 := by
    simp only [segHi, segLo] at *
    omega
  have hin : (s.page p).physAddr + (n + 255)/256*2^20 ≤ (s.seg i).start + (s.seg i).size := by
    rw [haddr, segFrame]
    simp only [segLo] at *
    omega
  have hsh : Word.shl n PAGE_SHIFT = n*4096 := by
    rw [Word.shl, Nat.shiftLeft_eq, PAGE_SHIFT]
    exact Nat.mod_eq_of_lt (by omega)
  rw [largeFits, hsh, Word.add_eq (by omega), if_neg (by rw [hend]; omega)]
  refine decide_eq_true ?_
  have hord : ∀ j, 0 < j → j < (n + 255)/256 →
      (s.page ((s.seg i).pageBase + ((s.page p).physAddr + j*2^20 - (s.seg i).start)/4096)).order = VM_LIST_ORDER_MAX - 1 := by
    intro j _ hj
    have hpage : (s.seg i).pageBase + ((s.page p).physAddr + j*2^20 - (s.seg i).start)/4096 = p + j*2^8 := by
      rw [haddr, segFrame]
      simp only [segLo] at *
      omega
    rw [hpage]
    exact (hblock j hj).2.2
  have hcover : (s.page p).physAddr + n*4096 ≤ (s.page p).physAddr + (n + 255)/256*2^20 := by
    clear * - hcn
    omega
  have hpos : 0 < (n + 255)/256 := by omega
  have hstart : (s.seg i).start ≤ (s.page p).physAddr := by
    rw [haddr, segFrame]
    omega
  have hfuel : (n + 255)/256 ≤ (s.seg i).size >>> (PAGE_SHIFT + 8) + 1 := by
    rw [Nat.shiftRight_eq_div_pow, show 2^(PAGE_SHIFT + 8) = 1048576 by norm_num [PAGE_SHIFT]]
    omega
  rw [← hend] at hin hlt
  have hwalk := largeWalk_complete hlt (hcover.trans hin) hstart hcover hin hord
    ((s.seg i).size >>> (PAGE_SHIFT + 8) + 1) 0 hpos (by rw [Nat.zero_add]; exact hfuel)
  rwa [Nat.zero_mul, Nat.add_zero] at hwalk

private theorem ok_of_refuses (h : PhysInv s A) (hn : 0 < n) (hr : ∀ j < s.segNum, Refuses s j n) :
    (n ≤ 2^(VM_LIST_ORDER_MAX - 1) → ∀ i < s.segNum, ∀ k p, FreeBlock s i k p → 2^k < n) ∧
    (2^(VM_LIST_ORDER_MAX - 1) < n → ∀ i < s.segNum, ∀ p, ¬ MaximalRun s i p n) := by
  refine ⟨fun hsmall i hi k p hb => (hr i hi).small hsmall k hb.1 p hb.2,fun hlarge i hi p hrun => ?_⟩
  have hfree := hrun 0 (by omega)
  rw [Nat.zero_mul, Nat.add_zero] at hfree
  have hfits := (hr i hi).large hlarge p hfree.2
  rw [(h.segs i hi).largeFits_of_run hn hrun] at hfits
  exact Bool.noConfusion hfits

/-- The segments in front of the first one that does not refuse are passed over. -/
private theorem pagesGetLoop_skip (i : Nat) : ∀ c j, i ≤ j → (∀ l, i ≤ l → l < j → osVmPhysPagesAlloc s l n = .ok (s,none)) →
    pagesGetLoop n (j - i + c) i s = pagesGetLoop n c j s := by
  intro c j hij
  induction j, hij using Nat.le_induction generalizing c with
  | base =>
    intro _
    rw [Nat.sub_self, Nat.zero_add]
  | succ j hj ih =>
    intro hno
    rw [show j + 1 - i + c = j - i + (c + 1) by omega, ih (c + 1) fun l h1 h2 => hno l h1 (by omega), pagesGetLoop,
      hno j hj (Nat.lt_succ_self j)]
    rfl

/-- A page of a segment that is given with n pages has them below 2^32. -/
private theorem PhysInv.addr_lt (h : PhysInv s A) (hn : 0 < n) (hi : i < s.segNum) (hp : segLo s i ≤ p) (hph : p < segHi s i)
    (hs : ∃ j < s.segNum, segLo s j ≤ p ∧ p + n ≤ segHi s j) : (s.page p).physAddr + n*4096 < 2^32 := by
  obtain ⟨j,hj,h1,h2⟩ := hs
  have hji : j = i := by
    by_contra hne
    have := h.layout.outside hj hi (Ne.symm hne) hp hph
    omega
  rw [hji] at h2
  have hsi := h.segs i hi
  have hend := hsi.end_lt
  have hsm := hsi.start_mod
  have hzm := hsi.size_mod
  rw [hsi.addr p hp hph, segFrame]
  simp only [segLo, segHi] at *
  omega

private theorem osVmPagesToOrder_none (h : 2^31 < n) : osVmPagesToOrder n = none := by
  refine List.find?_eq_none.mpr fun k hk => ?_
  have hk := List.mem_range.mp hk
  have : 2^k ≤ 2^31 := Nat.pow_le_pow_right (by norm_num) (by omega)
  rw [vmOrderToPages_eq hk]
  simpa using this.trans_lt h

/-- In every state with the allocator's invariant, a request for n pages is served or refused rightly exactly if there is no segment
at all, or n is at most 2^31 and no page passes the scan of OsVmPhysLargeAlloc by wrap-around before another one passes. -/
theorem contiguousCorrect_iff (h : PhysInv s A) (hn : 0 < n) (hn32 : n < 2^32) :
    ContiguousCorrect s A n ↔ s.segNum = 0 ∨ Call.NoWrap s (.allocContiguous n) := by
  have hcall : losPhysPagesAllocContiguous s n = pagesGetLoop n s.segNum 0 s := by
    rw [losPhysPagesAllocContiguous, if_neg (by omega), osVmPhysPagesGet]
  rw [ContiguousCorrect, hcall]
  constructor
  · intro hc
    by_cases h0 : s.segNum = 0
    · exact .inl h0
    have hreturns : ∀ e, pagesGetLoop n s.segNum 0 s ≠ .error e := by
      rintro e he
      rcases hc with ⟨_,_,hs,-⟩ | ⟨hs,-⟩
      · rw [hs] at he; cases he
      · rw [hs] at he; cases he
    have hmax : n ≤ 2^31 := by
      by_contra hbig
      obtain ⟨c,hnum⟩ := Nat.exists_eq_succ_of_ne_zero h0
      refine hreturns s ?_
      rw [hnum, pagesGetLoop, osVmPhysPagesAlloc, osVmPagesToOrder_none (not_le.mp hbig)]
      rfl
    refine .inr ⟨hmax,fun h256 i hi hbefore l₁ p l₂ hl hno hfit => ?_⟩
    obtain ⟨order,ho⟩ := osVmPagesToOrder_exists hmax
    obtain ⟨-,hle,-⟩ := osVmPagesToOrder_spec ho
    have h8 : ¬ order < VM_LIST_ORDER_MAX := by
      intro hlt
      have : 2^order ≤ 2^8 := Nat.pow_le_pow_right (by norm_num) (by simp only [VM_LIST_ORDER_MAX] at hlt; omega)
      omega
    have hlarge (j : Nat) (hj : osVmPhysLargeAlloc s (s.seg j) n = none) : osVmPhysPagesAlloc s j n = .ok (s,none) := by
      simp only [osVmPhysPagesAlloc, ho, if_neg h8, hj]
    have hfind : osVmPhysLargeAlloc s (s.seg i) n = some p :=
      List.find?_eq_some_iff_append.mpr ⟨hfit,l₁,l₂,hl,fun q hq => by simpa using hno q hq⟩
    have hskip := pagesGetLoop_skip (s := s) (n := n) 0 (s.segNum - i) i (Nat.zero_le i) fun j _ hj =>
      hlarge j (List.find?_eq_none.mpr fun q hq => by simpa using hbefore j hj q hq)
    obtain ⟨c,hc'⟩ := Nat.exists_eq_succ_of_ne_zero (show s.segNum - i ≠ 0 by omega)
    rw [Nat.sub_zero, show i + (s.segNum - i) = s.segNum by omega, hc', pagesGetLoop] at hskip
    obtain ⟨⟨hp,hph⟩,-⟩ := ((h.segs i hi).lists _ (by decide) p).mp (show p ∈ (s.seg i).freeList (VM_LIST_ORDER_MAX - 1) by
      rw [hl]
      simp)
    have halloc : osVmPhysPagesAlloc s i n = (do let s ← allocDone s p n order (VM_LIST_ORDER_MAX - 1); .ok (s,some p)) := by
      simp only [osVmPhysPagesAlloc, ho, if_neg h8, hfind]
    rw [halloc] at hskip
    rcases hd : allocDone s p n order (VM_LIST_ORDER_MAX - 1) with e | s₁
    · rw [hd] at hskip
      exact absurd hskip (hreturns e)
    · rw [hd] at hskip
      rcases hc with ⟨s',q,hs,hserved⟩ | ⟨hs,-⟩
      · rw [hs] at hskip
        cases hskip
        exact h.addr_lt hn hi hp hph hserved.inside
      · rw [hs] at hskip
        cases hskip
  · rintro (h0 | hw)
    · rw [h0]
      exact .inr ⟨rfl,fun _ i hi => absurd hi (by omega),fun _ i hi => absurd hi (by omega)⟩
    · rcases h.pagesGetLoop hn hw.1 s.segNum 0 (Nat.zero_add _) (fun _ j hj => absurd hj (Nat.not_lt_zero j)) hw.2 with
        ⟨hs,hall⟩ | hserved
      · exact .inr ⟨hs,ok_of_refuses h hn fun j hj => hall j (Nat.zero_le j) hj⟩
      · exact .inl hserved

/-- Three pages of a segment of eight pages that starts at an odd page. -/
theorem contiguousCorrect_eight_pages : ContiguousCorrect (areaStart [(0x80001000,0x8000)]) ∅ 3 := by
  obtain ⟨s,he,h⟩ := startup_spec (fun _ => default)
    (show ∀ a ∈ [((0x80001000 : Nat),(0x8000 : Nat))], a.1 % 4096 = 0 ∧ a.2 % 4096 = 0 ∧ a.1 + a.2 < 2^32 by decide)
  rw [show s = areaStart [(0x80001000,0x8000)] by rw [areaStart, he]; rfl] at h
  exact (contiguousCorrect_iff h (by decide) (by decide)).mpr (.inr ⟨by decide,fun h256 => absurd h256 (by decide)⟩)

/-- The first of two maximal blocks at 0x80000000 is free: 0x80000 pages are not refused, and the kernel panics. -/
theorem contiguousCorrect_fails_at_wrap : ¬ ∀ s A n, PhysInv s A → 0 < n → n < 2^32 → ContiguousCorrect s A n := by
  intro hall
  have h : PhysInv halfTaken _ := physInv_of_reachable (by decide) halfTaken_within
  have herr : losPhysPagesAllocContiguous halfTaken 0x80000 =
      .error (ended Prod.fst (losPhysPagesAllocContiguous halfTaken 0x80000)) := eq_error (by decide +kernel)
  rcases hall _ _ 0x80000 h (by decide) (by decide) with ⟨_,_,hs,-⟩ | ⟨hs,-⟩
  · rw [herr] at hs
    cases hs
  · rw [herr] at hs
    cases hs

end LiteOsKernel.Vm
