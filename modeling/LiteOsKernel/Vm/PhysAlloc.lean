import LiteOsKernel.Vm.PhysFree

/-! Allocation of contiguous pages: the choice of a block or of a run of maximal blocks, the
removal from the free lists, and the return of what was not asked for. -/
namespace LiteOsKernel.Vm
open Buddy

variable {s s' : VmPhys} {i j k p n m order : Nat} {T T' : Set Nat}

theorem osVmPagesToOrder_spec (h : osVmPagesToOrder n = some k) :
    k < 32 ∧ n ≤ 2^k ∧ ∀ j < k, 2^j < n := by
  obtain ⟨h1,h2,h3⟩ := List.find?_range_eq_some.mp h
  have hk := List.mem_range.mp h2
  refine ⟨hk,?_,?_⟩
  · rw [vmOrderToPages_eq hk] at h1
    exact of_decide_eq_true h1
  · intro j hj
    have := h3 j hj
    rw [vmOrderToPages_eq (hj.trans hk)] at this
    simpa using this

theorem osVmPagesToOrder_exists (h : n ≤ 2^31) : ∃ k, osVmPagesToOrder n = some k := by
  rcases hf : osVmPagesToOrder n with - | k
  · have := List.find?_eq_none.mp hf 31 (by decide)
    rw [vmOrderToPages_eq (by norm_num)] at this
    simp at this
    omega
  · exact ⟨k,rfl⟩

private theorem firstFree_spec {seg : VmPhysSeg} (h : firstFree seg order = some (k,p)) :
    order ≤ k ∧ k < VM_LIST_ORDER_MAX ∧ p ∈ seg.freeList k := by
  obtain ⟨l,hl,he⟩ := List.exists_of_findSome?_eq_some h
  obtain ⟨q,hq,heq⟩ := Option.map_eq_some_iff.mp he
  obtain ⟨rfl,rfl⟩ := Prod.mk.inj heq
  have hr := List.mem_range'_1.mp hl
  exact ⟨hr.1,by omega,List.mem_of_head? hq⟩

/-- The loop that takes blocks of one order off their list. -/
theorem SegInv.takeLoop (hk : k < VM_LIST_ORDER_MAX) : ∀ m {s : VmPhys} {T : Set Nat} {p : Nat}, SegInv s i T →
    segLo s i ≤ p → (∀ j < m, p + j*2^k < segHi s i ∧ (s.page (p + j*2^k)).order = k) →
    ∃ s', takeLoop k m s p = .ok s' ∧ SegInv s' i (T ∪ pages p (m*2^k)) ∧ Only s s' i
  | 0, s, T, p, h, hp, hb => by
    refine ⟨s,rfl,?_,Only.refl s i⟩
    refine h.congr fun x _ _ => ?_
    rw [Nat.zero_mul]
    constructor
    · rintro (hx | hx)
      · exact hx
      · exact absurd hx.2 (not_lt.mpr hx.1)
    · exact .inl
  | m + 1, s, T, p, h, hp, hb => by
    have hk0 := Nat.two_pow_pos k
    obtain ⟨hph,hpo⟩ := hb 0 (Nat.succ_pos m)
    rw [Nat.zero_mul, Nat.add_zero] at hph hpo
    obtain ⟨s₁,hd,h₁,ho₁,hkeep⟩ := h.del hp hph (by rw [hpo]; exact hk)
    rw [hpo] at h₁
    have hnext : ∀ j, p + 2^k + j*2^k = p + (j+1)*2^k := fun j => by ring
    obtain ⟨s₂,hl,h₂,ho₂⟩ := SegInv.takeLoop hk m h₁ (p := p + 2^k) (by rw [ho₁.lo]; omega) (by
      intro j hj
      rw [ho₁.hi, hnext]
      have hb' := hb (j+1) (by omega)
      refine ⟨hb'.1,?_⟩
      rw [hkeep _ (by rw [Nat.add_mul]; omega)]
      exact hb'.2)
    refine ⟨s₂,?_,?_,ho₁.trans ho₂⟩
    · rw [Vm.takeLoop]
      simp only [hd, bind, Except.bind, vmOrderToPages_eq (hk.trans (by decide))]
      exact hl
    · refine h₂.congr fun x _ _ => ?_
      have hm : (m+1)*2^k = 2^k + m*2^k := by ring
      simp only [Set.mem_union, pages, mem_block, Set.mem_ofPred_eq, hm]
      constructor
      · rintro (hx | hx)
        · exact .inl (.inl hx)
        · by_cases hlt : x < p + 2^k
          · exact .inl (.inr ⟨hx.1,hlt⟩)
          · exact .inr ⟨by omega,by omega⟩
      · rintro ((hx | hx) | hx)
        · exact .inl hx
        · exact .inr ⟨hx.1,by omega⟩
        · exact .inr ⟨by omega,by omega⟩

/-- Splitting a taken block gives back all but its first part. -/
theorem SegInv.splitLoop : ∀ m {s : VmPhys} {T : Set Nat}, SegInv s i T → order + m < VM_LIST_ORDER_MAX →
    segLo s i ≤ p → p + 2^(order+m) ≤ segHi s i → 2^(order+m) ∣ segFrame s i p → block p (order+m) ⊆ T →
    ∃ s', splitLoop s p order m = .ok s' ∧
      SegInv s' i (T \ {x | p + 2^order ≤ x ∧ x < p + 2^(order+m)}) ∧ Only s s' i
  | 0, s, T, h, hm, hp, hin, hal, ht => by
    refine ⟨s,rfl,?_,Only.refl s i⟩
    refine h.congr fun x _ _ => ?_
    simp only [Set.mem_sdiff, Set.mem_ofPred_eq, Nat.add_zero]
    exact ⟨fun hx => hx.1,fun hx => ⟨hx,by omega⟩⟩
  | m + 1, s, T, h, hm, hp, hin, hal, ht => by
    rw [← Nat.add_assoc] at hm hin hal ht
    set k := order + m with hkdef
    have hk0 := Nat.two_pow_pos k
    have h2 : 2^(k+1) = 2^k + 2^k := by ring
    have hq1 : segLo s i ≤ p + 2^k := by omega
    have hq2 : p + 2^k < segHi s i := by omega
    have hqt : block (p + 2^k) k ⊆ T := fun x hx => ht ⟨by have := hx.1; omega,by have := hx.2; omega⟩
    have hord := h.free.max_of_taken hq1 hq2 (hqt (self_mem_block _ k))
    have hqf : segFrame s i (p + 2^k) = segFrame s i p + 2^k := SegInv.frame_add s hp _
    have hal' : 2^k ∣ segFrame s i p := (Nat.pow_dvd_pow 2 (Nat.le_succ k)).trans hal
    -- the buddy of the second half is the first half, which is taken
    have hbud : segFrame s i (p + 2^k) ^^^ 2^k = segFrame s i p := by
      have hx := xor_two_pow hal'
      obtain ⟨c,hc⟩ := hal
      rw [if_pos (by rw [hc, pow_succ, Nat.mul_assoc, Nat.mul_div_cancel_left _ hk0]; omega)] at hx
      rw [hqf, ← hx, Nat.xor_assoc, Nat.xor_self, Nat.xor_zero]
    obtain ⟨s₁,ha,h₁,ho₁⟩ := h.add hq1 (show k < VM_LIST_ORDER_MAX by omega) (by omega)
      (by rw [hqf]; exact Nat.dvd_add hal' (dvd_refl _)) hqt (by
        intro hk q h3 h4 h5
        rw [SegInv.frame_inj s h3 hp (h5.trans hbud),
          h.free.max_of_taken hp (by omega) (ht (self_mem_block p _))]
        omega)
    obtain ⟨s₂,hl,h₂,ho₂⟩ := SegInv.splitLoop m h₁ (by omega) (by rw [ho₁.lo]; exact hp)
      (by rw [ho₁.hi, ← hkdef]; omega) (by rw [ho₁.frame]; exact hal') (by
        rw [← hkdef]
        exact fun x hx => ⟨ht ⟨hx.1,by have := hx.2; omega⟩,fun hx' => absurd hx'.1 (by have := hx.2; omega)⟩)
    refine ⟨s₂,?_,?_,ho₁.trans ho₂⟩
    · rw [Vm.splitLoop]
      simp only [vmOrderToPages_eq (show order + m < 32 by simp only [VM_LIST_ORDER_MAX] at hm; omega)]
      rw [if_neg (not_not.mpr hord)]
      simp only [← hkdef, ha, bind, Except.bind]
      exact hl
    · refine h₂.congr fun x _ _ => ?_
      have hle : 2^order ≤ 2^k := Nat.pow_le_pow_right (by norm_num) (by omega)
      simp only [Set.mem_sdiff, Set.mem_ofPred_eq, mem_block, ← Nat.add_assoc, ← hkdef, not_and, not_lt]
      constructor
      · rintro ⟨hx,h3⟩
        exact ⟨⟨hx,fun h4 => by have := h3 (by omega); omega⟩,fun h4 => by have := h3 h4; omega⟩
      · rintro ⟨⟨hx,h3⟩,h4⟩
        refine ⟨hx,fun h5 => ?_⟩
        have := h4 h5
        have := h3 this
        omega

/-- The pages behind the request go back to the free lists. -/
theorem SegInv.recycle {r : Nat} (h : SegInv s i (T ∪ pages p r)) (hn : n ≤ r) (hp : segLo s i ≤ p)
    (hin : p + r ≤ segHi s i) (hd : ∀ x ∈ pages p r, x ∉ T) :
    ∃ s', osVmRecycleExtraPages s (p + n) n r = .ok s' ∧ SegInv s' i (T ∪ pages p n) ∧ Only s s' i := by
  rw [osVmRecycleExtraPages]
  split_ifs with hle
  · rw [show n = r by omega]
    exact ⟨s,rfl,h,Only.refl s i⟩
  obtain ⟨s₁,hf,h₁,ho₁⟩ := h.freeContiguous (p := p + n) (n := r - n) (by omega) (by omega)
    (fun x hx => .inr ⟨by have := hx.1; omega,by have := hx.2; omega⟩)
  refine ⟨s₁,hf,h₁.congr fun x _ _ => ?_,ho₁⟩
  constructor
  · rintro (hx | hx)
    · refine ⟨.inl hx,fun hx' => hd x ⟨?_,?_⟩ hx⟩
      · have := hx'.1
        omega
      · have := hx'.2
        omega
    · exact ⟨.inr ⟨hx.1,by have := hx.2; omega⟩,fun hx' => absurd hx'.1 (by have := hx.2; omega)⟩
  · rintro ⟨hx | hx,hx'⟩
    · exact .inl hx
    · refine .inr ⟨hx.1,?_⟩
      by_contra hlt
      exact hx' ⟨by omega,by have := hx.2; omega⟩

/-- What an allocation gives: n pages of the segment that were free. -/
def Given (s s' : VmPhys) (i : Nat) (T : Set Nat) (p n : Nat) : Prop :=
  segLo s i ≤ p ∧ p + n ≤ segHi s i ∧ (∀ x ∈ pages p n, x ∉ T) ∧ SegInv s' i (T ∪ pages p n) ∧ Only s s' i

private theorem SegInv.not_taken (h : SegInv s i T) (hp : segLo s i ≤ p) (hph : p < segHi s i) (hk : k < VM_LIST_ORDER_MAX)
    (ho : (s.page p).order = k) : ∀ x ∈ pages p (2^k), x ∉ T := by
  intro x hx hxT
  have hin := h.free.inside p hp hph (by rw [ho]; exact hk)
  rw [ho] at hin
  refine (h.free.cover x (hp.trans hx.1) (hx.2.trans_le hin)).mp hxT p hp hph (by rw [ho]; exact hk) ?_
  rw [ho]
  exact hx

/-- A request that a block of order k serves. -/
private theorem SegInv.allocSmall (h : SegInv s i T) (hn : 0 < n) (hno : n ≤ 2^order) (hok : order ≤ k) (hk : k < VM_LIST_ORDER_MAX)
    (hm : p ∈ (s.seg i).freeList k) : ∃ s', allocDone s p n order k = .ok s' ∧ Given s s' i T p n := by
  obtain ⟨⟨hp,hph⟩,ho⟩ := (h.lists k hk p).mp hm
  have hk0 := Nat.two_pow_pos k
  have hle : 2^order ≤ 2^k := Nat.pow_le_pow_right (by norm_num) hok
  have h256 : 2^k ≤ 2^8 := Nat.pow_le_pow_right (by norm_num) (by simp only [VM_LIST_ORDER_MAX] at hk; omega)
  have hin := h.free.inside p hp hph (by rw [ho]; exact hk)
  have hal := h.free.aligned p hp hph (by rw [ho]; exact hk)
  rw [ho] at hin hal
  have hfree := h.not_taken hp hph hk ho
  have hcnt : (n + 2^k - 1)/2^k = 1 := Nat.div_eq_of_lt_le (by omega) (by omega)
  obtain ⟨s₁,ht,h₁,ho₁⟩ := SegInv.takeLoop hk 1 h hp (by
    intro j hj
    rw [show j = 0 by omega, Nat.zero_mul, Nat.add_zero]
    exact ⟨hph,ho⟩)
  rw [Nat.one_mul] at h₁
  have hsum : order + (k - order) = k := by omega
  obtain ⟨s₂,hs,h₂,ho₂⟩ := SegInv.splitLoop (k - order) h₁ (show order + (k - order) < VM_LIST_ORDER_MAX by omega)
    (show segLo s₁ i ≤ p by rw [ho₁.lo]; exact hp)
    (by rw [ho₁.hi, hsum]; exact hin) (by rw [ho₁.frame, hsum]; exact hal) (by rw [hsum]; exact Set.subset_union_right)
  have h₂' : SegInv s₂ i (T ∪ pages p (2^order)) := by
    refine h₂.congr fun x _ _ => ?_
    rw [hsum]
    constructor
    · rintro (hx | hx)
      · exact ⟨.inl hx,fun hx' => hfree x ⟨by have := hx'.1; omega,hx'.2⟩ hx⟩
      · exact ⟨.inr ⟨hx.1,by have := hx.2; omega⟩,fun hx' => absurd hx'.1 (by have := hx.2; omega)⟩
    · rintro ⟨hx | hx,hx'⟩
      · exact .inl hx
      · refine .inr ⟨hx.1,?_⟩
        by_contra hlt
        exact hx' ⟨by omega,hx.2⟩
  obtain ⟨s₃,hr,h₃,ho₃⟩ := h₂'.recycle hno (by rw [ho₂.lo, ho₁.lo]; exact hp) (by rw [ho₂.hi, ho₁.hi]; omega)
    (fun x hx => hfree x ⟨hx.1,by have := hx.2; omega⟩)
  have hround : roundup n (vmOrderToPages (min order k)) = 2^order := by
    rw [min_eq_left hok, vmOrderToPages_eq (by simp only [VM_LIST_ORDER_MAX] at hk; omega),
      roundup_two_pow (by simp only [VM_LIST_ORDER_MAX] at hk; omega) (by omega),
      show (n + 2^order - 1)/2^order = 1 from Nat.div_eq_of_lt_le (by omega) (by omega), Nat.one_mul]
  refine ⟨s₃,?_,hp,by omega,fun x hx => hfree x ⟨hx.1,by have := hx.2; omega⟩,h₃,(ho₁.trans ho₂).trans ho₃⟩
  rw [allocDone, hround, vmOrderToPages_eq (by simp only [VM_LIST_ORDER_MAX] at hk; omega), hcnt]
  simp only [ht, bind, Except.bind, osVmPhysPagesSpiltUnsafe, hs]
  exact hr

/-- The walk over maximal blocks reaches paEnd only past free ones. -/
private theorem largeWalk_spec {seg : VmPhysSeg} {paEnd : Nat} (hend : paEnd < 2^32) : ∀ fuel {pa : Nat}, pa < paEnd →
    paEnd ≤ largeWalk s seg paEnd fuel pa →
    ∀ j, 0 < j → pa + j*2^20 < paEnd → seg.start ≤ pa + j*2^20 →
      (s.page (seg.pageBase + (pa + j*2^20 - seg.start)/4096)).order = VM_LIST_ORDER_MAX - 1
  | 0, pa, hpa, hw => by
    rw [largeWalk] at hw
    omega
  | fuel + 1, pa, hpa, hw => by
    intro j hj hlt hst
    have hstep : Word.add pa (Word.shl PAGE_SIZE (VM_LIST_ORDER_MAX - 1)) = pa + 2^20 := by
      rw [show Word.shl PAGE_SIZE (VM_LIST_ORDER_MAX - 1) = 2^20 by decide +kernel]
      exact Word.add_eq (by omega)
    rw [largeWalk] at hw
    simp only [hstep] at hw
    split_ifs at hw with h1 h2
    · have := hw
      omega
    · omega
    · rw [not_or, not_or, not_lt] at h1
      rw [Word.sub_eq h1.2.1, Nat.shiftRight_eq_div_pow, not_not] at h2
      by_cases hj1 : j = 1
      · subst hj1
        rw [Nat.one_mul]
        exact h2
      · have := largeWalk_spec hend fuel (by omega) hw (j-1) (by omega) (by omega) (by omega)
        rw [show pa + 2^20 + (j-1)*2^20 = pa + j*2^20 by omega] at this
        exact this

/-- What a request for more pages than a maximal block has must not meet: a page whose scan is
passed because the end address has wrapped around, before any other page passes. -/
def LargeExact (s : VmPhys) (seg : VmPhysSeg) (n : Nat) : Prop :=
  ∀ l₁ p l₂, seg.freeList (VM_LIST_ORDER_MAX - 1) = l₁ ++ p :: l₂ → (∀ q ∈ l₁, largeFits s seg n q = false) →
    largeFits s seg n p = true → (s.page p).physAddr + n*4096 < 2^32

private theorem SegInv.largeAlloc (h : SegInv s i T) (hn : 0 < n) (hx : LargeExact s (s.seg i) n)
    (he : osVmPhysLargeAlloc s (s.seg i) n = some p) :
    n < 2^20 ∧ segLo s i ≤ p ∧ ∀ j < (n + 255)/256, p + j*2^8 < segHi s i ∧ (s.page (p + j*2^8)).order = 8 := by
  obtain ⟨hfit,l₁,l₂,hl,hno⟩ := List.find?_eq_some_iff_append.mp he
  have hmem : p ∈ (s.seg i).freeList (VM_LIST_ORDER_MAX - 1) := by
    rw [hl]
    simp
  obtain ⟨⟨hp,hph⟩,ho⟩ := (h.lists _ (by decide) p).mp hmem
  have hwrap := hx l₁ p l₂ hl (fun q hq => by simpa using hno q hq) hfit
  have haddr := h.addr p hp hph
  have hfl := h.frame_lt hp hph
  have hsm := h.start_mod
  have hzm := h.size_mod
  have hend : segEnd (s.seg i) = (s.seg i).start + (s.seg i).size := Word.add_eq h.end_lt
  have hsh : Word.shl n PAGE_SHIFT = n*4096 := by
    rw [Word.shl, Nat.shiftLeft_eq, PAGE_SHIFT]
    exact Nat.mod_eq_of_lt (by omega)
  have hend' := h.end_lt
  rw [largeFits, hsh, Word.add_eq hwrap, hend] at hfit
  split_ifs at hfit with hle
  have hwalk := largeWalk_spec hwrap _ (by omega) (of_decide_eq_true hfit)
  refine ⟨by omega,hp,fun j hj => ?_⟩
  have hlt : (s.page p).physAddr + j*2^20 < (s.page p).physAddr + n*4096 := by
    clear * - hj
    omega
  have hin : p + j*2^8 < segHi s i := by
    rw [haddr] at hle
    simp only [segHi, segLo, segFrame] at *
    omega
  refine ⟨hin,?_⟩
  by_cases hj0 : j = 0
  · rw [hj0, Nat.zero_mul, Nat.add_zero]
    exact ho
  · have hst : (s.seg i).start ≤ (s.page p).physAddr + j*2^20 := by
      rw [haddr, segFrame]
      omega
    have := hwalk j (Nat.pos_of_ne_zero hj0) hlt hst
    rw [haddr] at this
    rw [← show p + j*2^8 = (s.seg i).pageBase + (segFrame s i p*4096 + j*2^20 - (s.seg i).start)/4096 by
      simp only [segLo, segFrame] at *
      omega] at this
    exact this

/-- A request that a run of maximal blocks serves. -/
private theorem SegInv.allocLarge (h : SegInv s i T) (hn : 0 < n) (hno : n < 2^20) (ho : 8 < order) (hp : segLo s i ≤ p)
    (hb : ∀ j < (n + 255)/256, p + j*2^8 < segHi s i ∧ (s.page (p + j*2^8)).order = 8) :
    ∃ s', allocDone s p n order (VM_LIST_ORDER_MAX - 1) = .ok s' ∧ Given s s' i T p n := by
  set c := (n + 255)/256 with hc
  have h8 : VM_LIST_ORDER_MAX - 1 = 8 := rfl
  have hpow : vmOrderToPages 8 = 2^8 := vmOrderToPages_eq (by norm_num)
  obtain ⟨s₁,ht,h₁,ho₁⟩ := SegInv.takeLoop (by decide) c h hp hb
  obtain ⟨hlast,hlo⟩ := hb (c-1) (by omega)
  have hin := h.free.inside _ (by omega) hlast (by rw [hlo]; decide)
  rw [hlo] at hin
  have hfree : ∀ x ∈ pages p (c*2^8), x ∉ T := by
    intro x hx
    have hx1 := hx.1
    have hx2 := hx.2
    obtain ⟨h3,h4⟩ := hb ((x-p)/256) (by omega)
    exact h.not_taken (by omega) h3 (by decide) h4 x ⟨by omega,by omega⟩
  obtain ⟨s₂,hr,h₂,ho₂⟩ := h₁.recycle (n := n) (by omega) (by rw [ho₁.lo]; exact hp) (by rw [ho₁.hi]; omega) hfree
  have hround : roundup n (2^8) = c*2^8 := by
    rw [roundup_two_pow (by norm_num) (by omega), hc]
    omega
  refine ⟨s₂,?_,hp,by omega,fun x hx => hfree x ⟨hx.1,by have := hx.2; omega⟩,h₂,ho₁.trans ho₂⟩
  rw [allocDone, h8, min_eq_right (by omega), hpow, hround,
    show (n + 2^8 - 1)/2^8 = c by rw [hc]; omega]
  simp only [ht, bind, Except.bind, osVmPhysPagesSpiltUnsafe, show 8 - order = 0 by omega]
  exact hr

/-- What a segment that gives nothing has: no block that is large enough, and no page that passes the scan for maximal blocks. -/
structure Refuses (s : VmPhys) (i n : Nat) : Prop where
  small : n ≤ 256 → ∀ k < VM_LIST_ORDER_MAX, ∀ p ∈ (s.seg i).freeList k, 2^k < n
  large : 256 < n → ∀ p ∈ (s.seg i).freeList (VM_LIST_ORDER_MAX - 1), largeFits s (s.seg i) n p = false

private theorem firstFree_none {seg : VmPhysSeg} (h : firstFree seg order = none) (hok : order ≤ k) (hk : k < VM_LIST_ORDER_MAX) :
    seg.freeList k = [] := by
  have := List.findSome?_eq_none_iff.mp h k (List.mem_range'_1.mpr ⟨hok,by omega⟩)
  exact List.head?_eq_none_iff.mp (Option.map_eq_none_iff.mp this)

theorem SegInv.pagesAlloc (h : SegInv s i T) (hn : 0 < n) (hmax : n ≤ 2^31) (hx : 256 < n → LargeExact s (s.seg i) n) :
    (osVmPhysPagesAlloc s i n = .ok (s,none) ∧ Refuses s i n) ∨
    ∃ s' p, osVmPhysPagesAlloc s i n = .ok (s',some p) ∧ Given s s' i T p n := by
  obtain ⟨order,ho⟩ := osVmPagesToOrder_exists hmax
  obtain ⟨h32,hle,hmin⟩ := osVmPagesToOrder_spec ho
  rw [osVmPhysPagesAlloc]
  simp only [ho]
  split_ifs with hlt
  · have hsmall : 2^order ≤ 2^8 := Nat.pow_le_pow_right (by norm_num) (by simp only [VM_LIST_ORDER_MAX] at hlt; omega)
    rcases hf : firstFree (s.seg i) order with - | ⟨k,p⟩
    · refine .inl ⟨rfl,fun _ k hk p hp => ?_,fun h256 => by omega⟩
      by_contra hnk
      have hok : order ≤ k := by
        by_contra hlt
        exact hnk (hmin k (not_le.mp hlt))
      rw [firstFree_none hf hok hk] at hp
      exact List.not_mem_nil hp
    · obtain ⟨h1,h2,h3⟩ := firstFree_spec hf
      obtain ⟨s',hd,hg⟩ := h.allocSmall hn hle h1 h2 h3
      refine .inr ⟨s',p,?_,hg⟩
      simp only [hd, bind, Except.bind]
  · have h8 : 8 < order := by
      simp only [VM_LIST_ORDER_MAX] at hlt
      omega
    have h256 : 256 < n := hmin 8 h8
    rcases hf : osVmPhysLargeAlloc s (s.seg i) n with - | p
    · exact .inl ⟨rfl,fun h => by omega,fun _ p hp => by simpa using List.find?_eq_none.mp hf p hp⟩
    · obtain ⟨h0,h1,h2⟩ := h.largeAlloc hn (hx h256) hf
      obtain ⟨s',hd,hg⟩ := h.allocLarge hn h0 h8 h1 h2
      refine .inr ⟨s',p,?_,hg⟩
      simp only [hd, bind, Except.bind]

end LiteOsKernel.Vm
