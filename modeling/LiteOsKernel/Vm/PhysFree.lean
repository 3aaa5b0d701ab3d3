import LiteOsKernel.Vm.PhysInvariant

/-! Release of pages: coalescing of a block with its buddies and the release of a contiguous range. -/
namespace LiteOsKernel.Vm
open Buddy

variable {s s' : VmPhys} {i j k p n : Nat} {T T' : Set Nat}

theorem vmOrderToPages_eq (h : k < 32) : vmOrderToPages k = 2^k := Word.shl_one h

theorem vmOrderToPhys_eq (h : k < 20) : vmOrderToPhys k = 2^k*4096 := by
  rw [vmOrderToPhys, PAGE_SHIFT, Word.shl_one (by omega), pow_add]
  ring

theorem SegInv.frame_lt (h : SegInv s i T) (hp : segLo s i ≤ p) (hph : p < segHi s i) :
    segFrame s i p < ((s.seg i).start + (s.seg i).size)/4096 := by
  have := h.start_mod
  have := h.size_mod
  have := h.end_lt
  simp only [segLo, segHi, segFrame] at *
  omega

theorem SegInv.frame_add (s : VmPhys) (hp : segLo s i ≤ p) (n : Nat) : segFrame s i (p + n) = segFrame s i p + n := by
  simp only [segLo, segFrame] at *
  omega

theorem SegInv.frame_inj (s : VmPhys) {q : Nat} (hp : segLo s i ≤ p) (hq : segLo s i ≤ q)
    (h : segFrame s i p = segFrame s i q) : p = q := by
  simp only [segLo, segFrame] at *
  omega

/-- OsVmPhysToPage finds the page of a frame, if the segment has one. -/
private theorem SegInv.toPage_cases (h : SegInv s i T) (f : Nat) :
    (osVmPhysToPage s (f*4096) i = .ok none ∧ ∀ q, segLo s i ≤ q → q < segHi s i → segFrame s i q ≠ f) ∨
    ∃ b, osVmPhysToPage s (f*4096) i = .ok (some b) ∧ segLo s i ≤ b ∧ b < segHi s i ∧ segFrame s i b = f := by
  have h1 := h.start_mod
  have h2 := h.size_mod
  rw [h.toPage]
  by_cases hin : (s.seg i).start/4096 ≤ f ∧ f < ((s.seg i).start + (s.seg i).size)/4096
  · refine .inr ⟨_,by rw [if_pos (by omega)],Nat.le_add_right _ _,?_,?_⟩
    · simp only [segLo, segHi]
      omega
    · simp only [segLo, segFrame]
      omega
  · refine .inl ⟨by rw [if_neg (by omega)],fun q hq1 hq2 hqf => hin ⟨?_,?_⟩⟩
    · rw [← hqf, segFrame]
      omega
    · rw [← hqf]
      exact h.frame_lt hq1 hq2

theorem xor_frame (f : Nat) (hk : k < 20) : f*4096 ^^^ vmOrderToPhys k = (f ^^^ 2^k)*4096 := by
  rw [vmOrderToPhys_eq hk, show (4096 : Nat) = 2^12 by norm_num, ← Nat.shiftLeft_eq, ← Nat.shiftLeft_eq, ← Nat.shiftLeft_eq,
    Nat.shiftLeft_xor_distrib]

private theorem mask_frame {f : Nat} (hf : f < 2^20) (hk : k < 20) :
    f*4096 &&& Word.not (vmOrderToPhys k - 1) = f/2^k*2^k*4096 := by
  have hp : vmOrderToPhys k = 2^(k+12) := by
    rw [vmOrderToPhys_eq hk, pow_add]
    norm_num
  rw [hp, Word.and_not_low (by omega) (by omega), pow_add, Nat.mul_comm (2^k) (2^12), ← Nat.div_div_eq_div_mul,
    show f*4096/2^12 = f by omega]
  ring

/-- Two buddy blocks of a segment and the block they make up. -/
private theorem SegInv.merged (s : VmPhys) {b : Nat} (hp : segLo s i ≤ p) (hpi : p + 2^k ≤ segHi s i) (hal : 2^k ∣ segFrame s i p)
    (hb : segLo s i ≤ b) (hbi : b + 2^k ≤ segHi s i) (hbf : segFrame s i b = segFrame s i p ^^^ 2^k) :
    ∃ m, segLo s i ≤ m ∧ m + 2^(k+1) ≤ segHi s i ∧ segFrame s i m = segFrame s i p/2^(k+1)*2^(k+1) ∧
      segFrame s i b/2^(k+1)*2^(k+1) = segFrame s i p/2^(k+1)*2^(k+1) ∧ block m (k+1) = block p k ∪ block b k := by
  obtain ⟨h1,h2⟩ := min_xor_two_pow hal
  have h3 := xor_two_pow hal
  have h4 : 2^(k+1) = 2^k + 2^k := by ring
  rw [← hbf] at h1 h2 h3
  have hnext : b = p + 2^k ∨ p = b + 2^k := by
    split_ifs at h3 with hev
    · simp only [segFrame, segLo] at h3 hp hb
      omega
    · have h0 : segFrame s i p ≠ 0 := by
        intro h0
        rw [h0, Nat.zero_div] at hev
        exact hev rfl
      have := Nat.le_of_dvd (Nat.pos_of_ne_zero h0) hal
      simp only [segFrame, segLo] at this h3 hp hb
      omega
  refine ⟨min p b,le_min hp hb,?_,?_,h2,?_⟩
  · omega
  · rw [← h1]
    simp only [segFrame, segLo] at hp hb ⊢
    omega
  · ext x
    simp only [Set.mem_union, mem_block]
    omega

/-- What the coalescing loop leaves: a block around the given one, made of it and of blocks that were free. -/
theorem SegInv.coalesceLoop : ∀ n {s : VmPhys} {T : Set Nat} {p k : Nat}, SegInv s i T →
    n + k = VM_LIST_ORDER_MAX - 1 → segLo s i ≤ p → p + 2^k ≤ segHi s i → 2^k ∣ segFrame s i p → block p k ⊆ T →
    ∃ s' p' k', coalesceLoop s p (segFrame s i p*4096) k n = .ok (s',p',k') ∧ Only s s' i ∧
      SegInv s' i (T ∪ block p' k') ∧ k' < VM_LIST_ORDER_MAX ∧ segLo s i ≤ p' ∧ p' + 2^k' ≤ segHi s i ∧
      2^k' ∣ segFrame s i p' ∧ block p k ⊆ block p' k' ∧ (∀ x ∈ T, x ∈ block p' k' → x ∈ block p k) ∧
      (k' + 1 < VM_LIST_ORDER_MAX → ∀ q, segLo s i ≤ q → q < segHi s i →
        segFrame s i q = segFrame s i p' ^^^ 2^k' → (s'.page q).order ≠ k')
  | 0, s, T, p, k, h, hn, hp, hin, hal, ht => by
    refine ⟨s,p,k,rfl,Only.refl s i,?_,?_,hp,hin,hal,fun _ hx => hx,fun _ _ hx => hx,?_⟩
    · rw [Set.union_eq_self_of_subset_right ht]
      exact h
    · simp only [VM_LIST_ORDER_MAX] at *
      omega
    · intro hk
      simp only [VM_LIST_ORDER_MAX] at *
      omega
  | n + 1, s, T, p, k, h, hn, hp, hin, hal, ht => by
    have hk : k < 8 := by
      simp only [VM_LIST_ORDER_MAX] at hn
      omega
    have hk9 : k < VM_LIST_ORDER_MAX := hk.trans (by decide)
    have hk0 := Nat.two_pow_pos k
    have hph : p < segHi s i := by omega
    have hid := h.segID p hp hph
    -- the loop ends when the buddy is not a free block of this order
    have hstop : (∀ q, segLo s i ≤ q → q < segHi s i → segFrame s i q = segFrame s i p ^^^ 2^k → (s.page q).order ≠ k) →
        Only s s i ∧ SegInv s i (T ∪ block p k) ∧ k < VM_LIST_ORDER_MAX ∧ segLo s i ≤ p ∧ p + 2^k ≤ segHi s i ∧
        2^k ∣ segFrame s i p ∧ block p k ⊆ block p k ∧ (∀ x ∈ T, x ∈ block p k → x ∈ block p k) ∧
        (k + 1 < VM_LIST_ORDER_MAX → ∀ q, segLo s i ≤ q → q < segHi s i →
          segFrame s i q = segFrame s i p ^^^ 2^k → (s.page q).order ≠ k) := by
      intro hq
      refine ⟨Only.refl s i,?_,hk9,hp,hin,hal,fun _ hx => hx,fun _ _ hx => hx,fun _ => hq⟩
      rw [Set.union_eq_self_of_subset_right ht]
      exact h
    rw [Vm.coalesceLoop]
    simp only [xor_frame (segFrame s i p) (show k < 20 by omega), hid]
    rcases h.toPage_cases (segFrame s i p ^^^ 2^k) with ⟨he,hno⟩ | ⟨b,he,hb1,hb2,hbf⟩
    · rw [he]
      exact ⟨s,p,k,rfl,hstop fun q h1 h2 h3 => absurd h3 (hno q h1 h2)⟩
    rw [he]
    by_cases ho : (s.page b).order = k
    · have hbi := h.free.inside b hb1 hb2 (by rw [ho]; exact hk9)
      rw [ho] at hbi
      obtain ⟨s₁,hdel,h₁,ho₁,-⟩ := h.del hb1 hb2 (by rw [ho]; exact hk9)
      rw [ho] at h₁
      obtain ⟨m,hm1,hm2,hmf,hbm,hmb⟩ := SegInv.merged s hp hin hal hb1 hbi hbf
      have hfb := h.frame_lt hb1 hb2
      have hend := h.end_lt
      have hmask : (segFrame s i p ^^^ 2^k)*4096 &&& Word.not (vmOrderToPhys (k+1) - 1) = segFrame s i m*4096 := by
        rw [← hbf, mask_frame (by omega) (by omega), hbm, hmf]
      have hid₁ : (s₁.page p).segID = i := h₁.segID p (by rw [ho₁.lo]; exact hp) (by rw [ho₁.hi]; exact hph)
      have hm3 : m < segHi s i := by
        have := Nat.two_pow_pos (k+1)
        omega
      have hpage : osVmPhysToPage s₁ (segFrame s i m*4096) i = .ok (some m) := by
        rcases h₁.toPage_cases (segFrame s i m) with ⟨-,hno⟩ | ⟨c,hc,hc1,-,hcf⟩
        · exact absurd (ho₁.frame i m) (hno m (by rw [ho₁.lo]; exact hm1) (by rw [ho₁.hi]; exact hm3))
        · rw [ho₁.lo] at hc1
          rw [ho₁.frame] at hcf
          rw [hc, SegInv.frame_inj s hc1 hm1 hcf]
      obtain ⟨s',p',k',hrec,ho',hinv,hk',hp',hin',hal',hsub,hold,hbud⟩ := SegInv.coalesceLoop n h₁
        (p := m) (k := k+1) (by omega) (by rw [ho₁.lo]; exact hm1) (by rw [ho₁.hi]; exact hm2)
        (by rw [ho₁.frame, hmf]; exact Nat.dvd_mul_left _ _)
        (by rw [hmb]; exact Set.union_subset_union_left _ ht)
      rw [ho₁.frame] at hrec hal'
      rw [ho₁.lo, ho₁.hi] at *
      refine ⟨s',p',k',?_,ho₁.trans ho',?_,hk',hp',hin',hal',?_,?_,?_⟩
      · refine (if_neg (not_not.mpr ho)).trans ?_
        simp only [hdel, bind, Except.bind, hmask, hid₁, hpage]
        exact hrec
      · refine hinv.congr fun x _ _ => ?_
        have hsub' : block b k ⊆ block p' k' := fun x hx => hsub (hmb ▸ .inr hx)
        rw [Set.union_assoc, Set.union_eq_self_of_subset_left hsub']
      · exact fun x hx => hsub (hmb ▸ .inl hx)
      · intro x hx hx'
        have := hold x (.inl hx) hx'
        rw [hmb] at this
        rcases this with h1 | h1
        · exact h1
        · rw [← ho] at h1
          have h2 := h1.2
          rw [ho] at h2
          exact absurd h1 ((h.free.cover x (hb1.trans h1.1) (by omega)).mp hx b hb1 hb2 (by rw [ho]; exact hk9))
      · intro hk1 q hq1 hq2 hqf
        exact hbud hk1 q hq1 hq2 (by rw [ho₁.frame, ho₁.frame]; exact hqf)
    · refine ⟨s,p,k,if_pos ho,hstop fun q h1 h2 h3 => ?_⟩
      rw [SegInv.frame_inj s h1 hb1 (h3.trans hbf.symm)]
      exact ho

private theorem SegInv.pagesFree (h : SegInv s i T) (hk : k < VM_LIST_ORDER_MAX) (hp : segLo s i ≤ p) (hin : p + 2^k ≤ segHi s i)
    (hal : 2^k ∣ segFrame s i p) (ht : block p k ⊆ T) :
    ∃ s', osVmPhysPagesFree s p k = .ok s' ∧ SegInv s' i (T \ block p k) ∧ Only s s' i := by
  have hk0 := Nat.two_pow_pos k
  obtain ⟨s₁,p',k',hloop,ho₁,h₁,hk',hp',hin',hal',hsub,hold,hbud⟩ :=
    SegInv.coalesceLoop (VM_LIST_ORDER_MAX - 1 - k) h (by omega) hp hin hal ht
  obtain ⟨s₂,hadd,h₂,ho₂⟩ := h₁.add (p := p') (k := k') (by rw [ho₁.lo]; exact hp') hk' (by rw [ho₁.hi]; exact hin')
    (by rw [ho₁.frame]; exact hal') Set.subset_union_right (by
      intro hk1 q hq1 hq2 hqf
      rw [ho₁.lo] at hq1
      rw [ho₁.hi] at hq2
      rw [ho₁.frame, ho₁.frame] at hqf
      exact hbud hk1 q hq1 hq2 hqf)
  refine ⟨s₂,?_,?_,ho₁.trans ho₂⟩
  · rw [osVmPhysPagesFree, if_neg (not_le.mpr hk), h.addr p hp (by omega)]
    simp only [hloop, bind, Except.bind]
    exact hadd
  · refine h₂.congr fun x _ _ => ?_
    rw [Set.union_sdiff_right]
    exact ⟨fun hx => ⟨hx.1,fun hm => hx.2 (hold x hx.1 hm)⟩,fun hx => ⟨hx.1,fun hm => hx.2 (hsub hm)⟩⟩

-- Contiguous ranges

private theorem vmPhysToOrder_spec {f : Nat} (hf : f < 2^20) :
    vmPhysToOrder (f*4096) ≤ 8 ∧ 2^vmPhysToOrder (f*4096) ∣ f := by
  have h1 : (f*4096) >>> PAGE_SHIFT = f := by
    rw [Nat.shiftRight_eq_div_pow, PAGE_SHIFT]
    omega
  rw [vmPhysToOrder, h1, losLowBitGet, VM_LIST_ORDER_MAX]
  exact ⟨min_le_right _ _,Word.two_pow_ctz_dvd (by omega) (min_le_left _ _)⟩

theorem losHighBitGet_eq (h0 : n ≠ 0) (hn : n < 2^32) : losHighBitGet n = n.log2 := by
  have := Word.log2_lt h0 hn
  rw [losHighBitGet, if_neg h0, Word.clz, if_neg h0]
  omega

/-- A range of n pages from p on. -/
def pages (p n : Nat) : Set Nat := {x | p ≤ x ∧ x < p + n}

private theorem block_eq_pages (p k : Nat) : block p k = pages p (2^k) := rfl

private theorem pages_zero (T : Set Nat) (p : Nat) : T \ pages p 0 = T := by
  ext x
  simp only [pages, Set.mem_sdiff, Set.mem_ofPred_eq]
  exact ⟨fun hx => hx.1,fun hx => ⟨hx,by omega⟩⟩

private theorem pages_diff (T : Set Nat) (p m n : Nat) : (T \ pages p m) \ pages (p + m) n = T \ pages p (m + n) := by
  ext x
  simp only [Set.mem_sdiff, pages, Set.mem_ofPred_eq, not_and, not_lt]
  constructor
  · rintro ⟨⟨hx,h1⟩,h2⟩
    exact ⟨hx,fun h3 => by have := h1 h3; have := h2 this; omega⟩
  · rintro ⟨hx,h1⟩
    exact ⟨⟨hx,fun h3 => by have := h1 h3; omega⟩,fun h3 => by have := h1 (by omega); omega⟩

private theorem pages_subset_diff {T : Set Nat} {p m n : Nat} (h : pages p n ⊆ T) (hm : m ≤ n) :
    pages (p + m) (n - m) ⊆ T \ pages p m := by
  rintro x ⟨h1,h2⟩
  exact ⟨h ⟨by omega,by omega⟩,fun hx => absurd hx.2 (by omega)⟩

/-- The first loop frees aligned blocks until the rest fits below the alignment of the next page. -/
theorem SegInv.freeAlignedLoop : ∀ fuel {s : VmPhys} {T : Set Nat} {p n : Nat}, SegInv s i T → n ≤ fuel →
    segLo s i ≤ p → p + n ≤ segHi s i → pages p n ⊆ T →
    ∃ s' m, m ≤ n ∧ freeAlignedLoop fuel s p n = .ok (s',p + m,n - m) ∧ SegInv s' i (T \ pages p m) ∧ Only s s' i ∧
      (n = m ∨ ∃ k ≤ 8, 2^k ∣ segFrame s i (p + m) ∧ n - m < 2^k)
  | 0, s, T, p, n, h, hn, hp, hin, ht => by
    exact ⟨s,0,by omega,rfl,by rw [pages_zero]; exact h,Only.refl s i,.inl (by omega)⟩
  | fuel + 1, s, T, p, n, h, hn, hp, hin, ht => by
    have hstop : SegInv s i (T \ pages p 0) := by
      rw [pages_zero]
      exact h
    have hpow : vmOrderToPages (vmPhysToOrder (s.page p).physAddr) = 2^vmPhysToOrder (s.page p).physAddr := by
      refine vmOrderToPages_eq ((min_le_right _ _).trans_lt ?_)
      decide
    rw [Vm.freeAlignedLoop]
    simp only [hpow]
    by_cases h0 : n = 0
    · rw [if_pos (by rw [h0]; exact Nat.two_pow_pos _)]
      exact ⟨s,0,by omega,rfl,hstop,Only.refl s i,.inl h0⟩
    have hph : p < segHi s i := by omega
    have hfl := h.frame_lt hp hph
    have hend := h.end_lt
    obtain ⟨hk,hal⟩ := vmPhysToOrder_spec (f := segFrame s i p) (by omega)
    rw [h.addr p hp hph]
    set k := vmPhysToOrder (segFrame s i p*4096)
    have hk9 : k < VM_LIST_ORDER_MAX := by
      rw [VM_LIST_ORDER_MAX]
      omega
    split_ifs with hlt
    · exact ⟨s,0,by omega,rfl,hstop,Only.refl s i,.inr ⟨k,hk,hal,hlt⟩⟩
    · have hle : 2^k ≤ n := not_lt.mp hlt
      have hk0 := Nat.two_pow_pos k
      obtain ⟨s₁,hf,h₁,ho₁⟩ := h.pagesFree hk9 hp (by omega) hal (fun x hx => ht ⟨hx.1,by have := hx.2; omega⟩)
      obtain ⟨s₂,m,hm,hl,h₂,ho₂,hend⟩ := SegInv.freeAlignedLoop fuel h₁ (p := p + 2^k) (n := n - 2^k) (by omega)
        (by rw [ho₁.lo]; omega) (by rw [ho₁.hi]; omega) (pages_subset_diff ht hle)
      refine ⟨s₂,2^k + m,by omega,?_,?_,ho₁.trans ho₂,?_⟩
      · simp only [hf, bind, Except.bind]
        rw [hl, Nat.add_assoc, Nat.sub_sub]
      · rw [block_eq_pages, pages_diff] at h₂
        exact h₂
      · rcases hend with h3 | ⟨l,hl,h4,h5⟩
        · exact .inl (by omega)
        · rw [ho₁.frame, Nat.add_assoc] at h4
          exact .inr ⟨l,hl,h4,by omega⟩

theorem SegInv.freeRestLoop : ∀ fuel {s : VmPhys} {T : Set Nat} {p n : Nat}, SegInv s i T → n ≤ fuel →
    segLo s i ≤ p → p + n ≤ segHi s i → pages p n ⊆ T → (n = 0 ∨ ∃ k ≤ 8, 2^k ∣ segFrame s i p ∧ n < 2^k) →
    ∃ s', freeRestLoop fuel s p n = .ok s' ∧ SegInv s' i (T \ pages p n) ∧ Only s s' i
  | 0, s, T, p, n, h, hn, hp, hin, ht, _ => by
    refine ⟨s,rfl,?_,Only.refl s i⟩
    rw [show n = 0 by omega, pages_zero]
    exact h
  | fuel + 1, s, T, p, n, h, hn, hp, hin, ht, hk => by
    rw [Vm.freeRestLoop]
    by_cases h0 : n = 0
    · rw [if_pos h0]
      refine ⟨s,rfl,?_,Only.refl s i⟩
      rw [h0, pages_zero]
      exact h
    obtain ⟨k,hk8,hal,hlt⟩ := hk.resolve_left h0
    have h256 : 2^k ≤ 2^8 := Nat.pow_le_pow_right (by norm_num) hk8
    have hlog : n.log2 < k := (Nat.log2_lt h0).mpr hlt
    have hle := Nat.log2_self_le h0
    have hup : n < 2^(n.log2+1) := Nat.lt_log2_self
    rw [if_neg h0, losHighBitGet_eq h0 (by omega)]
    simp only [vmOrderToPages_eq (show n.log2 < 32 by omega)]
    set l := n.log2
    have hl0 := Nat.two_pow_pos l
    have hdl : 2^l ∣ segFrame s i p := (Nat.pow_dvd_pow 2 hlog.le).trans hal
    obtain ⟨s₁,hf,h₁,ho₁⟩ := h.pagesFree (k := l) (by rw [VM_LIST_ORDER_MAX]; omega) hp (by omega) hdl
      (fun x hx => ht ⟨hx.1,by have := hx.2; omega⟩)
    obtain ⟨s₂,hl,h₂,ho₂⟩ := SegInv.freeRestLoop fuel h₁ (p := p + 2^l) (n := n - 2^l) (by omega)
      (by rw [ho₁.lo]; omega) (by rw [ho₁.hi]; omega) (pages_subset_diff ht hle)
      (.inr ⟨l,by omega,by rw [ho₁.frame, SegInv.frame_add s hp]; exact Nat.dvd_add hdl (dvd_refl _),by
        rw [pow_succ] at hup
        omega⟩)
    refine ⟨s₂,?_,?_,ho₁.trans ho₂⟩
    · simp only [hf, bind, Except.bind]
      exact hl
    · rw [block_eq_pages, pages_diff, Nat.add_sub_cancel' hle] at h₂
      exact h₂

theorem SegInv.freeContiguous (h : SegInv s i T) (hp : segLo s i ≤ p) (hin : p + n ≤ segHi s i) (ht : pages p n ⊆ T) :
    ∃ s', osVmPhysPagesFreeContiguous s p n = .ok s' ∧ SegInv s' i (T \ pages p n) ∧ Only s s' i := by
  obtain ⟨s₁,m,hm,hl,h₁,ho₁,hrest⟩ := SegInv.freeAlignedLoop n h le_rfl hp hin ht
  obtain ⟨s₂,hr,h₂,ho₂⟩ := SegInv.freeRestLoop (n - m) h₁ (p := p + m) le_rfl (by rw [ho₁.lo]; omega)
    (by rw [ho₁.hi]; omega) (pages_subset_diff ht hm) (by
      rcases hrest with h3 | ⟨k,hk,h4,h5⟩
      · exact .inl (by omega)
      · exact .inr ⟨k,hk,by rw [ho₁.frame]; exact h4,h5⟩)
  refine ⟨s₂,?_,?_,ho₁.trans ho₂⟩
  · rw [osVmPhysPagesFreeContiguous]
    simp only [hl, bind, Except.bind]
    exact hr
  · rw [pages_diff, Nat.add_sub_cancel' hm] at h₂
    exact h₂

end LiteOsKernel.Vm
