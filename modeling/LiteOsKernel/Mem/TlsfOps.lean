import LiteOsKernel.Mem.TlsfNodes

/-! Splitting, allocation, release and reallocation keep the pool invariant. -/
namespace LiteOsKernel.Mem.Tlsf
open LiteOsKernel Links Lib

variable {p p' : MemPool} {E : List Area} {N F D U : Set Nat} {L : Nat → List Nat} {a b : Nat}

namespace Inv

theorem weaken (h : Inv p E N F D U L) {D' U' : Set Nat} (hD : D ⊆ D') (hF : ∀ a ∈ D', a ∉ F) (hU : U ⊆ U') :
    Inv p E N F D' U' L :=
  ⟨h.fixed,h.nodes,h.lists,h.sub,fun a ha hf => (h.full a ha hf).imp_right (fun hd => hD hd),hF,h.coalesced,
    fun a ha hU' => h.magic a ha fun hm => hU' (hU hm)⟩

private theorem sizeAndFlag_lt (h : Inv p E N F D U L) (ha : a ∈ N) : p.sizeAndFlag a < 2^32 := by
  have h1 := h.nodes.flags a ha
  have h2 := h.size_lt ha
  omega

theorem used_zero_iff (h : Inv p E N F D U L) (ha : a ∈ N) :
    getUsedFlag (p.sizeAndFlag a) = 0 ↔ p.sizeAndFlag a < 2^31 := getUsedFlag_eq_zero (h.sizeAndFlag_lt ha)

theorem used_end (h : Inv p E N F D U L) {e : Extent} (he : e ∈ extents p E) :
    getUsedFlag (p.sizeAndFlag e.last) ≠ 0 := by
  obtain ⟨-,s,hs,hf⟩ := h.sentinel_flags he
  rw [hf, ne_eq, getUsedFlag_eq_zero (by omega)]
  omega

/-- The payload of a node in no list is untouched when another one leaves its list. -/
private theorem freeNodeDelete_payload (h : Inv p E N F D U L) (ha : a ∈ N) (haF : a ∉ F) (hb : b ∈ F) {y : Nat}
    (hl : a + 12 ≤ y) (hr : y < a + p.size a) : (osMemFreeNodeDelete p b).mem y = p.mem y := by
  have hfree : ∀ c ∈ F, c + 20 ≤ a ∨ a + p.size a ≤ c := by
    intro c hc
    have h1 := h.ne_of_mem_free ha haF hc
    have h2 := h.inside (h.sub c hc).1
    omega
  rcases h.freeNodeDelete_mem hb y with h1 | h1 | ⟨c,hc,h1⟩
  · exact h1
  · have := hfree b hb
    omega
  · have := hfree c hc
    omega

/-- The node after a free one outside the lists is absorbed when it is free itself. -/
theorem mergeNext (h : Inv p E N F {a} U L) (ha : a ∈ N) (haf : p.sizeAndFlag a < 2^31) (hb : b ∈ N)
    (hab : a + p.size a = b) (hbf : p.sizeAndFlag b < 2^31) :
    let q := osMemMergeNode (osMemFreeNodeDelete p b) b
    ∃ L', Inv q E (N \ {b}) (F \ {b}) {a} (U \ {b}) L' ∧ q.sizeAndFlag a = p.size a + p.size b ∧
      (∀ c ∈ N, c ≠ a → q.sizeAndFlag c = p.sizeAndFlag c) ∧ b + p.size b ∉ F ∧ UsedKept p N q (N \ {b}) ∅ ∧
      ∀ y, a + 12 ≤ y → y < a + p.size a → q.mem y = p.mem y := by
  intro q
  have hba := h.inside ha
  have hne : b ≠ a := by omega
  have haF : a ∉ F := h.apart a rfl
  have hbF : b ∈ F := (h.full b hb hbf).resolve_right hne
  obtain ⟨L₁,h₁,hk₁,hu₁⟩ := h.freeNodeDelete hbF
  have hsa : (osMemFreeNodeDelete p b).size a = p.size a := by
    rw [MemPool.size, hk₁.sizeAndFlag a ha, MemPool.size]
  have hsb : (osMemFreeNodeDelete p b).size b = p.size b := by
    rw [MemPool.size, hk₁.sizeAndFlag b hb, MemPool.size]
  obtain ⟨h₂,hs₂,hf₂,-,hu₂⟩ := h₁.mergeNode ha hb (by rw [hsa, hab]) (by rw [hk₁.sizeAndFlag a ha]; exact haf)
    (by rw [hk₁.sizeAndFlag b hb]; exact hbf) (fun hm => haF hm.1) (fun hm => hm.2 rfl)
  refine ⟨L₁,h₂.weaken ?_ ?_ subset_rfl,?_,?_,h.coalesced b hbF,hu₁.trans hu₂,?_⟩
  · rintro c ⟨rfl | hc,hcb⟩
    · exact absurd rfl hcb
    · exact hc
  · rintro c hc hm
    exact h.apart c hc hm.1
  · rw [hs₂, hsa, hsb]
  · intro c hc hca
    rw [hf₂ c hc hca, hk₁.sizeAndFlag c hc]
  · intro y hl hr
    have hbb := h.inside hb
    rw [h₁.mergeNode_mem ha hb (by rw [hsa, hab]) (by rw [hk₁.sizeAndFlag a ha]; exact haf)
      (by rw [hk₁.sizeAndFlag b hb]; exact hbf) (by omega) (by omega)]
    exact h.freeNodeDelete_payload ha haF hbF hl hr

/-- OsMemSplitNode leaves the node with exactly k bytes and the rest in the free lists. -/
theorem splitNode (h : Inv p E N F {a} ∅ L) {k : Nat} (ha : a ∈ N) (haf : p.sizeAndFlag a < 2^31)
    (hk : 20 ≤ k) (hk4 : k%4 = 0) (hks : k + 20 ≤ p.size a) :
    ∃ N' F' L', Inv (osMemSplitNode p a k) E N' F' {a} ∅ L' ∧ a ∈ N' ∧ (osMemSplitNode p a k).sizeAndFlag a = k ∧
      UsedKept p N (osMemSplitNode p a k) N' ∅ ∧
      ∀ y, a + 12 ≤ y → y < a + k → (osMemSplitNode p a k).mem y = p.mem y := by
  have haF : a ∉ F := h.apart a rfl
  have hkN : a + k ∉ N := by
    intro hm
    rcases h.nodes.tiling.apart ha hm (by omega) with h1 | h1 <;> omega
  have hkF : a + k ∉ F := fun hm => hkN (h.sub _ hm).1
  obtain ⟨h₁,hsa,hsk,hsf,hu₁⟩ := h.cutNode ha haf haF hk hk4 hks hkF
  rw [h.splitNode_eq ha haf hk hks]
  have hla := h.size_lt ha
  have hszk : (Tlsf.cutNode p a k).size (a + k) = p.size a - k := by
    rw [MemPool.size, hsk, Nat.mod_eq_of_lt (by omega)]
  have hcut : ∀ y, a + 12 ≤ y → y < a + k → (Tlsf.cutNode p a k).mem y = p.mem y := by
    intro y hl hr
    rw [cutNode_mem, if_neg (by omega), if_neg (by omega), if_neg (by omega), if_neg (by omega)]
  have hfar : ∀ b ∈ F, b + 20 ≤ a ∨ a + p.size a ≤ b := by
    intro b hb
    have h1 := h.ne_of_mem_free ha haF hb
    have h2 := h.inside (h.sub b hb).1
    omega
  have hszq : (Tlsf.cutNode p a k).size a = k := by rw [MemPool.size, hsa, Nat.mod_eq_of_lt (by omega)]
  set q := Tlsf.cutNode p a k
  -- no node ends at a + k but a itself
  have hpred : ∀ b ∈ F, b + p.size b ≠ a + k := by
    intro b hb he
    rcases h.nodes.tiling.apart ha (h.sub b hb).1 (fun hc => haF (hc ▸ hb)) with h1 | h1 <;> omega
  have hsizeF : ∀ b ∈ F, q.size b = p.size b := by
    intro b hb
    rw [MemPool.size, hsf b (h.sub b hb).1 (fun hc => haF (hc ▸ hb)), MemPool.size]
  by_cases hfree : getLastFlag (p.sizeAndFlag (a + p.size a)) = 0 ∧ getUsedFlag (p.sizeAndFlag (a + p.size a)) = 0
  · rw [if_pos hfree]
    have hn : a + p.size a ∈ N := by
      rcases h.nodes.tiling.next a ha with ⟨e,hm,he⟩ | hm
      · exact absurd hfree.1 (he ▸ h.last_end hm)
      · exact hm
    have hnf : p.sizeAndFlag (a + p.size a) < 2^31 := (h.used_zero_iff hn).mp hfree.2
    have hnF : a + p.size a ∈ F := (h.full _ hn hnf).resolve_right (by simp only [Set.mem_singleton_iff]; omega)
    have hne : a + p.size a ≠ a := by omega
    set n := a + p.size a with hndef
    obtain ⟨L₂,h₂,hk₂,hu₂⟩ := h₁.freeNodeDelete hnF
    have hszn : (osMemFreeNodeDelete q n).size n = p.size n := by
      rw [MemPool.size, hk₂.sizeAndFlag n (.inr hn), hsf n hn hne, MemPool.size]
    have hszk₂ : (osMemFreeNodeDelete q n).size (a + k) = p.size a - k := by
      rw [MemPool.size, hk₂.sizeAndFlag _ (.inl rfl), hsk, Nat.mod_eq_of_lt (by omega)]
    obtain ⟨h₃,hs₃,hf₃,-,hu₃⟩ := h₂.mergeNode (a := a + k) (b := n) (.inl rfl) (.inr hn)
      (by rw [hszk₂]; omega) (by rw [hk₂.sizeAndFlag _ (.inl rfl), hsk]; omega)
      (by rw [hk₂.sizeAndFlag n (.inr hn), hsf n hn hne]; exact hnf) (fun hm => hkF hm.1) (fun hm => hm.2 rfl)
    rw [hszk₂, hszn] at hs₃
    have hln := h.add_size_lt ha hn hndef.symm
    have hszk₃ : (osMemMergeNode (osMemFreeNodeDelete q n) n).size (a + k) = p.size a - k + p.size n := by
      rw [MemPool.size, hs₃, Nat.mod_eq_of_lt (by omega)]
    have hsf₃ : ∀ c ∈ N, c ≠ a → (osMemMergeNode (osMemFreeNodeDelete q n) n).sizeAndFlag c = p.sizeAndFlag c := by
      intro c hc hca
      rw [hf₃ c (.inr hc) (fun he => hkN (he ▸ hc)), hk₂.sizeAndFlag c (.inr hc), hsf c hc hca]
    obtain ⟨L₄,h₄,hk₄,hu₄⟩ := h₃.freeNodeAdd (a := a + k) ⟨.inl rfl,by simp only [Set.mem_singleton_iff]; omega⟩
      (by rw [hs₃]; omega) (fun hm => hkF hm.1)
      (by
        rw [hszk₃, show a + k + (p.size a - k + p.size n) = n + p.size n by omega]
        exact fun hm => h.coalesced n hnF hm.1)
      (by
        rintro b ⟨hb,-⟩ he
        rw [MemPool.size, hsf₃ b (h.sub b hb).1 (fun hc => haF (hc ▸ hb))] at he
        exact hpred b hb he)
    have haN₃ : a ∈ insert (a + k) N \ {n} := ⟨.inr ha,hne.symm⟩
    refine ⟨_,_,L₄,h₄.weaken ?_ ?_ ?_,haN₃,?_,((hu₁.trans hu₂).trans hu₃).trans hu₄,?_⟩
    · rintro c ⟨⟨rfl | rfl | hc,h1⟩,h2⟩
      · exact absurd rfl h1
      · exact absurd rfl h2
      · exact hc
    · rintro c rfl (hm | hm)
      · omega
      · exact haF hm.1
    · rintro c ⟨⟨rfl | hc,-⟩,h2⟩
      · exact absurd rfl h2
      · exact hc
    · rw [hk₄.sizeAndFlag a haN₃, hf₃ a (.inr ha) (by omega), hk₂.sizeAndFlag a (.inr ha), hsa]
    · intro y hl hr
      have hq₃ : (osMemMergeNode (osMemFreeNodeDelete q n) n).mem y = p.mem y := by
        rw [h₂.mergeNode_mem (a := a + k) (b := n) (.inl rfl) (.inr hn) (by rw [hszk₂]; omega)
          (by rw [hk₂.sizeAndFlag _ (.inl rfl), hsk]; omega)
          (by rw [hk₂.sizeAndFlag n (.inr hn), hsf n hn hne]; exact hnf) (by omega) (by omega)]
        rw [h₁.freeNodeDelete_payload (.inr ha) haF hnF hl (by rw [hszq]; exact hr)]
        exact hcut y hl hr
      rcases h₃.freeNodeAdd_mem (a := a + k) ⟨.inl rfl,by simp only [Set.mem_singleton_iff]; omega⟩
        (by rw [hs₃]; omega) y with h5 | h5 | ⟨b,rfl | hb,h5⟩
      · exact h5.trans hq₃
      · omega
      · omega
      · have := hfar b hb.1
        omega
  · rw [if_neg hfree]
    have hnF : a + p.size a ∉ F := by
      intro hm
      obtain ⟨hmN,hmf⟩ := h.sub _ hm
      exact hfree ⟨h.last_clear hmN,(h.used_zero_iff hmN).mpr hmf⟩
    obtain ⟨L₄,h₄,hk₄,hu₄⟩ := h₁.freeNodeAdd (a := a + k) (.inl rfl) (by rw [hsk]; omega) hkF
      (by rw [hszk, show a + k + (p.size a - k) = a + p.size a by omega]; exact hnF)
      (by
        intro b hb he
        rw [hsizeF b hb] at he
        exact hpred b hb he)
    refine ⟨_,_,L₄,h₄.weaken ?_ ?_ ?_,.inr ha,?_,hu₁.trans hu₄,?_⟩
    · rintro c ⟨rfl | hc,h2⟩
      · exact absurd rfl h2
      · exact hc
    · rintro c rfl (hm | hm)
      · omega
      · exact haF hm
    · rintro c ⟨rfl | hc,h2⟩
      · exact absurd rfl h2
      · exact hc
    · rw [hk₄.sizeAndFlag a (.inr ha), hsa]
    · intro y hl hr
      rcases h₁.freeNodeAdd_mem (a := a + k) (.inl rfl) (by rw [hsk]; omega) y with h5 | h5 | ⟨b,rfl | hb,h5⟩
      · exact h5.trans (hcut y hl hr)
      · omega
      · omega
      · have := hfar b hb
        omega

end Inv

end LiteOsKernel.Mem.Tlsf
