import Mathlib.Algebra.GroupWithZero.Nat
import Mathlib.Data.Set.Insert
import Mathlib.Data.List.Chain

/-! Blocks that tile several intervals of addresses, each with a back pointer to the block
before it, and how merging, splitting and adding or dropping an interval change the tiling. -/
namespace LiteOsKernel.Lib

/-- An interval of addresses, with the back pointer of its first block. -/
structure Extent where
  first : Nat
  last : Nat
  back : Nat

/-- The blocks that start at the addresses in N fill the intervals in A without overlap; each has
at least g units, and prev names the block before it. The intervals are t units apart. -/
structure Tiling (g t : Nat) (A : List Extent) (size prev : Nat → Nat) (N : Set Nat) : Prop where
  unit : 0 < g
  gap : 0 < t
  room : ∀ e ∈ A, e.first + g ≤ e.last
  extents : ∀ e ∈ A, ∀ d ∈ A, e ≠ d → e.last + t ≤ d.first ∨ d.last + t ≤ e.first
  first_mem : ∀ e ∈ A, e.first ∈ N
  home : ∀ a ∈ N, ∃ e ∈ A, e.first ≤ a ∧ a + size a ≤ e.last
  min : ∀ a ∈ N, g ≤ size a
  next : ∀ a ∈ N, (∃ e ∈ A, a + size a = e.last) ∨ a + size a ∈ N
  disj : ∀ a ∈ N, ∀ b ∈ N, a < b → a + size a ≤ b
  pred : ∀ b ∈ N, (∀ e ∈ A, b ≠ e.first) → ∃ a ∈ N, a + size a = b
  prev_next : ∀ a ∈ N, a + size a ∈ N → prev (a + size a) = a
  prev_first : ∀ e ∈ A, prev e.first = e.back

namespace Tiling
variable {g t : Nat} {A : List Extent} {size prev size' prev' : Nat → Nat} {N : Set Nat} {a b : Nat} {e : Extent}

theorem prev_spec (h : Tiling g t A size prev N) (hb : b ∈ N) (hf : ∀ e ∈ A, b ≠ e.first) :
    prev b ∈ N ∧ prev b + size (prev b) = b := by
  obtain ⟨a,ha,rfl⟩ := h.pred b hb hf
  rw [h.prev_next a ha hb]
  exact ⟨ha,rfl⟩

theorem apart (h : Tiling g t A size prev N) (ha : a ∈ N) (hb : b ∈ N) (hab : a ≠ b) :
    a + size a ≤ b ∨ b + size b ≤ a := by
  rcases Nat.lt_or_gt_of_ne hab with hlt | hgt
  · exact .inl (h.disj a ha b hb hlt)
  · exact .inr (h.disj b hb a ha hgt)

/-- A block stays clear of the ends of the intervals it does not lie in. -/
theorem clear (h : Tiling g t A size prev N) (ha : a ∈ N) (he : e ∈ A) :
    (e.first ≤ a ∧ a + size a ≤ e.last) ∨ a + size a + t ≤ e.first ∨ e.last + t ≤ a := by
  obtain ⟨d,hd,h1,h2⟩ := h.home a ha
  by_cases hde : d = e
  · exact .inl (hde ▸ ⟨h1,h2⟩)
  · rcases h.extents d hd e he hde with h3 | h3 <;> omega

/-- The block after another one is not the first of an interval. -/
theorem next_ne_first (h : Tiling g t A size prev N) (ha : a ∈ N) (he : e ∈ A) :
    a + size a ≠ e.first := by
  intro heq
  have h1 := h.min a ha
  have h2 := h.room e he
  have h3 := h.gap
  have h4 := h.unit
  rcases h.clear ha he with h5 | h5 | h5 <;> omega

/-- No block starts at the end of an interval. -/
theorem last_not_mem (h : Tiling g t A size prev N) (he : e ∈ A) : e.last ∉ N := by
  intro hm
  have h1 := h.min _ hm
  have h2 := h.room e he
  have h3 := h.gap
  have h4 := h.unit
  rcases h.clear hm he with h5 | h5 | h5 <;> omega

theorem congr (h : Tiling g t A size prev N) (hs : ∀ a ∈ N, size' a = size a)
    (hp : ∀ a ∈ N, prev' a = prev a) : Tiling g t A size' prev' N where
  unit := h.unit
  gap := h.gap
  room := h.room
  extents := h.extents
  first_mem := h.first_mem
  home a ha := by rw [hs a ha]; exact h.home a ha
  min a ha := by rw [hs a ha]; exact h.min a ha
  next a ha := by rw [hs a ha]; exact h.next a ha
  disj a ha b hb hlt := by rw [hs a ha]; exact h.disj a ha b hb hlt
  pred b hb hf := by
    obtain ⟨a,ha,he⟩ := h.pred b hb hf
    exact ⟨a,ha,by rw [hs a ha]; exact he⟩
  prev_next a ha hn := by
    rw [hs a ha] at hn ⊢
    rw [hp _ hn]
    exact h.prev_next a ha hn
  prev_first e he := (hp e.first (h.first_mem e he)).trans (h.prev_first e he)

/-- A block absorbs the block after it. -/
theorem merge (h : Tiling g t A size prev N) (ha : a ∈ N) (hb : b ∈ N)
    (hab : a + size a = b) (hsa : size' a = size a + size b)
    (hs : ∀ c ∈ N, c ≠ a → c ≠ b → size' c = size c)
    (hpn : b + size b ∈ N → prev' (b + size b) = a)
    (hp : ∀ c ∈ N, c ≠ b → c ≠ b + size b → prev' c = prev c) :
    Tiling g t A size' prev' (N \ {b}) := by
  have hg := h.unit
  have ht := h.gap
  have hma := h.min a ha
  have hmb := h.min b hb
  have hbf : ∀ e ∈ A, e.first ≠ b := by
    intro e he heq
    exact h.next_ne_first ha he (by rw [hab, heq])
  have hend : ∀ c ∈ N, c ≠ b → c ≠ a → c + size c ≠ b := by
    intro c hc hcb hca he
    rcases h.apart hc ha hca with h1 | h1 <;> have := h.min c hc <;> omega
  refine ⟨h.unit,h.gap,h.room,h.extents,fun e he => ⟨h.first_mem e he,hbf e he⟩,?_,?_,?_,?_,?_,?_,?_⟩
  · rintro c ⟨hc,hcb⟩
    by_cases hca : c = a
    · subst hca
      obtain ⟨e,he,h1,h2⟩ := h.home c ha
      refine ⟨e,he,h1,?_⟩
      rcases h.clear hb he with h3 | h3 | h3
      · omega
      · omega
      · omega
    · rw [hs c hc hca hcb]
      exact h.home c hc
  · rintro c ⟨hc,hcb⟩
    by_cases hca : c = a
    · subst hca
      omega
    · rw [hs c hc hca hcb]
      exact h.min c hc
  · rintro c ⟨hc,hcb⟩
    by_cases hca : c = a
    · subst hca
      rw [hsa, ← Nat.add_assoc, hab]
      rcases h.next b hb with h1 | h1
      · exact .inl h1
      · exact .inr ⟨h1,by simp only [Set.mem_singleton_iff]; omega⟩
    · rw [hs c hc hca hcb]
      rcases h.next c hc with h1 | h1
      · exact .inl h1
      · exact .inr ⟨h1,hend c hc hcb hca⟩
  · rintro c ⟨hc,hcb⟩ d ⟨hd,hdb⟩ hlt
    by_cases hca : c = a
    · subst hca
      have hbd : b ≠ d := fun he => hdb he.symm
      have h1 := h.disj c hc d hd hlt
      rcases h.apart hb hd hbd with h2 | h2 <;> have := h.min d hd <;> omega
    · rw [hs c hc hca hcb]
      exact h.disj c hc d hd hlt
  · rintro c ⟨hc,hcb⟩ hf
    obtain ⟨d,hd,he⟩ := h.pred c hc hf
    by_cases hdb : d = b
    · subst hdb
      exact ⟨a,⟨ha,by simp only [Set.mem_singleton_iff]; omega⟩,by omega⟩
    · refine ⟨d,⟨hd,hdb⟩,?_⟩
      by_cases hda : d = a
      · subst hda
        exact absurd (he.symm.trans hab) hcb
      · rw [hs d hd hda hdb]
        exact he
  · rintro c ⟨hc,hcb⟩ ⟨hn,hnb⟩
    by_cases hca : c = a
    · subst hca
      rw [hsa, ← Nat.add_assoc, hab] at hn ⊢
      exact hpn hn
    · rw [hs c hc hca hcb] at hn hnb ⊢
      rw [hp _ hn hnb ?_]
      · exact h.prev_next c hc hn
      · intro he
        rcases h.apart hc hb hcb with h1 | h1 <;> have := h.min c hc <;> omega
  · intro e he
    rw [hp e.first (h.first_mem e he) (hbf e he) ?_]
    · exact h.prev_first e he
    · intro heq
      exact h.next_ne_first hb he heq.symm

/-- A block gives up its part behind the first k units as a new block. -/
theorem split (h : Tiling g t A size prev N) {k : Nat} (ha : a ∈ N) (hk : g ≤ k)
    (hks : k + g ≤ size a) (hsa : size' a = k) (hsn : size' (a + k) = size a - k)
    (hs : ∀ c ∈ N, c ≠ a → size' c = size c) (hpk : prev' (a + k) = a)
    (hpn : a + size a ∈ N → prev' (a + size a) = a + k)
    (hp : ∀ c ∈ N, c ≠ a + size a → prev' c = prev c) :
    Tiling g t A size' prev' (insert (a + k) N) := by
  have hg := h.unit
  have hout : ∀ c ∈ N, c ≠ a → c + size c ≤ a ∨ a + size a ≤ c := fun c hc hca => h.apart hc ha hca
  have hnk : a + k ∉ N := by
    intro hm
    rcases hout _ hm (by omega) with h1 | h1 <;> omega
  refine ⟨h.unit,h.gap,h.room,h.extents,fun e he => Set.mem_insert_of_mem _ (h.first_mem e he),?_,?_,?_,?_,?_,?_,?_⟩
  · rintro c (rfl | hc)
    · obtain ⟨e,he,h1,h2⟩ := h.home a ha
      exact ⟨e,he,by omega,by omega⟩
    · by_cases hca : c = a
      · subst hca
        obtain ⟨e,he,h1,h2⟩ := h.home c ha
        exact ⟨e,he,by omega,by omega⟩
      · rw [hs c hc hca]; exact h.home c hc
  · rintro c (rfl | hc)
    · omega
    · by_cases hca : c = a
      · subst hca; omega
      · rw [hs c hc hca]; exact h.min c hc
  · rintro c (rfl | hc)
    · rw [hsn, show a + k + (size a - k) = a + size a by omega]
      exact (h.next a ha).imp_right (Set.mem_insert_of_mem _)
    · by_cases hca : c = a
      · subst hca
        rw [hsa]
        exact .inr (Set.mem_insert _ _)
      · rw [hs c hc hca]
        exact (h.next c hc).imp_right (Set.mem_insert_of_mem _)
  · rintro c (rfl | hc) d (rfl | hd) hlt
    · omega
    · have hda : d ≠ a := by omega
      rcases hout d hd hda with h1 | h1 <;> omega
    · by_cases hca : c = a
      · subst hca; omega
      · have hmc := h.min c hc
        rw [hs c hc hca]
        rcases hout c hc hca with h1 | h1 <;> omega
    · by_cases hca : c = a
      · subst hca
        have := h.disj c hc d hd hlt
        omega
      · rw [hs c hc hca]
        exact h.disj c hc d hd hlt
  · rintro c (rfl | hc) hf
    · exact ⟨a,Set.mem_insert_of_mem _ ha,by omega⟩
    · obtain ⟨d,hd,he⟩ := h.pred c hc hf
      by_cases hda : d = a
      · subst hda
        exact ⟨_,Set.mem_insert _ _,by omega⟩
      · exact ⟨d,Set.mem_insert_of_mem _ hd,by rw [hs d hd hda]; exact he⟩
  · rintro c (rfl | hc) hn
    · rw [hsn, show a + k + (size a - k) = a + size a by omega] at hn ⊢
      rcases hn with hn | hn
      · omega
      · exact hpn hn
    · by_cases hca : c = a
      · subst hca
        rw [hsa]
        exact hpk
      · rw [hs c hc hca] at hn ⊢
        have hcn : c + size c ∈ N := by
          rcases hn with hn | hn
          · rcases hout c hc hca with h1 | h1 <;> omega
          · exact hn
        rw [hp _ hcn ?_]
        · exact h.prev_next c hc hcn
        · intro he
          have hmc := h.min c hc
          rcases hout c hc hca with h1 | h1 <;> omega
  · intro e he
    rw [hp e.first (h.first_mem e he) ?_]
    · exact h.prev_first e he
    · intro heq
      exact h.next_ne_first ha he heq.symm

/-- A new interval starts as one block. -/
theorem addExtent (h : Tiling g t A size prev N) (hroom : e.first + g ≤ e.last)
    (hout : ∀ d ∈ A, e.last + t ≤ d.first ∨ d.last + t ≤ e.first) (hse : e.first + size' e.first = e.last)
    (hpe : prev' e.first = e.back) (hs : ∀ c ∈ N, size' c = size c) (hp : ∀ c ∈ N, prev' c = prev c) :
    Tiling g t (A ++ [e]) size' prev' (insert e.first N) := by
  have hg := h.unit
  have ht := h.gap
  have h' := h.congr hs hp
  have hin : ∀ c ∈ N, c + size' c + t ≤ e.first ∨ e.last + t ≤ c := by
    intro c hc
    obtain ⟨d,hd,h1,h2⟩ := h'.home c hc
    rcases hout d hd with h3 | h3 <;> omega
  have hmem : ∀ d, d ∈ A ++ [e] ↔ d ∈ A ∨ d = e := by simp
  refine ⟨hg,ht,?_,?_,?_,?_,?_,?_,?_,?_,?_,?_⟩
  · intro d hd
    rcases (hmem d).mp hd with hd | rfl
    · exact h'.room d hd
    · exact hroom
  · intro d hd c hc hdc
    rcases (hmem d).mp hd with hd | hd <;> rcases (hmem c).mp hc with hc | hc
    · exact h'.extents d hd c hc hdc
    · exact hc ▸ (hout d hd).symm
    · exact hd ▸ hout c hc
    · exact absurd (hd.trans hc.symm) hdc
  · intro d hd
    rcases (hmem d).mp hd with hd | rfl
    · exact .inr (h'.first_mem d hd)
    · exact .inl rfl
  · rintro c (rfl | hc)
    · exact ⟨e,(hmem e).mpr (.inr rfl),le_rfl,hse.le⟩
    · obtain ⟨d,hd,h1⟩ := h'.home c hc
      exact ⟨d,(hmem d).mpr (.inl hd),h1⟩
  · rintro c (rfl | hc)
    · omega
    · exact h'.min c hc
  · rintro c (rfl | hc)
    · exact .inl ⟨e,(hmem e).mpr (.inr rfl),hse⟩
    · rcases h'.next c hc with ⟨d,hd,h1⟩ | h1
      · exact .inl ⟨d,(hmem d).mpr (.inl hd),h1⟩
      · exact .inr (.inr h1)
  · rintro c (rfl | hc) d (rfl | hd) hlt
    · omega
    · rcases hin d hd with h1 | h1 <;> omega
    · rcases hin c hc with h1 | h1 <;> omega
    · exact h'.disj c hc d hd hlt
  · rintro c (rfl | hc) hf
    · exact absurd rfl (hf e ((hmem e).mpr (.inr rfl)))
    · obtain ⟨d,hd,h1⟩ := h'.pred c hc fun x hx => hf x ((hmem x).mpr (.inl hx))
      exact ⟨d,.inr hd,h1⟩
  · rintro c (rfl | hc) hn
    · rcases hn with hn | hn
      · omega
      · rcases hin _ hn with h1 | h1
        · have := h'.min _ hn
          omega
        · omega
    · rcases hn with hn | hn
      · have := h'.min c hc
        rcases hin c hc with h1 | h1 <;> omega
      · exact h'.prev_next c hc hn
  · intro d hd
    rcases (hmem d).mp hd with hd | rfl
    · exact h'.prev_first d hd
    · exact hpe

/-- An interval that is one block can be given up. -/
theorem dropExtent (h : Tiling g t A size prev N) (he : e ∈ A) (hse : e.first + size e.first = e.last)
    {B : List Extent} (hB : ∀ d, d ∈ B ↔ d ∈ A ∧ d ≠ e) : Tiling g t B size prev (N \ {e.first}) := by
  have hg := h.unit
  have ht := h.gap
  have hA : ∀ d ∈ B, d ∈ A := fun d hd => ((hB d).mp hd).1
  have hne : ∀ d ∈ B, d.first ≠ e.first := by
    intro d hd heq
    have h1 := h.room d (hA d hd)
    have h2 := h.room e he
    rcases h.extents d (hA d hd) e he ((hB d).mp hd).2 with h3 | h3 <;> omega
  have hout : ∀ c ∈ N, c ≠ e.first → c + size c ≤ e.first ∨ e.last ≤ c := by
    intro c hc hce
    have := h.apart hc (h.first_mem e he) hce
    omega
  refine ⟨hg,ht,fun d hd => h.room d (hA d hd),fun d hd c hc => h.extents d (hA d hd) c (hA c hc),
    fun d hd => ⟨h.first_mem d (hA d hd),hne d hd⟩,?_,fun c hc => h.min c hc.1,?_,
    fun c hc d hd => h.disj c hc.1 d hd.1,?_,fun c hc hn => h.prev_next c hc.1 hn.1,fun d hd => h.prev_first d (hA d hd)⟩
  · rintro c ⟨hc,hce⟩
    obtain ⟨d,hd,h1,h2⟩ := h.home c hc
    refine ⟨d,(hB d).mpr ⟨hd,?_⟩,h1,h2⟩
    rintro rfl
    have := h.min c hc
    rcases hout c hc hce with h3 | h3 <;> omega
  · rintro c ⟨hc,hce⟩
    rcases h.next c hc with ⟨d,hd,h1⟩ | h1
    · refine .inl ⟨d,(hB d).mpr ⟨hd,?_⟩,h1⟩
      rintro rfl
      have := h.min c hc
      have := h.room d hd
      rcases hout c hc hce with h3 | h3 <;> omega
    · exact .inr ⟨h1,h.next_ne_first hc he⟩
  · rintro c ⟨hc,hce⟩ hf
    have hf' : ∀ d ∈ A, c ≠ d.first := by
      intro d hd heq
      by_cases hde : d = e
      · exact hce (hde ▸ heq)
      · exact hf d ((hB d).mpr ⟨hd,hde⟩) heq
    obtain ⟨d,hd,h1⟩ := h.pred c hc hf'
    refine ⟨d,⟨hd,?_⟩,h1⟩
    rintro rfl
    exact h.last_not_mem he (by rw [← hse, h1]; exact hc)

/-- A path of adjacent blocks from one address to another. -/
def Path (size : Nat → Nat) : Nat → List Nat → Nat → Prop
  | a, [], e => a = e
  | a, n :: ns, e => a = n ∧ Path size (n + size n) ns e

namespace Path

theorem le : ∀ {ns : List Nat} {a e : Nat}, Path size a ns e → a ≤ e
  | [], _, _, h => le_of_eq h
  | n :: ns, _, _, h => by
    obtain ⟨rfl,h⟩ := h
    have := h.le
    omega

private theorem le_of_mem : ∀ {ns : List Nat} {a e : Nat}, Path size a ns e → b ∈ ns → a ≤ b
  | n :: ns, _, _, h, hb => by
    obtain ⟨rfl,h⟩ := h
    rcases List.mem_cons.mp hb with rfl | hb
    · exact le_rfl
    · have := h.le_of_mem hb
      omega

theorem nodup : ∀ {ns : List Nat} {a e : Nat}, Path size a ns e → (∀ b ∈ ns, 0 < size b) → ns.Nodup
  | [], _, _, _, _ => List.nodup_nil
  | n :: ns, _, _, h, hpos => by
    obtain ⟨rfl,h⟩ := h
    refine List.nodup_cons.mpr ⟨fun hm => ?_,h.nodup fun b hb => hpos b (List.mem_cons_of_mem _ hb)⟩
    have h1 := h.le_of_mem hm
    have h2 := hpos _ List.mem_cons_self
    omega

/-- The blocks of a path fill the addresses from its start to its end. -/
theorem sum_size : ∀ {ns : List Nat} {a e : Nat}, Path size a ns e → a + (ns.map size).sum = e
  | [], _, _, h => h
  | n :: ns, _, _, h => by
    obtain ⟨rfl,h⟩ := h
    rw [List.map_cons, List.sum_cons, ← Nat.add_assoc]
    exact h.sum_size

end Path

private theorem exists_path_from (h : Tiling g t A size prev N) (he : e ∈ A) (n : Nat) :
    ∀ a ∈ N, e.first ≤ a → e.last - a ≤ n → a < e.last → ∃ ns, Path size a ns e.last ∧
      (∀ b, b ∈ ns ↔ b ∈ N ∧ a ≤ b ∧ b < e.last) ∧ ns.head? = some a ∧ ns.IsChain fun b c => b + size b = c := by
  have hg := h.unit
  induction n with
  | zero =>
    intro a ha hf hn hl
    omega
  | succ n ih =>
    intro a ha hf hn hl
    have hma := h.min a ha
    have hin : a + size a ≤ e.last := by
      rcases h.clear ha he with h1 | h1 | h1 <;> omega
    rcases Nat.lt_or_eq_of_le hin with hlt | heq
    · have hm : a + size a ∈ N := by
        rcases h.next a ha with ⟨d,hd,h1⟩ | h1
        · have := h.room d hd
          by_cases hde : d = e
          · subst hde
            omega
          · rcases h.extents d hd e he hde with h2 | h2
            · rcases h.clear ha hd with h3 | h3 | h3 <;> omega
            · omega
        · exact h1
      obtain ⟨ns,hp,hmem,hhead,hch⟩ := ih _ hm (by omega) (by omega) hlt
      refine ⟨a :: ns,⟨rfl,hp⟩,?_,rfl,?_⟩
      · intro b
        rw [List.mem_cons, hmem]
        constructor
        · rintro (rfl | ⟨hb,hab,hbl⟩)
          · exact ⟨ha,le_refl _,hl⟩
          · exact ⟨hb,by omega,hbl⟩
        · rintro ⟨hb,hab,hbl⟩
          by_cases hne : b = a
          · exact .inl hne
          · exact .inr ⟨hb,h.disj a ha b hb (by omega),hbl⟩
      · cases ns with
        | nil => simp
        | cons c ns =>
          obtain rfl : c = a + size a := by simpa using hhead
          exact List.IsChain.cons_cons rfl hch
    · refine ⟨[a],⟨rfl,heq⟩,?_,rfl,by simp⟩
      intro b
      simp only [List.mem_singleton]
      constructor
      · rintro rfl
        exact ⟨ha,le_refl _,hl⟩
      · rintro ⟨hb,hab,hbl⟩
        by_contra hne
        have := h.disj a ha b hb (by omega)
        omega

/-- The blocks of an interval in address order form one path over it. -/
theorem exists_path (h : Tiling g t A size prev N) (he : e ∈ A) :
    ∃ ns, Path size e.first ns e.last ∧ (∀ b, b ∈ ns ↔ b ∈ N ∧ e.first ≤ b ∧ b < e.last) ∧
      ns.IsChain fun b c => b + size b = c := by
  have h1 := h.room e he
  have h2 := h.unit
  obtain ⟨ns,hp,hm,-,hch⟩ := exists_path_from h he _ e.first (h.first_mem e he) le_rfl le_rfl (by omega)
  exact ⟨ns,hp,hm,hch⟩

end Tiling

end LiteOsKernel.Lib
