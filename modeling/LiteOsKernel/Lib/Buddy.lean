import Mathlib.Data.Set.Basic
import Mathlib.Data.Nat.Bitwise
import Mathlib.Tactic.Ring

/-! Buddy systems over an interval of slots: each slot has an order, a slot whose order is
below the maximum heads a free block of 2^order slots, and the slots of taken are in no free
block. Slots have frame numbers, and buddies are blocks whose frames differ in one bit. -/
namespace LiteOsKernel.Buddy

/-- The slots of a block of order k at p. -/
def block (p k : Nat) : Set Nat := {x | p ≤ x ∧ x < p + 2^k}

theorem mem_block {p k x : Nat} : x ∈ block p k ↔ p ≤ x ∧ x < p + 2^k := Iff.rfl

theorem self_mem_block (p k : Nat) : p ∈ block p k := ⟨le_refl p,Nat.lt_add_of_pos_right (Nat.two_pow_pos k)⟩

/-- The free blocks given by order over the slots from lo up to hi. -/
structure Free (max lo hi : Nat) (frame order : Nat → Nat) (taken : Set Nat) : Prop where
  le_max : ∀ p, lo ≤ p → p < hi → order p ≤ max
  inside : ∀ p, lo ≤ p → p < hi → order p < max → p + 2^order p ≤ hi
  aligned : ∀ p, lo ≤ p → p < hi → order p < max → 2^order p ∣ frame p
  apart : ∀ p q, lo ≤ p → p < q → q < hi → order p < max → order q < max → p + 2^order p ≤ q
  cover : ∀ x, lo ≤ x → x < hi →
    (x ∈ taken ↔ ∀ p, lo ≤ p → p < hi → order p < max → x ∉ block p (order p))
  lonely : ∀ p q, lo ≤ p → p < hi → lo ≤ q → q < hi → order p + 1 < max → order q = order p →
    frame q ≠ frame p ^^^ 2^order p

variable {max lo hi : Nat} {frame order order' : Nat → Nat} {taken taken' : Set Nat} {p q k : Nat}

theorem Free.congr (h : Free max lo hi frame order taken) (ho : ∀ x, lo ≤ x → x < hi → order' x = order x)
    (ht : ∀ x, lo ≤ x → x < hi → (x ∈ taken' ↔ x ∈ taken)) : Free max lo hi frame order' taken' where
  le_max p h1 h2 := by rw [ho p h1 h2]; exact h.le_max p h1 h2
  inside p h1 h2 h3 := by
    rw [ho p h1 h2] at h3 ⊢
    exact h.inside p h1 h2 h3
  aligned p h1 h2 h3 := by
    rw [ho p h1 h2] at h3 ⊢
    exact h.aligned p h1 h2 h3
  apart p q h1 h2 h3 h4 h5 := by
    rw [ho p h1 (h2.trans h3)] at h4 ⊢
    rw [ho q (h1.trans h2.le) h3] at h5
    exact h.apart p q h1 h2 h3 h4 h5
  cover x h1 h2 := by
    rw [ht x h1 h2, h.cover x h1 h2]
    constructor
    · intro hx p h3 h4 h5
      rw [ho p h3 h4] at h5 ⊢
      exact hx p h3 h4 h5
    · intro hx p h3 h4 h5
      have := hx p h3 h4
      rw [ho p h3 h4] at this
      exact this h5
  lonely p q h1 h2 h3 h4 h5 h6 := by
    rw [ho p h1 h2] at h5 h6 ⊢
    rw [ho q h3 h4] at h6
    exact h.lonely p q h1 h2 h3 h4 h5 h6

/-- Nothing is free at first. -/
theorem Free.start (max lo hi : Nat) (frame : Nat → Nat) (ho : ∀ x, lo ≤ x → x < hi → order x = max)
    (ht : ∀ x, lo ≤ x → x < hi → x ∈ taken) : Free max lo hi frame order taken where
  le_max p h1 h2 := (ho p h1 h2).le
  inside p h1 h2 h3 := absurd (ho p h1 h2) h3.ne
  aligned p h1 h2 h3 := absurd (ho p h1 h2) h3.ne
  apart p q h1 h2 h3 h4 _ := absurd (ho p h1 (h2.trans h3)) h4.ne
  cover x h1 h2 := ⟨fun _ p h3 h4 h5 => absurd (ho p h3 h4) h5.ne,fun _ => ht x h1 h2⟩
  lonely p q h1 h2 _ _ h5 _ := by
    rw [ho p h1 h2] at h5
    omega

theorem Free.disjoint (h : Free max lo hi frame order taken) (hp : lo ≤ p) (hph : p < hi) (ho : order p < max)
    (hq : lo ≤ q) (hqh : q < hi) (hqo : order q < max) (hne : p ≠ q) {x : Nat} (hx : x ∈ block p (order p)) :
    x ∉ block q (order q) := by
  intro hx'
  have h1 := mem_block.mp hx
  have h2 := mem_block.mp hx'
  rcases Nat.lt_or_gt_of_ne hne with hlt | hlt
  · have := h.apart p q hp hlt hqh ho hqo
    omega
  · have := h.apart q p hq hlt hph hqo ho
    omega

/-- Taking a free block. -/
theorem Free.take (h : Free max lo hi frame order taken) (hp : lo ≤ p) (hph : p < hi) (ho : order p < max) :
    Free max lo hi frame (fun x => if x = p then max else order x) (taken ∪ block p (order p)) where
  le_max x h1 h2 := by
    split
    · exact le_refl max
    · exact h.le_max x h1 h2
  inside x h1 h2 h3 := by
    split_ifs at h3 ⊢ with hx
    · omega
    · exact h.inside x h1 h2 h3
  aligned x h1 h2 h3 := by
    split_ifs at h3 ⊢ with hx
    · omega
    · exact h.aligned x h1 h2 h3
  apart x y h1 h2 h3 h4 h5 := by
    split_ifs at h4 with hx
    · omega
    split_ifs at h5 with hy
    · omega
    rw [if_neg hx]
    exact h.apart x y h1 h2 h3 h4 h5
  cover x h1 h2 := by
    constructor
    · intro hx y h3 h4 h5 hm
      split_ifs at h5 hm with hy
      · omega
      rcases hx with hx | hx
      · exact (h.cover x h1 h2).mp hx y h3 h4 h5 hm
      · exact h.disjoint h3 h4 h5 hp hph ho hy hm hx
    · intro hx
      by_cases hb : x ∈ block p (order p)
      · exact .inr hb
      refine .inl ((h.cover x h1 h2).mpr fun y h3 h4 h5 => ?_)
      by_cases hy : y = p
      · rw [hy]
        exact hb
      · have := hx y h3 h4
        rw [if_neg hy] at this
        exact this h5
  lonely x y h1 h2 h3 h4 h5 h6 := by
    split_ifs at h5 h6 ⊢ with hx hy
    · omega
    · omega
    · omega
    · exact h.lonely x y h1 h2 h3 h4 h5 h6

/-- A taken block heads no free block. -/
theorem Free.max_of_taken (h : Free max lo hi frame order taken) (hp : lo ≤ p) (hph : p < hi) (ht : p ∈ taken) :
    order p = max := by
  by_contra hne
  have h1 := h.le_max p hp hph
  exact (h.cover p hp hph).mp ht p hp hph (by omega) (self_mem_block p _)

/-- A free block before a taken one ends there. -/
private theorem Free.le_of_taken (h : Free max lo hi frame order taken) (hp : lo ≤ p) (hph : p < hi) (ho : order p < max)
    (hpq : p < q) (hqh : q < hi) (ht : q ∈ taken) : p + 2^order p ≤ q := by
  by_contra hlt
  exact (h.cover q (hp.trans hpq.le) hqh).mp ht p hp hph ho ⟨hpq.le,by omega⟩

/-- Giving back a taken block whose buddy is not a free block of the same order. -/
theorem Free.put (h : Free max lo hi frame order taken) (hp : lo ≤ p) (hk : k < max) (hin : p + 2^k ≤ hi)
    (hal : 2^k ∣ frame p) (ht : block p k ⊆ taken)
    (hb : k + 1 < max → ∀ q, lo ≤ q → q < hi → frame q = frame p ^^^ 2^k → order q ≠ k) :
    Free max lo hi frame (fun x => if x = p then k else order x) (taken \ block p k) := by
  have hk0 := Nat.two_pow_pos k
  have hph : p < hi := by omega
  have hmax := h.max_of_taken hp hph (ht (self_mem_block p k))
  -- a head inside the block would be a taken slot
  have hno : ∀ x, lo ≤ x → x < hi → order x < max → x ∉ block p k := by
    intro x h1 h2 h3 hx
    exact absurd (h.max_of_taken h1 h2 (ht hx)) h3.ne
  refine ⟨?_,?_,?_,?_,?_,?_⟩
  · intro x h1 h2
    split
    · exact hk.le
    · exact h.le_max x h1 h2
  · intro x h1 h2 h3
    split_ifs at h3 ⊢ with hx
    · rw [hx]
      exact hin
    · exact h.inside x h1 h2 h3
  · intro x h1 h2 h3
    split_ifs at h3 ⊢ with hx
    · rw [hx]
      exact hal
    · exact h.aligned x h1 h2 h3
  · intro x y h1 h2 h3 h4 h5
    split_ifs at h4 h5 ⊢ with hx hy hy
    · omega
    · rw [hx] at h2 ⊢
      have := hno y (hp.trans h2.le) h3 h5
      rw [mem_block] at this
      omega
    · exact h.le_of_taken h1 (h2.trans h3) h4 (hy ▸ h2) (hy ▸ h3) (hy ▸ ht (self_mem_block p k))
    · exact h.apart x y h1 h2 h3 h4 h5
  · intro x h1 h2
    constructor
    · rintro ⟨hx,hxb⟩ y h3 h4 h5 hm
      split_ifs at h5 hm with hy
      · exact hxb (hy ▸ hm)
      · exact (h.cover x h1 h2).mp hx y h3 h4 h5 hm
    · intro hx
      have hxb : x ∉ block p k := by
        have := hx p hp hph
        rw [if_pos rfl] at this
        exact this hk
      refine ⟨(h.cover x h1 h2).mpr fun y h3 h4 h5 => ?_,hxb⟩
      have hy : y ≠ p := by
        rintro rfl
        omega
      have := hx y h3 h4
      rw [if_neg hy] at this
      exact this h5
  · intro x y h1 h2 h3 h4 h5 h6
    split_ifs at h5 h6 ⊢ with hx hy hy
    · intro he
      rw [hx, hy] at he
      have : frame p ^^^ (frame p ^^^ 2^k) = 0 := by rw [← he, Nat.xor_self]
      rw [← Nat.xor_assoc, Nat.xor_self, Nat.zero_xor] at this
      omega
    · rw [hx]
      intro he
      exact hb h5 y h3 h4 he h6
    · intro he
      refine hb (by omega) x h1 h2 ?_ h6.symm
      rw [← hy, he, ← h6, Nat.xor_assoc, Nat.xor_self, Nat.xor_zero]
    · exact h.lonely x y h1 h2 h3 h4 h5 h6

-- Buddies and the blocks they merge into

private theorem xor_one (m : Nat) : m ^^^ 1 = if m%2 = 0 then m + 1 else m - 1 := by
  have h1 : (m ^^^ 1)/2 = m/2 := by
    have := Nat.xor_div_two_pow (a := m) (b := 1) (n := 1)
    simpa using this
  have h2 : (m ^^^ 1)%2 = (m + 1)%2 := Nat.xor_mod_two_eq
  split <;> omega

/-- The buddy of an aligned block lies right behind or right before it. -/
theorem xor_two_pow {f k : Nat} (h : 2^k ∣ f) :
    f ^^^ 2^k = if f/2^k%2 = 0 then f + 2^k else f - 2^k := by
  obtain ⟨m,rfl⟩ := h
  have hk := Nat.two_pow_pos k
  have h1 : (2^k*m ^^^ 2^k)/2^k = m ^^^ 1 := by
    rw [Nat.xor_div_two_pow, Nat.mul_div_cancel_left m hk, Nat.div_self hk]
  have h2 : (2^k*m ^^^ 2^k)%2^k = 0 := by
    rw [Nat.xor_mod_two_pow, Nat.mul_mod_right, Nat.mod_self, Nat.xor_self]
  have h3 := Nat.div_add_mod (2^k*m ^^^ 2^k) (2^k)
  rw [h1, h2, Nat.add_zero, xor_one] at h3
  rw [← h3, Nat.mul_div_cancel_left m hk]
  split
  · ring
  · rw [Nat.mul_sub, Nat.mul_one]

/-- Two buddies make up the block of the next order at the smaller of them. -/
theorem min_xor_two_pow {f k : Nat} (h : 2^k ∣ f) :
    min f (f ^^^ 2^k) = f/2^(k+1)*2^(k+1) ∧ (f ^^^ 2^k)/2^(k+1)*2^(k+1) = f/2^(k+1)*2^(k+1) := by
  obtain ⟨m,rfl⟩ := h
  have hk := Nat.two_pow_pos k
  have hx := xor_two_pow (Dvd.intro m rfl : 2^k ∣ 2^k*m)
  have hd : ∀ n, 2^k*n/2^(k+1)*2^(k+1) = 2^k*(n/2*2) := by
    intro n
    rw [pow_succ, ← Nat.div_div_eq_div_mul, Nat.mul_div_cancel_left n hk]
    ring
  rw [Nat.mul_div_cancel_left m hk] at hx
  split_ifs at hx with hm
  · have he : 2^k*m ^^^ 2^k = 2^k*(m+1) := by rw [hx]; ring
    rw [he, hd, hd, show (m+1)/2*2 = m/2*2 by omega, show m/2*2 = m by omega]
    exact ⟨min_eq_left (Nat.mul_le_mul_left _ (Nat.le_succ m)),rfl⟩
  · have he : 2^k*m ^^^ 2^k = 2^k*(m-1) := by rw [hx, Nat.mul_sub, Nat.mul_one]
    rw [he, hd, hd, show (m-1)/2*2 = m/2*2 by omega, show m/2*2 = m-1 by omega]
    exact ⟨min_eq_right (Nat.mul_le_mul_left _ (Nat.sub_le m 1)),rfl⟩

end LiteOsKernel.Buddy
