import Mathlib.Data.PEquiv
import Mathlib.Data.List.Pairwise
import Mathlib.Data.List.Forall2

/-! Lists of ranges that map numbers to numbers. Ranges that are apart on both sides are a partial bijection, and moving each range
along another such list is composition. -/
namespace LiteOsKernel.Ranges

/-- The numbers from src to src + len, mapped in order to those from dst on. -/
structure Range where
  src : Nat
  dst : Nat
  len : Nat
  deriving DecidableEq

namespace Range

def Covers (r : Range) (a : Nat) : Prop := r.src ≤ a ∧ a < r.src + r.len

def Hits (r : Range) (b : Nat) : Prop := r.dst ≤ b ∧ b < r.dst + r.len

instance (r : Range) (a : Nat) : Decidable (r.Covers a) := inferInstanceAs (Decidable (_ ∧ _))

instance (r : Range) (b : Nat) : Decidable (r.Hits b) := inferInstanceAs (Decidable (_ ∧ _))

def fwd (r : Range) (a : Nat) : Nat := r.dst + (a - r.src)

def back (r : Range) (b : Nat) : Nat := r.src + (b - r.dst)

/-- Two ranges with no number in common, on either side. -/
def Apart (r s : Range) : Prop :=
  (r.src + r.len ≤ s.src ∨ s.src + s.len ≤ r.src) ∧ (r.dst + r.len ≤ s.dst ∨ s.dst + s.len ≤ r.dst)

instance : Std.Symm Apart := ⟨fun _ _ h => ⟨h.1.symm,h.2.symm⟩⟩

variable {r : Range} {a b : Nat}

theorem Covers.hits (h : r.Covers a) : r.Hits (r.fwd a) := by
  have := h.1
  have := h.2
  exact ⟨Nat.le_add_right _ _,by rw [fwd]; omega⟩

theorem Hits.covers (h : r.Hits b) : r.Covers (r.back b) := by
  have := h.1
  have := h.2
  exact ⟨Nat.le_add_right _ _,by rw [back]; omega⟩

theorem Covers.back_fwd (h : r.Covers a) : r.back (r.fwd a) = a := by
  have := h.1
  rw [back, fwd]
  omega

theorem Hits.fwd_back (h : r.Hits b) : r.fwd (r.back b) = b := by
  have := h.1
  rw [back, fwd]
  omega

end Range

open Range

/-- The image of a under the first range that covers it. -/
def image (l : List Range) (a : Nat) : Option Nat := (l.find? fun r => decide (r.Covers a)).map fun r => r.fwd a

/-- The number that the first range to hit b maps to it. -/
def preimage (l : List Range) (b : Nat) : Option Nat := (l.find? fun r => decide (r.Hits b)).map fun r => r.back b

variable {l p : List Range} {a b : Nat}

private theorem eq_of_covers (h : l.Pairwise Apart) {r s : Range} (hr : r ∈ l) (hs : s ∈ l) (hra : r.Covers a) (hsa : s.Covers a) : r = s := by
  by_contra hne
  have := (h.forall hr hs hne).1
  have := hra.1
  have := hra.2
  have := hsa.1
  have := hsa.2
  omega

private theorem eq_of_hits (h : l.Pairwise Apart) {r s : Range} (hr : r ∈ l) (hs : s ∈ l) (hrb : r.Hits b) (hsb : s.Hits b) : r = s := by
  by_contra hne
  have := (h.forall hr hs hne).2
  have := hrb.1
  have := hrb.2
  have := hsb.1
  have := hsb.2
  omega

private theorem find?_covers (h : l.Pairwise Apart) {r : Range} (hr : r ∈ l) (ha : r.Covers a) :
    (l.find? fun r => decide (r.Covers a)) = some r := by
  have hsome : (l.find? fun r => decide (r.Covers a)).isSome := List.find?_isSome.mpr ⟨r,hr,by simpa using ha⟩
  obtain ⟨s,hs⟩ := Option.isSome_iff_exists.mp hsome
  have hsa : s.Covers a := by simpa using List.find?_some hs
  rw [hs, eq_of_covers h (List.mem_of_find?_eq_some hs) hr hsa ha]

private theorem find?_hits (h : l.Pairwise Apart) {r : Range} (hr : r ∈ l) (hb : r.Hits b) :
    (l.find? fun r => decide (r.Hits b)) = some r := by
  have hsome : (l.find? fun r => decide (r.Hits b)).isSome := List.find?_isSome.mpr ⟨r,hr,by simpa using hb⟩
  obtain ⟨s,hs⟩ := Option.isSome_iff_exists.mp hsome
  have hsb : s.Hits b := by simpa using List.find?_some hs
  rw [hs, eq_of_hits h (List.mem_of_find?_eq_some hs) hr hsb hb]

theorem image_eq_some (h : l.Pairwise Apart) : image l a = some b ↔ ∃ r ∈ l, r.Covers a ∧ r.fwd a = b := by
  constructor
  · intro hi
    obtain ⟨r,hr,hb⟩ := Option.map_eq_some_iff.mp hi
    exact ⟨r,List.mem_of_find?_eq_some hr,by simpa using List.find?_some hr,hb⟩
  · rintro ⟨r,hr,ha,rfl⟩
    rw [image, find?_covers h hr ha, Option.map_some]

theorem preimage_eq_some (h : l.Pairwise Apart) : preimage l b = some a ↔ ∃ r ∈ l, r.Hits b ∧ r.back b = a := by
  constructor
  · intro hi
    obtain ⟨r,hr,ha⟩ := Option.map_eq_some_iff.mp hi
    exact ⟨r,List.mem_of_find?_eq_some hr,by simpa using List.find?_some hr,ha⟩
  · rintro ⟨r,hr,hb,rfl⟩
    rw [preimage, find?_hits h hr hb, Option.map_some]

theorem image_eq_none : image l a = none ↔ ∀ r ∈ l, ¬ r.Covers a := by
  rw [image, Option.map_eq_none_iff, List.find?_eq_none]
  simp only [decide_eq_true_eq]

theorem preimage_eq_none : preimage l b = none ↔ ∀ r ∈ l, ¬ r.Hits b := by
  rw [preimage, Option.map_eq_none_iff, List.find?_eq_none]
  simp only [decide_eq_true_eq]

/-- Ranges that are apart, as a partial bijection. -/
def bijection (l : List Range) (h : l.Pairwise Apart) : Nat ≃. Nat where
  toFun := image l
  invFun := preimage l
  inv a b := by
    rw [image_eq_some h, preimage_eq_some h]
    constructor
    · rintro ⟨r,hr,hb,rfl⟩
      exact ⟨r,hr,hb.covers,hb.fwd_back⟩
    · rintro ⟨r,hr,ha,rfl⟩
      exact ⟨r,hr,ha.hits,ha.back_fwd⟩

/-- A range whose target lies within one range of p, with its target moved along that range. -/
structure Moved (p : List Range) (r r' : Range) : Prop where
  src : r'.src = r.src
  len : r'.len = r.len
  along : ∃ q ∈ p, q.src ≤ r.dst ∧ r.dst + r.len ≤ q.src + q.len ∧ r'.dst = q.fwd r.dst

/-- Ranges that are apart stay apart when they are moved along ranges that are apart. -/
theorem Moved.apart (hp : p.Pairwise Apart) {r s r' s' : Range} (hr : Moved p r r') (hs : Moved p s s') (h : Apart r s) :
    Apart r' s' := by
  obtain ⟨q,hq,hrq,hrq',hr'⟩ := hr.along
  obtain ⟨t,ht,hst,hst',hs'⟩ := hs.along
  refine ⟨by rw [hr.src, hr.len, hs.src, hs.len]; exact h.1,?_⟩
  rw [hr', hs', hr.len, hs.len, Range.fwd, Range.fwd]
  have h2 := h.2
  by_cases hqt : q = t
  · subst hqt
    omega
  · have := (hp.forall hq ht hqt).2
    omega

theorem exists_of_mem_moved {l' : List Range} (hm : List.Forall₂ (Moved p) l l') {r' : Range} (hr' : r' ∈ l') :
    ∃ r ∈ l, Moved p r r' := by
  induction hm with
  | nil => exact absurd hr' List.not_mem_nil
  | @cons s s' l l' hs hm ih =>
    rcases List.mem_cons.mp hr' with rfl | hr'
    · exact ⟨s,List.mem_cons_self,hs⟩
    · obtain ⟨r,hr,h⟩ := ih hr'
      exact ⟨r,List.mem_cons_of_mem _ hr,h⟩

theorem pairwise_apart_of_moved {l' : List Range} (hp : p.Pairwise Apart) (hm : List.Forall₂ (Moved p) l l') (h : l.Pairwise Apart) :
    l'.Pairwise Apart := by
  induction hm with
  | nil => exact List.Pairwise.nil
  | @cons r r' l l' hr hm ih =>
    obtain ⟨hhead,htail⟩ := List.pairwise_cons.mp h
    refine List.pairwise_cons.mpr ⟨fun s' hs' => ?_,ih htail⟩
    obtain ⟨s,hs,hsm⟩ := exists_of_mem_moved hm hs'
    exact hr.apart hp hsm (hhead s hs)

/-- What a moved range hits is hit by p. -/
theorem Moved.hits {r r' : Range} (h : Moved p r r') (hb : r'.Hits b) : ∃ q ∈ p, q.Hits b := by
  obtain ⟨q,hq,hlo,hhi,hdst⟩ := h.along
  obtain ⟨h1,h2⟩ := hb
  rw [hdst, Range.fwd] at h1 h2
  rw [h.len] at h2
  exact ⟨q,hq,by omega,by omega⟩

end LiteOsKernel.Ranges
