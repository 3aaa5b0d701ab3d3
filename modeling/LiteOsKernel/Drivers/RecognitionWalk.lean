import LiteOsKernel.Drivers.Recognition
import Mathlib.Data.Fintype.EquivFin
import Mathlib.Data.Fintype.Pigeonhole
import Mathlib.Data.Fin.Basic
import Mathlib.Order.Monotone.Basic

/-! The chain of extended boot records: which records the walk reads, what it stores for them, and when it comes to an end. -/
namespace LiteOsKernel.Drivers

/-- What a walk over extended records starts from. -/
structure Walk where
  img : Image
  sectorCount : Nat
  extendedAddress : Nat
  mbrCount : Nat

namespace Walk

variable (w : Walk)

/-- The offset of the n-th record of the chain. -/
def offset : Nat → Nat
  | 0 => 0
  | n + 1 => (tableEntry (w.img (ebrSector w.extendedAddress (offset n))) 1).sectorStart

/-- The n-th record. -/
def record (n : Nat) : Sector := w.img (ebrSector w.extendedAddress (w.offset n))

/-- The entry that the n-th record holds itself. -/
def own (n : Nat) : PartitionInfo := tableEntry (w.record n) 0

/-- Its entry as the sectors of the disk. -/
def logical (n : Nat) : PartitionInfo :=
  { w.own n with sectorStart := Word.add (ebrSector w.extendedAddress (w.offset n)) (w.own n).sectorStart }

/-- How many of the first n records hold an entry. -/
def found (n : Nat) : Nat := (List.range n).countP fun m => (w.own m).type ≠ 0

/-- The walk goes on behind each of the first n records. -/
def Goes (n : Nat) : Prop :=
  ∀ m < n, w.extendedAddress + w.offset m < w.sectorCount ∧ (tableEntry (w.record m) 1).type ≠ 0 ∧
    w.mbrCount + w.found (m + 1) < MAX_DIVIDE_PART_PER_DISK

instance (n : Nat) : Decidable (w.Goes n) := inferInstanceAs (Decidable (∀ m < n, _ ∧ _ ∧ _))

/-- The n-th record is read. -/
def IsRead (n : Nat) : Prop := w.Goes n ∧ w.extendedAddress + w.offset n < w.sectorCount

instance (n : Nat) : Decidable (w.IsRead n) := inferInstanceAs (Decidable (_ ∧ _))

/-- The table with the entries of the first n records. -/
def stored (part : PartTable) : Nat → PartTable
  | 0 => part
  | n + 1 => if (w.own n).type ≠ 0 then Function.update (stored part n) (MAX_PRIMARY_PART_PER_DISK + w.found n) (w.logical n)
    else stored part n

/-- The records that are read lead back to one of them, with no entry in between. -/
def EmptyCycle : Prop :=
  ∃ k p, 0 < p ∧ w.IsRead (k + p) ∧ w.offset (k + p) = w.offset k ∧ ∀ m, k ≤ m → m < k + p → (w.own m).type = 0

variable {w} {n m : Nat}

theorem found_succ : w.found (n + 1) = w.found n + if (w.own n).type ≠ 0 then 1 else 0 := by
  rw [found, List.range_succ, List.countP_append, List.countP_singleton, found]
  by_cases h : (w.own n).type = 0 <;> simp [h]

theorem found_le_succ : w.found n ≤ w.found (n + 1) := by
  rw [found_succ]
  exact Nat.le_add_right _ _

theorem found_mono : Monotone w.found := monotone_nat_of_le_succ fun _ => found_le_succ

theorem Goes.mono (h : w.Goes n) (hm : m ≤ n) : w.Goes m := fun k hk => h k (hk.trans_le hm)

theorem Goes.isRead (h : w.Goes n) (hm : m < n) : w.IsRead m := ⟨h.mono hm.le,(h m hm).1⟩

theorem IsRead.mono (h : w.IsRead n) (hm : m ≤ n) : w.IsRead m := by
  rcases Nat.lt_or_eq_of_le hm with hlt | rfl
  · exact h.1.isRead hlt
  · exact h

theorem Goes.succ (h : w.Goes n) (h1 : w.extendedAddress + w.offset n < w.sectorCount) (h2 : (tableEntry (w.record n) 1).type ≠ 0)
    (h3 : w.mbrCount + w.found (n + 1) < MAX_DIVIDE_PART_PER_DISK) : w.Goes (n + 1) := by
  intro k hk
  rcases Nat.lt_or_eq_of_le (Nat.le_of_lt_succ hk) with hlt | rfl
  · exact h k hlt
  · exact ⟨h1,h2,h3⟩

/-- What the walk does with the n-th record: it ends in front of it, ends behind it, or goes on. -/
private theorem osLogical_step (hlt : w.mbrCount + w.found n < MAX_DIVIDE_PART_PER_DISK) (fuel : Nat) (part : PartTable) :
    osLogicalPartitionRecognition w.img w.sectorCount w.extendedAddress w.mbrCount (fuel + 1) (w.offset n) (w.found n) (w.stored part n) =
      if w.sectorCount ≤ w.extendedAddress + w.offset n then some (w.found n,w.stored part n)
      else if (tableEntry (w.record n) 1).type ≠ 0 ∧ w.mbrCount + w.found (n + 1) < MAX_DIVIDE_PART_PER_DISK then
        osLogicalPartitionRecognition w.img w.sectorCount w.extendedAddress w.mbrCount fuel (w.offset (n + 1)) (w.found (n + 1))
          (w.stored part (n + 1))
      else some (w.found (n + 1),w.stored part (n + 1)) := by
  rw [osLogicalPartitionRecognition]
  split
  · rfl
  · by_cases h0 : (w.own n).type = 0
    · have hf : w.found (n + 1) = w.found n := by rw [found_succ, if_neg (not_not.mpr h0), Nat.add_zero]
      have hc : ¬ ((tableEntry (w.img (ebrSector w.extendedAddress (w.offset n))) 0).type ≠ 0 ∧
          w.mbrCount + w.found n < MAX_DIVIDE_PART_PER_DISK) := fun hc => hc.1 h0
      rw [stored, if_neg (not_not.mpr h0), hf]
      simp only [if_neg hc, record, offset]
      rfl
    · have hf : w.found (n + 1) = w.found n + 1 := by rw [found_succ, if_pos h0]
      have hc : (tableEntry (w.img (ebrSector w.extendedAddress (w.offset n))) 0).type ≠ 0 ∧
          w.mbrCount + w.found n < MAX_DIVIDE_PART_PER_DISK := ⟨h0,hlt⟩
      rw [stored, if_pos h0, hf, logical]
      simp only [if_pos hc, record, offset, own]
      rfl

/-- Where the walk ends: it has read the first N records, and stored their entries. -/
theorem osLogical_some {c : Nat} {part part' : PartTable} (fuel : Nat) (hg : w.Goes n)
    (hlt : w.mbrCount + w.found n < MAX_DIVIDE_PART_PER_DISK)
    (h : osLogicalPartitionRecognition w.img w.sectorCount w.extendedAddress w.mbrCount fuel (w.offset n) (w.found n) (w.stored part n) =
      some (c,part')) :
    ∃ N, (∀ k, w.IsRead k ↔ k < N) ∧ c = w.found N ∧ part' = w.stored part N := by
  induction fuel generalizing n with
  | zero => cases h
  | succ fuel ih =>
    rw [osLogical_step hlt] at h
    split at h
    · rename_i hout
      obtain ⟨rfl,rfl⟩ := Prod.mk.inj (Option.some.inj h)
      refine ⟨n,fun k => ⟨fun hk => ?_,fun hk => hg.isRead hk⟩,rfl,rfl⟩
      by_contra hnk
      exact absurd (hk.mono (not_lt.mp hnk)).2 (not_lt.mpr hout)
    · rename_i hin
      split at h
      · rename_i hnext
        exact ih (hg.succ (not_le.mp hin) hnext.1 hnext.2) hnext.2 h
      · rename_i hnext
        obtain ⟨rfl,rfl⟩ := Prod.mk.inj (Option.some.inj h)
        refine ⟨n + 1,fun k => ⟨fun hk => ?_,fun hk => ?_⟩,rfl,rfl⟩
        · by_contra hnk
          exact hnext (hk.1 n (not_lt.mp hnk)).2
        · exact IsRead.mono ⟨hg,not_le.mp hin⟩ (Nat.le_of_lt_succ hk)

/-- The walk ends once it comes to a record that is not read. -/
private theorem osLogical_isSome {part : PartTable} (fuel : Nat) (hg : w.Goes n) (hlt : w.mbrCount + w.found n < MAX_DIVIDE_PART_PER_DISK)
    (h : ¬ w.IsRead (n + fuel)) :
    (osLogicalPartitionRecognition w.img w.sectorCount w.extendedAddress w.mbrCount (fuel + 1) (w.offset n) (w.found n)
      (w.stored part n)).isSome := by
  induction fuel generalizing n with
  | zero =>
    have hout : w.sectorCount ≤ w.extendedAddress + w.offset n := not_lt.mp fun hin => h ⟨hg,hin⟩
    rw [osLogical_step hlt, if_pos hout]
    rfl
  | succ fuel ih =>
    rw [osLogical_step hlt]
    split
    · rfl
    · rename_i hin
      split
      · rename_i hnext
        refine ih (hg.succ (not_le.mp hin) hnext.1 hnext.2) hnext.2 ?_
        rwa [Nat.add_right_comm, Nat.add_assoc]
      · rfl

private theorem offset_lt (n : Nat) : w.offset n < 2^32 := by
  cases n with
  | zero => exact Nat.two_pow_pos 32
  | succ n =>
    rw [offset, tableEntry, ldDword]
    generalize w.img _ = b
    have h0 := (b (PAR_OFFSET + PAR_START_OFFSET + 1*PAR_TABLE_SIZE)).isLt
    have h1 := (b (PAR_OFFSET + PAR_START_OFFSET + 1*PAR_TABLE_SIZE + 1)).isLt
    have h2 := (b (PAR_OFFSET + PAR_START_OFFSET + 1*PAR_TABLE_SIZE + 2)).isLt
    have h3 := (b (PAR_OFFSET + PAR_START_OFFSET + 1*PAR_TABLE_SIZE + 3)).isLt
    simp only
    omega

/-- Equal offsets are followed by equal offsets. -/
private theorem offset_period {k p : Nat} (h : w.offset (k + p) = w.offset k) (j : Nat) : w.offset (k + j + p) = w.offset (k + j) := by
  induction j with
  | zero => exact h
  | succ j ih =>
    rw [← Nat.add_assoc, Nat.add_right_comm, offset, ih, offset]

/-- A bounded count stays the same from some record on. -/
private theorem exists_found_const (h : ∀ n, w.found n ≤ MAX_DIVIDE_PART_PER_DISK) : ∃ K, ∀ n, K ≤ n → w.found n = w.found K := by
  by_contra hno
  have hgrow : ∀ d, ∃ K, d ≤ w.found K := by
    intro d
    induction d with
    | zero => exact ⟨0,Nat.zero_le _⟩
    | succ d ih =>
      obtain ⟨K,hK⟩ := ih
      obtain ⟨n,hn,hne⟩ : ∃ n, K ≤ n ∧ w.found n ≠ w.found K := by
        by_contra hall
        exact hno ⟨K,fun n hn => by_contra fun hne => hall ⟨n,hn,hne⟩⟩
      have := found_mono (w := w) hn
      exact ⟨n,by omega⟩
  obtain ⟨K,hK⟩ := hgrow (MAX_DIVIDE_PART_PER_DISK + 1)
  have := h K
  omega

/-- The walk reads for ever exactly when it runs into a cycle of records without entries. -/
private theorem forall_isRead_iff : (∀ n, w.IsRead n) ↔ w.EmptyCycle := by
  constructor
  · intro hall
    have hbound : ∀ n, w.found n ≤ MAX_DIVIDE_PART_PER_DISK := by
      intro n
      have h1 := ((hall (n + 1)).1 n (Nat.lt_succ_self n)).2.2
      have h2 := found_le_succ (w := w) (n := n)
      omega
    obtain ⟨K,hK⟩ := exists_found_const hbound
    obtain ⟨a,b,hne,hab⟩ := Finite.exists_ne_map_eq_of_infinite fun n => (⟨w.offset (K + n),offset_lt _⟩ : Fin (2^32))
    have heq : w.offset (K + a) = w.offset (K + b) := congrArg Fin.val hab
    have hempty : ∀ m, K ≤ m → (w.own m).type = 0 := by
      intro m hm
      have h1 := hK m hm
      have h2 := hK (m + 1) (by omega)
      rw [found_succ, h1] at h2
      by_contra h0
      rw [if_pos h0] at h2
      omega
    rcases Nat.lt_or_gt_of_ne hne with hlt | hlt
    · refine ⟨K + a,b - a,by omega,hall _,?_,fun m hm _ => hempty m (by omega)⟩
      rw [show K + a + (b - a) = K + b by omega, heq]
    · refine ⟨K + b,a - b,by omega,hall _,?_,fun m hm _ => hempty m (by omega)⟩
      rw [show K + b + (a - b) = K + a by omega, heq]
  · rintro ⟨k,p,hp,hread,hcycle,hempty⟩
    have hback : ∀ m, k ≤ m → w.record (m + p) = w.record m := by
      intro m hm
      obtain ⟨j,rfl⟩ := Nat.exists_eq_add_of_le hm
      rw [record, record, offset_period hcycle j]
    have hzero : ∀ j, (w.own (k + j)).type = 0 := by
      intro j
      induction j using Nat.strong_induction_on with
      | _ j ih =>
        by_cases hj : j < p
        · exact hempty (k + j) (Nat.le_add_right _ _) (by omega)
        · have := ih (j - p) (by omega)
          rwa [own, ← hback _ (Nat.le_add_right _ _), show k + (j - p) + p = k + j by omega] at this
    have hfound : ∀ j, w.found (k + j) = w.found k := by
      intro j
      induction j with
      | zero => rfl
      | succ j ih => rw [← Nat.add_assoc, found_succ, if_neg (not_not.mpr (hzero j)), ih, Nat.add_zero]
    intro n
    induction n using Nat.strong_induction_on with
    | _ n ih =>
      by_cases hn : n ≤ k + p
      · exact hread.mono hn
      · -- the record one period earlier was read, and so was the one in front of it
        obtain ⟨j,rfl⟩ : ∃ j, n = k + (j + 1) + p := ⟨n - k - p - 1,by omega⟩
        have hprev := ih (k + (j + 1)) (by omega)
        have hfront := ih (k + j + p) (by omega)
        obtain ⟨-,hnext,hcount⟩ := hprev.1 (k + j) (by omega)
        have hgoes : w.Goes (k + j + p + 1) := by
          refine hfront.1.succ hfront.2 (by rwa [hback _ (Nat.le_add_right _ _)]) ?_
          have h1 := hfound (j + p + 1)
          have h2 := hfound (j + 1)
          rw [show k + j + p + 1 = k + (j + p + 1) by omega, h1]
          rw [show k + j + 1 = k + (j + 1) by omega, h2] at hcount
          exact hcount
        refine ⟨by rwa [show k + (j + 1) + p = k + j + p + 1 by omega],?_⟩
        rw [offset_period hcycle]
        exact hprev.2

/-- The walk comes to an end exactly when it runs into no such cycle. -/
theorem osLogical_terminates_iff (hlt : w.mbrCount < MAX_DIVIDE_PART_PER_DISK) (part : PartTable) :
    (∃ fuel, (osLogicalPartitionRecognition w.img w.sectorCount w.extendedAddress w.mbrCount fuel 0 0 part).isSome) ↔ ¬ w.EmptyCycle := by
  rw [← forall_isRead_iff]
  have hg : w.Goes 0 := fun m hm => absurd hm (Nat.not_lt_zero m)
  constructor
  · rintro ⟨fuel,h⟩ hall
    obtain ⟨⟨c,part'⟩,hr⟩ := Option.isSome_iff_exists.mp h
    obtain ⟨N,hN,-⟩ := osLogical_some (n := 0) fuel hg hlt hr
    exact Nat.lt_irrefl N ((hN N).mp (hall N))
  · intro hno
    obtain ⟨n,hn⟩ := not_forall.mp hno
    exact ⟨n + 1,osLogical_isSome (n := 0) n hg hlt (by rwa [Nat.zero_add])⟩

end Walk

end LiteOsKernel.Drivers
