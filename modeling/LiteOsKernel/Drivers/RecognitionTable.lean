import LiteOsKernel.Drivers.RecognitionWalk
import Mathlib.Data.List.Range

/-! The table that the recognition of an MBR disk comes to, and what it returns. -/
namespace LiteOsKernel.Drivers

/-- The primary entries that are partitions of their own. -/
def primaries (mbr : Sector) : Nat := (List.range MAX_PRIMARY_PART_PER_DISK).countP fun i => decide (Wanted (tableEntry mbr i))

private theorem not_isExtended_zero : ¬ IsExtended 0 := by decide

theorem not_wanted_empty : ¬ Wanted ⟨0,0,0⟩ := fun h => h.1 rfl

/-- The table with the entries of the first n places. -/
def primaryPart (mbr : Sector) (n : Nat) : PartTable := fun i =>
  if i < n ∧ (tableEntry mbr i).type ≠ 0 then tableEntry mbr i else ⟨0,0,0⟩

private theorem primaryPart_empty (mbr : Sector) (n : Nat) (h0 : (tableEntry mbr n).type = 0) : primaryPart mbr (n + 1) = primaryPart mbr n := by
  funext i
  rw [primaryPart, primaryPart]
  by_cases hi : i = n
  · subst hi
    rw [if_neg fun h => h.2 h0, if_neg fun h => h.2 h0]
  · have hlt : i < n + 1 ↔ i < n := by omega
    simp only [hlt]

private theorem primaryPart_entry (mbr : Sector) (n : Nat) (h0 : (tableEntry mbr n).type ≠ 0) :
    primaryPart mbr (n + 1) = Function.update (primaryPart mbr n) n (tableEntry mbr n) := by
  funext i
  by_cases hi : i = n
  · subst hi
    rw [Function.update_self, primaryPart, if_pos ⟨Nat.lt_succ_self i,h0⟩]
  · have hlt : i < n + 1 ↔ i < n := by omega
    simp only [Function.update_of_ne hi, primaryPart, hlt]

/-- The place of the last extended entry among the first n. -/
def lastExtended (mbr : Sector) (n : Nat) : Option Nat :=
  (List.range n).reverse.find? fun i => decide (IsExtended (tableEntry mbr i).type)

private theorem lastExtended_succ (mbr : Sector) (n : Nat) : lastExtended mbr (n + 1) =
    if IsExtended (tableEntry mbr n).type then some n else lastExtended mbr n := by
  rw [lastExtended, List.range_succ, List.reverse_append, List.reverse_singleton, List.singleton_append, List.find?_cons]
  by_cases h : IsExtended (tableEntry mbr n).type
  · rw [if_pos h, decide_eq_true h]
  · rw [if_neg h, decide_eq_false h, lastExtended]

private theorem primaryFold (mbr : Sector) (n : Nat) : (List.range n).foldl (primaryStep mbr) ⟨emptyTable,false,0,0⟩ =
    ⟨primaryPart mbr n,(lastExtended mbr n).isSome,(lastExtended mbr n).getD 0,
      (List.range n).countP fun i => decide (Wanted (tableEntry mbr i))⟩ := by
  induction n with
  | zero =>
    have hempty : primaryPart mbr 0 = emptyTable := funext fun i => if_neg fun h => Nat.not_lt_zero i h.1
    rw [hempty]
    rfl
  | succ n ih =>
    rw [List.range_succ, List.foldl_append, ih, List.foldl_cons, List.foldl_nil, primaryStep, List.countP_append, List.countP_singleton,
      lastExtended_succ]
    by_cases h0 : (tableEntry mbr n).type = 0
    · have hext : ¬ IsExtended (tableEntry mbr n).type := by rw [h0]; exact not_isExtended_zero
      have hw : ¬ Wanted (tableEntry mbr n) := fun hw => hw.1 h0
      rw [primaryPart_empty mbr n h0, if_neg (not_not.mpr h0), if_neg hext, decide_eq_false hw]
      rfl
    · rw [primaryPart_entry mbr n h0, if_pos h0]
      by_cases hext : IsExtended (tableEntry mbr n).type
      · have hw : ¬ Wanted (tableEntry mbr n) := fun hw => hw.2 hext
        rw [if_pos hext, if_pos hext, decide_eq_false hw]
        rfl
      · have hw : Wanted (tableEntry mbr n) := ⟨h0,hext⟩
        rw [if_neg hext, if_neg hext, decide_eq_true hw]
        rfl

/-- The place of the extended entry, the last one if there are more. -/
def extendedPlace (mbr : Sector) : Option Nat := lastExtended mbr MAX_PRIMARY_PART_PER_DISK

/-- The table after the primary entries. -/
def primaryTable (mbr : Sector) : PartTable := primaryPart mbr MAX_PRIMARY_PART_PER_DISK

private theorem osPrimary_eq (mbr : Sector) : osPrimaryPartitionRecognition mbr emptyTable =
    ⟨primaryTable mbr,(extendedPlace mbr).isSome,(extendedPlace mbr).getD 0,primaries mbr⟩ := primaryFold mbr _

theorem primaries_lt (mbr : Sector) : primaries mbr < MAX_DIVIDE_PART_PER_DISK := by
  have : primaries mbr ≤ (List.range MAX_PRIMARY_PART_PER_DISK).length := List.countP_le_length
  rw [List.length_range] at this
  exact this.trans_lt (by decide)

/-- The walk that starts at the extended entry at a place. -/
def walkOf (img : Image) (sectorCount pos : Nat) : Walk := ⟨img,sectorCount,(tableEntry (img 0) pos).sectorStart,primaries (img 0)⟩

/-- A boot record of the MBR kind. -/
structure IsMbr (img : Image) : Prop where
  signature : osMBRInfoGet (img 0) = true
  mode : (img 0 PARTION_MODE_BTYE : Nat) ≠ PARTION_MODE_GPT

/-- What the recognition of an MBR disk returns. -/
theorem recognition_mbr {img : Image} (h : IsMbr img) (fuel sectorCount : Nat) : diskPartitionRecognition fuel img sectorCount =
    if osEBRInfoGet img sectorCount (img 0) = false then some ((0 : Int),emptyTable)
    else match extendedPlace (img 0) with
      | none => some ((primaries (img 0) : Int),primaryTable (img 0))
      | some pos =>
        (osLogicalPartitionRecognition img sectorCount (walkOf img sectorCount pos).extendedAddress (primaries (img 0)) fuel 0 0
          (primaryTable (img 0))).map fun r => (if r.1 = 0 then (0 : Int) else (r.1 + primaries (img 0) : Nat),r.2) := by
  simp only [diskPartitionRecognition, h.signature, osPrimary_eq, Bool.not_true, Bool.false_eq_true, if_false, h.mode]
  cases hb : osEBRInfoGet img sectorCount (img 0) with
  | false => rfl
  | true =>
    simp only [Bool.not_true, Bool.false_eq_true, if_false, Bool.true_eq_false]
    cases hp : extendedPlace (img 0) with
    | none => rfl
    | some pos =>
      simp only [Option.isSome_some, if_true, Option.getD_some, walkOf]
      cases osLogicalPartitionRecognition img sectorCount (tableEntry (img 0) pos).sectorStart (primaries (img 0)) fuel 0 0
          (primaryTable (img 0)) with
      | none => rfl
      | some r =>
        simp only [Option.map_some]
        by_cases h0 : r.1 = 0
        · rw [if_pos h0, if_pos h0]
        · rw [if_neg h0, if_neg h0]

namespace Walk

variable {w : Walk} {n k : Nat} {part : PartTable}

theorem stored_low (N : Nat) {i : Nat} (hi : i < MAX_PRIMARY_PART_PER_DISK) : w.stored part N i = part i := by
  induction N with
  | zero => rfl
  | succ N ih =>
    rw [stored]
    split
    · rw [Function.update_of_ne (by omega), ih]
    · exact ih

theorem stored_high (N : Nat) (hk : w.found N ≤ k) : w.stored part N (MAX_PRIMARY_PART_PER_DISK + k) = part (MAX_PRIMARY_PART_PER_DISK + k) := by
  induction N with
  | zero => rfl
  | succ N ih =>
    have hle := (found_le_succ (w := w) (n := N)).trans hk
    rw [stored]
    split
    · rename_i h0
      rw [found_succ, if_pos h0] at hk
      rw [Function.update_of_ne (by omega), ih hle]
    · exact ih hle

theorem stored_own {N : Nat} (hn : n < N) (h0 : (w.own n).type ≠ 0) :
    w.stored part N (MAX_PRIMARY_PART_PER_DISK + w.found n) = w.logical n := by
  induction N with
  | zero => exact absurd hn (Nat.not_lt_zero n)
  | succ N ih =>
    rw [stored]
    rcases Nat.lt_or_eq_of_le (Nat.le_of_lt_succ hn) with hlt | rfl
    · split
      · have h1 : w.found (n + 1) ≤ w.found N := found_mono hlt
        rw [found_succ, if_pos h0] at h1
        rw [Function.update_of_ne (by omega), ih hlt]
      · exact ih hlt
    · rw [if_pos h0, Function.update_self]

/-- The k-th logical entry belongs to a record that is read. -/
theorem exists_own {N : Nat} (hk : k < w.found N) : ∃ n < N, w.found n = k ∧ (w.own n).type ≠ 0 := by
  induction N with
  | zero => exact absurd hk (Nat.not_lt_zero k)
  | succ N ih =>
    by_cases hlt : k < w.found N
    · obtain ⟨n,hn,h⟩ := ih hlt
      exact ⟨n,hn.trans (Nat.lt_succ_self N),h⟩
    · rw [found_succ] at hk
      by_cases h0 : (w.own N).type ≠ 0
      · rw [if_pos h0] at hk
        exact ⟨N,Nat.lt_succ_self N,by omega,h0⟩
      · rw [if_neg h0] at hk
        omega

theorem found_le {N : Nat} (hlt : w.mbrCount < MAX_DIVIDE_PART_PER_DISK) (h : ∀ k, w.IsRead k ↔ k < N) :
    w.found N ≤ MAX_DIVIDE_PART_PER_DISK := by
  cases N with
  | zero => exact Nat.zero_le _
  | succ N =>
    have hread := (h N).mpr (Nat.lt_succ_self N)
    have hstep : w.found (N + 1) ≤ w.found N + 1 := by
      rw [found_succ]
      split <;> omega
    cases N with
    | zero =>
      have h0 : w.found 0 = 0 := rfl
      have : 1 ≤ MAX_DIVIDE_PART_PER_DISK := by decide
      omega
    | succ N =>
      have := (hread.1 N (Nat.lt_succ_self N)).2.2
      omega

/-- The logical entries that are partitions of their own. -/
def logicals (w : Walk) (N : Nat) : Nat := (List.range N).countP fun n => decide (Wanted (w.own n))

private theorem logicals_succ (N : Nat) : w.logicals (N + 1) = w.logicals N + if Wanted (w.own N) then 1 else 0 := by
  rw [logicals, List.range_succ, List.countP_append, List.countP_singleton, logicals]
  by_cases h : Wanted (w.own N)
  · rw [decide_eq_true h, if_pos h, if_pos rfl]
  · rw [decide_eq_false h, if_neg h, if_neg Bool.false_ne_true]

/-- Every entry is one of them exactly when none of them is extended. -/
theorem logicals_eq_found_iff (N : Nat) : w.logicals N = w.found N ↔ ∀ n < N, ¬ IsExtended (w.own n).type := by
  have hle : ∀ N, w.logicals N ≤ w.found N := fun N =>
    List.countP_mono_left fun n _ h => decide_eq_true (of_decide_eq_true h).1
  induction N with
  | zero => exact ⟨fun _ n hn => absurd hn (Nat.not_lt_zero n),fun _ => rfl⟩
  | succ N ih =>
    rw [logicals_succ, found_succ, Nat.forall_lt_succ_right]
    have hN := hle N
    by_cases h0 : (w.own N).type = 0
    · have hext : ¬ IsExtended (w.own N).type := by rw [h0]; exact not_isExtended_zero
      rw [if_neg fun h => h.1 h0, if_neg (not_not.mpr h0), Nat.add_zero, Nat.add_zero, and_iff_left hext]
      exact ih
    · rw [if_pos h0]
      by_cases hext : IsExtended (w.own N).type
      · rw [if_neg fun h => h.2 hext]
        exact ⟨fun h => by omega,fun h => absurd hext h.2⟩
      · rw [if_pos ⟨h0,hext⟩, Nat.add_right_cancel_iff, and_iff_left hext]
        exact ih

private theorem wanted_logical : Wanted (w.logical n) ↔ Wanted (w.own n) := by
  rw [Wanted, logical, Wanted]

/-- The places behind the primary ones hold the logical entries, one after the other. -/
private theorem countP_stored (N : Nat) :
    (List.range (w.found N)).countP (fun k => decide (Wanted (w.stored part N (MAX_PRIMARY_PART_PER_DISK + k)))) = w.logicals N := by
  induction N with
  | zero => rfl
  | succ N ih =>
    rw [logicals_succ, ← ih, found_succ, stored]
    by_cases h0 : (w.own N).type = 0
    · rw [if_neg (not_not.mpr h0), if_neg (not_not.mpr h0), if_neg fun h => h.1 h0]
      rfl
    · rw [if_pos h0, if_pos h0, List.range_succ, List.countP_append, List.countP_singleton, Function.update_self]
      refine congrArg₂ _ (List.countP_congr fun k hk => ?_) ?_
      · have := List.mem_range.mp hk
        rw [Function.update_of_ne (by omega)]
      · by_cases hw : Wanted (w.own N)
        · rw [if_pos hw, decide_eq_true (wanted_logical.mpr hw), if_pos rfl]
        · rw [if_neg hw, decide_eq_false (fun h => hw (wanted_logical.mp h)), if_neg Bool.false_ne_true]

end Walk

/-- The entries of a table that are partitions of their own. -/
def wantedCount (part : PartTable) : Nat := (List.range PART_SIZE).countP fun i => decide (Wanted (part i))

theorem primaryTable_low {mbr : Sector} {i : Nat} (hi : i < MAX_PRIMARY_PART_PER_DISK) :
    Wanted (primaryTable mbr i) ↔ Wanted (tableEntry mbr i) := by
  rw [primaryTable, primaryPart]
  by_cases h0 : (tableEntry mbr i).type = 0
  · rw [if_neg fun h => h.2 h0]
    exact ⟨fun h => absurd h not_wanted_empty,fun h => absurd h0 h.1⟩
  · rw [if_pos ⟨hi,h0⟩]

theorem primaryTable_high (mbr : Sector) (k : Nat) : primaryTable mbr (MAX_PRIMARY_PART_PER_DISK + k) = ⟨0,0,0⟩ :=
  if_neg fun h => absurd h.1 (Nat.not_lt.mpr (Nat.le_add_right _ k))

private theorem wantedCount_split (part : PartTable) : wantedCount part =
    (List.range MAX_PRIMARY_PART_PER_DISK).countP (fun i => decide (Wanted (part i))) +
      (List.range MAX_DIVIDE_PART_PER_DISK).countP fun k => decide (Wanted (part (MAX_PRIMARY_PART_PER_DISK + k))) := by
  have hsize : PART_SIZE = MAX_PRIMARY_PART_PER_DISK + MAX_DIVIDE_PART_PER_DISK := Nat.add_comm _ _
  rw [wantedCount, hsize, List.range_add, List.countP_append, List.countP_map]
  rfl

theorem wantedCount_stored {w : Walk} {N : Nat} (mbr : Sector) (hN : w.found N ≤ MAX_DIVIDE_PART_PER_DISK) :
    wantedCount (w.stored (primaryTable mbr) N) = primaries mbr + w.logicals N := by
  obtain ⟨d,hd⟩ := Nat.exists_eq_add_of_le hN
  rw [wantedCount_split, hd, List.range_add, List.countP_append, Walk.countP_stored]
  have hzero : ((List.range d).map (w.found N + ·)).countP
      (fun k => decide (Wanted (w.stored (primaryTable mbr) N (MAX_PRIMARY_PART_PER_DISK + k)))) = 0 := by
    refine List.countP_eq_zero.mpr fun k hk => ?_
    obtain ⟨j,-,rfl⟩ := List.mem_map.mp hk
    rw [Walk.stored_high N (Nat.le_add_right _ j), primaryTable_high, decide_eq_true_eq]
    exact not_wanted_empty
  rw [hzero, Nat.add_zero, primaries]
  refine congrArg (· + _) (List.countP_congr fun i hi => ?_)
  have hi := List.mem_range.mp hi
  rw [Walk.stored_low N hi, decide_eq_true_eq, decide_eq_true_eq, primaryTable_low hi]

end LiteOsKernel.Drivers
