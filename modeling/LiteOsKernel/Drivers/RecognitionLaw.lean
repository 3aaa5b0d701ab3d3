import LiteOsKernel.Drivers.RecognitionTable
import Mathlib.Data.List.Pairwise
import Mathlib.Data.List.TakeWhile

/-! When the partition table of a disk is recognised and registered faithfully, for every image of the disk. -/
namespace LiteOsKernel.Drivers

/-- The entry lies on the disk. -/
def Fits (sectorCount : Nat) (e : PartitionInfo) : Prop := e.sectorStart + e.sectorCount ≤ sectorCount

instance (sectorCount : Nat) (e : PartitionInfo) : Decidable (Fits sectorCount e) := inferInstanceAs (Decidable (_ ≤ _))

/-- DiskAddPart has what it asks for. -/
def AddGranted (valid : Bool) (a : AddPartAnswers) : Prop := a.slot = true ∧ (valid = true → a.name = true ∧ a.register = true)

instance (valid : Bool) (a : AddPartAnswers) : Decidable (AddGranted valid a) := inferInstanceAs (Decidable (_ ∧ _))

/-- A disk that partitions can be added to. -/
structure Usable (disk : LosDisk) : Prop where
  status : disk.diskStatus ≠ .unused
  dev : disk.dev = true
  size : disk.sectorCount < 2^64

/-- The entries that are read, by their order: first the primary ones, then those of the chain. -/
def Listed (img : Image) (sectorCount key : Nat) (e : PartitionInfo) : Prop :=
  key < MAX_PRIMARY_PART_PER_DISK ∧ e = tableEntry (img 0) key ∨
    ∃ pos ∈ extendedPlace (img 0), ∃ n, key = MAX_PRIMARY_PART_PER_DISK + n ∧ (walkOf img sectorCount pos).IsRead n ∧
      e = (walkOf img sectorCount pos).logical n

/-- The chain of extended records does not run into a cycle without entries, has an entry if there are primary partitions, and none of
its own entries is an extended one. -/
structure ChainOk (mbr : Sector) (w : Walk) : Prop where
  noCycle : ¬ w.EmptyCycle
  nonempty : primaries mbr = 0 ∨ ∃ n, w.IsRead n ∧ (w.own n).type ≠ 0
  plain : ∀ n, w.IsRead n → ¬ IsExtended (w.own n).type

/-- No entry that reaches past the disk stands in front of one that lies on it. -/
def Ordered (img : Image) (sectorCount : Nat) : Prop :=
  ∀ i j e f, i < j → Listed img sectorCount i e → Listed img sectorCount j f → Wanted e → Wanted f → Fits sectorCount f → Fits sectorCount e

/-- The condition on the image of a disk. -/
def RecognitionOk (img : Image) (sectorCount : Nat) : Prop :=
  IsMbr img → osEBRInfoGet img sectorCount (img 0) = true →
    (∀ pos ∈ extendedPlace (img 0), ChainOk (img 0) (walkOf img sectorCount pos)) ∧ Ordered img sectorCount

/-- The partitions that disk' has and disk has not. -/
def newParts (disk disk' : LosDisk) : List LosPart := disk'.head.drop disk.head.length

/-- The recognition ends; on an MBR disk it counts the entries it has stored, each of them that lies on the disk is registered, and the
whole disk becomes one partition only if there are none; and every new partition lies on the disk. -/
structure RecognitionLaw (img : Image) (disk : LosDisk) : Prop where
  terminates : ∃ fuel, (diskPartitionRecognition fuel img disk.sectorCount).isSome
  count : IsMbr img → ∀ fuel ret part, diskPartitionRecognition fuel img disk.sectorCount = some (ret,part) → ret = wantedCount part
  registers : IsMbr img → ∀ fuel ret part, diskPartitionRecognition fuel img disk.sectorCount = some (ret,part) →
    ∀ a whole, (∀ i, AddGranted true (a i)) → ∀ r disk', diskPartitionRegister fuel img disk a whole = some (r,disk') →
      ∀ i < PART_SIZE, Wanted (part i) → Fits disk.sectorCount (part i) →
        ∃ p ∈ newParts disk disk', p.partNoMbr = i + 1 ∧ p.sectorStart = (part i).sectorStart ∧ p.sectorCount = (part i).sectorCount
  fallback : IsMbr img → ∀ fuel ret part, diskPartitionRecognition fuel img disk.sectorCount = some (ret,part) →
    ∀ a whole r disk', diskPartitionRegister fuel img disk a whole = some (r,disk') →
      (∃ p ∈ newParts disk disk', p.partNoMbr = 0) → ∀ i < PART_SIZE, ¬ Wanted (part i)
  bounds : ∀ fuel a whole r disk', diskPartitionRegister fuel img disk a whole = some (r,disk') →
    ∀ p ∈ newParts disk disk', p.sectorStart + p.sectorCount ≤ disk.sectorCount

section
variable {disk : LosDisk} {part : PartTable} {a : Nat → AddPartAnswers}

/-- The partition that DiskAddPart makes. -/
def newPart (disk : LosDisk) (start count : Nat) (valid : Bool) (a : AddPartAnswers) : LosPart :=
  ⟨if valid then a.partDev else true,if disk.type = EMMC then EMMC else a.slotType,a.slotFilesystem,0,start,count⟩

private theorem addPart_eq (hu : Usable disk) (start count : Nat) (valid : Bool) (b : AddPartAnswers) (mark : LosPart → LosPart) :
    addPart disk start count valid b mark =
      if start + count ≤ disk.sectorCount ∧ AddGranted valid b then
        some { disk with head := disk.head ++ [mark (newPart disk start count valid b)] }
      else none := by
  have hrange : (disk.sectorCount < count ∨ sub64 disk.sectorCount count < start) ↔ ¬ start + count ≤ disk.sectorCount := by
    by_cases hc : disk.sectorCount < count
    · exact ⟨fun _ => by omega,fun _ => Or.inl hc⟩
    · rw [sub64_eq (not_lt.mp hc) hu.size]
      omega
  have hstate : ¬ (disk.diskStatus = .unused ∨ disk.dev = false) := by
    rw [not_or]
    exact ⟨hu.status,by rw [hu.dev]; decide⟩
  rw [addPart, diskAddPart, if_neg hstate]
  by_cases hfit : start + count ≤ disk.sectorCount
  · rw [if_neg (fun h => hrange.mp h hfit)]
    by_cases hans : valid = true ∧ (b.name = false ∨ b.register = false)
    · rw [if_pos hans, if_neg]
      · rfl
      · rintro ⟨-,-,hg⟩
        obtain ⟨h1,h2⟩ := hg hans.1
        rw [h1, h2] at hans
        simp at hans
    · rw [if_neg hans]
      by_cases hslot : b.slot = false
      · rw [if_pos hslot, if_neg]
        · rfl
        · rintro ⟨-,hs,-⟩
          rw [hslot] at hs
          cases hs
      · have hg : AddGranted valid b := by
          refine ⟨Bool.eq_true_of_not_eq_false hslot,fun hv => ?_⟩
          constructor
          · exact Bool.eq_true_of_not_eq_false fun h => hans ⟨hv,Or.inl h⟩
          · exact Bool.eq_true_of_not_eq_false fun h => hans ⟨hv,Or.inr h⟩
        have hboth : start + count ≤ disk.sectorCount ∧ AddGranted valid b := ⟨hfit,hg⟩
        rw [if_neg hslot, if_pos hboth]
        simp only [Option.map_some, newPart, List.dropLast_concat, List.getLast?_concat, Option.toList_some]
  · rw [if_pos (hrange.mpr hfit), if_neg fun h => hfit h.1]
    rfl

/-- The partition for the entry at place i. -/
def entryPart (disk : LosDisk) (part : PartTable) (a : Nat → AddPartAnswers) (i : Nat) : LosPart :=
  { newPart disk (part i).sectorStart (part i).sectorCount true (a i) with partNoMbr := i + 1, filesystemType := (part i).type }

/-- The places whose entries are registered: the wanted ones up to the first that DiskAddPart refuses. -/
def registered (sectorCount : Nat) (part : PartTable) (a : Nat → AddPartAnswers) (is : List Nat) : List Nat :=
  (is.filter fun i => decide (Wanted (part i))).takeWhile fun i => decide (Fits sectorCount (part i) ∧ AddGranted true (a i))

private theorem registerParts_head (hu : Usable disk) (is : List Nat) : (registerParts part a is disk).2 =
    { disk with head := disk.head ++ (registered disk.sectorCount part a is).map (entryPart disk part a) } := by
  induction is generalizing disk with
  | nil =>
    rw [registerParts, registered, List.filter_nil, List.takeWhile_nil, List.map_nil, List.append_nil]
  | cons i is ih =>
    rw [registerParts, registered]
    by_cases hw : Wanted (part i)
    · have hyes : decide (Wanted (part i)) = true := decide_eq_true hw
      rw [if_pos hw, addPart_eq hu, List.filter_cons, if_pos hyes]
      by_cases hadd : (part i).sectorStart + (part i).sectorCount ≤ disk.sectorCount ∧ AddGranted true (a i)
      · have hu' : Usable { disk with head := disk.head ++ [entryPart disk part a i] } := ⟨hu.status,hu.dev,hu.size⟩
        have hyes : decide (Fits disk.sectorCount (part i) ∧ AddGranted true (a i)) = true := decide_eq_true hadd
        rw [if_pos hadd, List.takeWhile_cons, if_pos hyes, List.map_cons]
        have hrest := ih hu'
        rw [List.append_assoc, List.singleton_append] at hrest
        exact hrest
      · have hno : ¬ decide (Fits disk.sectorCount (part i) ∧ AddGranted true (a i)) = true := fun h => hadd (of_decide_eq_true h)
        rw [if_neg hadd, List.takeWhile_cons, if_neg hno, List.map_nil, List.append_nil]
    · have hno : ¬ decide (Wanted (part i)) = true := fun h => hw (of_decide_eq_true h)
      rw [if_neg hw, List.filter_cons, if_neg hno]
      exact ih hu

end

/-- In a list in ascending order, the members up to the first that fails. -/
private theorem mem_takeWhile_iff {l : List Nat} (h : l.Pairwise (· < ·)) {p : Nat → Bool} {x : Nat} :
    x ∈ l.takeWhile p ↔ x ∈ l ∧ ∀ y ∈ l, y ≤ x → p y = true := by
  induction l with
  | nil => exact ⟨fun hx => absurd hx List.not_mem_nil,fun hx => absurd hx.1 List.not_mem_nil⟩
  | cons b l ih =>
    rw [List.pairwise_cons] at h
    by_cases hb : p b = true
    · rw [List.takeWhile_cons_of_pos hb, List.mem_cons, ih h.2]
      constructor
      · rintro (rfl | ⟨hx,hall⟩)
        · refine ⟨List.mem_cons_self,fun y hy hle => ?_⟩
          rcases List.mem_cons.mp hy with rfl | hy
          · exact hb
          · exact absurd (h.1 y hy) (not_lt.mpr hle)
        · refine ⟨List.mem_cons_of_mem b hx,fun y hy hle => ?_⟩
          rcases List.mem_cons.mp hy with rfl | hy
          · exact hb
          · exact hall y hy hle
      · rintro ⟨hx,hall⟩
        rcases List.mem_cons.mp hx with rfl | hx
        · exact Or.inl rfl
        · exact Or.inr ⟨hx,fun y hy hle => hall y (List.mem_cons_of_mem b hy) hle⟩
    · rw [List.takeWhile_cons_of_neg hb]
      refine ⟨fun hx => absurd hx List.not_mem_nil,?_⟩
      rintro ⟨hx,hall⟩
      refine absurd (hall b List.mem_cons_self ?_) hb
      rcases List.mem_cons.mp hx with rfl | hx
      · exact Nat.le_refl _
      · exact (h.1 x hx).le

private theorem mem_registered {sectorCount : Nat} {part : PartTable} {a : Nat → AddPartAnswers} (ha : ∀ i, AddGranted true (a i)) {j : Nat} :
    j ∈ registered sectorCount part a (List.range PART_SIZE) ↔
      j < PART_SIZE ∧ Wanted (part j) ∧ ∀ i ≤ j, Wanted (part i) → Fits sectorCount (part i) := by
  rw [registered, mem_takeWhile_iff (List.pairwise_lt_range.filter _), List.mem_filter, List.mem_range, decide_eq_true_eq, and_assoc]
  refine and_congr_right fun hj => and_congr_right fun _ => ⟨fun h i hi hw => ?_,fun h i hi hle => ?_⟩
  · exact (of_decide_eq_true (h i (List.mem_filter.mpr ⟨List.mem_range.mpr (hi.trans_lt hj),decide_eq_true hw⟩) hi)).1
  · exact decide_eq_true ⟨h i hle (of_decide_eq_true (List.mem_filter.mp hi).2),ha i⟩

/-- The table of an MBR disk holds its primary entries and then those of the first N records of a walk. -/
structure TableOf (img : Image) (sectorCount : Nat) (part : PartTable) (w : Walk) (N : Nat) : Prop where
  table : part = w.stored (primaryTable (img 0)) N
  most : w.found N ≤ MAX_DIVIDE_PART_PER_DISK
  listed : ∀ key e, Listed img sectorCount key e ↔ key < MAX_PRIMARY_PART_PER_DISK ∧ e = tableEntry (img 0) key ∨
    ∃ n < N, key = MAX_PRIMARY_PART_PER_DISK + n ∧ e = w.logical n

namespace TableOf

variable {img : Image} {sectorCount : Nat} {part : PartTable} {w : Walk} {N : Nat}

/-- The place of the entry with a key. -/
def place (w : Walk) (key : Nat) : Nat :=
  if key < MAX_PRIMARY_PART_PER_DISK then key else MAX_PRIMARY_PART_PER_DISK + w.found (key - MAX_PRIMARY_PART_PER_DISK)

private theorem place_low {key : Nat} (h : key < MAX_PRIMARY_PART_PER_DISK) : place w key = key := if_pos h

private theorem place_high (n : Nat) : place w (MAX_PRIMARY_PART_PER_DISK + n) = MAX_PRIMARY_PART_PER_DISK + w.found n := by
  rw [place, if_neg (Nat.not_lt.mpr (Nat.le_add_right _ n)), Nat.add_sub_cancel_left]

private theorem place_mono {i j : Nat} (h : i ≤ j) : place w i ≤ place w j := by
  by_cases hj : j < MAX_PRIMARY_PART_PER_DISK
  · rw [place_low hj, place_low (h.trans_lt hj)]
    exact h
  · obtain ⟨n,rfl⟩ := Nat.exists_eq_add_of_le (not_lt.mp hj)
    rw [place_high]
    by_cases hi : i < MAX_PRIMARY_PART_PER_DISK
    · rw [place_low hi]
      omega
    · obtain ⟨m,rfl⟩ := Nat.exists_eq_add_of_le (not_lt.mp hi)
      rw [place_high]
      exact Nat.add_le_add_left (Walk.found_mono (Nat.le_of_add_le_add_left h)) _

/-- A wanted entry stands in the table, at its place and in front of the places of later ones. -/
theorem entry (ht : TableOf img sectorCount part w N) {key : Nat} {e : PartitionInfo} (hl : Listed img sectorCount key e) (hw : Wanted e) :
    place w key < PART_SIZE ∧ part (place w key) = e ∧ ∀ j, key < j → place w key < place w j := by
  rcases (ht.listed key e).mp hl with ⟨hlt,rfl⟩ | ⟨n,hn,rfl,rfl⟩
  · rw [place_low hlt, ht.table, Walk.stored_low N hlt]
    refine ⟨hlt.trans (by decide),if_pos ⟨hlt,hw.1⟩,fun j hj => ?_⟩
    by_cases h4 : j < MAX_PRIMARY_PART_PER_DISK
    · rw [place_low h4]
      exact hj
    · rw [place, if_neg h4]
      omega
  · have h0 : (w.own n).type ≠ 0 := hw.1
    have hstep : w.found (n + 1) = w.found n + 1 := by rw [Walk.found_succ, if_pos h0]
    have hle : w.found (n + 1) ≤ w.found N := Walk.found_mono hn
    have hmost := ht.most
    rw [place_high, ht.table, Walk.stored_own hn h0]
    refine ⟨?_,rfl,fun j hj => ?_⟩
    · rw [PART_SIZE]
      omega
    · have := place_mono (w := w) (Nat.succ_le_of_lt hj)
      rw [Nat.succ_eq_add_one, Nat.add_assoc, place_high, hstep] at this
      omega

/-- A wanted place of the table is the place of an entry. -/
private theorem exists_entry (ht : TableOf img sectorCount part w N) {i : Nat} (hw : Wanted (part i)) :
    ∃ key, Listed img sectorCount key (part i) ∧ place w key = i := by
  rw [ht.table] at hw ⊢
  by_cases hi : i < MAX_PRIMARY_PART_PER_DISK
  · rw [Walk.stored_low N hi] at hw ⊢
    have h0 : (tableEntry (img 0) i).type ≠ 0 := ((primaryTable_low hi).mp hw).1
    refine ⟨i,(ht.listed i _).mpr (Or.inl ⟨hi,if_pos ⟨hi,h0⟩⟩),place_low hi⟩
  · obtain ⟨k,rfl⟩ := Nat.exists_eq_add_of_le (not_lt.mp hi)
    by_cases hk : k < w.found N
    · obtain ⟨n,hn,rfl,h0⟩ := Walk.exists_own hk
      rw [Walk.stored_own hn h0]
      exact ⟨MAX_PRIMARY_PART_PER_DISK + n,(ht.listed _ _).mpr (Or.inr ⟨n,hn,rfl,rfl⟩),place_high n⟩
    · rw [Walk.stored_high N (not_lt.mp hk), primaryTable_high] at hw
      exact absurd hw not_wanted_empty

private theorem ordered_iff (ht : TableOf img sectorCount part w N) : Ordered img sectorCount ↔
    ∀ i j, i < j → j < PART_SIZE → Wanted (part i) → Wanted (part j) → Fits sectorCount (part j) → Fits sectorCount (part i) := by
  constructor
  · intro ho i j hij hj hwi hwj hfit
    obtain ⟨k,hk,rfl⟩ := ht.exists_entry hwi
    obtain ⟨m,hm,rfl⟩ := ht.exists_entry hwj
    refine ho k m _ _ ?_ hk hm hwi hwj hfit
    by_contra hle
    exact absurd hij (not_lt.mpr (place_mono (not_lt.mp hle)))
  · intro h i j e f hij hi hj hwi hwj hfit
    obtain ⟨-,rfl,hlt⟩ := ht.entry hi hwi
    obtain ⟨hsize,rfl,-⟩ := ht.entry hj hwj
    exact h _ _ (hlt j hij) hsize hwi hwj hfit

end TableOf

section
variable {img : Image} {sectorCount fuel : Nat} {ret : Int} {part : PartTable}

/-- The extended records are counted as the table holds them. -/
def Counted (img : Image) (sectorCount : Nat) : Prop :=
  ∀ pos ∈ extendedPlace (img 0),
    (primaries (img 0) = 0 ∨ ∃ n, (walkOf img sectorCount pos).IsRead n ∧ ((walkOf img sectorCount pos).own n).type ≠ 0) ∧
      ∀ n, (walkOf img sectorCount pos).IsRead n → ¬ IsExtended ((walkOf img sectorCount pos).own n).type

private theorem found_eq_zero_iff {w : Walk} {N : Nat} : w.found N = 0 ↔ ∀ n < N, (w.own n).type = 0 := by
  rw [Walk.found, List.countP_eq_zero]
  refine ⟨fun h n hn => ?_,fun h n hn => ?_⟩
  · have := h n (List.mem_range.mpr hn)
    rwa [decide_eq_true_eq, ne_eq, not_not] at this
  · rw [decide_eq_true_eq, ne_eq, not_not]
    exact h n (List.mem_range.mp hn)

private theorem recognition_table (hm : IsMbr img) (he : osEBRInfoGet img sectorCount (img 0) = true)
    (h : diskPartitionRecognition fuel img sectorCount = some (ret,part)) :
    ∃ w N, TableOf img sectorCount part w N ∧ (ret = wantedCount part ↔ Counted img sectorCount) := by
  rw [recognition_mbr hm, he, if_neg Bool.noConfusion] at h
  cases hp : extendedPlace (img 0) with
  | none =>
    rw [hp] at h
    obtain ⟨rfl,rfl⟩ := Prod.mk.inj (Option.some.inj h)
    refine ⟨walkOf img sectorCount 0,0,⟨rfl,Nat.zero_le _,fun key e => ?_⟩,?_⟩
    · refine or_congr_right ⟨?_,?_⟩
      · rintro ⟨pos,hpos,-⟩
        rw [hp] at hpos
        cases hpos
      · rintro ⟨n,hn,-⟩
        exact absurd hn (Nat.not_lt_zero n)
    · have hcount := wantedCount_stored (w := walkOf img sectorCount 0) (N := 0) (img 0) (Nat.zero_le _)
      refine iff_of_true ?_ fun pos hpos => ?_
      · have h0 : wantedCount (primaryTable (img 0)) = primaries (img 0) := hcount
        rw [h0]
      · rw [hp] at hpos
        cases hpos
  | some pos =>
    rw [hp] at h
    obtain ⟨⟨c,part'⟩,hr,hout⟩ := Option.map_eq_some_iff.mp h
    obtain ⟨rfl,rfl⟩ := Prod.mk.inj hout
    have hg : (walkOf img sectorCount pos).Goes 0 := fun m hm => absurd hm (Nat.not_lt_zero m)
    obtain ⟨N,hN,rfl,rfl⟩ := Walk.osLogical_some (w := walkOf img sectorCount pos) (n := 0) fuel hg (primaries_lt _) hr
    have hmost := Walk.found_le (w := walkOf img sectorCount pos) (primaries_lt _) hN
    refine ⟨walkOf img sectorCount pos,N,⟨rfl,hmost,fun key e => ?_⟩,?_⟩
    · rw [Listed, hp]
      refine or_congr_right ⟨?_,?_⟩
      · rintro ⟨q,hq,n,hkey,hread,he⟩
        obtain rfl := Option.some.inj hq
        exact ⟨n,(hN n).mp hread,hkey,he⟩
      · rintro ⟨n,hn,hkey,he⟩
        exact ⟨pos,rfl,n,hkey,(hN n).mpr hn,he⟩
    · have hlog := Walk.logicals_eq_found_iff (w := walkOf img sectorCount pos) N
      have hplain : (∀ n < N, ¬ IsExtended ((walkOf img sectorCount pos).own n).type) ↔
          ∀ n, (walkOf img sectorCount pos).IsRead n → ¬ IsExtended ((walkOf img sectorCount pos).own n).type :=
        forall_congr' fun n => imp_congr_left (hN n).symm
      have hnone : (walkOf img sectorCount pos).found N = 0 ↔
          ¬ ∃ n, (walkOf img sectorCount pos).IsRead n ∧ ((walkOf img sectorCount pos).own n).type ≠ 0 := by
        rw [found_eq_zero_iff, not_exists]
        refine forall_congr' fun n => ?_
        rw [not_and, not_not, hN n]
      have hle : (walkOf img sectorCount pos).logicals N ≤ (walkOf img sectorCount pos).found N :=
        List.countP_mono_left fun n _ h => decide_eq_true (of_decide_eq_true h).1
      have hgoal : Counted img sectorCount ↔
          (primaries (img 0) = 0 ∨ (walkOf img sectorCount pos).found N ≠ 0) ∧
            (walkOf img sectorCount pos).logicals N = (walkOf img sectorCount pos).found N := by
        rw [hlog, hplain, ne_eq, hnone, not_not, Counted, hp]
        exact ⟨fun h => h pos rfl,fun h q hq => by obtain rfl := Option.some.inj hq; exact h⟩
      rw [hgoal]
      change (if (walkOf img sectorCount pos).found N = 0 then (0 : Int)
        else ((walkOf img sectorCount pos).found N + primaries (img 0) : Nat)) =
          wantedCount ((walkOf img sectorCount pos).stored (primaryTable (img 0)) N) ↔ _
      rw [wantedCount_stored (img 0) hmost]
      by_cases h0 : (walkOf img sectorCount pos).found N = 0
      · rw [if_pos h0]
        omega
      · rw [if_neg h0]
        omega

private theorem wantedCount_empty : wantedCount emptyTable = 0 := List.countP_eq_zero.mpr fun _ _ h => not_wanted_empty (of_decide_eq_true h)

private theorem recognition_empty (hm : IsMbr img) (he : osEBRInfoGet img sectorCount (img 0) = false)
    (h : diskPartitionRecognition fuel img sectorCount = some (ret,part)) : ret = 0 ∧ part = emptyTable := by
  rw [recognition_mbr hm, if_pos he] at h
  obtain ⟨rfl,rfl⟩ := Prod.mk.inj (Option.some.inj h)
  exact ⟨rfl,rfl⟩

private theorem wantedCount_eq_zero_iff : wantedCount part = 0 ↔ ∀ i < PART_SIZE, ¬ Wanted (part i) := by
  rw [wantedCount, List.countP_eq_zero]
  refine forall_congr' fun i => ?_
  rw [List.mem_range, decide_eq_true_eq]

/-- The recognition ends unless the chain of an MBR disk runs into a cycle without entries. -/
private theorem recognition_terminates_iff : (∃ fuel, (diskPartitionRecognition fuel img sectorCount).isSome) ↔
    (IsMbr img → osEBRInfoGet img sectorCount (img 0) = true →
      ∀ pos ∈ extendedPlace (img 0), ¬ (walkOf img sectorCount pos).EmptyCycle) := by
  by_cases hm : IsMbr img
  · simp only [hm, true_imp_iff, recognition_mbr hm]
    cases he : osEBRInfoGet img sectorCount (img 0) with
    | false => exact iff_of_true ⟨0,rfl⟩ fun h => by cases h
    | true =>
      simp only [Bool.true_eq_false, if_false, true_imp_iff]
      cases hp : extendedPlace (img 0) with
      | none => exact iff_of_true ⟨0,rfl⟩ fun pos hpos => by cases hpos
      | some pos =>
        have hiff := Walk.osLogical_terminates_iff (w := walkOf img sectorCount pos) (primaries_lt _) (primaryTable (img 0))
        simp only [Option.isSome_map, Option.mem_def, Option.some.injEq, forall_eq']
        exact hiff
  · refine iff_of_true ⟨0,?_⟩ fun h => absurd h hm
    rw [diskPartitionRecognition]
    by_cases h1 : osMBRInfoGet (img 0) = true
    · have h2 : (img 0 PARTION_MODE_BTYE : Nat) = PARTION_MODE_GPT := by_contra fun h2 => hm ⟨h1,h2⟩
      simp only [h1, h2, Bool.not_true, Bool.false_eq_true, if_false, if_true]
      rfl
    · rw [Bool.not_eq_true] at h1
      simp only [h1, Bool.not_false, if_true]
      rfl

end

section
variable {img : Image} {disk disk' : LosDisk} {fuel : Nat} {ret r : Int} {part : PartTable} {a : Nat → AddPartAnswers}
  {whole : AddPartAnswers}

/-- With a positive count, the registered places become partitions. -/
private theorem register_entries (hu : Usable disk) (h : diskPartitionRecognition fuel img disk.sectorCount = some (ret,part)) (hpos : 0 < ret)
    (hr : diskPartitionRegister fuel img disk a whole = some (r,disk')) :
    newParts disk disk' = (registered disk.sectorCount part a (List.range PART_SIZE)).map (entryPart disk part a) := by
  rw [diskPartitionRegister, h] at hr
  simp only [if_neg (not_le.mpr hpos)] at hr
  have hd : (registerParts part a (List.range PART_SIZE) disk).2 = disk' := congrArg Prod.snd (Option.some.inj hr)
  rw [← hd, registerParts_head hu, newParts, List.drop_left]

/-- Without one, at most the whole disk does. -/
private theorem register_whole (hu : Usable disk) (h : diskPartitionRecognition fuel img disk.sectorCount = some (ret,part)) (hle : ret ≤ 0)
    (hr : diskPartitionRegister fuel img disk a whole = some (r,disk')) :
    ∀ p ∈ newParts disk disk', p.sectorStart + p.sectorCount ≤ disk.sectorCount := by
  rw [diskPartitionRegister, h] at hr
  simp only [if_pos hle, addPart_eq hu] at hr
  have hsame : ∀ q ∈ newParts disk disk, q.sectorStart + q.sectorCount ≤ disk.sectorCount := by
    rw [newParts, List.drop_length]
    exact fun q hq => absurd hq List.not_mem_nil
  split at hr
  · obtain ⟨-,rfl⟩ := Prod.mk.inj (Option.some.inj hr)
    exact hsame
  by_cases hadd : 0 + disk.sectorCount ≤ disk.sectorCount ∧ AddGranted (decide (ret = 0)) whole
  · rw [if_pos hadd] at hr
    obtain ⟨-,rfl⟩ := Prod.mk.inj (Option.some.inj hr)
    intro p hp
    rw [newParts, List.drop_left, List.mem_singleton] at hp
    rw [hp]
    exact hadd.1
  · rw [if_neg hadd] at hr
    obtain ⟨-,rfl⟩ := Prod.mk.inj (Option.some.inj hr)
    exact hsame

/-- Every new partition lies on the disk, for every image. -/
private theorem register_bounds (hu : Usable disk) (hr : diskPartitionRegister fuel img disk a whole = some (r,disk')) :
    ∀ p ∈ newParts disk disk', p.sectorStart + p.sectorCount ≤ disk.sectorCount := by
  cases h : diskPartitionRecognition fuel img disk.sectorCount with
  | none =>
    rw [diskPartitionRegister, h] at hr
    cases hr
  | some c =>
    by_cases hpos : 0 < c.1
    · rw [register_entries hu h hpos hr]
      intro p hp
      obtain ⟨i,hi,rfl⟩ := List.mem_map.mp hp
      rw [registered] at hi
      have hadd := List.mem_takeWhile_imp hi
      rw [decide_eq_true_eq] at hadd
      exact hadd.1
    · exact register_whole hu h (not_lt.mp hpos) hr

private theorem register_place (hu : Usable disk) (ha : ∀ i, AddGranted true (a i))
    (h : diskPartitionRecognition fuel img disk.sectorCount = some (ret,part)) (hpos : 0 < ret)
    (hr : diskPartitionRegister fuel img disk a whole = some (r,disk')) {j : Nat} :
    (∃ p ∈ newParts disk disk', p.partNoMbr = j + 1 ∧ p.sectorStart = (part j).sectorStart ∧ p.sectorCount = (part j).sectorCount) ↔
      j < PART_SIZE ∧ Wanted (part j) ∧ ∀ i ≤ j, Wanted (part i) → Fits disk.sectorCount (part i) := by
  rw [register_entries hu h hpos hr, ← mem_registered ha]
  constructor
  · rintro ⟨p,hp,hno,-⟩
    obtain ⟨i,hi,rfl⟩ := List.mem_map.mp hp
    have : i = j := Nat.succ.inj hno
    exact this ▸ hi
  · exact fun hj => ⟨_,List.mem_map_of_mem hj,rfl,rfl,rfl⟩

private theorem exists_register (img : Image) (disk : LosDisk) (a : Nat → AddPartAnswers) (whole : AddPartAnswers)
    (h : diskPartitionRecognition fuel img disk.sectorCount = some (ret,part)) :
    ∃ r disk', diskPartitionRegister fuel img disk a whole = some (r,disk') := by
  rw [diskPartitionRegister, h]
  simp only
  split
  · split
    · exact ⟨_,_,rfl⟩
    · split
      · exact ⟨_,_,rfl⟩
      · exact ⟨_,_,rfl⟩
  · exact ⟨_,_,rfl⟩

/-- The recognition and the registration meet the law exactly on the images that meet the condition. -/
theorem recognitionLaw_iff (hs : disk.diskStatus ≠ .unused) (hd : disk.dev = true) (hz : disk.sectorCount < 2^64) :
    RecognitionLaw img disk ↔ RecognitionOk img disk.sectorCount := by
  have hu : Usable disk := ⟨hs,hd,hz⟩
  constructor
  · intro hlaw hm he
    have hcycle := recognition_terminates_iff.mp hlaw.terminates hm he
    obtain ⟨fuel,hsome⟩ := hlaw.terminates
    obtain ⟨⟨ret,part⟩,hrec⟩ := Option.isSome_iff_exists.mp hsome
    have hcount := hlaw.count hm fuel ret part hrec
    obtain ⟨w,N,ht,hiff⟩ := recognition_table hm he hrec
    have hcounted := hiff.mp hcount
    refine ⟨fun pos hpos => ⟨hcycle pos hpos,(hcounted pos hpos).1,(hcounted pos hpos).2⟩,ht.ordered_iff.mpr ?_⟩
    intro i j hij hj hwi hwj hfit
    have hpos : 0 < ret := by
      have hne : wantedCount part ≠ 0 := fun h0 => wantedCount_eq_zero_iff.mp h0 j hj hwj
      omega
    obtain ⟨r,disk',hr⟩ := exists_register img disk (fun _ => ⟨true,true,true,true,0,0⟩) ⟨true,true,true,true,0,0⟩ hrec
    have hgrant : ∀ _ : Nat, AddGranted true ⟨true,true,true,true,0,0⟩ := fun _ => ⟨rfl,fun _ => ⟨rfl,rfl⟩⟩
    have hreg := hlaw.registers hm fuel ret part hrec _ _ hgrant r disk' hr j hj hwj hfit
    exact ((register_place hu hgrant hrec hpos hr).mp hreg).2.2 i hij.le hwi
  · intro hok
    have hcount : IsMbr img → ∀ fuel ret part, diskPartitionRecognition fuel img disk.sectorCount = some (ret,part) →
        ret = wantedCount part := by
      intro hm fuel ret part hrec
      cases he : osEBRInfoGet img disk.sectorCount (img 0) with
      | false =>
        obtain ⟨rfl,rfl⟩ := recognition_empty hm he hrec
        rw [wantedCount_empty]
        rfl
      | true =>
        obtain ⟨w,N,ht,hiff⟩ := recognition_table hm he hrec
        exact hiff.mpr fun pos hpos => ⟨((hok hm he).1 pos hpos).nonempty,((hok hm he).1 pos hpos).plain⟩
    refine ⟨?_,hcount,?_,?_,fun _ _ _ _ _ hr => register_bounds hu hr⟩
    · exact recognition_terminates_iff.mpr fun hm he pos hpos => ((hok hm he).1 pos hpos).noCycle
    · intro hm fuel ret part hrec a whole ha r disk' hr j hj hwj hfit
      have hne : wantedCount part ≠ 0 := fun h0 => wantedCount_eq_zero_iff.mp h0 j hj hwj
      have hpos : 0 < ret := by
        have := hcount hm fuel ret part hrec
        omega
      refine (register_place hu ha hrec hpos hr).mpr ⟨hj,hwj,fun i hi hwi => ?_⟩
      rcases Nat.lt_or_eq_of_le hi with hlt | rfl
      · cases he : osEBRInfoGet img disk.sectorCount (img 0) with
        | false => exact absurd hpos (by rw [(recognition_empty hm he hrec).1]; exact lt_irrefl 0)
        | true =>
          obtain ⟨w,N,ht,-⟩ := recognition_table hm he hrec
          exact ht.ordered_iff.mp (hok hm he).2 i j hlt hj hwi hwj hfit
      · exact hfit
    · rintro hm fuel ret part hrec a whole r disk' hr ⟨p,hp,h0⟩
      rw [← wantedCount_eq_zero_iff]
      have hret := hcount hm fuel ret part hrec
      by_contra hne
      have hpos : 0 < ret := by omega
      rw [register_entries hu hrec hpos hr] at hp
      obtain ⟨i,-,rfl⟩ := List.mem_map.mp hp
      exact absurd h0 (Nat.succ_ne_zero i)

end

/-- A disk whose boot record has one primary entry of type 0x0B, from sector 8 on, and in its second place the extended entry ext. -/
def smallImage (ext : Fin 256) : Image
  | 0 => fun off =>
    if off = 510 then 0x55 else if off = 511 then 0xAA
    else if off = 450 then 0x0B else if off = 454 then 8 else if off = 458 then 4
    else if off = 466 then ext else if off = 470 then 16
    else 0
  | _ => fun _ => 0

def smallDisk : LosDisk := ⟨.inused,true,true,none,512,64,0,[]⟩

/-- A disk with that primary partition and a chain of two extended records, in the sectors 16 and 32, with an entry each. -/
def chainImage : Image
  | 0 => smallImage 0x05 0
  | 16 => fun off =>
    if off = 450 then 0x0B else if off = 454 then 2 else if off = 458 then 4
    else if off = 466 then 0x05 else if off = 470 then 16
    else 0
  | 32 => fun off => if off = 450 then 0x0C else if off = 454 then 2 else if off = 458 then 4 else 0
  | _ => fun _ => 0

example : (diskPartitionRecognition 2 chainImage 64).map Prod.fst = some 3 := by decide +kernel

private theorem chainImage_read {n : Nat} (h : (walkOf chainImage 64 1).IsRead n) : n < 2 := by
  by_contra hn
  exact absurd (h.mono (not_lt.mp hn)) (by decide +kernel)

private theorem chainImage_chain : ChainOk (chainImage 0) (walkOf chainImage 64 1) := by
  have hown : ∀ n < 2, ((walkOf chainImage 64 1).own n).type ≠ 0 ∧ ¬ IsExtended ((walkOf chainImage 64 1).own n).type := by decide +kernel
  refine ⟨?_,.inr ⟨0,by decide +kernel,(hown 0 (by decide)).1⟩,fun n hn => (hown n (chainImage_read hn)).2⟩
  rintro ⟨k,p,hp,hread,-,hzero⟩
  have hlt := chainImage_read hread
  exact (hown k (by omega)).1 (hzero k le_rfl (by omega))

/-- The primary entries and those of the chain lie on the disk. -/
private theorem chainImage_fits {i : Nat} {e : PartitionInfo} (h : Listed chainImage 64 i e) : Fits 64 e := by
  have hplace : extendedPlace (chainImage 0) = some 1 := by decide +kernel
  rcases h with ⟨hi,rfl⟩ | ⟨pos,hpos,n,-,hread,rfl⟩
  · have hall : ∀ j < MAX_PRIMARY_PART_PER_DISK, Fits 64 (tableEntry (chainImage 0) j) := by decide +kernel
    exact hall i hi
  · obtain rfl := Option.some.inj (hplace.symm.trans hpos)
    have hall : ∀ n < 2, Fits 64 ((walkOf chainImage 64 1).logical n) := by decide +kernel
    exact hall n (chainImage_read hread)

/-- The primary partition and both logical ones are counted and registered. -/
theorem recognitionLaw_chain : RecognitionLaw chainImage smallDisk := by
  refine (recognitionLaw_iff (by decide) rfl (by decide)).mpr fun _ _ => ⟨fun pos hpos => ?_,fun _ _ e _ _ he _ _ _ _ => chainImage_fits he⟩
  have hplace : extendedPlace (chainImage 0) = some 1 := by decide +kernel
  obtain rfl := Option.some.inj (hplace.symm.trans hpos)
  exact chainImage_chain

/-- A primary partition in front of an extended one without logical partitions: no partition is reported. -/
theorem not_recognitionLaw_extended : ¬ RecognitionLaw (smallImage 0x0F) smallDisk := by
  intro hlaw
  have hmbr : IsMbr (smallImage 0x0F) := ⟨by decide +kernel,by decide +kernel⟩
  have hrun : (diskPartitionRecognition 1 (smallImage 0x0F) 64).map (fun r => decide (r.1 = (wantedCount r.2 : Int))) = some false := by
    decide +kernel
  obtain ⟨⟨ret,part⟩,hrec,hne⟩ := Option.map_eq_some_iff.mp hrun
  exact of_decide_eq_false hne (hlaw.count hmbr 1 ret part hrec)

end LiteOsKernel.Drivers
