import LiteOsKernel.Container.UserMap
import LiteOsKernel.Lib.Ranges
import LiteOsKernel.Lib.Run
import Mathlib.Data.List.Find

/-! Chains of user containers: every id map is a partial bijection into the kernel ids of the parent. -/
namespace LiteOsKernel.Container
open Ranges

/-- An extent as a range from the ids of the container to kernel ids. -/
def UidGidExtent.range (e : UidGidExtent) : Range := ⟨e.first,e.lowerFirst,e.count⟩

def UidGidMap.ranges (m : UidGidMap) : List Range := m.extent.map UidGidExtent.range

/-- A range that is not empty and ends below the last word on both sides. -/
structure UidGidExtent.Fits (e : UidGidExtent) : Prop where
  pos : 0 < e.count
  upper : e.first + e.count < 2^32
  lower : e.lowerFirst + e.count < 2^32

/-- The maps that the kernel accepts. -/
structure UidGidMap.Valid (m : UidGidMap) : Prop where
  count : m.extentCount ≤ UID_GID_MAP_MAX_EXTENTS
  fits : ∀ e ∈ m.extent, e.Fits
  apart : m.ranges.Pairwise Range.Apart

section
variable {m p : UidGidMap} {e : UidGidExtent} {id u : Nat}

private theorem rangeLast_eq {first count : Nat} (h0 : 0 < count) (h : first + count < 2^32) : rangeLast first count = first + count - 1 := by
  rw [rangeLast, Word.add_eq h, Word.sub_eq (by omega)]

private theorem rangeLast_one (h : id < 2^32) : rangeLast id 1 = id := by
  by_cases hid : id + 1 < 2^32
  · rw [rangeLast_eq (by omega) hid, Nat.add_sub_cancel]
  · obtain rfl : id = 2^32 - 1 := by omega
    decide +kernel

private theorem find?_map_range (q : Range → Bool) : (m.extent.map UidGidExtent.range).find? q =
    (m.extent.find? fun e => q e.range).map UidGidExtent.range := List.find?_map

/-- The translation down finds the range that covers the id. -/
private theorem mapIdDown_eq (h : m.Valid) (hu : u < 2^32) : mapIdDown m u = (image m.ranges u).getD noId := by
  have hfind : mapIdRangeDownBase m u 1 = m.extent.find? fun e => decide (e.range.Covers u) := by
    rw [mapIdRangeDownBase]
    refine List.find?_congr fun e he => decide_eq_decide.mpr ?_
    have hf := h.fits e he
    rw [rangeLast_one hu, rangeLast_eq hf.pos hf.upper]
    have := hf.pos
    simp only [Range.Covers, UidGidExtent.range]
    omega
  rw [mapIdDown, mapIdRangeDown, if_neg (not_lt.mpr h.count), hfind, image, UidGidMap.ranges, find?_map_range]
  cases hx : m.extent.find? fun e => decide (e.range.Covers u) with
  | none => rfl
  | some e =>
    have hf := h.fits e (List.mem_of_find?_eq_some hx)
    have hc : e.range.Covers u := by simpa using List.find?_some hx
    have h1 := hc.1
    have h2 := hc.2
    have h3 := hf.lower
    simp only [UidGidExtent.range] at h1 h2
    simp only [Option.map_some, Option.getD_some, UidGidExtent.range, Range.fwd]
    rw [Word.sub_eq h1, Word.add_eq (by omega), Nat.add_comm]

/-- The translation up finds the range that hits the id. -/
private theorem mapIdUp_eq (h : m.Valid) : mapIdUp m id = (preimage m.ranges id).getD noId := by
  have hfind : mapIdUpBase m id = m.extent.find? fun e => decide (e.range.Hits id) := by
    rw [mapIdUpBase]
    refine List.find?_congr fun e he => decide_eq_decide.mpr ?_
    have hf := h.fits e he
    rw [rangeLast_eq hf.pos hf.lower]
    have := hf.pos
    simp only [Range.Hits, UidGidExtent.range]
    omega
  rw [mapIdUp, if_neg (not_lt.mpr h.count), hfind, preimage, UidGidMap.ranges, find?_map_range]
  cases hx : m.extent.find? fun e => decide (e.range.Hits id) with
  | none => rfl
  | some e =>
    have hf := h.fits e (List.mem_of_find?_eq_some hx)
    have hc : e.range.Hits id := by simpa using List.find?_some hx
    have h1 := hc.1
    have h2 := hc.2
    have h3 := hf.upper
    simp only [UidGidExtent.range] at h1 h2
    simp only [Option.map_some, Option.getD_some, UidGidExtent.range, Range.back]
    rw [Word.sub_eq h1, Word.add_eq (by omega), Nat.add_comm]

/-- A range of ids that is translated lies within one extent. -/
private theorem mapIdRangeDown_spec (h : m.Valid) {count : Nat} (h0 : 0 < count) (hc : id + count < 2^32)
    (hne : mapIdRangeDown m id count ≠ noId) :
    ∃ q ∈ m.extent, q.first ≤ id ∧ id + count ≤ q.first + q.count ∧ mapIdRangeDown m id count = q.range.fwd id := by
  rw [mapIdRangeDown, if_neg (not_lt.mpr h.count)] at hne ⊢
  cases hx : mapIdRangeDownBase m id count with
  | none =>
    rw [hx] at hne
    exact absurd rfl hne
  | some q =>
    have hq := List.mem_of_find?_eq_some hx
    have hf := h.fits q hq
    rw [mapIdRangeDownBase] at hx
    have hs : (q.first ≤ id ∧ id ≤ rangeLast q.first q.count) ∧ q.first ≤ rangeLast id count ∧
        rangeLast id count ≤ rangeLast q.first q.count := by simpa using List.find?_some hx
    rw [rangeLast_eq h0 hc, rangeLast_eq hf.pos hf.upper] at hs
    have := hf.pos
    have := hf.lower
    refine ⟨q,hq,hs.1.1,by omega,?_⟩
    simp only [UidGidExtent.range, Range.fwd]
    rw [Word.sub_eq hs.1.1, Word.add_eq (by omega), Nat.add_comm]

/-- The extents that are stored are those of the text, each moved along one extent of the parent. -/
private theorem parentExtents_spec (hp : p.Valid) {n : Nat} {l l' : List UidGidExtent} (hl : ∀ e ∈ l, e.Fits)
    (h : parentExtents n p l = some l') :
    (∀ e ∈ l', e.Fits) ∧ List.Forall₂ (Moved p.ranges) (l.map UidGidExtent.range) (l'.map UidGidExtent.range) := by
  induction l generalizing l' with
  | nil =>
    obtain rfl : [] = l' := Option.some.inj h
    exact ⟨fun _ he => absurd he List.not_mem_nil,List.Forall₂.nil⟩
  | cons e l ih =>
    rw [parentExtents] at h
    split at h
    · cases h
    · simp only at h
      split at h
      · cases h
      · rename_i hne
        obtain ⟨rest,hrest,rfl⟩ := Option.map_eq_some_iff.mp h
        obtain ⟨hfit,hmoved⟩ := ih (fun e he => hl e (List.mem_cons_of_mem _ he)) hrest
        have he := hl e List.mem_cons_self
        obtain ⟨q,hq,hlo,hhi,hval⟩ := mapIdRangeDown_spec hp he.pos he.lower hne
        have hqf := (hp.fits q hq).lower
        refine ⟨?_,List.Forall₂.cons ⟨rfl,rfl,q.range,List.mem_map_of_mem hq,hlo,hhi,hval⟩ hmoved⟩
        intro e' he'
        rcases List.mem_cons.mp he' with rfl | he'
        · refine ⟨he.pos,he.upper,?_⟩
          simp only [hval, Range.fwd, UidGidExtent.range]
          omega
        · exact hfit e' he'

private theorem parentExtents_length {n : Nat} {l l' : List UidGidExtent} (h : parentExtents n p l = some l') : l'.length = l.length := by
  induction l generalizing l' with
  | nil =>
    obtain rfl : [] = l' := Option.some.inj h
    rfl
  | cons e l ih =>
    rw [parentExtents] at h
    split at h
    · cases h
    · simp only at h
      split at h
      · cases h
      · obtain ⟨rest,hrest,rfl⟩ := Option.map_eq_some_iff.mp h
        rw [List.length_cons, List.length_cons, ih hrest]

private theorem parentMapIdRange_valid (hp : p.Valid) (hm : m.Valid) {m' : UidGidMap} (h : parentMapIdRange m p = some m') :
    m'.Valid ∧ List.Forall₂ (Moved p.ranges) m.ranges m'.ranges := by
  obtain ⟨l',hl',rfl⟩ := Option.map_eq_some_iff.mp h
  obtain ⟨hfit,hmoved⟩ := parentExtents_spec hp hm.fits hl'
  refine ⟨⟨?_,hfit,pairwise_apart_of_moved hp.apart hmoved hm.apart⟩,hmoved⟩
  rw [UidGidMap.extentCount, parentExtents_length hl']
  exact hm.count

/-- An extent that fits and overlaps no other may be added. -/
theorem UidGidMap.Valid.insert (h : m.Valid) (hlt : m.extentCount < UID_GID_MAP_MAX_EXTENTS) (he : e.Fits)
    (hno : mappingsOverlap m e = false) : UidGidMap.Valid ⟨m.extent ++ [e]⟩ := by
  refine ⟨?_,?_,?_⟩
  · rw [extentCount, List.length_append]
    exact hlt
  · intro e' he'
    rcases List.mem_append.mp he' with he' | he'
    · exact h.fits e' he'
    · obtain rfl := List.mem_singleton.mp he'
      exact he
  · rw [ranges, List.map_append, List.pairwise_append]
    refine ⟨h.apart,List.pairwise_singleton _ _,?_⟩
    intro r hr s hs
    obtain rfl := List.mem_singleton.mp hs
    obtain ⟨prev,hprev,rfl⟩ := List.mem_map.mp hr
    have hf := h.fits prev hprev
    have hdis := List.any_eq_false.mp hno prev hprev
    simp only [decide_eq_true_eq, not_or, not_and, rangeLast_eq he.pos he.upper, rangeLast_eq he.pos he.lower,
      rangeLast_eq hf.pos hf.upper, rangeLast_eq hf.pos hf.lower] at hdis
    have := hf.pos
    have := he.pos
    simp only [Range.Apart, UidGidExtent.range]
    omega

private theorem fits_of_checks (h1 : e.first < 2^32) (h2 : e.lowerFirst < 2^32) (h3 : e.count < 2^32)
    (hu : ¬ Word.add e.first e.count ≤ e.first) (hl : ¬ Word.add e.lowerFirst e.count ≤ e.lowerFirst) : e.Fits := by
  have hadd : ∀ x < 2^32, ¬ Word.add x e.count ≤ x → 0 < e.count ∧ x + e.count < 2^32 := by
    intro x hx hn
    rw [Word.add] at hn
    have := Nat.mod_eq_sub_mod (a := x + e.count) (b := 2^32)
    by_cases hlt : x + e.count < 2^32
    · rw [Nat.mod_eq_of_lt hlt] at hn
      omega
    · rw [Nat.mod_eq_sub_mod (not_lt.mp hlt), Nat.mod_eq_of_lt (by omega)] at hn
      omega
  exact ⟨(hadd _ h1 hu).1,(hadd _ h1 hu).2,(hadd _ h2 hl).2⟩

private theorem strDigits_lt (base : Nat) {result : Nat} (h : result < 2^32) (str : List Char) : (strDigits base result str).1 < 2^32 := by
  induction str generalizing result with
  | nil => exact h
  | cons c str ih =>
    rw [strDigits]
    split
    · exact h
    · split
      · exact ih (Nat.mod_lt _ (by decide))
      · exact h

private theorem strToUInt_lt (str : List Char) (base : Nat) : (strToUInt str base).1 < 2^32 := by
  fun_cases strToUInt str base <;> exact strDigits_lt _ (by decide) _

private theorem parsePosData_lt {pos : List Char} (h : parsePosData pos = some e) :
    e.first < 2^32 ∧ e.lowerFirst < 2^32 ∧ e.count < 2^32 := by
  rw [parsePosData] at h
  simp only at h
  split at h
  · cases h
  · split at h
    · cases h
    · split at h
      · cases h
      · split at h
        · cases h
        · obtain rfl := Option.some.inj h
          exact ⟨strToUInt_lt _ _,strToUInt_lt _ _,strToUInt_lt _ _⟩

/-- The loop over the lines keeps the map valid; the last place is filled by a last line only. -/
private theorem parseLines_valid (lines : List (List Char)) {ret : Int} (h : m.Valid)
    (hlt : m.extentCount < UID_GID_MAP_MAX_EXTENTS ∨ lines = []) : (parseLines ret m lines).2.Valid := by
  induction lines generalizing ret m with
  | nil =>
    rw [parseLines]
    split <;> exact h
  | cons pos nextLine ih =>
    have hlt := hlt.resolve_right (List.cons_ne_nil _ _)
    rw [parseLines]
    cases hpos : parsePosData pos with
    | none => exact h
    | some e =>
      simp only
      split
      · exact h
      split
      · exact h
      split
      · exact h
      split
      · exact h
      split
      · exact h
      · rename_i hu hl hno hlast
        obtain ⟨h1,h2,h3⟩ := parsePosData_lt hpos
        have hvalid := h.insert hlt (fits_of_checks h1 h2 h3 hu hl) (by simpa using hno)
        rw [insertExtent, if_neg (not_lt.mpr h.count)]
        refine ih hvalid ?_
        by_cases hnil : nextLine = []
        · exact .inr hnil
        · left
          have hne : m.extentCount + 1 ≠ UID_GID_MAP_MAX_EXTENTS := fun he => hlast ⟨he,hnil⟩
          rw [UidGidMap.extentCount, List.length_append]
          exact Nat.lt_of_le_of_ne hlt hne

private theorem valid_unset : UidGidMap.unset.Valid :=
  ⟨Nat.zero_le _,fun _ he => absurd he List.not_mem_nil,List.Pairwise.nil⟩

private theorem valid_root : rootMap.Valid := by
  refine ⟨by decide,?_,List.pairwise_singleton _ _⟩
  intro e he
  obtain rfl := List.mem_singleton.mp he
  exact ⟨by decide,by decide,by decide⟩

private theorem parseUserData_valid (kbuf : List Char) : (parseUserData kbuf).2.Valid :=
  parseLines_valid _ valid_unset (.inl (by decide))

/-- What a write does: it changes nothing, or it stores the extents of a text, moved along the map of the parent. -/
private theorem osUserContainerMapWrite_cases (hp : p.Valid) (kbuf : List Char) (count : Nat) (capPermit : Bool) :
    osUserContainerMapWrite kbuf count capPermit m p = (-EPERM,m) ∨
      ∃ t m' : UidGidMap, m.extentCount = 0 ∧ t.Valid ∧ m'.Valid ∧ List.Forall₂ (Moved p.ranges) t.ranges m'.ranges ∧
        osUserContainerMapWrite kbuf count capPermit m p = ((count : Int),m') := by
  rw [osUserContainerMapWrite]
  split
  · exact .inl rfl
  split
  · exact .inl rfl
  simp only
  split
  · exact .inl rfl
  · rename_i hm _ _
    cases hx : parentMapIdRange (parseUserData (kbuf.takeWhile (· ≠ '\x00'))).2 p with
    | none => exact .inl rfl
    | some m' =>
      obtain ⟨hvalid,hmoved⟩ := parentMapIdRange_valid hp (parseUserData_valid _) hx
      refine .inr ⟨_,m',not_not.mp hm,parseUserData_valid _,hvalid,hmoved,?_⟩
      simp only
      rw [if_pos hvalid.count]

end

/-- The law of an id map, by what the container makes of an id and what it makes of a kernel id. -/
structure IdMapLaw (make back : Nat → Nat) (m : UidGidMap) (parent : Option UidGidMap) : Prop where
  count : m.extentCount ≤ UID_GID_MAP_MAX_EXTENTS
  /-- No range wraps around. -/
  fits : ∀ e ∈ m.extent, e.Fits
  mapped : ∀ e ∈ m.extent, ∀ u, e.first ≤ u → u < e.first + e.count →
    make u = e.lowerFirst + (u - e.first) ∧ back (make u) = u
  hit : ∀ e ∈ m.extent, ∀ k, e.lowerFirst ≤ k → k < e.lowerFirst + e.count →
    back k = e.first + (k - e.lowerFirst) ∧ make (back k) = k
  unmapped : ∀ u < 2^32, (∀ e ∈ m.extent, ¬ (e.first ≤ u ∧ u < e.first + e.count)) → make u = noId
  missed : ∀ k < 2^32, (∀ e ∈ m.extent, ¬ (e.lowerFirst ≤ k ∧ k < e.lowerFirst + e.count)) → back k = noId
  injective : ∀ u < 2^32, ∀ v < 2^32, make u ≠ noId → make u = make v → u = v
  /-- The kernel ids are kernel ids of the parent. -/
  within : ∀ p ∈ parent, ∀ e ∈ m.extent, ∀ k, e.lowerFirst ≤ k → k < e.lowerFirst + e.count →
    ∃ q ∈ p.extent, q.lowerFirst ≤ k ∧ k < q.lowerFirst + q.count

/-- The kernel ids of m are kernel ids of p. -/
def Within (m p : UidGidMap) : Prop := ∀ e ∈ m.extent, ∀ k, e.range.Hits k → ∃ q ∈ p.extent, q.range.Hits k

section
variable {m p : UidGidMap}

private theorem within_of_moved {t m' : UidGidMap} (hmoved : List.Forall₂ (Moved p.ranges) t.ranges m'.ranges) : Within m' p := by
  intro e he k hk
  obtain ⟨r,-,hr⟩ := exists_of_mem_moved hmoved (List.mem_map_of_mem he)
  obtain ⟨q,hq,hqk⟩ := hr.hits hk
  obtain ⟨e',he',rfl⟩ := List.mem_map.mp hq
  exact ⟨e',he',hqk⟩

theorem UidGidMap.Valid.law (h : m.Valid) {parent : Option UidGidMap} (hw : ∀ p ∈ parent, Within m p) :
    IdMapLaw (mapIdDown m) (mapIdUp m) m parent := by
  have hmake : ∀ e ∈ m.extent, ∀ u, e.range.Covers u → u < 2^32 ∧ mapIdDown m u = e.range.fwd u := by
    intro e he u hu
    have hf := (h.fits e he).upper
    have hlt : u < 2^32 := Nat.lt_trans hu.2 hf
    exact ⟨hlt,by rw [mapIdDown_eq h hlt, (image_eq_some h.apart).mpr ⟨_,List.mem_map_of_mem he,hu,rfl⟩, Option.getD_some]⟩
  have hback : ∀ e ∈ m.extent, ∀ k, e.range.Hits k → mapIdUp m k = e.range.back k := by
    intro e he k hk
    rw [mapIdUp_eq h, (preimage_eq_some h.apart).mpr ⟨_,List.mem_map_of_mem he,hk,rfl⟩, Option.getD_some]
  refine ⟨h.count,h.fits,?_,?_,?_,?_,?_,?_⟩
  · intro e he u h1 h2
    have hu : e.range.Covers u := ⟨h1,h2⟩
    rw [(hmake e he u hu).2, hback e he _ hu.hits, hu.back_fwd]
    exact ⟨rfl,rfl⟩
  · intro e he k h1 h2
    have hk : e.range.Hits k := ⟨h1,h2⟩
    rw [hback e he k hk, (hmake e he _ hk.covers).2, hk.fwd_back]
    exact ⟨rfl,rfl⟩
  · intro u hu hno
    rw [mapIdDown_eq h hu, image_eq_none.mpr, Option.getD_none]
    intro r hr
    obtain ⟨e,he,rfl⟩ := List.mem_map.mp hr
    exact hno e he
  · intro k _ hno
    rw [mapIdUp_eq h, preimage_eq_none.mpr, Option.getD_none]
    intro r hr
    obtain ⟨e,he,rfl⟩ := List.mem_map.mp hr
    exact hno e he
  · intro u hu v hv hne heq
    have hv' := heq ▸ hne
    rw [mapIdDown_eq h hu] at hne
    rw [mapIdDown_eq h hv] at hv'
    rw [mapIdDown_eq h hu, mapIdDown_eq h hv] at heq
    cases hiu : image m.ranges u with
    | none =>
      rw [hiu] at hne
      exact absurd rfl hne
    | some a => cases hiv : image m.ranges v with
      | none =>
        rw [hiv] at hv'
        exact absurd rfl hv'
      | some b =>
        rw [hiu, hiv, Option.getD_some, Option.getD_some] at heq
        subst heq
        exact (bijection m.ranges h.apart).inj hiu hiv
  · intro p hp e he k h1 h2
    exact hw p hp e he k ⟨h1,h2⟩

end

/-- The calls on user containers. -/
inductive ContainerCall where
  | create (euid egid : Int) (mem : Bool) (parent : Option Nat)
  | write (type : IdType) (i : Nat) (kbuf : List Char) (mem capPermit : Bool)

namespace ContainerCall

def run (limit : Nat) (l : List UserContainer) : ContainerCall → List UserContainer
  | create euid egid mem parent =>
    match osCreateUserContainer limit euid egid mem l parent with
    | .error _ => l
    | .ok l => l
  | write type i kbuf mem capPermit => (procIDMapWrite l type i kbuf mem capPermit).2

/-- A parent is a container. -/
def Pre (l : List UserContainer) : ContainerCall → Prop
  | create _ _ _ parent => ∀ i ∈ parent, i < l.length
  | write .. => True

end ContainerCall

def containerSystem (limit : Nat) : Run.System (List UserContainer) ContainerCall where
  init l := l = []
  pre l c := c.Pre l
  run := ContainerCall.run limit

instance (limit : Nat) (l : List UserContainer) : ∀ c : ContainerCall, Decidable ((containerSystem limit).pre l c)
  | .create _ _ _ parent => inferInstanceAs (Decidable (∀ i ∈ parent, i < l.length))
  | .write .. => inferInstanceAs (Decidable True)

/-- The map of the parent of c. -/
def parentMap (l : List UserContainer) (c : UserContainer) (type : IdType) : Option UidGidMap :=
  (c.parent.bind fun i => l[i]?).map fun p => p.map type

/-- The maps are valid and within those of the parents. -/
def ContainersInv (l : List UserContainer) : Prop :=
  ∀ c ∈ l, (∀ i ∈ c.parent, i < l.length) ∧ ∀ type, (c.map type).Valid ∧ ∀ p ∈ parentMap l c type, Within (c.map type) p

section
variable {l : List UserContainer} {c : UserContainer}

@[simp] theorem map_setMap_self (m : UidGidMap) (type : IdType) : (c.setMap m type).map type = m := by
  cases type <;> rfl

private theorem map_setMap_of_ne (m : UidGidMap) {type type' : IdType} (h : type' ≠ type) : (c.setMap m type).map type' = c.map type' := by
  cases type <;> cases type' <;> first | rfl | exact absurd rfl h

@[simp] theorem parent_setMap (m : UidGidMap) (type : IdType) : (c.setMap m type).parent = c.parent := by
  cases type <;> rfl

private theorem within_unset (p : UidGidMap) : Within .unset p := fun _ he => absurd he List.not_mem_nil

theorem ContainersInv.append (h : ContainersInv l) (hparent : ∀ i ∈ c.parent, i < l.length) (hvalid : ∀ type, (c.map type).Valid)
    (hwithin : ∀ type, ∀ p ∈ parentMap l c type, Within (c.map type) p) : ContainersInv (l ++ [c]) := by
  have hlook : ∀ d : UserContainer, (∀ i ∈ d.parent, i < l.length) → ∀ type, parentMap (l ++ [c]) d type = parentMap l d type := by
    intro d hd type
    rw [parentMap, parentMap]
    cases hp : d.parent with
    | none => rfl
    | some i =>
      simp only [Option.bind_some]
      rw [List.getElem?_append_left (hd i hp)]
  have hlen : l.length ≤ (l ++ [c]).length := by
    rw [List.length_append]
    exact Nat.le_add_right _ _
  intro d hd
  rcases List.mem_append.mp hd with hd | hd
  · obtain ⟨hpar,hmaps⟩ := h d hd
    refine ⟨fun i hi => (hpar i hi).trans_le hlen,fun type => ?_⟩
    rw [hlook d hpar type]
    exact hmaps type
  · obtain rfl := List.mem_singleton.mp hd
    refine ⟨fun i hi => (hparent i hi).trans_le hlen,fun type => ⟨hvalid type,?_⟩⟩
    rw [hlook d hparent type]
    exact hwithin type

/-- After a write to the container at place i, the map of a parent is the written one or what it was. -/
private theorem parentMap_set {i : Nat} {m p : UidGidMap} {type type' : IdType} (hi : l[i]? = some c) {d : UserContainer}
    (hp : p ∈ parentMap (l.set i (c.setMap m type)) d type') :
    p ∈ parentMap l d type' ∨ type' = type ∧ p = m ∧ parentMap l d type' = some (c.map type) := by
  obtain ⟨q,hq,rfl⟩ := Option.map_eq_some_iff.mp hp
  obtain ⟨j,hj,hjq⟩ := Option.bind_eq_some_iff.mp hq
  have hold : parentMap l d type' = (l[j]?).map fun p => p.map type' := by rw [parentMap, hj, Option.bind_some]
  by_cases hij : i = j
  · subst hij
    obtain ⟨hlt,-⟩ := List.getElem?_eq_some_iff.mp hi
    rw [List.getElem?_set_self hlt] at hjq
    obtain rfl := Option.some.inj hjq
    rw [hold, hi, Option.map_some]
    by_cases ht : type' = type
    · subst ht
      exact .inr ⟨rfl,map_setMap_self m type',rfl⟩
    · exact .inl (congrArg some (map_setMap_of_ne m ht).symm)
  · rw [List.getElem?_set_ne hij] at hjq
    rw [hold, hjq]
    exact .inl rfl

theorem ContainersInv.set {i : Nat} {m p : UidGidMap} {type : IdType} (h : ContainersInv l) (hi : l[i]? = some c)
    (hzero : (c.map type).extentCount = 0) (hp : parentMap l c type = some p) (hm : m.Valid) (hw : Within m p) :
    ContainersInv (l.set i (c.setMap m type)) := by
  have hnil : (c.map type).extent = [] := List.length_eq_zero_iff.mp hzero
  intro d hd
  rw [List.length_set]
  rcases List.mem_or_eq_of_mem_set hd with hd | rfl
  · obtain ⟨hpar,hmaps⟩ := h d hd
    refine ⟨hpar,fun type' => ⟨(hmaps type').1,fun p' hp' => ?_⟩⟩
    rcases parentMap_set hi hp' with hp' | ⟨rfl,rfl,hold⟩
    · exact (hmaps type').2 p' hp'
    · -- the parent had no map, so d has none
      intro e he k hk
      obtain ⟨q,hq,-⟩ := (hmaps type').2 _ hold e he k hk
      rw [hnil] at hq
      exact absurd hq List.not_mem_nil
  · obtain ⟨hpar,hmaps⟩ := h c (List.mem_of_getElem? hi)
    have hsame : ∀ type', parentMap l (c.setMap m type) type' = parentMap l c type' := by
      intro type'
      rw [parentMap, parent_setMap, parentMap]
    refine ⟨by rw [parent_setMap]; exact hpar,fun type' => ?_⟩
    by_cases ht : type' = type
    · subst ht
      rw [map_setMap_self]
      refine ⟨hm,fun p' hp' => ?_⟩
      rcases parentMap_set hi hp' with hp' | ⟨-,rfl,-⟩
      · rw [hsame, hp] at hp'
        obtain rfl := Option.some.inj hp'
        exact hw
      · exact fun e he k hk => ⟨e,he,hk⟩
    · rw [map_setMap_of_ne m ht]
      refine ⟨(hmaps type').1,fun p' hp' => ?_⟩
      rcases parentMap_set hi hp' with hp' | ⟨he,-,-⟩
      · rw [hsame] at hp'
        exact (hmaps type').2 p' hp'
      · exact absurd he ht

private theorem setMap_map (type : IdType) : c.setMap (c.map type) type = c := by
  cases type <;> rfl

/-- What a write to a container does: it changes nothing, or it gives a container without a map a valid one within the parent's. -/
private theorem procIDMapWrite_cases (h : ContainersInv l) (type : IdType) (i : Nat) (kbuf : List Char) (mem capPermit : Bool) :
    (procIDMapWrite l type i kbuf mem capPermit).1 < 0 ∧ (procIDMapWrite l type i kbuf mem capPermit).2 = l ∨
      0 ≤ (procIDMapWrite l type i kbuf mem capPermit).1 ∧ ContainersInv (procIDMapWrite l type i kbuf mem capPermit).2 := by
  have hinval : -EINVAL < 0 := by decide
  have hperm : -EPERM < 0 := by decide
  rw [procIDMapWrite]
  split
  · exact .inl ⟨hinval,rfl⟩
  split
  · exact .inl ⟨hinval,rfl⟩
  cases hi : l[i]? with
  | none => exact .inl ⟨hinval,rfl⟩
  | some c =>
    simp only
    cases hp : c.parent.bind fun j => l[j]? with
    | none => exact .inl ⟨hperm,rfl⟩
    | some p =>
      obtain ⟨j,-,hj⟩ := Option.bind_eq_some_iff.mp hp
      have hpv := ((h p (List.mem_of_getElem? hj)).2 type).1
      rcases osUserContainerMapWrite_cases (m := c.map type) hpv kbuf kbuf.length capPermit with hw | ⟨t,m',hz,-,hm',hmoved,hw⟩
      · simp only [hw, setMap_map]
        refine .inl ⟨hperm,?_⟩
        obtain ⟨hlt,hget⟩ := List.getElem?_eq_some_iff.mp hi
        rw [← hget]
        exact List.set_getElem_self hlt
      · simp only [hw]
        refine .inr ⟨Int.natCast_nonneg _,h.set hi hz ?_ hm' (within_of_moved hmoved)⟩
        rw [parentMap, hp, Option.map_some]

/-- A new container has no maps, or it is a root. -/
private theorem osCreateUserContainer_ok {limit : Nat} {euid egid : Int} {mem : Bool} {parent : Option Nat} {l' : List UserContainer}
    (h : osCreateUserContainer limit euid egid mem l parent = .ok l') :
    (∃ level, l' = l ++ [⟨parent,level,.unset,.unset⟩]) ∨ l' = l ++ [⟨none,0,rootMap,rootMap⟩] := by
  rw [osCreateUserContainer] at h
  split at h
  · cases h
  split at h
  · cases h
  split at h
  · cases h
  split at h
  · cases h
  split at h
  · exact .inl ⟨_,(Except.ok.inj h).symm⟩
  · exact .inr (Except.ok.inj h).symm

/-- One call keeps the maps valid. -/
theorem ContainersInv.run (h : ContainersInv l) (limit : Nat) (call : ContainerCall) (hc : call.Pre l) :
    ContainersInv (call.run limit l) := by
  cases call with
  | create euid egid mem parent =>
    cases hx : osCreateUserContainer limit euid egid mem l parent with
    | error e =>
      rw [ContainerCall.run, hx]
      exact h
    | ok l' =>
      rw [ContainerCall.run, hx]
      rcases osCreateUserContainer_ok hx with ⟨level,rfl⟩ | rfl
      · refine h.append hc (fun type => ?_) fun type p _ => ?_
        · cases type <;> exact valid_unset
        · cases type <;> exact within_unset p
      · refine h.append (fun i hi => absurd hi (Option.not_mem_none i)) (fun type => ?_) fun type p hp => absurd hp (Option.not_mem_none p)
        cases type <;> exact valid_root
  | write type i kbuf mem capPermit =>
    rcases procIDMapWrite_cases h type i kbuf mem capPermit with ⟨-,he⟩ | ⟨-,hinv⟩
    · rw [ContainerCall.run, he]
      exact h
    · exact hinv

/-- In every run of creations and writes, the user and the group id map of every container are partial bijections into the kernel ids of
its parent, and a write that is rejected changes no map. -/
theorem userContainer_maps {limit : Nat} (h : Run.Reachable (containerSystem limit) (fun _ _ => True) l) :
    (∀ c ∈ l, IdMapLaw (osMakeKuid c) (fromKuid c) c.uidMap (parentMap l c .uid) ∧
      IdMapLaw (osMakeKgid c) (fromKgid c) c.gidMap (parentMap l c .gid)) ∧
    ∀ type i kbuf mem capPermit, (procIDMapWrite l type i kbuf mem capPermit).1 < 0 →
      (procIDMapWrite l type i kbuf mem capPermit).2 = l := by
  have hinv : ContainersInv l := by
    refine h.invariant ?_ fun l call hl hc _ => hl.run limit call hc
    rintro _ rfl c hc
    exact absurd hc List.not_mem_nil
  refine ⟨fun c hc => ⟨?_,?_⟩,fun type i kbuf mem capPermit hlt => ?_⟩
  · obtain ⟨hv,hw⟩ := (hinv c hc).2 .uid
    exact hv.law hw
  · obtain ⟨hv,hw⟩ := (hinv c hc).2 .gid
    exact hv.law hw
  · rcases procIDMapWrite_cases hinv type i kbuf mem capPermit with ⟨-,he⟩ | ⟨hge,-⟩
    · exact he
    · exact absurd hlt (not_lt.mpr hge)

end

/-- The text "0 1000 10\n20 2000 5\n". -/
def upperText : List Char := ['0',' ','1','0','0','0',' ','1','0','\n','2','0',' ','2','0','0','0',' ','5','\n']

/-- The text "0 3 2\n5 20 4\n". -/
def lowerText : List Char := ['0',' ','3',' ','2','\n','5',' ','2','0',' ','4','\n']

/-- The container whose uids are those of the second extents. -/
def lowerContainer : UserContainer := ⟨some 1,2,⟨[⟨0,1003,2⟩,⟨5,2000,4⟩]⟩,.unset⟩

/-- A root, a container below it with two extents of uids, and one below that with two extents of its uids. -/
def threeContainers : List UserContainer :=
  [⟨none,0,rootMap,rootMap⟩,⟨some 0,1,⟨[⟨0,1000,10⟩,⟨20,2000,5⟩]⟩,.unset⟩,lowerContainer]

def threeCalls : List ContainerCall :=
  [.create 0 0 true none,.create 0 0 true (some 0),.write .uid 1 upperText true true,.create 1000 1000 true (some 1),
    .write .uid 2 lowerText true true]

private theorem reachable_threeContainers : Run.Reachable (containerSystem 3) (fun _ _ => True) threeContainers := by
  have h0 : Run.Reachable (containerSystem 3) (fun _ _ => True) [] := .init rfl
  have he : threeCalls.foldl (containerSystem 3).run [] = threeContainers := by decide +kernel
  exact he ▸ h0.calls threeCalls (by decide +kernel)

/-- The lower container, and a second write of its uids, which is rejected. -/
theorem userContainer_maps_extents :
    (IdMapLaw (osMakeKuid lowerContainer) (fromKuid lowerContainer) lowerContainer.uidMap (parentMap threeContainers lowerContainer .uid) ∧
      IdMapLaw (osMakeKgid lowerContainer) (fromKgid lowerContainer) lowerContainer.gidMap (parentMap threeContainers lowerContainer .gid)) ∧
    (procIDMapWrite threeContainers .uid 2 upperText true true).2 = threeContainers := by
  have h := userContainer_maps reachable_threeContainers
  exact ⟨h.1 lowerContainer (by decide +kernel),h.2 .uid 2 upperText true true (by decide +kernel)⟩

end LiteOsKernel.Container
