import Mathlib.Data.List.Nodup
import Mathlib.Logic.Function.Basic

/-! Doubly linked lists that close in a ring around a head: links as fields of addresses, none being the null link, and what adding
behind a member and deleting a member do to the ring. -/
namespace LiteOsKernel.DlList

structure Links (α : Type*) where
  next : α → Option α
  prev : α → Option α

variable {α : Type*}

section
variable [DecidableEq α]

/-- node goes behind list. A null link that is followed is none. -/
def add (d : Links α) (list node : α) : Option (Links α) :=
  let next := Function.update d.next node (d.next list)
  let prev := Function.update d.prev node (some list)
  (next list).map fun n => ⟨Function.update next list (some node),Function.update prev n (some node)⟩

/-- The neighbours of node skip it, and its links become null. -/
def delete (d : Links α) (node : α) : Option (Links α) :=
  (d.next node).bind fun n =>
    let prev := Function.update d.prev n (d.prev node)
    (prev node).map fun p =>
      let next := Function.update d.next p (d.next node)
      ⟨Function.update next node none,Function.update prev node none⟩

end

/-- Neighbours in the list are linked both ways. -/
def Joined (d : Links α) : List α → Prop
  | a :: b :: l => d.next a = some b ∧ d.prev b = some a ∧ Joined d (b :: l)
  | _ => True

/-- The members, in their order from the head around. -/
structure Ring (d : Links α) (head : α) (l : List α) : Prop where
  nodup : (head :: l).Nodup
  joined : Joined d (head :: l ++ [head])

variable {d d' : Links α} {head node a n p : α} {l l₁ l₂ m : List α}

theorem Joined.congr (h : Joined d l) (hn : ∀ a ∈ l.dropLast, d'.next a = d.next a) (hp : ∀ a ∈ l.tail, d'.prev a = d.prev a) :
    Joined d' l := by
  induction l with
  | nil => trivial
  | cons a l ih =>
    cases l with
    | nil => trivial
    | cons b l =>
      obtain ⟨hab,hba,h⟩ := h
      have hna := hn a (by rw [List.dropLast_cons_cons]; exact List.mem_cons_self)
      have hpb := hp b List.mem_cons_self
      refine ⟨hna.trans hab,hpb.trans hba,ih h (fun c hc => hn c ?_) fun c hc => hp c ?_⟩
      · rw [List.dropLast_cons_cons]
        exact List.mem_cons_of_mem a hc
      · exact List.mem_of_mem_tail hc

/-- Two lists that meet in a and b. -/
private theorem joined_append {b : α} : Joined d (l ++ a :: b :: m) ↔
    Joined d (l ++ [a]) ∧ d.next a = some b ∧ d.prev b = some a ∧ Joined d (b :: m) := by
  induction l with
  | nil => exact (and_iff_right trivial).symm
  | cons c l ih =>
    cases l with
    | nil =>
      refine ⟨fun h => ⟨⟨h.1,h.2.1,trivial⟩,h.2.2⟩,fun h => ⟨h.1.1,h.1.2.1,h.2⟩⟩
    | cons e l =>
      refine ⟨fun h => ?_,fun h => ⟨h.1.1,h.1.2.1,ih.mpr ⟨h.1.2.2,h.2⟩⟩⟩
      obtain ⟨h1,h2⟩ := ih.mp h.2.2
      exact ⟨⟨h.1,h.2.1,h1⟩,h2⟩

private theorem cons_eq_concat (head : α) (l : List α) : head :: l = (head :: l).dropLast ++ [l.getLastD head] := by
  rw [← List.getLast_eq_getLastD (List.cons_ne_nil head l)]
  exact (List.dropLast_concat_getLast _).symm

private theorem concat_eq_cons (head : α) (l : List α) : l ++ [head] = l.headD head :: (l ++ [head]).tail := by
  cases l with
  | nil => rfl
  | cons a l => rfl

/-- The ring at any place: what is in front of it, what is behind it, and the two members that meet there. -/
private theorem joined_ring : Joined d (head :: (l₁ ++ l₂) ++ [head]) ↔ Joined d (head :: l₁) ∧
    d.next (l₁.getLastD head) = some (l₂.headD head) ∧ d.prev (l₂.headD head) = some (l₁.getLastD head) ∧ Joined d (l₂ ++ [head]) := by
  have hsplit : head :: (l₁ ++ l₂) ++ [head] =
      (head :: l₁).dropLast ++ l₁.getLastD head :: l₂.headD head :: (l₂ ++ [head]).tail := by
    have hfront : (head :: l₁).dropLast ++ l₁.getLastD head :: (l₂ ++ [head]) =
        (head :: l₁).dropLast ++ [l₁.getLastD head] ++ (l₂ ++ [head]) := by rw [List.append_assoc, List.singleton_append]
    rw [← concat_eq_cons, hfront, ← cons_eq_concat, ← List.append_assoc]
    rfl
  rw [hsplit, joined_append, ← cons_eq_concat, ← concat_eq_cons]

private theorem getLastD_mem (head : α) (l : List α) : l.getLastD head ∈ head :: l := by
  rw [cons_eq_concat head l]
  exact List.mem_append_right _ List.mem_cons_self

private theorem headD_mem (head : α) (l : List α) : l.headD head ∈ l ++ [head] := by
  rw [concat_eq_cons head l]
  exact List.mem_cons_self

/-- What an edit at a place leaves alone. -/
private theorem halves_edit (hd : (head :: (l₁ ++ l₂)).Nodup) (hnode : node ∉ head :: (l₁ ++ l₂))
    (hn : ∀ a, a ≠ l₁.getLastD head → a ≠ node → d'.next a = d.next a)
    (hp : ∀ a, a ≠ l₂.headD head → a ≠ node → d'.prev a = d.prev a)
    (h1 : Joined d (head :: l₁)) (h2 : Joined d (l₂ ++ [head])) : Joined d' (head :: l₁) ∧ Joined d' (l₂ ++ [head]) := by
  have hmem : ∀ {a}, a ∈ head :: (l₁ ++ l₂) → a ≠ node := fun ha he => hnode (he ▸ ha)
  have hfront : (head :: l₁).Nodup := hd.sublist ((List.sublist_append_left l₁ l₂).cons_cons head)
  have hback : (l₁ ++ (l₂ ++ [head])).Nodup := by
    rw [← List.append_assoc]
    exact (List.perm_append_singleton head (l₁ ++ l₂)).nodup_iff.mpr hd
  have hcross : ∀ a ∈ head :: l₁, ∀ b ∈ l₂, a ≠ b := (List.nodup_append.mp (by rwa [List.cons_append])).2.2
  refine ⟨h1.congr (fun a ha => hn a ?_ (hmem ?_)) fun a ha => hp a ?_ (hmem ?_),
    h2.congr (fun a ha => hn a ?_ (hmem ?_)) fun a ha => hp a ?_ (hmem ?_)⟩
  · rw [cons_eq_concat head l₁] at hfront
    exact (List.nodup_append.mp hfront).2.2 a ha _ List.mem_cons_self
  · exact (List.cons_append ▸ List.mem_append_left l₂ (List.dropLast_subset _ ha))
  · exact (List.nodup_append.mp hback).2.2 a ha _ (headD_mem head l₂)
  · exact List.mem_cons_of_mem head (List.mem_append_left l₂ ha)
  · rw [List.dropLast_concat] at ha
    exact (hcross _ (getLastD_mem head l₁) a ha).symm
  · rw [List.dropLast_concat] at ha
    exact List.mem_cons_of_mem head (List.mem_append_right l₁ ha)
  · have hb := (List.nodup_append.mp hback).2.1
    rw [concat_eq_cons head l₂] at hb
    rintro rfl
    exact (List.nodup_cons.mp hb).1 ha
  · rcases List.mem_append.mp (List.mem_of_mem_tail ha) with ha | ha
    · exact List.mem_cons_of_mem head (List.mem_append_right l₁ ha)
    · rw [List.mem_singleton.mp ha]
      exact List.mem_cons_self

/-- The members that meet at a place of the ring. -/
theorem Ring.meet (h : Ring d head (l₁ ++ l₂)) :
    d.next (l₁.getLastD head) = some (l₂.headD head) ∧ d.prev (l₂.headD head) = some (l₁.getLastD head) :=
  ⟨(joined_ring.mp h.joined).2.1,(joined_ring.mp h.joined).2.2.1⟩

/-- A node with links to the members that meet at a place, and theirs to it. -/
theorem Ring.insert (h : Ring d head (l₁ ++ l₂)) (hnode : node ∉ head :: (l₁ ++ l₂))
    (hp : d'.next (l₁.getLastD head) = some node) (hn : d'.prev (l₂.headD head) = some node)
    (hnext : d'.next node = some (l₂.headD head)) (hprev : d'.prev node = some (l₁.getLastD head))
    (hns : ∀ a, a ≠ l₁.getLastD head → a ≠ node → d'.next a = d.next a)
    (hps : ∀ a, a ≠ l₂.headD head → a ≠ node → d'.prev a = d.prev a) : Ring d' head (l₁ ++ node :: l₂) := by
  obtain ⟨h1,-,-,h2⟩ := joined_ring.mp h.joined
  obtain ⟨h1,h2⟩ := halves_edit h.nodup hnode hns hps h1 h2
  refine ⟨?_,joined_ring.mpr ⟨h1,hp,hprev,?_⟩⟩
  · have hd := h.nodup
    rw [List.nodup_cons] at hd
    rw [List.mem_cons, not_or] at hnode
    rw [List.nodup_cons, List.nodup_middle, List.nodup_cons]
    refine ⟨fun hmem => ?_,hnode.2,hd.2⟩
    rcases List.mem_append.mp hmem with hm | hm
    · exact hd.1 (List.mem_append_left l₂ hm)
    · rcases List.mem_cons.mp hm with rfl | hm
      · exact hnode.1 rfl
      · exact hd.1 (List.mem_append_right l₁ hm)
  · rw [concat_eq_cons head l₂] at h2
    rw [List.cons_append, concat_eq_cons head l₂]
    exact ⟨hnext,hn,h2⟩

/-- The members that meet at a place when the node between them is skipped. -/
theorem Ring.remove (h : Ring d head (l₁ ++ node :: l₂)) (hp : d'.next (l₁.getLastD head) = some (l₂.headD head))
    (hn : d'.prev (l₂.headD head) = some (l₁.getLastD head)) (hns : ∀ a, a ≠ l₁.getLastD head → a ≠ node → d'.next a = d.next a)
    (hps : ∀ a, a ≠ l₂.headD head → a ≠ node → d'.prev a = d.prev a) : Ring d' head (l₁ ++ l₂) := by
  have hmiddle : (node :: (head :: l₁ ++ l₂)).Nodup := List.nodup_middle.mp h.nodup
  obtain ⟨hnode,hd⟩ := List.nodup_cons.mp hmiddle
  obtain ⟨h1,-,-,h2⟩ := joined_ring.mp h.joined
  rw [List.cons_append, concat_eq_cons head l₂] at h2
  have h2 := h2.2.2
  rw [← concat_eq_cons head l₂] at h2
  obtain ⟨h1,h2⟩ := halves_edit hd hnode hns hps h1 h2
  exact ⟨hd,joined_ring.mpr ⟨h1,hp,hn,h2⟩⟩

/-- The members that meet at a place are apart from what is not in the ring. -/
private theorem apart_of_not_mem (hnode : node ∉ head :: (l₁ ++ l₂)) : l₁.getLastD head ≠ node ∧ l₂.headD head ≠ node := by
  constructor
  · rintro rfl
    exact hnode (List.cons_append ▸ List.mem_append_left l₂ (getLastD_mem head l₁))
  · intro he
    rcases List.mem_append.mp (headD_mem head l₂) with hm | hm
    · exact hnode (he ▸ List.mem_cons_of_mem head (List.mem_append_right l₁ hm))
    · rw [← he, List.mem_singleton.mp hm] at hnode
      exact hnode List.mem_cons_self

section
variable [DecidableEq α]

/-- Adding a node behind the member in front of a place puts it there. -/
theorem Ring.add (h : Ring d head (l₁ ++ l₂)) (hnode : node ∉ head :: (l₁ ++ l₂)) :
    ∃ d', add d (l₁.getLastD head) node = some d' ∧ Ring d' head (l₁ ++ node :: l₂) := by
  obtain ⟨hp,hn⟩ := apart_of_not_mem hnode
  have hadd : DlList.add d (l₁.getLastD head) node =
      some ⟨Function.update (Function.update d.next node (some (l₂.headD head))) (l₁.getLastD head) (some node),
        Function.update (Function.update d.prev node (some (l₁.getLastD head))) (l₂.headD head) (some node)⟩ := by
    simp only [DlList.add, Function.update_of_ne hp, h.meet.1, Option.map_some]
  refine ⟨_,hadd,h.insert hnode (Function.update_self _ _ _) (Function.update_self _ _ _) ?_ ?_ (fun a hap han => ?_)
    fun a han hap => ?_⟩
  · exact (Function.update_of_ne hp.symm _ _).trans (Function.update_self _ _ _)
  · exact (Function.update_of_ne hn.symm _ _).trans (Function.update_self _ _ _)
  · exact (Function.update_of_ne hap _ _).trans (Function.update_of_ne han _ _)
  · exact (Function.update_of_ne han _ _).trans (Function.update_of_ne hap _ _)

/-- Deleting a member takes it out of the ring. -/
theorem Ring.delete (h : Ring d head (l₁ ++ node :: l₂)) : ∃ d', delete d node = some d' ∧ Ring d' head (l₁ ++ l₂) := by
  have hmiddle : (node :: (head :: l₁ ++ l₂)).Nodup := List.nodup_middle.mp h.nodup
  have hnode := (List.nodup_cons.mp hmiddle).1
  obtain ⟨hp,hn⟩ := apart_of_not_mem hnode
  obtain ⟨-,-,hprev,h2⟩ := joined_ring.mp h.joined
  rw [List.cons_append, concat_eq_cons head l₂] at h2
  rw [List.headD_cons] at hprev
  have hdelete : DlList.delete d node =
      some ⟨Function.update (Function.update d.next (l₁.getLastD head) (some (l₂.headD head))) node none,
        Function.update (Function.update d.prev (l₂.headD head) (some (l₁.getLastD head))) node none⟩ := by
    simp only [DlList.delete, h2.1, Option.bind_some, Function.update_of_ne hn.symm, hprev, Option.map_some]
  refine ⟨_,hdelete,h.remove ?_ ?_ (fun a hap han => ?_) fun a hap han => ?_⟩
  · exact (Function.update_of_ne hp _ _).trans (Function.update_self _ _ _)
  · exact (Function.update_of_ne hn _ _).trans (Function.update_self _ _ _)
  · exact (Function.update_of_ne han _ _).trans (Function.update_of_ne hap _ _)
  · exact (Function.update_of_ne han _ _).trans (Function.update_of_ne hap _ _)

end

end LiteOsKernel.DlList
