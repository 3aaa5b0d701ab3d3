import LiteOsKernel.Rbtree.Add
import Mathlib.Data.Set.Card

/-! Runs of insertions and deletions on a tree whose comparison function is a strict total order. -/
namespace LiteOsKernel.Rbtree
open RbZipper RbTree LosRbTree

variable {K : Type} {cmp : K → K → Cmp} {t t' : LosRbTree K} {T : RbTree Nat} {p q x : Nat} {S : Set Nat}

/-- A comparison function that is a strict total order: RB_EQUAL for equal keys only. -/
structure CmpOrder (cmp : K → K → Cmp) : Prop where
  equal_iff : ∀ a b, cmp a b = .equal ↔ a = b
  swap : ∀ a b, cmp a b = .smaller ↔ cmp b a = .bigger
  trans : ∀ a b c, cmp a b = .smaller → cmp b c = .smaller → cmp a c = .smaller

/-- The keys increase along the list of nodes. -/
def Increasing (cmp : K → K → Cmp) (t : LosRbTree K) (l : List Nat) : Prop :=
  l.Pairwise fun p q => cmp (t.key p) (t.key q) = .smaller

theorem Increasing.monotone (hc : CmpOrder cmp) {l : List Nat} (h : Increasing cmp t l) (key : K) : Monotone cmp t key l := by
  refine List.Pairwise.imp (fun {p q} hpq => ⟨fun hp => hc.trans _ _ _ hp hpq,fun hq => ?_⟩) h
  exact (hc.swap _ _).mp (hc.trans _ _ _ hpq ((hc.swap _ _).mpr hq))

theorem Increasing.insert (hc : CmpOrder cmp) {l r : List Nat} (h : Increasing cmp t (l ++ r))
    (hl : ∀ q ∈ l, cmp (t.key x) (t.key q) = .bigger) (hr : ∀ q ∈ r, cmp (t.key x) (t.key q) = .smaller) :
    Increasing cmp t (l ++ x :: r) := by
  obtain ⟨h1,h2,h3⟩ := List.pairwise_append.mp h
  refine List.pairwise_append.mpr ⟨h1,List.pairwise_cons.mpr ⟨hr,h2⟩,fun p hp q hq => ?_⟩
  rcases List.mem_cons.mp hq with rfl | hq
  · exact (hc.swap _ _).mpr (hl p hp)
  · exact h3 p hp q hq

/-- The tree holds the nodes of S in the order of their keys. -/
structure Holds (cmp : K → K → Cmp) (t : LosRbTree K) (T : RbTree Nat) (S : Set Nat) : Prop where
  rep : Rep t T
  isRb : T.IsRb
  length_eq : T.inorder.length = t.ulNodes
  increasing : Increasing cmp t T.inorder
  mem_iff : ∀ q, q ∈ T.inorder ↔ q ∈ S

private theorem holds_initTree {nilT : Nat} (hn : nilT ≠ 0) (node : Nat → LosRbNode) (key : Nat → K) (walk : Nat → LosRbWalk) :
    Holds cmp (losRbInitTree nilT node key walk) .nil ∅ := by
  refine ⟨⟨rfl,trivial,List.nodup_nil,List.not_mem_nil,List.not_mem_nil,hn,?_⟩,⟨rfl,0,rfl⟩,rfl,List.Pairwise.nil,by simp [inorder]⟩
  simp [LosRbTree.color, losRbInitTree]

/-- A node that is not stored may be written. -/
theorem Holds.write (h : Holds cmp t T S) (hp : p ∉ S) (hn : p ≠ t.stNilT) (v : LosRbNode) (key : K) :
    Holds cmp { t.setNode p v with key := fun q => if q = p then key else t.key q } T S := by
  have hne : ∀ q ∈ T.inorder, q ≠ p := fun q hq he => hp ((h.mem_iff p).mp (he ▸ hq))
  have hkey : ∀ q ∈ T.inorder, (if q = p then key else t.key q) = t.key q := fun q hq => if_neg (hne q hq)
  refine ⟨?_,h.isRb,h.length_eq,?_,h.mem_iff⟩
  · exact (h.rep.setNode (fun hm => hne p hm rfl) hn v).setRest _ _ _ _
  · refine List.Pairwise.imp_of_mem (fun {a b} ha hb hab => ?_) h.increasing
    show cmp (if a = p then key else t.key a) (if b = p then key else t.key b) = .smaller
    rw [hkey a ha, hkey b hb]
    exact hab

theorem Holds.addNode (hc : CmpOrder cmp) (h : Holds cmp t T S) (hx : x ≠ 0) (hxn : x ≠ t.stNilT) :
    ((∃ q ∈ S, t.key q = t.key x) ∧ losRbAddNode cmp t x = (t,false)) ∨
    ((∀ q ∈ S, t.key q ≠ t.key x) ∧ ∃ t' T', losRbAddNode cmp t x = (t',true) ∧ Holds cmp t' T' (insert x S)) := by
  have hself : x ∈ T.inorder → ∃ q ∈ T.inorder, cmp (t.key x) (t.key q) = .equal :=
    fun hm => ⟨x,hm,(hc.equal_iff _ _).mpr rfl⟩
  rcases rep_addNode h.rep h.isRb h.length_eq (h.increasing.monotone hc _) hx hxn hself with
    ⟨⟨q,hq,hk⟩,he⟩ | ⟨hne,t',l,r,he,hlr,ha⟩
  · exact .inl ⟨⟨q,(h.mem_iff q).mp hq,((hc.equal_iff _ _).mp hk).symm⟩,he⟩
  · refine .inr ⟨fun q hq hk => hne q ((h.mem_iff q).mpr hq) ((hc.equal_iff _ _).mpr hk.symm),?_⟩
    obtain ⟨T',hr,hrb,hin⟩ := ha.rep
    refine ⟨t',T',he,⟨hr,hrb,?_,?_,fun q => ?_⟩⟩
    · rw [hin, ha.ulNodes, ← h.length_eq, hlr]
      simp [Nat.add_assoc]
    · rw [Increasing, ha.key, hin]
      exact Increasing.insert hc (hlr ▸ h.increasing) ha.bigger ha.smaller
    · rw [hin, List.mem_append, List.mem_cons, Set.mem_insert_iff, ← h.mem_iff, hlr, List.mem_append]
      tauto

theorem Holds.delNode (h : Holds cmp t T S) (hp : p ∈ S) :
    ∃ T', Holds cmp (losRbDelNode t p) T' (S \ {p}) ∧ T'.inorder = T.inorder.erase p := by
  have hm := (h.mem_iff p).mpr hp
  obtain ⟨⟨T',hr,hrb,hin⟩,hn,hkey,hul,-⟩ := rep_deleteNode h.rep h.isRb h.length_eq hm
  refine ⟨T',⟨hr,hrb,?_,?_,fun q => ?_⟩,hin⟩
  · rw [hin, List.length_erase_of_mem hm, h.length_eq]
    exact hul.symm
  · rw [hin, Increasing, losRbDelNode, hkey]
    exact h.increasing.sublist List.erase_sublist
  · rw [hin, h.rep.nodup.mem_erase_iff, h.mem_iff q, Set.mem_sdiff, Set.mem_singleton_iff, and_comm]

/-- Runs of LOS_RbAddNode and LOS_RbDelNode on a tree of nodes S, from LOS_RbInitTree on any memory. Between
the calls the callers write nodes that are not stored; only stored nodes are deleted. -/
inductive Reachable (cmp : K → K → Cmp) : LosRbTree K → Set Nat → Prop
  | init {nilT : Nat} (hn : nilT ≠ 0) (node : Nat → LosRbNode) (key : Nat → K) (walk : Nat → LosRbWalk) :
    Reachable cmp (losRbInitTree nilT node key walk) ∅
  | write {t : LosRbTree K} {S : Set Nat} {p : Nat} (h : Reachable cmp t S) (hp : p ∉ S) (hn : p ≠ t.stNilT) (v : LosRbNode)
    (key : K) : Reachable cmp { t.setNode p v with key := fun q => if q = p then key else t.key q } S
  | add {t t' : LosRbTree K} {S : Set Nat} {p : Nat} (h : Reachable cmp t S) (hp : p ≠ 0) (hn : p ≠ t.stNilT)
    (ha : losRbAddNode cmp t p = (t',true)) : Reachable cmp t' (insert p S)
  | addFalse {t t' : LosRbTree K} {S : Set Nat} {p : Nat} (h : Reachable cmp t S) (hp : p ≠ 0) (hn : p ≠ t.stNilT)
    (ha : losRbAddNode cmp t p = (t',false)) : Reachable cmp t' S
  | del {t : LosRbTree K} {S : Set Nat} {p : Nat} (h : Reachable cmp t S) (hp : p ∈ S) :
    Reachable cmp (losRbDelNode t p) (S \ {p})

theorem holds_of_reachable (hc : CmpOrder cmp) (h : Reachable cmp t S) : ∃ T, Holds cmp t T S := by
  induction h with
  | init hn node key walk => exact ⟨.nil,holds_initTree hn node key walk⟩
  | write _ hp hn v key ih =>
    obtain ⟨T,hT⟩ := ih
    exact ⟨T,hT.write hp hn v key⟩
  | add _ hp hn ha ih =>
    obtain ⟨T,hT⟩ := ih
    rcases hT.addNode hc hp hn with ⟨-,he⟩ | ⟨-,t₁,T',he,hT'⟩
    · rw [ha] at he
      cases he
    · rw [ha] at he
      cases he
      exact ⟨T',hT'⟩
  | addFalse _ hp hn ha ih =>
    obtain ⟨T,hT⟩ := ih
    rcases hT.addNode hc hp hn with ⟨-,he⟩ | ⟨-,t₁,T',he,-⟩
    · rw [ha] at he
      cases he
      exact ⟨T,hT⟩
    · rw [ha] at he
      cases he
  | del _ hp ih =>
    obtain ⟨T,hT⟩ := ih
    obtain ⟨T',hT',-⟩ := hT.delNode hp
    exact ⟨T',hT'⟩

/-- What the tree promises of its nodes S. -/
structure RbInvariant (cmp : K → K → Cmp) (t : LosRbTree K) (S : Set Nat) : Prop where
  tree : ∃ T, Rep t T ∧ T.IsRb ∧ scan t = T.inorder
  mem_scan : ∀ q, q ∈ scan t ↔ q ∈ S
  increasing : (scan t).Pairwise fun p q => cmp (t.key p) (t.key q) = .smaller
  ulNodes : t.ulNodes = S.ncard
  add_false : ∀ p, p ≠ 0 → p ≠ t.stNilT →
    (losRbAddNode cmp t p = (t,false) ↔ ∃ q ∈ S, t.key q = t.key p) ∧
    ((losRbAddNode cmp t p).2 = false ↔ ∃ q ∈ S, t.key q = t.key p)
  get_found : ∀ key, (∃ q ∈ S, t.key q = key) → ∃ q ∈ S, t.key q = key ∧ losRbGetNode cmp t key = (true,q)
  get_missing : ∀ key, (∀ q ∈ S, t.key q ≠ key) → (losRbGetNode cmp t key).1 = false

private theorem Holds.rbInvariant (hc : CmpOrder cmp) (h : Holds cmp t T S) : RbInvariant cmp t S := by
  have hscan := scan_eq h.rep h.length_eq
  refine ⟨⟨T,h.rep,h.isRb,hscan⟩,?_,?_,?_,fun p hp hn => ?_,fun key hk => ?_,fun key hk => ?_⟩
  · rw [hscan]
    exact h.mem_iff
  · rw [hscan]
    exact h.increasing
  · have hS : S = ↑T.inorder.toFinset := by
      ext q
      rw [Finset.mem_coe, List.mem_toFinset, h.mem_iff]
    rw [hS, Set.ncard_coe_finset, List.toFinset_card_of_nodup h.rep.nodup, h.length_eq]
  · rcases h.addNode hc hp hn with ⟨hq,he⟩ | ⟨hq,t',T',he,-⟩
    · exact ⟨iff_of_true he hq,iff_of_true (by rw [he]) hq⟩
    · have hno : ¬∃ q ∈ S, t.key q = t.key p := fun ⟨q,hqS,hk⟩ => hq q hqS hk
      exact ⟨iff_of_false (by rw [he]; simp) hno,iff_of_false (by rw [he]; simp) hno⟩
  · rcases losRbGetNode_spec h.rep h.length_eq (h.increasing.monotone hc key) with ⟨q,he,hq,hkq⟩ | ⟨k,-,rfl,hb⟩
    · exact ⟨q,(h.mem_iff q).mp hq,((hc.equal_iff _ _).mp hkq).symm,he⟩
    · obtain ⟨q,hq,hkq⟩ := hk
      exact absurd ((hc.equal_iff _ _).mpr hkq.symm) (hb.ne_equal ((h.mem_iff q).mpr hq))
  · rcases losRbGetNode_spec h.rep h.length_eq (h.increasing.monotone hc key) with ⟨q,-,hq,hkq⟩ | ⟨k,he,-,-⟩
    · exact absurd ((hc.equal_iff _ _).mp hkq).symm (hk q ((h.mem_iff q).mp hq))
    · rw [he]

/-- In every run the tree is a red-black tree of the nodes added and not deleted, in the order of their keys. -/
theorem rbInvariant_of_reachable (hc : CmpOrder cmp) (h : Reachable cmp t S) : RbInvariant cmp t S := by
  obtain ⟨T,hT⟩ := holds_of_reachable hc h
  exact hT.rbInvariant hc

/-- The order of numbers as a comparison function. -/
def natCmp (a b : Nat) : Cmp := if a < b then .smaller else if a = b then .equal else .bigger

private theorem natCmp_smaller {a b : Nat} : natCmp a b = .smaller ↔ a < b := by
  rw [natCmp]
  split_ifs <;> simp <;> omega

theorem cmpOrder_natCmp : CmpOrder natCmp := by
  refine ⟨fun a b => ?_,fun a b => ?_,fun a b c hab hbc => ?_⟩
  · rw [natCmp]
    split_ifs <;> simp <;> omega
  · rw [natCmp_smaller, natCmp]
    split_ifs <;> simp <;> omega
  · rw [natCmp_smaller] at hab hbc ⊢
    omega

theorem Reachable.add_one (h : Reachable cmp t S) (hp : p ≠ 0) (hn : p ≠ t.stNilT) (ha : (losRbAddNode cmp t p).2 = true) :
    Reachable cmp (losRbAddNode cmp t p).1 (insert p S) := by
  apply h.add hp hn
  rw [← ha]

/-- Four nodes are added, and the root, which has two children, is deleted. -/
theorem rbInvariant_four_nodes :
    let t := losRbInitTree 9 (fun _ => default) id (fun _ => default)
    let t := (losRbAddNode natCmp t 4).1
    let t := (losRbAddNode natCmp t 2).1
    let t := (losRbAddNode natCmp t 6).1
    let t := (losRbAddNode natCmp t 5).1
    RbInvariant natCmp (losRbDelNode t 4) ((insert 5 (insert 6 (insert 2 (insert 4 ∅)))) \ {4}) := by
  intro t₀ t₁ t₂ t₃ t₄
  have h₀ : Reachable natCmp t₀ ∅ := .init (by decide) _ _ _
  have h₁ : Reachable natCmp t₁ _ := h₀.add_one (p := 4) (by decide) (by decide) (by decide +kernel)
  have h₂ : Reachable natCmp t₂ _ := h₁.add_one (p := 2) (by decide) (by decide +kernel) (by decide +kernel)
  have h₃ : Reachable natCmp t₃ _ := h₂.add_one (p := 6) (by decide) (by decide +kernel) (by decide +kernel)
  have h₄ : Reachable natCmp t₄ _ := h₃.add_one (p := 5) (by decide) (by decide +kernel) (by decide +kernel)
  exact rbInvariant_of_reachable cmpOrder_natCmp (h₄.del (by simp))

end LiteOsKernel.Rbtree
