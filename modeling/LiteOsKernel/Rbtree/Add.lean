import LiteOsKernel.Rbtree.Remove

/-! Insertion of a node by key. -/
namespace LiteOsKernel.Rbtree
open RbZipper RbTree LosRbTree

variable {K : Type} {cmp : K → K → Cmp} {t t' : LosRbTree K} {T : RbTree Nat} {k : List (Frame Nat)} {x : Nat}

/-- The link to the new node is set where the search ended. -/
private theorem insertOneNode_eq (h : Rep t (plug k .nil)) (hb : Between cmp t (t.key x) k) :
    losRbInsertOneNodeProcess cmp t (up t.stNilT k) x = osRbInsertNodeFixup (attach ((((t.setColor x .red).setChild .right x
      t.stNilT).setChild .left x t.stNilT).setParent x (up t.stNilT k)) k x) x := by
  obtain ⟨-,-,-,-,hn,-⟩ := rep_plug.mp h
  rw [losRbInsertOneNodeProcess]
  congr 1
  cases k with
  | nil => exact if_pos rfl
  | cons f k =>
    have hf : f.p ≠ t.stNilT := fun he => hn (List.mem_append_right _ (by simp [outer, ← he]))
    obtain ⟨d,c,p,sib⟩ := f
    rw [up, if_neg hf, attach]
    cases d with
    | left => exact if_pos (hb.2 p (by simp [after]))
    | right =>
      have hbig : cmp (t.key x) (t.key p) = .bigger := hb.1 p (by simp [before])
      exact if_neg fun (hc : cmp (t.key x) (t.key p) = .smaller) => by cases hbig.symm.trans hc

/-- The tree after LOS_RbAddNode has put the node x between the nodes l and r. -/
structure Added (cmp : K → K → Cmp) (t t' : LosRbTree K) (x : Nat) (l r : List Nat) : Prop where
  rep : ∃ T', Rep t' T' ∧ T'.IsRb ∧ T'.inorder = l ++ x :: r
  stNilT : t'.stNilT = t.stNilT
  key : t'.key = t.key
  ulNodes : t'.ulNodes = t.ulNodes + 1
  bigger : ∀ q ∈ l, cmp (t.key x) (t.key q) = .bigger
  smaller : ∀ q ∈ r, cmp (t.key x) (t.key q) = .smaller

/-- LOS_RbAddNode: FALSE and no change for a node that compares as equal with a stored one, else the node is stored. -/
theorem rep_addNode (h : Rep t T) (hrb : T.IsRb) (hlen : T.inorder.length = t.ulNodes)
    (hm : Monotone cmp t (t.key x) T.inorder) (hx : x ≠ 0) (hxn : x ≠ t.stNilT)
    (hxT : x ∈ T.inorder → ∃ q ∈ T.inorder, cmp (t.key x) (t.key q) = .equal) :
    ((∃ q ∈ T.inorder, cmp (t.key x) (t.key q) = .equal) ∧ losRbAddNode cmp t x = (t,false)) ∨
    ((∀ q ∈ T.inorder, cmp (t.key x) (t.key q) ≠ .equal) ∧ ∃ t' l r, losRbAddNode cmp t x = (t',true) ∧
      T.inorder = l ++ r ∧ Added cmp t t' x l r) := by
  rw [losRbAddNode, if_neg hx]
  rcases losRbGetNode_spec h hlen hm with ⟨q,he,hq,hk⟩ | ⟨k,he,rfl,hb⟩
  · rw [he]
    exact .inl ⟨⟨q,hq,hk⟩,rfl⟩
  · rw [he]
    have hne : ∀ q ∈ (plug k .nil).inorder, cmp (t.key x) (t.key q) ≠ .equal := fun q hq => hb.ne_equal hq
    have hxT' : x ∉ (plug k .nil).inorder := by
      intro hm
      obtain ⟨q,hq,heq⟩ := hxT hm
      exact hne q hq heq
    have hup : up t.stNilT k ≠ 0 := by
      obtain ⟨-,-,-,-,-,h0,hn0,-⟩ := rep_plug.mp h
      cases k with
      | nil => exact hn0
      | cons f k => exact fun he => h0 (List.mem_append_right _ (by simp [outer, ← he, up]))
    refine .inr ⟨hne,?_⟩
    simp only [if_neg hup]
    rw [insertOneNode_eq h hb]
    have hrest : SameRest t (attach ((((t.setColor x .red).setChild .right x t.stNilT).setChild .left x t.stNilT).setParent x
        (up t.stNilT k)) k x) :=
      (((sameRest_setColor.trans sameRest_setChild).trans sameRest_setChild).trans sameRest_setParent).trans sameRest_attach
    have hhole : Hole k 0 := by
      obtain ⟨n,hn,hk,-,-⟩ := isRb_unplug hrb
      obtain rfl : n = 0 := hn
      exact hk
    have hpath := length_path k .nil
    obtain ⟨T',hr,hin,hrb',hkey,hul,hnil⟩ := rep_insertNodeFixup (rep_newLeaf h hxT' hxn hx) hhole
      (by rw [hrest.ulNodes]; omega)
    rw [hrest.key] at hkey
    rw [hrest.ulNodes] at hul
    rw [hrest.stNilT] at hnil
    refine ⟨_,before k,after k,rfl,?_,⟨⟨T',hr,hrb',?_⟩,hnil,hkey,hul,hb.1,hb.2⟩⟩
    · rw [inorder_plug]
      simp [inorder]
    · rw [hin, inorder_plug]
      simp [inorder]

end LiteOsKernel.Rbtree
