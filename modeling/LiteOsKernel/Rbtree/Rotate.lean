import LiteOsKernel.Rbtree.Links

/-! The pointer operations of the tree: rotation, change of colour, and replacement of a node. -/
namespace LiteOsKernel.Rbtree
open RbZipper RbTree LosRbTree

variable {K : Type} {t t' : LosRbTree K} {T s s' : RbTree Nat} {k : List (Frame Nat)} {p q v x y : Nat} {c : Color} {d e : Dir}

private theorem inorder_rotate (d : Dir) (cx cy : Color) (a b f : RbTree Nat) (x y : Nat) :
    (join d cy (join d cx a x b) y f).inorder = (join d cx a x (join d cy b y f)).inorder := by
  cases d <;> simp [join, inorder]

private theorem rotateNode_eq {cx cy : Color} {a b f : RbTree Nat} (h : Rep t (plug k (join d cx a x (join d cy b y f)))) :
    PathLinks (((t.setChild d.flip x (ptr t.stNilT b)).setParent (ptr t.stNilT b) x).setParent y (up t.stNilT k)) x k ∧
    rotateNode d t x = (((attach (((t.setChild d.flip x (ptr t.stNilT b)).setParent (ptr t.stNilT b) x).setParent y
      (up t.stNilT k)) k y).setParent x y).setChild d y x).setParent t.stNilT (t.parent t.stNilT) := by
  obtain ⟨hr,hl,hpl,hd,hn,-,-,-⟩ := rep_plug.mp h
  rw [List.nodup_append'] at hd
  obtain ⟨hds,-,hdis⟩ := hd
  obtain ⟨hx1,hx2,ha,hj,hab⟩ := nodup_join.mp hds
  rw [ptr_join] at hr hpl
  obtain ⟨h1,h2,h3,h4,h5,h6⟩ := links_join.mp hl
  obtain ⟨g1,g2,g3,g4,g5,g6⟩ := links_join.mp h6
  rw [ptr_join] at h4
  rw [List.mem_append, not_or] at hn
  have hxs : x ∈ (join d cx a x (join d cy b y f)).inorder := mem_inorder_join.mpr (.inl rfl)
  have hys : y ∈ (join d cx a x (join d cy b y f)).inorder :=
    mem_inorder_join.mpr (.inr (.inr (mem_inorder_join.mpr (.inl rfl))))
  have hxy : y ≠ x := fun he => hx2 (he ▸ mem_inorder_join.mpr (.inl rfl))
  have hxn : x ≠ t.stNilT := fun he => hn.1 (he ▸ hxs)
  have hbx : x ≠ ptr t.stNilT b := (ptr_ne (fun hm => hx2 (mem_inorder_join.mpr (.inr (.inl hm)))) hxn).symm
  have hbo : ptr t.stNilT b ∉ outer k := by
    refine ptr_notMem_outer hn.2 fun q hq hm => hdis ?_ hm
    exact mem_inorder_join.mpr (.inr (.inr (mem_inorder_join.mpr (.inr (.inl hq)))))
  have hpath : PathLinks (((t.setChild d.flip x (ptr t.stNilT b)).setParent (ptr t.stNilT b) x).setParent y
      (up t.stNilT k)) x k := by
    refine PathLinks.congr (by simp) hpl fun q hq => ?_
    have hqy : q ≠ y := fun he => hdis hys (he ▸ hq)
    have hqb : q ≠ ptr t.stNilT b := fun he => hbo (he ▸ hq)
    have hqx : q ≠ x := fun he => hdis hxs (he ▸ hq)
    refine ⟨?_,by simp,fun e => ?_⟩
    · rw [parent_setParent, if_neg hqy, parent_setParent, if_neg hqb, parent_setChild]
    · rw [child_setParent, child_setParent, child_setChild, if_neg (fun hc => hqx hc.1)]
  refine ⟨hpath,?_⟩
  simp only [rotateNode, h4, g3]
  rw [child_setChild, if_neg (fun hc => hxy hc.1), g3, parent_setParent, if_neg hbx, parent_setChild, h1]
  rw [relink_eq hpath]
  · rw [parent_setParent, if_neg (Ne.symm hxy), parent_setParent, if_neg hbx, parent_setChild]
    simpa using h1
  · simpa using hn.2
  · simpa using hxn
  · exact fun hm => hdis hxs hm

/-- A rotation in the tree; the parent pointer of the sentinel is what it was. -/
theorem rep_rotateNode {cx cy : Color} {a b f : RbTree Nat} (h : Rep t (plug k (join d cx a x (join d cy b y f)))) :
    Rep (rotateNode d t x) (plug k (join d cy (join d cx a x b) y f)) ∧
    (rotateNode d t x).parent t.stNilT = t.parent t.stNilT := by
  obtain ⟨hpath,heq⟩ := rotateNode_eq h
  obtain ⟨hr,hl,hpl,hd,hn,hz,hn0,hnb⟩ := rep_plug.mp h
  have hd' := hd
  rw [← inorder_rotate] at hz hd'
  have hn' := hn
  rw [← inorder_rotate] at hn'
  rw [List.nodup_append'] at hd
  obtain ⟨hds,hdo,hdis⟩ := hd
  obtain ⟨hx1,hx2,ha,hj,hab⟩ := nodup_join.mp hds
  obtain ⟨hy1,hy2,hb,hf,hbf⟩ := nodup_join.mp hj
  rw [ptr_join] at hr hpl
  obtain ⟨h1,h2,h3,h4,h5,h6⟩ := links_join.mp hl
  obtain ⟨g1,g2,g3,g4,g5,g6⟩ := links_join.mp h6
  rw [ptr_join] at h4
  rw [List.mem_append, not_or] at hn
  have hmem : ∀ q, q ∈ (join d cx a x (join d cy b y f)).inorder ↔
      q = x ∨ q ∈ a.inorder ∨ q = y ∨ q ∈ b.inorder ∨ q ∈ f.inorder := fun q => by
    rw [mem_inorder_join, mem_inorder_join]
  have hxy : x ≠ y := fun he => hx2 (he ▸ mem_inorder_join.mpr (.inl rfl))
  have hnil : ∀ q ∈ (join d cx a x (join d cy b y f)).inorder, q ≠ t.stNilT := fun q hq he => hn.1 (he ▸ hq)
  have hyo : y ∉ outer k := fun hm => hdis ((hmem y).mpr (.inr (.inr (.inl rfl)))) hm
  have hxo : x ∉ outer k := fun hm => hdis ((hmem x).mpr (.inl rfl)) hm
  -- the fields after the rotation
  set t₃ := ((t.setChild d.flip x (ptr t.stNilT b)).setParent (ptr t.stNilT b) x).setParent y (up t.stNilT k) with ht₃
  set t' := rotateNode d t x
  have hrest : SameRest t t' := sameRest_rotateNode
  have hpar : ∀ q, q ∉ outer k → t'.parent q = if q = t.stNilT then t.parent t.stNilT else if q = x then y
      else if q = y then up t.stNilT k else if q = ptr t.stNilT b then x else t.parent q := by
    intro q hq
    rw [heq, parent_setParent, parent_setChild, parent_setParent, (attach_same hq).1, ht₃, parent_setParent,
      parent_setParent, parent_setChild]
  have hcol : ∀ q, q ∉ outer k → t'.color q = t.color q := by
    intro q hq
    rw [heq, color_setParent, color_setChild, color_setParent, (attach_same hq).2.1, ht₃, color_setParent,
      color_setParent, color_setChild]
  have hchi : ∀ q e, q ∉ outer k → t'.child e q = if q = y ∧ e = d then x
      else if q = x ∧ e = d.flip then ptr t.stNilT b else t.child e q := by
    intro q e hq
    rw [heq, child_setParent, child_setChild, child_setParent, (attach_same hq).2.2, ht₃, child_setParent,
      child_setParent, child_setChild]
  have hsame : ∀ q, q ∉ outer k → q ≠ t.stNilT → q ≠ x → q ≠ y → q ∉ b.inorder → Same t t' q := by
    intro q hq hqn hqx hqy hqb
    refine ⟨?_,hcol q hq,fun e => ?_⟩
    · rw [hpar q hq, if_neg hqn, if_neg hqx, if_neg hqy, if_neg (ptr_ne hqb hqn).symm]
    · rw [hchi q e hq, if_neg (fun hc => hqy hc.1), if_neg (fun hc => hqx hc.1)]
  obtain ⟨hpath',hroot'⟩ := hpath.attach (v := y) (by simpa [ht₃] using hr) hdo
  have hout : ∀ q ∈ (join d cx a x (join d cy b y f)).inorder, q ∉ outer k := fun q hq hm => hdis hq hm
  refine ⟨rep_plug.mpr ⟨?_,?_,?_,?_,?_,?_,?_,?_⟩,?_⟩
  · rw [ptr_join, heq]
    simpa using hroot'
  · rw [hrest.stNilT]
    refine links_join.mpr ⟨?_,?_,?_,?_,links_join.mpr ⟨?_,?_,?_,?_,?_,?_⟩,?_⟩
    · rw [hpar y hyo, if_neg (hnil y ((hmem y).mpr (.inr (.inr (.inl rfl))))), if_neg hxy.symm, if_pos rfl]
    · rw [hcol y hyo, g2]
    · rw [hchi y d hyo, if_pos ⟨rfl,rfl⟩, ptr_join]
    · rw [hchi y d.flip hyo, if_neg (fun hc => Dir.flip_ne d hc.2), if_neg (fun hc => hxy hc.1.symm), g4, hrest.stNilT]
    · rw [hpar x hxo, if_neg (hnil x ((hmem x).mpr (.inl rfl))), if_pos rfl]
    · rw [hcol x hxo, h2]
    · rw [hchi x d hxo, if_neg (fun hc => hxy hc.1), if_neg (fun hc => Dir.ne_flip d hc.2), h3, hrest.stNilT]
    · rw [hchi x d.flip hxo, if_neg (fun hc => hxy hc.1), if_pos ⟨rfl,rfl⟩, hrest.stNilT]
    · refine h5.congr hrest.stNilT fun q hq => ?_
      have hm := (hmem q).mpr (.inr (.inl hq))
      exact hsame q (hout q hm) (hnil q hm) (fun he => hx1 (he ▸ hq))
        (fun he => hab q hq (mem_inorder_join.mpr (.inl he))) (fun hqb => hab q hq (mem_inorder_join.mpr (.inr (.inl hqb))))
    · refine g5.reparent hrest.stNilT hb (fun q hq hqp => ?_) (fun hne => ?_)
      · have hm := (hmem q).mpr (.inr (.inr (.inr (.inl hq))))
        have hqx : q ≠ x := fun he => hx2 (mem_inorder_join.mpr (.inr (.inl (he ▸ hq))))
        have hqy : q ≠ y := fun he => hy1 (he ▸ hq)
        refine ⟨?_,hcol q (hout q hm),fun e => ?_⟩
        · rw [hpar q (hout q hm), if_neg (hnil q hm), if_neg hqx, if_neg hqy, if_neg hqp]
        · rw [hchi q e (hout q hm), if_neg (fun hc => hqy hc.1), if_neg (fun hc => hqx hc.1)]
      · have hq := @ptr_mem t.stNilT _ hne
        have hm := (hmem _).mpr (.inr (.inr (.inr (.inl hq))))
        have hqx : ptr t.stNilT b ≠ x := fun he => hx2 (mem_inorder_join.mpr (.inr (.inl (he ▸ hq))))
        have hqy : ptr t.stNilT b ≠ y := fun he => hy1 (he ▸ hq)
        refine ⟨?_,hcol _ (hout _ hm),fun e => ?_⟩
        · rw [hpar _ (hout _ hm), if_neg (hnil _ hm), if_neg hqx, if_neg hqy, if_pos rfl]
        · rw [hchi _ e (hout _ hm), if_neg (fun hc => hqy hc.1), if_neg (fun hc => hqx hc.1)]
    · refine g6.congr hrest.stNilT fun q hq => ?_
      have hm := (hmem q).mpr (.inr (.inr (.inr (.inr hq))))
      exact hsame q (hout q hm) (hnil q hm) (fun he => hx2 (mem_inorder_join.mpr (.inr (.inr (he ▸ hq)))))
        (fun he => hy2 (he ▸ hq)) (fun hqb => hbf q hqb hq)
  · rw [hrest.stNilT, ptr_join, heq]
    refine PathLinks.congr (by simp) hpath' fun q hq => ?_
    have hqx : q ≠ x := fun he => hxo (he ▸ hq)
    have hqy : q ≠ y := fun he => hyo (he ▸ hq)
    have hqn : q ≠ t.stNilT := fun he => hn.2 (he ▸ hq)
    refine ⟨?_,by simp,fun e => ?_⟩
    · rw [parent_setParent, if_neg hqn, parent_setChild, parent_setParent, if_neg hqx]
    · rw [child_setParent, child_setChild, if_neg (fun hc => hqy hc.1), child_setParent]
  · exact hd'
  · rw [hrest.stNilT]; exact hn'
  · exact hz
  · rw [hrest.stNilT]; exact hn0
  · rw [hrest.stNilT, hcol _ hn.2]; exact hnb
  · rw [hpar _ hn.2, if_pos rfl]

end LiteOsKernel.Rbtree
