import LiteOsKernel.Rbtree.Rotate

/-! Single nodes of the tree: change of colour, removal of a node with one child, replacement of a
node by another one, and a new leaf. -/
namespace LiteOsKernel.Rbtree
open RbZipper RbTree LosRbTree

variable {K : Type} {t t' : LosRbTree K} {T s s' a b : RbTree Nat} {k : List (Frame Nat)} {p q v x y z : Nat} {c c' : Color} {d e : Dir}

/-- A memory that agrees on the nodes of the tree and on the root holds the same tree. -/
theorem Rep.congr (h : Rep t T) (hn : t'.stNilT = t.stNilT) (hr : t'.pstRoot = t.pstRoot)
    (hb : t'.color t.stNilT = .black) (hs : ∀ q ∈ T.inorder, Same t t' q) : Rep t' T := by
  refine ⟨by rw [hr, hn]; exact h.root,?_,h.nodup,by rw [hn]; exact h.nil_notMem,h.zero_notMem,
    by rw [hn]; exact h.nil_ne,by rw [hn]; exact hb⟩
  rw [hn]
  exact h.links.congr hn hs

/-- A node outside the tree may be written. -/
theorem Rep.setNode (h : Rep t T) (hp : p ∉ T.inorder) (hn : p ≠ t.stNilT) (v : LosRbNode) : Rep (t.setNode p v) T := by
  have hnode : ∀ q, q ≠ p → (t.setNode p v).node q = t.node q := fun q hq => if_neg hq
  refine h.congr rfl rfl ?_ fun q hq => ?_
  · exact (congrArg LosRbNode.lColor (hnode t.stNilT (Ne.symm hn))).trans h.nil_black
  · have hqn := hnode q fun he => hp (he ▸ hq)
    refine ⟨congrArg LosRbNode.pstParent hqn,congrArg LosRbNode.lColor hqn,fun d => ?_⟩
    cases d with
    | left => exact congrArg LosRbNode.pstLeft hqn
    | right => exact congrArg LosRbNode.pstRight hqn

/-- The keys, the count and the walkers are no part of the links. -/
theorem Rep.setRest (h : Rep t T) (key : Nat → K) (ulNodes : Nat) (stWalkHead : List Nat) (walk : Nat → LosRbWalk) :
    Rep { t with key := key, ulNodes := ulNodes, stWalkHead := stWalkHead, walk := walk } T :=
  h.congr rfl rfl h.nil_black fun _ _ => ⟨rfl,rfl,fun d => by cases d <;> rfl⟩

private theorem same_setColor (hq : q ≠ p) : Same t (t.setColor p c) q := by
  refine ⟨by simp,?_,by simp⟩
  rw [color_setColor, if_neg hq]

theorem Rep.ne_nil (h : Rep t T) (hp : p ∈ T.inorder) : p ≠ t.stNilT := fun he => h.nil_notMem (he ▸ hp)

theorem mem_plug_join (k : List (Frame Nat)) : p ∈ (plug k (join d c a p b)).inorder :=
  (perm_plug k _).mem_iff.mpr (List.mem_append_left _ (mem_inorder_join.mpr (.inl rfl)))

theorem rep_setColor (h : Rep t (plug k (join d c a p b))) (c' : Color) :
    Rep (t.setColor p c') (plug k (join d c' a p b)) := by
  have hpn := h.ne_nil (mem_plug_join k)
  obtain ⟨hr,hl,hpl,hd,hn,hz,hn0,hnb⟩ := rep_plug.mp h
  have hin : (join d c a p b).inorder = (join d c' a p b).inorder := by cases d <;> rfl
  obtain ⟨h1,h2,h3,h4,h5,h6⟩ := links_join.mp hl
  obtain ⟨hds,hdo,hdis⟩ := List.nodup_append'.mp hd
  obtain ⟨hp1,hp2,-⟩ := nodup_join.mp hds
  rw [hin] at hd hn hz
  refine rep_plug.mpr ⟨by simpa using hr,links_join.mpr ⟨by simpa using h1,by simp,by simpa using h3,by simpa using h4,
    ?_,?_⟩,?_,hd,hn,hz,hn0,?_⟩
  · exact Links.congr (by simp) h5 fun q hq => same_setColor fun he => hp1 (he ▸ hq)
  · exact Links.congr (by simp) h6 fun q hq => same_setColor fun he => hp2 (he ▸ hq)
  · rw [ptr_join] at hpl ⊢
    exact PathLinks.congr (by simp) hpl fun q hq => same_setColor fun he =>
      hdis (mem_inorder_join.mpr (.inl rfl)) (he ▸ hq)
  · rw [color_setColor, stNilT_setColor, if_neg (Ne.symm hpn)]
    exact hnb

/-- Setting the colour that a node of the tree or the sentinel already has. -/
theorem Rep.setColor_self (h : Rep t T) (hc : t.color p = c) : Rep (t.setColor p c) T := by
  have hs : ∀ q, Same t (t.setColor p c) q := by
    intro q
    refine ⟨by simp,?_,by simp⟩
    rw [color_setColor]
    split
    · next hq => rw [hq, hc]
    · rfl
  exact h.congr rfl rfl ((hs _).2.1.trans h.nil_black) fun q _ => hs q

/-- The node z with the single child s is taken out; s, or the sentinel, gets its parent. -/
theorem rep_spliceOut (h : Rep t (plug k (join d c s z .nil))) :
    Rep (spliceOut t z (ptr t.stNilT s)) (plug k s) ∧
    (∀ q, (spliceOut t z (ptr t.stNilT s)).parent q = if q = ptr t.stNilT s then up t.stNilT k else t.parent q) ∧
    (∀ q, (spliceOut t z (ptr t.stNilT s)).color q = t.color q) ∧ SameRest t (spliceOut t z (ptr t.stNilT s)) := by
  have hzn := h.ne_nil (mem_plug_join k)
  obtain ⟨hr,hl,hpl,hd,hn,h0,hn0,hnb⟩ := rep_plug.mp h
  obtain ⟨h1,h2,h3,h4,h5,-⟩ := links_join.mp hl
  obtain ⟨hds,hdo,hdis⟩ := List.nodup_append'.mp hd
  obtain ⟨hz1,-,hsd,-⟩ := nodup_join.mp hds
  rw [ptr_join] at hr hpl
  have hmem : ∀ q, q ∈ s.inorder ++ outer k → q ∈ (join d c s z .nil).inorder ++ outer k := by
    intro q hq
    rcases List.mem_append.mp hq with hq | hq
    · exact List.mem_append_left _ (mem_inorder_join.mpr (.inr (.inl hq)))
    · exact List.mem_append_right _ hq
  have hso : ∀ q ∈ s.inorder, q ∉ outer k := fun q hq hm => hdis (mem_inorder_join.mpr (.inr (.inl hq))) hm
  have hzo : z ∉ outer k := fun hm => hdis (mem_inorder_join.mpr (.inl rfl)) hm
  have hpo : ptr t.stNilT s ∉ outer k := ptr_notMem_outer (fun hm => hn (List.mem_append_right _ hm)) hso
  have hzp : z ≠ ptr t.stNilT s := (ptr_ne hz1 hzn).symm
  set t₁ := t.setParent (ptr t.stNilT s) (up t.stNilT k) with ht₁
  have hpath : PathLinks t₁ z k := by
    refine PathLinks.congr (by simp [ht₁]) hpl fun q hq => ⟨?_,by simp [ht₁],by simp [ht₁]⟩
    have hqs : q ≠ ptr t.stNilT s := fun he => hpo (he ▸ hq)
    rw [ht₁, parent_setParent, if_neg hqs]
  have heq : spliceOut t z (ptr t.stNilT s) = attach t₁ k (ptr t.stNilT s) := by
    rw [spliceOut, h1]
    refine relink_eq hpath ?_ (fun hm => hn (List.mem_append_right _ hm)) hzn hzo _
    rw [parent_setParent, if_neg hzp, h1]
    rfl
  obtain ⟨hpath',hroot'⟩ := hpath.attach (v := ptr t.stNilT s) (by simpa [ht₁] using hr) hdo
  have hpar : ∀ q, (attach t₁ k (ptr t.stNilT s)).parent q =
      if q = ptr t.stNilT s then up t.stNilT k else t.parent q := by
    intro q
    rw [parent_attach, ht₁, parent_setParent]
  have hcol : ∀ q, (attach t₁ k (ptr t.stNilT s)).color q = t.color q := by
    intro q
    rw [color_attach, ht₁, color_setParent]
  have hchi : ∀ q e, q ∉ outer k → (attach t₁ k (ptr t.stNilT s)).child e q = t.child e q := by
    intro q e hq
    rw [(attach_same hq).2.2, ht₁, child_setParent]
  have hrest : SameRest t (attach t₁ k (ptr t.stNilT s)) := sameRest_setParent.trans sameRest_attach
  rw [heq]
  refine ⟨rep_plug.mpr ⟨?_,?_,?_,?_,?_,?_,?_,?_⟩,hpar,hcol,hrest⟩
  · rw [hrest.stNilT]
    exact hroot'
  · refine h5.reparent hrest.stNilT hsd (fun q hq hqp => ?_) (fun hne => ?_)
    · exact ⟨by rw [hpar, if_neg hqp],hcol q,fun e => hchi q e (hso q hq)⟩
    · exact ⟨by rw [hpar, if_pos rfl, hrest.stNilT],hcol _,fun e => hchi _ e hpo⟩
  · rw [hrest.stNilT]
    exact hpath'
  · exact List.nodup_append'.mpr ⟨hsd,hdo,fun q hq hm => hso q hq hm⟩
  · rw [hrest.stNilT]
    exact fun hm => hn (hmem _ hm)
  · exact fun hm => h0 (hmem _ hm)
  · rw [hrest.stNilT]
    exact hn0
  · rw [hrest.stNilT, hcol]
    exact hnb

/-- The node y with the links of the node that it replaces, to which nothing leads yet. -/
def copyLinks (t : LosRbTree K) (k : List (Frame Nat)) (y : Nat) (c : Color) (a b : RbTree Nat) : LosRbTree K :=
  (((t.setParent y (up t.stNilT k)).setColor y c).setChild .right y (ptr t.stNilT b)).setChild .left y (ptr t.stNilT a)

private theorem copyLinks_pathLinks (h : PathLinks t z k) (hyo : y ∉ outer k) : PathLinks (copyLinks t k y c a b) z k := by
  refine PathLinks.congr (by simp [copyLinks]) h fun q hq => ?_
  have hqy : q ≠ y := fun he => hyo (he ▸ hq)
  refine ⟨?_,?_,fun e => ?_⟩
  · simp [copyLinks, hqy]
  · simp [copyLinks, hqy]
  · simp [copyLinks, hqy]

/-- OsRbReplaceNode in terms of the path: the copied node is attached to it, and the two subtrees to the node. -/
private theorem replaceNode_eq (hl : Links t (up t.stNilT k) (join .left c a z b)) (hpl : PathLinks t z k) (hzn : z ≠ t.stNilT)
    (hzo : z ∉ outer k) (hno : t.stNilT ∉ outer k) (hyo : y ∉ outer k) (hzy : z ≠ y) :
    replaceNode t z y =
      ((attach (copyLinks t k y c a b) k y).setParent (ptr t.stNilT a) y).setParent (ptr t.stNilT b) y := by
  obtain ⟨h1,h2,h3,h4,-,-⟩ := links_join.mp hl
  have hpath := copyLinks_pathLinks (c := c) (a := a) (b := b) hpl hyo
  rw [copyLinks] at hpath ⊢
  set t₁ := (((t.setParent y (up t.stNilT k)).setColor y c).setChild .right y (ptr t.stNilT b)).setChild .left y
    (ptr t.stNilT a) with ht₁
  have hrel : relink t₁ .left z y = attach t₁ k y := by
    refine relink_eq hpath ?_ (by simpa [ht₁] using hno) (by simpa [ht₁] using hzn) hzo _
    simp [ht₁, hzy, h1]
  have hca : (attach t₁ k y).child .left z = ptr t.stNilT a := by
    rw [(attach_same hzo).2.2, ht₁]
    simp [hzy, h3]
  have hcb : (attach t₁ k y).child .right z = ptr t.stNilT b := by
    rw [(attach_same hzo).2.2, ht₁]
    simp only [child_setChild, hzy, false_and, if_false, child_setColor, child_setParent]
    exact h4
  simp only [replaceNode, h1, color_setParent, h2, child_setColor, child_setParent, child_setChild, hzy, false_and,
    if_false, h3]
  rw [show t.child .right z = ptr t.stNilT b from h4, ← ht₁, hrel, hca, hcb]

/-- The fields after the replacement. -/
structure ReplacedFields (t t' : LosRbTree K) (k : List (Frame Nat)) (y : Nat) (c : Color) (a b : RbTree Nat) : Prop where
  parent : ∀ q, t'.parent q = if q = ptr t.stNilT b then y else if q = ptr t.stNilT a then y
    else if q = y then up t.stNilT k else t.parent q
  color : ∀ q, t'.color q = if q = y then c else t.color q
  child : ∀ q e, q ∉ outer k → t'.child e q =
    if q = y ∧ e = .left then ptr t.stNilT a else if q = y ∧ e = .right then ptr t.stNilT b else t.child e q
  rest : SameRest t t'

private theorem replacedFields (h : t' =
    ((attach (copyLinks t k y c a b) k y).setParent (ptr t.stNilT a) y).setParent (ptr t.stNilT b) y) :
    ReplacedFields t t' k y c a b := by
  subst h
  refine ⟨fun q => by simp [copyLinks],fun q => by simp [copyLinks],fun q e hq => ?_,?_⟩
  · rw [child_setParent, child_setParent, (attach_same hq).2.2, copyLinks]
    simp
  · have hcopy : SameRest t (copyLinks t k y c a b) :=
      ((sameRest_setParent.trans sameRest_setColor).trans sameRest_setChild).trans sameRest_setChild
    exact ((hcopy.trans sameRest_attach).trans sameRest_setParent).trans sameRest_setParent

/-- The other nodes that are not on the path keep their fields. -/
theorem ReplacedFields.same (h : ReplacedFields t t' k y c a b) (hq : q ∉ outer k) (hqy : q ≠ y) (hqa : ptr t.stNilT a ≠ q)
    (hqb : ptr t.stNilT b ≠ q) : Same t t' q := by
  refine ⟨?_,?_,fun e => ?_⟩
  · rw [h.parent, if_neg hqb.symm, if_neg hqa.symm, if_neg hqy]
  · rw [h.color, if_neg hqy]
  · rw [h.child q e hq, if_neg (fun hc => hqy hc.1), if_neg (fun hc => hqy hc.1)]

/-- The node z is replaced by y, a node outside the tree. -/
theorem rep_replaceNode (h : Rep t (plug k (join .left c a z b))) (hy : y ∉ (plug k (join .left c a z b)).inorder)
    (hyn : y ≠ t.stNilT) (hy0 : y ≠ 0) :
    Rep (replaceNode t z y) (plug k (join .left c a y b)) ∧ SameRest t (replaceNode t z y) ∧
    (∀ q, (replaceNode t z y).parent q = if q = ptr t.stNilT b then y else if q = ptr t.stNilT a then y
      else if q = y then up t.stNilT k else t.parent q) ∧
    ∀ q, q ≠ y → (replaceNode t z y).color q = t.color q := by
  have hzn := h.ne_nil (mem_plug_join k)
  have hy' : y ∉ (join .left c a z b).inorder ++ outer k := fun hm => hy ((perm_plug k _).mem_iff.mpr hm)
  obtain ⟨hr,hl,hpl,hd,hn,h0,hn0,hnb⟩ := rep_plug.mp h
  obtain ⟨-,-,-,-,h5,h6⟩ := links_join.mp hl
  obtain ⟨hds,hdo,hdis⟩ := List.nodup_append'.mp hd
  obtain ⟨hz1,hz2,had,hbd,hab⟩ := nodup_join.mp hds
  rw [ptr_join] at hr hpl
  rw [List.mem_append, not_or, mem_inorder_join, not_or, not_or] at hy'
  obtain ⟨⟨hyz,hya,hyb⟩,hyo⟩ := hy'
  have hzo : z ∉ outer k := fun hm => hdis (mem_inorder_join.mpr (.inl rfl)) hm
  have hno : t.stNilT ∉ outer k := fun hm => hn (List.mem_append_right _ hm)
  have hao : ∀ q ∈ a.inorder, q ∉ outer k := fun q hq hm => hdis (mem_inorder_join.mpr (.inr (.inl hq))) hm
  have hbo : ∀ q ∈ b.inorder, q ∉ outer k := fun q hq hm => hdis (mem_inorder_join.mpr (.inr (.inr hq))) hm
  have hane : ∀ q ∈ a.inorder, q ≠ t.stNilT := fun q hq he =>
    hn (List.mem_append_left _ (mem_inorder_join.mpr (.inr (.inl (he ▸ hq)))))
  have hbne : ∀ q ∈ b.inorder, q ≠ t.stNilT := fun q hq he =>
    hn (List.mem_append_left _ (mem_inorder_join.mpr (.inr (.inr (he ▸ hq)))))
  have heq := replaceNode_eq hl hpl hzn hzo hno hyo fun he => hyz he.symm
  have hf := replacedFields heq
  obtain ⟨hpath',hroot'⟩ := (copyLinks_pathLinks (c := c) (a := a) (b := b) hpl hyo).attach (v := y)
    (by simpa [copyLinks] using hr) hdo
  refine ⟨rep_plug.mpr ⟨?_,links_join.mpr ⟨?_,?_,?_,?_,?_,?_⟩,?_,?_,?_,?_,?_,?_⟩,hf.rest,hf.parent,
    fun q hq => by rw [hf.color, if_neg hq]⟩
  · rw [ptr_join, heq]
    simpa [copyLinks] using hroot'
  · rw [hf.parent, if_neg (ptr_ne hyb hyn).symm, if_neg (ptr_ne hya hyn).symm, if_pos rfl, hf.rest.stNilT]
  · rw [hf.color, if_pos rfl]
  · rw [hf.child _ _ hyo, if_pos ⟨rfl,rfl⟩, hf.rest.stNilT]
  · rw [hf.child _ _ hyo, if_neg (by simp [Dir.flip]), if_pos ⟨rfl,rfl⟩, hf.rest.stNilT]
  · -- the subtree a, whose root has y as its parent
    refine h5.reparent hf.rest.stNilT had (fun q hq hqa => ?_) (fun hne => ?_)
    · exact hf.same (hao q hq) (fun he => hya (he ▸ hq)) hqa.symm (ptr_ne (hab q hq) (hane q hq))
    · have hm := @ptr_mem t.stNilT _ hne
      have hqy : ptr t.stNilT a ≠ y := ptr_ne hya hyn
      refine ⟨?_,by rw [hf.color, if_neg hqy],fun e => ?_⟩
      · rw [hf.parent, if_neg (ptr_ne (hab _ hm) (hane _ hm)).symm, if_pos rfl]
      · rw [hf.child _ e (hao _ hm), if_neg (fun hc => hqy hc.1), if_neg (fun hc => hqy hc.1)]
  · -- the subtree b
    refine h6.reparent hf.rest.stNilT hbd (fun q hq hqb => ?_) (fun hne => ?_)
    · exact hf.same (hbo q hq) (fun he => hyb (he ▸ hq)) (ptr_ne (fun hm => hab q hm hq) (hbne q hq)) hqb.symm
    · have hm := @ptr_mem t.stNilT _ hne
      have hqy : ptr t.stNilT b ≠ y := ptr_ne hyb hyn
      refine ⟨by rw [hf.parent, if_pos rfl],by rw [hf.color, if_neg hqy],fun e => ?_⟩
      rw [hf.child _ e (hbo _ hm), if_neg (fun hc => hqy hc.1), if_neg (fun hc => hqy hc.1)]
  · rw [ptr_join, heq]
    refine PathLinks.congr (by simp) hpath' fun q hq => ⟨?_,by simp,by simp⟩
    have hqa : q ≠ ptr t.stNilT a := fun he => ptr_notMem_outer hno hao (he ▸ hq)
    have hqb : q ≠ ptr t.stNilT b := fun he => ptr_notMem_outer hno hbo (he ▸ hq)
    rw [parent_setParent, if_neg hqb, parent_setParent, if_neg hqa]
  · refine List.nodup_append'.mpr ⟨nodup_join.mpr ⟨hya,hyb,had,hbd,hab⟩,hdo,fun q hq hm => ?_⟩
    rcases mem_inorder_join.mp hq with rfl | hq | hq
    · exact hyo hm
    · exact hao q hq hm
    · exact hbo q hq hm
  · rw [hf.rest.stNilT, List.mem_append, mem_inorder_join]
    rintro ((he | hm | hm) | hm)
    · exact hyn he.symm
    · exact hane _ hm rfl
    · exact hbne _ hm rfl
    · exact hno hm
  · rw [List.mem_append, mem_inorder_join]
    rintro ((he | hm | hm) | hm)
    · exact hy0 he.symm
    · exact h0 (List.mem_append_left _ (mem_inorder_join.mpr (.inr (.inl hm))))
    · exact h0 (List.mem_append_left _ (mem_inorder_join.mpr (.inr (.inr hm))))
    · exact h0 (List.mem_append_right _ hm)
  · rw [hf.rest.stNilT]
    exact hn0
  · rw [hf.rest.stNilT, hf.color, if_neg (Ne.symm hyn)]
    exact hnb

/-- A new red leaf at the end of the path. -/
theorem rep_newLeaf (h : Rep t (plug k .nil)) (hx : x ∉ (plug k .nil).inorder) (hxn : x ≠ t.stNilT) (hx0 : x ≠ 0) :
    Rep (attach ((((t.setColor x .red).setChild .right x t.stNilT).setChild .left x t.stNilT).setParent x
      (up t.stNilT k)) k x) (plug k (.node .red .nil x .nil)) := by
  have hxo : x ∉ outer k := fun hm => hx ((perm_plug k _).mem_iff.mpr (List.mem_append_right _ hm))
  obtain ⟨hr,-,hpl,hd,hn,h0,hn0,hnb⟩ := rep_plug.mp h
  rw [show (RbTree.nil : RbTree Nat).inorder = [] from rfl, List.nil_append] at hd hn h0
  set t₁ := (((t.setColor x .red).setChild .right x t.stNilT).setChild .left x t.stNilT).setParent x (up t.stNilT k) with ht₁
  have hpath : PathLinks t₁ t.stNilT k := by
    refine PathLinks.congr (by simp [ht₁]) hpl fun q hq => ?_
    have hqx : q ≠ x := fun he => hxo (he ▸ hq)
    exact ⟨by simp [ht₁, hqx],by simp [ht₁, hqx],fun e => by simp [ht₁, hqx]⟩
  obtain ⟨hpath',hroot'⟩ := hpath.attach (v := x) (by simpa [ht₁] using hr) hd
  have hrest : SameRest t (attach t₁ k x) :=
    (((sameRest_setColor.trans sameRest_setChild).trans sameRest_setChild).trans sameRest_setParent).trans sameRest_attach
  have hin : (RbTree.node .red .nil x .nil).inorder = [x] := rfl
  refine rep_plug.mpr ⟨hroot',⟨?_,?_,?_,?_,trivial,trivial⟩,hpath',?_,?_,?_,?_,?_⟩
  · rw [parent_attach, hrest.stNilT, ht₁]
    simp
  · rw [color_attach, ht₁]
    simp
  · rw [(attach_same hxo).2.2, hrest.stNilT, ht₁]
    simp
  · rw [(attach_same hxo).2.2, hrest.stNilT, ht₁]
    simp
  · rw [hin, List.singleton_append, List.nodup_cons]
    exact ⟨hxo,hd⟩
  · rw [hin, hrest.stNilT, List.singleton_append, List.mem_cons]
    rintro (he | hm)
    · exact hxn he.symm
    · exact hn hm
  · rw [hin, List.singleton_append, List.mem_cons]
    rintro (he | hm)
    · exact hx0 he.symm
    · exact h0 hm
  · rw [hrest.stNilT]
    exact hn0
  · rw [hrest.stNilT, color_attach, ht₁]
    simp [Ne.symm hxn, hnb]

end LiteOsKernel.Rbtree
