import LiteOsKernel.Rbtree.Replace

/-! Balance after the insertion of a red leaf. -/
namespace LiteOsKernel.Rbtree
open RbZipper RbTree LosRbTree

variable {K : Type} {t t' : LosRbTree K} {T s s' a b : RbTree Nat} {k : List (Frame Nat)} {p q v x y z n : Nat} {c c' : Color} {d e : Dir}

theorem Links.color_ptr {par : Nat} (h : Links t par s) (hb : t.color t.stNilT = .black) :
    t.color (ptr t.stNilT s) = s.color := by
  cases s with
  | nil => exact hb
  | node c l p r => exact h.2.1

private theorem Rep.parent_child {r : RbTree Nat} (h : Rep t (plug k (join d c (join e c' a x b) p r))) :
    t.parent x = p ∧ t.color p = c := by
  obtain ⟨-,hl,-⟩ := rep_plug.mp h
  obtain ⟨-,h2,-,-,h5,-⟩ := links_join.mp hl
  exact ⟨(links_join.mp h5).1,h2⟩

/-- The recolouring and the rotation at the grandparent G. -/
private theorem rep_insertCase3 {S R U : RbTree Nat} {P G : Nat} (h : Rep t (plug k (join d .black (join d .red S P R) G U))) :
    Rep (rotateNode d.flip ((t.setColor P .black).setColor G .red) G) (plug k (join d .black S P (join d .red R G U))) := by
  have h1 : Rep (t.setColor P .black) (plug k (join d .black (join d .black S P R) G U)) :=
    rep_setColor (k := ⟨d,.black,G,U⟩ :: k) h .black
  have h2 := rep_setColor h1 .red
  have h3 : Rep ((t.setColor P .black).setColor G .red)
      (plug k (join d.flip .red U G (join d.flip .black R P S))) := by
    rw [join_flip, join_flip]
    exact h2
  have h4 := (rep_rotateNode h3).1
  rw [join_flip, join_flip] at h4
  exact h4

private theorem insertLoop_of_black (h : t.color (t.parent x) ≠ .red) : ∀ fuel, insertLoop fuel t x = t
  | 0 => rfl
  | fuel + 1 => by rw [insertLoop, if_neg h]

/-- The side on which a node hangs, as the fix-up loops find it. -/
theorem side_eq {f : Frame Nat} (h : PathLinks t x (f :: k)) (hsib : ptr t.stNilT f.sib ≠ x) :
    (if t.child .left f.p = x then Dir.left else Dir.right) = f.d := by
  obtain ⟨-,-,h3,h4,-,-⟩ := h
  cases hd : f.d with
  | left =>
    rw [hd] at h3
    rw [if_pos h3]
  | right =>
    rw [hd] at h4
    rw [if_neg]
    exact fun he => hsib (by rw [← h4, ← he]; rfl)

/-- One round with a red parent f and a grandparent g: either the red node moves up to g, or the tree is balanced. -/
private theorem rep_insertRound {f g : Frame Nat} (h : Rep t (plug (f :: g :: k) (join e .red a x b))) (hf : f.c = .red)
    (hg : g.c = .black) (ha : a.Balanced n) (hb : b.Balanced n) (hac : a.color = .black) (hbc : b.color = .black)
    (hk : Hole (f :: g :: k) n) :
    ∃ t' x', insertRound g.d t x = (t',x') ∧
      ((∃ a' b', Rep t' (plug k (join g.d .red a' x' b')) ∧
          (join g.d .red a' x' b').inorder = (g.fill (f.fill (join e .red a x b))).inorder ∧
          a'.Balanced (n+1) ∧ b'.Balanced (n+1) ∧ a'.color = .black ∧ b'.color = .black) ∨
        (t'.color (t'.parent x') = .black ∧ ∃ s, Rep t' (plug k s) ∧
          s.inorder = (g.fill (f.fill (join e .red a x b))).inorder ∧ s.Balanced (n+1) ∧ s.color = .black)) := by
  obtain ⟨fd,fc,P,R⟩ := f
  obtain ⟨d,gc,G,U⟩ := g
  obtain rfl : fc = .red := hf
  obtain rfl : gc = .black := hg
  obtain ⟨hRc,hR,-,hk'⟩ := hole_red.mp hk
  obtain ⟨hU,hk''⟩ := hole_black.mp hk'
  obtain ⟨-,hl,hpl,hd,hn,-,-,hnb⟩ := rep_plug.mp h
  obtain ⟨h1,h2,-,-,-,-⟩ := links_join.mp hl
  obtain ⟨p1,p2,p3,p4,p5,q1,q2,q3,q4,q5,q6⟩ := hpl
  rw [ptr_join] at p3
  have hPx : t.parent x = P := h1
  have hGP : t.parent P = G := p1
  have hyU : t.child d.flip G = ptr t.stNilT U := q4
  have hcU : t.color (ptr t.stNilT U) = U.color := q5.color_ptr hnb
  have hin : ∀ {c₁ c₂ c₃ c₄ : Color} {A B C D : RbTree Nat}, A.inorder = C.inorder → B.inorder = D.inorder →
      (join d c₁ (join fd c₂ A P R) G B).inorder = (join d c₃ (join fd c₄ C P R) G D).inorder := by
    intro c₁ c₂ c₃ c₄ A B C D hA hB
    cases d <;> cases fd <;> simp [join, inorder, hA, hB]
  have hS : (join e .red a x b).Balanced n := balanced_red.mpr ⟨hac,hbc,ha,hb⟩
  rw [insertRound]
  simp only [hPx, hGP, hyU, hcU]
  by_cases hUc : U.color = .red
  · -- the uncle is red
    obtain ⟨u1,u,u2,hUe⟩ := exists_join d (t := U) (by rintro rfl; cases hUc)
    rw [hUc] at hUe
    subst hUe
    obtain ⟨hu1,hu2,hu3,hu4⟩ := balanced_red.mp hU
    rw [if_pos hUc, ptr_join]
    refine ⟨_,_,rfl,.inl ⟨join fd .black (join e .red a x b) P R,join d .black u1 u u2,?_,?_,?_,?_,color_join _ _ _ _ _,
      color_join _ _ _ _ _⟩⟩
    · have r1 : Rep t (plug (⟨d.flip,.black,G,join fd .red (join e .red a x b) P R⟩ :: k) (join d .red u1 u u2)) := by
        rw [plug, Frame.fill, join_flip]
        exact h
      have r2 := rep_setColor r1 .black
      have r3 : Rep (t.setColor u .black) (plug (⟨d,.black,G,join d .black u1 u u2⟩ :: k)
          (join fd .red (join e .red a x b) P R)) := by
        rw [plug, Frame.fill, join_flip] at r2
        exact r2
      have r4 : Rep ((t.setColor u .black).setColor P .black) (plug k (join d .black
          (join fd .black (join e .red a x b) P R) G (join d .black u1 u u2))) := rep_setColor r3 .black
      exact rep_setColor r4 .red
    · refine hin rfl ?_
      cases d <;> rfl
    · exact balanced_black_succ.mpr ⟨hS,hR⟩
    · exact balanced_black_succ.mpr ⟨hu3,hu4⟩
  · -- the uncle is black: at most two rotations
    rw [if_neg hUc]
    have hUb : U.color = .black := by
      cases hc : U.color with
      | red => exact absurd hc hUc
      | black => rfl
    rcases Dir.eq_or d fd with rfl | rfl
    · -- x is on the outer side
      have hside : t.child fd.flip P ≠ x := by
        rw [p4]
        refine ptr_ne (fun hm => ?_) fun he => hn (List.mem_append_left _ (mem_inorder_join.mpr (.inl he.symm)))
        exact (List.nodup_append'.mp hd).2.2 (mem_inorder_join.mpr (.inl rfl))
          (List.mem_cons_of_mem _ (List.mem_append_left _ hm))
      simp only [if_neg hside, hPx]
      have r1 := rep_insertCase3 (d := fd) (S := join e .red a x b) (P := P) (R := R) (G := G) (U := U) h
      refine ⟨_,_,rfl,.inr ⟨?_,_,r1,?_,?_,color_join _ _ _ _ _⟩⟩
      · obtain ⟨h3,h4⟩ := r1.parent_child
        rw [h3, h4]
      · cases fd <;> simp [Frame.fill, join, inorder]
      · exact balanced_black_succ.mpr ⟨hS,balanced_red.mpr ⟨hRc,hUb,hR,hU⟩⟩
    · -- x is on the inner side: it is rotated to the outer one
      have hx' : ∃ a' b', join e .red a x b = join d .red a' x b' ∧ a'.Balanced n ∧ b'.Balanced n ∧
          a'.color = .black ∧ b'.color = .black := by
        rcases Dir.eq_or d e with rfl | rfl
        · exact ⟨a,b,rfl,ha,hb,hac,hbc⟩
        · exact ⟨b,a,join_flip _ _ _ _ _,hb,ha,hbc,hac⟩
      obtain ⟨a',b',he,ha',hb',hac',hbc'⟩ := hx'
      rw [if_pos (show t.child d.flip P = x from p3)]
      have r1 : Rep t (plug (⟨d,.black,G,U⟩ :: k) (join d .red R P (join d .red a' x b'))) := by
        rw [← he, ← join_flip]
        exact h
      have r2 := (rep_rotateNode r1).1
      have hPx' : (rotateNode d t P).parent P = x := by
        obtain ⟨-,hl',-⟩ := rep_plug.mp r2
        exact (links_join.mp (links_join.mp hl').2.2.2.2.1).1
      simp only [hPx']
      have r3 := rep_insertCase3 (d := d) (S := join d .red R P a') (P := x) (R := b') (G := G) (U := U) r2
      refine ⟨_,_,rfl,.inr ⟨?_,_,r3,?_,?_,color_join _ _ _ _ _⟩⟩
      · obtain ⟨h3,h4⟩ := r3.parent_child
        rw [h3, h4]
      · rw [he]
        cases d <;> simp [Frame.fill, join, inorder, Dir.flip]
      · exact balanced_black_succ.mpr ⟨balanced_red.mpr ⟨hRc,hac',hR,ha'⟩,balanced_red.mpr ⟨hbc',hUb,hb',hU⟩⟩

private theorem sameRest_insertRound : SameRest t (insertRound d t x).1 := by
  rw [insertRound]
  simp only
  split_ifs
  · exact (sameRest_setColor.trans sameRest_setColor).trans sameRest_setColor
  · exact ((sameRest_rotateNode.trans sameRest_setColor).trans sameRest_setColor).trans sameRest_rotateNode
  · exact (sameRest_setColor.trans sameRest_setColor).trans sameRest_rotateNode

private theorem sameRest_insertLoop : ∀ (fuel : Nat) (t : LosRbTree K) (x : Nat), SameRest t (insertLoop fuel t x)
  | 0, t, _ => SameRest.refl t
  | fuel + 1, t, x => by
    rw [insertLoop]
    split_ifs
    · exact sameRest_insertRound.trans (sameRest_insertLoop fuel _ _)
    · exact sameRest_insertRound.trans (sameRest_insertLoop fuel _ _)
    · exact SameRest.refl t

/-- The loop ends with a balanced tree of the same nodes; only the root may be red. -/
private theorem rep_insertLoop : ∀ (fuel : Nat) {t : LosRbTree K} {k : List (Frame Nat)} {a b : RbTree Nat} {x n : Nat} {e : Dir},
    k.length ≤ fuel → Rep t (plug k (join e .red a x b)) → a.Balanced n → b.Balanced n → a.color = .black →
    b.color = .black → Hole k n →
    ∃ T, Rep (insertLoop fuel t x) T ∧ T.inorder = (plug k (join e .red a x b)).inorder ∧ ∃ m, T.Balanced m := by
  intro fuel
  induction fuel using Nat.strong_induction_on with
  | _ fuel ih =>
  intro t k a b x n e hlen h ha hb hac hbc hk
  have hS : (join e .red a x b).Balanced n := balanced_red.mpr ⟨hac,hbc,ha,hb⟩
  obtain ⟨-,hl,hpl,hd,hn,-,-,hnb⟩ := rep_plug.mp h
  have hpx := (links_join.mp hl).1
  rcases k with - | ⟨f,k⟩
  · rw [insertLoop_of_black (by rw [hpx]; simp [up, hnb])]
    exact ⟨_,h,rfl,n,hS⟩
  have hcf : t.color (t.parent x) = f.c := by
    rw [hpx]
    exact hpl.2.1
  cases hfc : f.c with
  | black =>
    rw [insertLoop_of_black (by rw [hcf, hfc]; simp)]
    exact ⟨_,h,rfl,balanced_plug hS hk (by rw [topColor, hfc]; simp)⟩
  | red =>
    obtain ⟨fd,fc,P,R⟩ := f
    obtain rfl : fc = .red := hfc
    have htop := (hole_red.mp hk).2.2.1
    rcases k with - | ⟨g,k⟩
    · cases htop
    have hgc : g.c = .black := by simpa [topColor] using htop
    have hk' : Hole k (n+1) := by
      obtain ⟨d,gc,G,U⟩ := g
      obtain rfl : gc = .black := hgc
      exact (hole_black.mp (hole_red.mp hk).2.2.2).2
    obtain ⟨-,-,-,-,-,q⟩ := hpl
    have hside : (if t.parent x = t.child .left (t.parent (t.parent x)) then Dir.left else Dir.right) = g.d := by
      have hPG : t.parent P = g.p := by
        obtain ⟨-,-,hpl',-⟩ := rep_plug.mp h
        exact hpl'.1
      rw [hpx, show up t.stNilT (⟨fd,.red,P,R⟩ :: g :: k) = P from rfl, hPG]
      have hdd := (List.nodup_append'.mp hd).2.1
      have hPn : P ≠ t.stNilT := fun he => hn (List.mem_append_right _ (by simp [outer, ← he]))
      rw [← side_eq q (ptr_ne (fun hm => ?_) hPn)]
      · simp only [eq_comm]
      · rw [outer, List.nodup_cons] at hdd
        exact hdd.1 (List.mem_append_right _ (by simp [outer, hm]))
    rcases fuel with - | fuel
    · simp at hlen
    rw [insertLoop, if_pos hcf, hside]
    obtain ⟨t',x',he,hcase⟩ := rep_insertRound h rfl hgc ha hb hac hbc hk
    simp only [he]
    rcases hcase with ⟨a',b',r1,hin,h3,h4,h5,h6⟩ | ⟨hblack,s,r1,hin,h3,h4⟩
    · obtain ⟨T,r2,hin',hm⟩ := ih fuel (Nat.lt_succ_self fuel) (by simp at hlen; omega) r1 h3 h4 h5 h6 hk'
      exact ⟨T,r2,hin'.trans (inorder_plug_congr k hin),hm⟩
    · rw [insertLoop_of_black (by rw [hblack]; simp)]
      exact ⟨_,r1,inorder_plug_congr k hin,balanced_plug h3 hk' fun _ => h4⟩

/-- OsRbInsertNodeFixup on a new leaf: a red-black tree of the same nodes, one more in the count. -/
theorem rep_insertNodeFixup (h : Rep t (plug k (.node .red .nil x .nil))) (hk : Hole k 0) (hlen : k.length ≤ t.ulNodes + 1) :
    ∃ T, Rep (osRbInsertNodeFixup t x) T ∧ T.inorder = (plug k (.node .red .nil x .nil)).inorder ∧ T.IsRb ∧
      (osRbInsertNodeFixup t x).key = t.key ∧ (osRbInsertNodeFixup t x).ulNodes = t.ulNodes + 1 ∧
      (osRbInsertNodeFixup t x).stNilT = t.stNilT := by
  have h' : Rep { t with ulNodes := t.ulNodes + 1 } (plug k (join .left .red .nil x .nil)) :=
    h.setRest _ _ _ _
  obtain ⟨T,r,hin,m,hm⟩ := rep_insertLoop (t.ulNodes + 1 + 1) (by omega) h' rfl rfl rfl rfl hk
  have hrest := sameRest_insertLoop (t.ulNodes + 1 + 1) { t with ulNodes := t.ulNodes + 1 } x
  rw [osRbInsertNodeFixup]
  simp only
  set t₁ := insertLoop (t.ulNodes + 1 + 1) { t with ulNodes := t.ulNodes + 1 } x
  rcases T with - | ⟨c,l,p,rt⟩
  · have hmem : x ∈ (plug k (join .left .red .nil x .nil)).inorder := mem_plug_join k
    rw [← hin] at hmem
    cases hmem
  · have hroot : t₁.pstRoot = p := r.root
    refine ⟨.node .black l p rt,?_,hin,⟨rfl,?_⟩,hrest.key,hrest.ulNodes,hrest.stNilT⟩
    · rw [hroot]
      exact rep_setColor (k := []) (d := .left) r .black
    · cases c with
      | red => exact ⟨m+1,hm.blacken_red rfl⟩
      | black => exact ⟨m,hm⟩

end LiteOsKernel.Rbtree
