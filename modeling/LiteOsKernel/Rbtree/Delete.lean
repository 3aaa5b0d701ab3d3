import LiteOsKernel.Rbtree.Insert

/-! Balance after the removal of a black node. -/
namespace LiteOsKernel.Rbtree
open RbZipper RbTree LosRbTree

variable {K : Type} {t t' : LosRbTree K} {T s s' a b : RbTree Nat} {k : List (Frame Nat)} {p q v x y z n : Nat} {c c' : Color} {d e : Dir}

/-- The subtree s lacks one black node for its path: its black height is n where n + 1 is needed, or
its root is red and can be blackened. -/
def Short (s : RbTree Nat) (n : Nat) (k : List (Frame Nat)) : Prop :=
  Hole k (n+1) ∧ (s.color = .black ∧ s.Balanced n ∨ s.color = .red ∧ s.blacken.Balanced (n+1))

/-- The parent pointer of the subtree s, which may be the sentinel. -/
private theorem Rep.parent_ptr (h : Rep t (plug k s)) (hn : s = .nil → t.parent t.stNilT = up t.stNilT k) :
    t.parent (ptr t.stNilT s) = up t.stNilT k := by
  cases s with
  | nil => exact hn rfl
  | node c l p r => exact (rep_plug.mp h).2.1.1

/-- What the path has room for in place of the parent P of colour c. -/
def Room (c : Color) (k : List (Frame Nat)) (n : Nat) : Prop :=
  c = .black ∧ Hole k (n+1) ∨ c = .red ∧ topColor k = some .black ∧ Hole k n

private theorem room_of_hole {sib : RbTree Nat} (h : Hole (⟨d,c,p,sib⟩ :: k) n) : Room c k n := by
  cases c with
  | red => exact .inr ⟨rfl,h.2.2⟩
  | black => exact .inl ⟨rfl,h.2⟩

theorem Room.isRb {a b : RbTree Nat} (h : Room c k n) (ha : a.Balanced n) (hb : b.Balanced n) (hac : a.color = .black)
    (hbc : b.color = .black) : (plug k (join d c a p b)).IsRb := by
  rcases h with ⟨rfl,hk⟩ | ⟨rfl,ht,hk⟩
  · exact isRb_plug (balanced_black_succ.mpr ⟨ha,hb⟩) hk (color_join _ _ _ _ _)
  · refine ⟨hk.color_plug _ ?_,balanced_plug (balanced_red.mpr ⟨hac,hbc,ha,hb⟩) hk fun hr => ?_⟩
    · rintro rfl
      cases ht
    · rw [ht] at hr
      cases hr

/-- The sibling w is black and has a red child on the far side. -/
private theorem rep_deleteCase4 {near f1 f2 : RbTree Nat} {P w r : Nat}
    (h : Rep t (plug (⟨d,c,P,join d .black near w (join d .red f1 r f2)⟩ :: k) s)) :
    Rep (rotateNode d (((t.setColor w c).setColor P .black).setColor r .black) P)
      (plug k (join d c (join d .black s P near) w (join d .black f1 r f2))) := by
  have h1 : Rep t (plug (⟨d.flip,c,P,s⟩ :: k) (join d .black near w (join d .red f1 r f2))) := by
    rw [plug, Frame.fill, join_flip]
    exact h
  have h2 : Rep (t.setColor w c) (plug k (join d c s P (join d c near w (join d .red f1 r f2)))) := by
    have := rep_setColor h1 c
    rw [plug, Frame.fill, join_flip] at this
    exact this
  have h3 := rep_setColor h2 .black
  have h4 : Rep ((t.setColor w c).setColor P .black)
      (plug (⟨d.flip,c,w,near⟩ :: ⟨d.flip,.black,P,s⟩ :: k) (join d .red f1 r f2)) := by
    rw [plug, plug, Frame.fill, Frame.fill, join_flip, join_flip]
    exact h3
  have h5 : Rep (((t.setColor w c).setColor P .black).setColor r .black)
      (plug k (join d .black s P (join d c near w (join d .black f1 r f2)))) := by
    have := rep_setColor h4 .black
    rw [plug, plug, Frame.fill, Frame.fill, join_flip, join_flip] at this
    exact this
  exact (rep_rotateNode h5).1

/-- The sibling w is black with a red child on the near side only: it is rotated to the far side. -/
private theorem rep_deleteCase3 {n1 n2 far : RbTree Nat} {P w r : Nat}
    (h : Rep t (plug (⟨d,c,P,join d .black (join d .red n1 r n2) w far⟩ :: k) s)) :
    Rep (rotateNode d.flip ((t.setColor r .black).setColor w .red) w)
      (plug (⟨d,c,P,join d .black n1 r (join d .red n2 w far)⟩ :: k) s) ∧
    (rotateNode d.flip ((t.setColor r .black).setColor w .red) w).parent t.stNilT = t.parent t.stNilT := by
  have h1 : Rep t (plug (⟨d,.black,w,far⟩ :: ⟨d.flip,c,P,s⟩ :: k) (join d .red n1 r n2)) := by
    rw [plug, plug, Frame.fill, Frame.fill, join_flip]
    exact h
  have h2 := rep_setColor h1 .black
  have h3 : Rep ((t.setColor r .black).setColor w .red)
      (plug (⟨d.flip,c,P,s⟩ :: k) (join d.flip .red far w (join d.flip .black n2 r n1))) := by
    rw [join_flip, join_flip]
    exact rep_setColor (k := ⟨d.flip,c,P,s⟩ :: k) (a := join d .black n1 r n2) (p := w) (b := far) h2 .red
  obtain ⟨h4,h5⟩ := rep_rotateNode h3
  refine ⟨?_,by simpa using h5⟩
  rw [join_flip, join_flip, plug, Frame.fill, join_flip] at h4
  exact h4

/-- What a round leads to: the missing black node is one level up, or below a red node, or the tree
is balanced. -/
def RoundEnd (t : LosRbTree K) (node : Nat) (l : List Nat) (len : Nat) : Prop :=
  (∃ s k n, Rep t (plug k s) ∧ s ≠ .nil ∧ node = ptr t.stNilT s ∧ Short s n k ∧ (plug k s).inorder = l ∧
      (k.length < len ∨ s.color = .red)) ∨
    node = t.pstRoot ∧ ∃ T, Rep t T ∧ T.IsRb ∧ T.inorder = l

private theorem rep_deleteCase4_end {near f1 f2 : RbTree Nat} {P w r len : Nat} {l : List Nat}
    (h : Rep t (plug (⟨d,c,P,join d .black near w (join d .red f1 r f2)⟩ :: k) s)) (hs : s.Balanced n)
    (hnear : near.Balanced n) (hf1 : f1.Balanced n) (hf2 : f2.Balanced n) (hroom : Room c k (n+1))
    (hnil : s = .nil → t.parent t.stNilT = P)
    (hl : (plug (⟨d,c,P,join d .black near w (join d .red f1 r f2)⟩ :: k) s).inorder = l) :
    ∃ t' node', deleteCase4 d t (ptr t.stNilT s) w = (t',node') ∧ RoundEnd t' node' l len := by
  have hpar : t.parent (ptr t.stNilT s) = P := h.parent_ptr hnil
  obtain ⟨-,-,⟨-,h2,-,-,h5,-⟩,-⟩ := rep_plug.mp h
  obtain ⟨-,-,-,w4,-,-⟩ := links_join.mp h5
  rw [ptr_join] at w4
  simp only [deleteCase4, hpar, parent_setColor, child_setColor, w4, show t.color P = c from h2]
  refine ⟨_,_,rfl,.inr ⟨rfl,_,rep_deleteCase4 h,?_,?_⟩⟩
  · exact hroom.isRb (balanced_black_succ.mpr ⟨hs,hnear⟩) (balanced_black_succ.mpr ⟨hf1,hf2⟩) (color_join _ _ _ _ _)
      (color_join _ _ _ _ _)
  · rw [← hl]
    refine inorder_plug_congr k ?_
    cases d <;> simp [Frame.fill, join, inorder]

private theorem rep_deleteRoundBlack {near far : RbTree Nat} {P w len : Nat}
    (h : Rep t (plug (⟨d,c,P,join d .black near w far⟩ :: k) s)) (hs : s.Balanced n)
    (hnear : near.Balanced n) (hfar : far.Balanced n) (hroom : Room c k (n+1)) (hlen : k.length < len ∨ c = .red)
    (hnil : s = .nil → t.parent t.stNilT = P) :
    ∃ t' node', deleteRoundBlack d t (ptr t.stNilT s) w = (t',node') ∧
      RoundEnd t' node' (plug (⟨d,c,P,join d .black near w far⟩ :: k) s).inorder len := by
  set l := (plug (⟨d,c,P,join d .black near w far⟩ :: k) s).inorder with hl
  have hpar : t.parent (ptr t.stNilT s) = P := h.parent_ptr hnil
  obtain ⟨-,-,hpl,-,-,-,-,hnb⟩ := rep_plug.mp h
  obtain ⟨h1,h2,h3,h4,h5,h6⟩ := hpl
  obtain ⟨w1,w2,w3,w4,w5,w6⟩ := links_join.mp h5
  have hcn : t.color (t.child d w) = near.color := by
    rw [w3]
    exact w5.color_ptr hnb
  have hcf : t.color (t.child d.flip w) = far.color := by
    rw [w4]
    exact w6.color_ptr hnb
  have hboth : (t.color (t.child .left w) = .black ∧ t.color (t.child .right w) = .black) ↔
      near.color = .black ∧ far.color = .black := by
    rw [← hcn, ← hcf]
    cases d with
    | left => exact Iff.rfl
    | right => exact And.comm
  rw [deleteRoundBlack]
  by_cases hb : near.color = .black ∧ far.color = .black
  · -- both children of the sibling are black: it becomes red and the shortage moves up
    rw [if_pos (hboth.mpr hb)]
    simp only [parent_setColor, hpar]
    refine ⟨_,_,rfl,.inl ⟨join d c s P (join d .red near w far),k,?_⟩⟩
    have r1 : Rep t (plug (⟨d.flip,c,P,s⟩ :: k) (join d .black near w far)) := by
      rw [plug, Frame.fill, join_flip]
      exact h
    have r2 : Rep (t.setColor w .red) (plug k (join d c s P (join d .red near w far))) := by
      have := rep_setColor r1 .red
      rw [plug, Frame.fill, join_flip] at this
      exact this
    have hne : join d c s P (join d .red near w far) ≠ .nil := by cases d <;> simp [join]
    have hin : (plug k (join d c s P (join d .red near w far))).inorder =
        (plug (⟨d,c,P,join d .black near w far⟩ :: k) s).inorder := by
      refine inorder_plug_congr k ?_
      cases d <;> simp [Frame.fill, join, inorder]
    have hw : (join d .red near w far).Balanced n := balanced_red.mpr ⟨hb.1,hb.2,hnear,hfar⟩
    rcases hroom with ⟨rfl,hk⟩ | ⟨rfl,-,hk⟩
    · refine ⟨n+1,r2,hne,by simp,⟨hk,.inl ⟨color_join _ _ _ _ _,balanced_black_succ.mpr ⟨hs,hw⟩⟩⟩,hin,.inl ?_⟩
      exact hlen.resolve_right (by simp)
    · refine ⟨n,r2,hne,by simp,⟨hk,.inr ⟨color_join _ _ _ _ _,?_⟩⟩,hin,.inr (color_join _ _ _ _ _)⟩
      rw [blacken_join]
      exact balanced_black_succ.mpr ⟨hs,hw⟩
  · rw [if_neg (fun hc => hb (hboth.mp hc))]
    by_cases hfb : far.color = .black
    · -- the near child is red
      have hnr : near.color = .red := by
        cases hc : near.color with
        | red => rfl
        | black => exact absurd ⟨hc,hfb⟩ hb
      obtain ⟨n1,r,n2,hne⟩ := exists_join d (t := near) (by rintro rfl; cases hnr)
      rw [hnr] at hne
      subst hne
      obtain ⟨-,-,hn1,hn2⟩ := balanced_red.mp hnear
      obtain ⟨r1,hnil'⟩ := rep_deleteCase3 h
      rw [ptr_join] at w3
      have hrest : SameRest t (rotateNode d.flip ((t.setColor r .black).setColor w .red) w) :=
        (sameRest_setColor.trans sameRest_setColor).trans sameRest_rotateNode
      have heq : deleteCase3 d t (ptr t.stNilT s) w = (rotateNode d.flip ((t.setColor r .black).setColor w .red) w,r) := by
        have hp' := r1.parent_ptr (fun hs0 => by rw [hrest.stNilT, hnil', hnil hs0]; rfl)
        obtain ⟨-,-,⟨-,-,-,g4,-,-⟩,-⟩ := rep_plug.mp r1
        rw [hrest.stNilT] at hp'
        rw [ptr_join] at g4
        rw [deleteCase3, if_pos (hcf.trans hfb)]
        simp only [w3, hp', up]
        rw [g4]
      rw [heq]
      simp only
      rw [← hrest.stNilT]
      refine rep_deleteCase4_end r1 hs hn1 hn2 hfar hroom (fun hs0 => ?_) ?_
      · rw [hrest.stNilT, hnil', hnil hs0]
      · refine inorder_plug_congr k ?_
        cases d <;> simp [Frame.fill, join, inorder]
    · have hfr : far.color = .red := by
        cases hc : far.color with
        | red => rfl
        | black => exact absurd hc hfb
      obtain ⟨f1,r,f2,hne⟩ := exists_join d (t := far) (by rintro rfl; cases hfr)
      rw [hfr] at hne
      subst hne
      obtain ⟨-,-,hf1,hf2⟩ := balanced_red.mp hfar
      rw [deleteCase3, if_neg (by rw [hcf]; exact hfb)]
      exact rep_deleteCase4_end h hs hnear hf1 hf2 hroom hnil rfl

/-- A round at the black subtree s, which is not the root. -/
private theorem rep_deleteRound {f : Frame Nat} (h : Rep t (plug (f :: k) s)) (hs : s.Balanced n) (hk : Hole (f :: k) (n+1))
    (hnil : s = .nil → t.parent t.stNilT = f.p) :
    ∃ t' node', deleteRound f.d t (ptr t.stNilT s) = (t',node') ∧
      RoundEnd t' node' (plug (f :: k) s).inorder (f :: k).length := by
  obtain ⟨d,c,P,W⟩ := f
  have hpar : t.parent (ptr t.stNilT s) = P := h.parent_ptr hnil
  have hroom := room_of_hole hk
  have hW : W.Balanced (n+1) := by
    cases c with
    | red => exact hk.2.1
    | black => exact hk.1
  obtain ⟨near,w,far,hWe⟩ := exists_join d hW.ne_nil
  obtain ⟨-,-,⟨-,-,-,h4,h5,-⟩,-,-,-,-,hnb⟩ := rep_plug.mp h
  have hcw := h5.color_ptr hnb
  rw [← h4] at hcw
  have hw : t.child d.flip P = w := by
    rw [h4]
    simp only
    rw [hWe, ptr_join]
  simp only at hcw hw
  rw [deleteRound, hpar, hcw, hw]
  cases hWc : W.color with
  | black =>
    rw [hWc] at hWe
    subst hWe
    obtain ⟨hnear,hfar⟩ := balanced_black_succ.mp hW
    rw [if_neg (by simp)]
    exact rep_deleteRoundBlack h hs hnear hfar hroom (.inl (Nat.lt_succ_self _)) hnil
  | red =>
    rw [hWc] at hWe
    subst hWe
    obtain ⟨hnc,hfc,hnear,hfar⟩ := balanced_red.mp hW
    have hc : c = .black := by
      cases c with
      | red => exact absurd hk.1 (by simp)
      | black => rfl
    subst hc
    -- the rotation brings a black sibling, below a red parent
    have r1 : Rep t (plug (⟨d.flip,.black,P,s⟩ :: k) (join d .red near w far)) := by
      rw [plug, Frame.fill, join_flip]
      exact h
    have r2 : Rep (t.setColor w .black) (plug k (join d .black s P (join d .black near w far))) := by
      have := rep_setColor r1 .black
      rw [plug, Frame.fill, join_flip] at this
      exact this
    obtain ⟨r4,hnil'⟩ := rep_rotateNode (rep_setColor r2 .red)
    obtain ⟨near',w',far',hne⟩ := exists_join d hnear.ne_nil
    rw [hnc] at hne
    subst hne
    obtain ⟨hn1,hn2⟩ := balanced_black_succ.mp hnear
    have r5 : Rep (rotateNode d ((t.setColor w .black).setColor P .red) P)
        (plug (⟨d,.red,P,join d .black near' w' far'⟩ :: ⟨d,.black,w,far⟩ :: k) s) := r4
    have hrest : SameRest t (rotateNode d ((t.setColor w .black).setColor P .red) P) :=
      (sameRest_setColor.trans sameRest_setColor).trans sameRest_rotateNode
    have hnil'' : s = .nil → (rotateNode d ((t.setColor w .black).setColor P .red) P).parent
        (rotateNode d ((t.setColor w .black).setColor P .red) P).stNilT = P := by
      intro hs0
      rw [hrest.stNilT]
      rw [parent_setColor, parent_setColor] at hnil'
      exact hnil'.trans (hnil hs0)
    have hpar' := r5.parent_ptr hnil''
    rw [hrest.stNilT] at hpar'
    obtain ⟨-,-,⟨-,-,-,g4,-,-⟩,-⟩ := rep_plug.mp r5
    simp only [ptr_join] at g4
    rw [if_pos rfl]
    simp only [parent_setColor, hpar, hpar', up, g4]
    rw [← hrest.stNilT]
    obtain ⟨t',node',he,hend⟩ := rep_deleteRoundBlack r5 hs hn1 hn2 (.inr ⟨rfl,rfl,hfar,hk.2⟩)
      (show _ < k.length + 1 ∨ Color.red = .red from .inr rfl) hnil''
    refine ⟨t',node',he,?_⟩
    have hin : (plug (⟨d,.red,P,join d .black near' w' far'⟩ :: ⟨d,.black,w,far⟩ :: k) s).inorder =
        (plug (⟨d,.black,P,join d .red (join d .black near' w' far') w far⟩ :: k) s).inorder := by
      refine inorder_plug_congr k ?_
      cases d <;> simp [Frame.fill, join, inorder]
    rw [hin] at hend
    exact hend

private theorem deleteLoop_of_root : ∀ fuel, deleteLoop fuel t t.pstRoot = (t,t.pstRoot)
  | 0 => rfl
  | fuel + 1 => by rw [deleteLoop, if_neg (fun h => h.1 rfl)]

private theorem deleteLoop_of_red (h : t.color x = .red) : ∀ fuel, deleteLoop fuel t x = (t,x)
  | 0 => rfl
  | fuel + 1 => by rw [deleteLoop, if_neg (fun hc => by rw [h] at hc; exact absurd hc.2 (by simp))]

private theorem top_mem (x : Nat) : ∀ {k : List (Frame Nat)}, k ≠ [] → top x k ∈ outer k
  | [], h => absurd rfl h
  | [f], _ => by simp [top, outer]
  | f :: g :: k, _ => by
    have := top_mem f.p (k := g :: k) (by simp)
    rw [outer]
    exact List.mem_cons_of_mem _ (List.mem_append_right _ this)

private theorem Rep.color_root (h : Rep t T) : t.color t.pstRoot = T.color := by
  rw [h.root]
  exact h.links.color_ptr h.nil_black

/-- A red root of the subtree makes up for the missing black node. -/
private theorem rep_blacken (h : Rep t (plug k s)) (hs : Short s n k) (hc : s.color = .red) :
    ∃ T, Rep (t.setColor (ptr t.stNilT s) .black) T ∧ T.IsRb ∧ T.inorder = (plug k s).inorder := by
  obtain ⟨a,p,b,he⟩ := exists_join .left (t := s) (by rintro rfl; cases hc)
  rw [hc] at he
  subst he
  have hb : (join .left .red a p b).blacken.Balanced (n+1) := (hs.2.resolve_left fun h => by rw [hc] at h; cases h.1).2
  rw [blacken_join] at hb
  rw [ptr_join]
  exact ⟨_,rep_setColor h .black,isRb_plug hb hs.1 (color_join _ _ _ _ _),inorder_plug_congr k rfl⟩

/-- The loop makes up for the missing black node, up to the colour of the node it ends at. -/
private theorem rep_deleteLoop : ∀ (fuel : Nat) {t : LosRbTree K} {k : List (Frame Nat)} {s : RbTree Nat} {n : Nat},
    (k.length ≤ fuel ∨ s.color = .red) → Rep t (plug k s) → Short s n k →
    (s = .nil → t.parent t.stNilT = up t.stNilT k) →
    ∃ T, Rep ((deleteLoop fuel t (ptr t.stNilT s)).1.setColor (deleteLoop fuel t (ptr t.stNilT s)).2 .black) T ∧
      T.IsRb ∧ T.inorder = (plug k s).inorder := by
  intro fuel
  induction fuel with
  | zero =>
    intro t k s n hlen h hs hnil
    cases hc : s.color with
    | red => exact rep_blacken h hs hc
    | black =>
      have hk : k = [] := List.length_eq_zero_iff.mp (Nat.le_zero.mp (hlen.resolve_right (by rw [hc]; simp)))
      subst hk
      have hb := (hs.2.resolve_right fun h => by rw [hc] at h; cases h.1).2
      refine ⟨s,?_,⟨hc,n,hb⟩,rfl⟩
      exact Rep.setColor_self h ((h.links.color_ptr h.nil_black).trans hc)
  | succ fuel ih =>
    intro t k s n hlen h hs hnil
    obtain ⟨-,hl,hpl,hd,hn,-,-,hnb⟩ := rep_plug.mp h
    have hcol := hl.color_ptr hnb
    cases hc : s.color with
    | red =>
      rw [deleteLoop_of_red (hcol.trans hc)]
      exact rep_blacken h hs hc
    | black =>
      have hb := (hs.2.resolve_right fun h => by rw [hc] at h; cases h.1).2
      rcases k with - | ⟨f,k⟩
      · rw [show ptr t.stNilT s = t.pstRoot from h.root.symm, deleteLoop_of_root]
        exact ⟨s,h.setColor_self (h.color_root.trans hc),⟨hc,n,hb⟩,rfl⟩
      have hout : ptr t.stNilT s ∉ outer (f :: k) :=
        ptr_notMem_outer (fun hm => hn (List.mem_append_right _ hm)) fun q hq hm => (List.nodup_append'.mp hd).2.2 hq hm
      have hroot : ptr t.stNilT s ≠ t.pstRoot := by
        rw [h.root, ptr_plug]
        exact fun he => hout (he ▸ top_mem _ (by simp))
      have hsib : ptr t.stNilT f.sib ≠ ptr t.stNilT s := by
        have hne : f.sib ≠ .nil := by
          obtain ⟨d,c,P,W⟩ := f
          cases c with
          | red => exact (hole_red.mp hs.1).2.1.ne_nil
          | black => exact (hole_black.mp hs.1).1.ne_nil
        intro he
        refine hout (he ▸ ?_)
        rw [outer]
        exact List.mem_cons_of_mem _ (List.mem_append_left _ (ptr_mem hne))
      have hpar : t.parent (ptr t.stNilT s) = f.p := h.parent_ptr hnil
      obtain ⟨t',node',he,hend⟩ := rep_deleteRound h hb hs.1 hnil
      rw [deleteLoop, if_pos ⟨hroot,hcol.trans hc⟩, hpar, side_eq hpl hsib]
      simp only [he]
      rcases hend with ⟨s',k',m,r1,hne,rfl,hs',hin,hlen'⟩ | ⟨rfl,T,r1,hrb,hin⟩
      · have hle : k'.length ≤ fuel ∨ s'.color = .red := by
          rcases hlen' with h1 | h1
          · rcases hlen with h2 | h2
            · exact .inl (by omega)
            · rw [hc] at h2
              cases h2
          · exact .inr h1
        obtain ⟨T,r2,hrb,hin'⟩ := ih hle r1 hs' (fun h0 => absurd h0 hne)
        exact ⟨T,r2,hrb,hin'.trans hin⟩
      · rw [deleteLoop_of_root]
        exact ⟨T,r1.setColor_self (r1.color_root.trans hrb.1),hrb,hin⟩

private theorem sameRest_deleteCase3 {node w : Nat} : SameRest t (deleteCase3 d t node w).1 := by
  rw [deleteCase3]
  split_ifs
  · exact (sameRest_setColor.trans sameRest_setColor).trans sameRest_rotateNode
  · exact SameRest.refl t

private theorem sameRest_deleteRoundBlack {node w : Nat} : SameRest t (deleteRoundBlack d t node w).1 := by
  rw [deleteRoundBlack]
  split_ifs
  · exact sameRest_setColor
  · exact sameRest_deleteCase3.trans
      (((sameRest_setColor.trans sameRest_setColor).trans sameRest_setColor).trans sameRest_rotateNode)

private theorem sameRest_deleteRound {node : Nat} : SameRest t (deleteRound d t node).1 := by
  rw [deleteRound]
  simp only
  split_ifs
  · exact ((sameRest_setColor.trans sameRest_setColor).trans sameRest_rotateNode).trans sameRest_deleteRoundBlack
  · exact sameRest_deleteRoundBlack

private theorem sameRest_deleteLoop : ∀ (fuel : Nat) (t : LosRbTree K) (x : Nat), SameRest t (deleteLoop fuel t x).1
  | 0, t, _ => SameRest.refl t
  | fuel + 1, t, x => by
    rw [deleteLoop]
    split_ifs
    · exact sameRest_deleteRound.trans (sameRest_deleteLoop fuel _ _)
    · exact sameRest_deleteRound.trans (sameRest_deleteLoop fuel _ _)
    · exact SameRest.refl t

/-- What the removal of a node leaves alone; the walkers are detached when the tree is empty. -/
structure Trimmed (t t' : LosRbTree K) : Prop where
  stNilT : t'.stNilT = t.stNilT
  key : t'.key = t.key
  ulNodes : t'.ulNodes = t.ulNodes
  walks : t'.stWalkHead = t.stWalkHead ∧ t'.walk = t.walk ∨
    t.ulNodes = 0 ∧ t'.stWalkHead = [] ∧ t'.walk = (osRbClearTree t).walk

theorem SameRest.trimmed (h : SameRest t t') : Trimmed t t' := ⟨h.1,h.2,h.3,.inl ⟨h.4,h.5⟩⟩

theorem SameRest.trans_trimmed {t'' : LosRbTree K} (h : SameRest t t') (h' : Trimmed t' t'') : Trimmed t t'' := by
  refine ⟨h'.1.trans h.1,h'.2.trans h.2,h'.3.trans h.3,?_⟩
  rcases h'.walks with ⟨h1,h2⟩ | ⟨h1,h2,h3⟩
  · exact .inl ⟨h1.trans h.stWalkHead,h2.trans h.walk⟩
  · refine .inr ⟨h.ulNodes ▸ h1,h2,?_⟩
    rw [h3, osRbClearTree, osRbClearTree, h.stWalkHead, h.walk]

theorem Trimmed.trans_sameRest {t'' : LosRbTree K} (h : Trimmed t t') (h' : SameRest t' t'') : Trimmed t t'' := by
  refine ⟨h'.1.trans h.1,h'.2.trans h.2,h'.3.trans h.3,?_⟩
  rw [h'.stWalkHead, h'.walk]
  exact h.walks

theorem rep_deleteNodeFixup (h : Rep t (plug k s)) (hs : Short s n k) (hlen : k.length ≤ t.ulNodes + 1)
    (hnil : s = .nil → t.parent t.stNilT = up t.stNilT k) :
    ∃ T, Rep (osRbDeleteNodeFixup t (ptr t.stNilT s)) T ∧ T.IsRb ∧ T.inorder = (plug k s).inorder ∧
      Trimmed t (osRbDeleteNodeFixup t (ptr t.stNilT s)) := by
  obtain ⟨T,r,hrb,hin⟩ := rep_deleteLoop (t.ulNodes + 1) (.inl hlen) h hs hnil
  have hrest := sameRest_deleteLoop (t.ulNodes + 1) t (ptr t.stNilT s)
  rw [osRbDeleteNodeFixup]
  rcases he : deleteLoop (t.ulNodes + 1) t (ptr t.stNilT s) with ⟨t₁,node⟩
  rw [he] at r hrest
  simp only at r hrest ⊢
  have hrest' : SameRest t (t₁.setColor node .black) := hrest.trans sameRest_setColor
  split_ifs with h0
  · have h0' : (t₁.setColor node .black).ulNodes = 0 := h0
    have hclear : Trimmed (t₁.setColor node .black) (osRbClearTree (t₁.setColor node .black)) :=
      ⟨rfl,rfl,rfl,.inr ⟨h0',rfl,rfl⟩⟩
    exact ⟨T,r.setRest _ _ _ _,hrb,hin,hrest'.trans_trimmed hclear⟩
  · exact ⟨T,r,hrb,hin,hrest'.trimmed⟩

end LiteOsKernel.Rbtree
