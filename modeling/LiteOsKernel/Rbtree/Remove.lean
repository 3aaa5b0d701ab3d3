import LiteOsKernel.Rbtree.Search

/-! Deletion of a node: it is spliced out, or its successor takes its place. -/
namespace LiteOsKernel.Rbtree
open RbZipper RbTree LosRbTree

variable {K : Type} {t t' : LosRbTree K} {T s a b l r : RbTree Nat} {k k' : List (Frame Nat)} {p q x y z n : Nat} {c c' : Color} {d : Dir}

/-- The colour c of the node taken out above s: a black one leaves s short, a red one is not missed. -/
def Removed (c : Color) (s : RbTree Nat) (k : List (Frame Nat)) : Prop :=
  c = .black ∧ (∃ m, Short s m k) ∨ c = .red ∧ s.color = .black ∧ ∃ m, s.Balanced m ∧ Hole k m

private theorem removed_of_isRb (h : (plug k (join d c s z .nil)).IsRb) : Removed c s k := by
  obtain ⟨n,hn,hk,-,-⟩ := isRb_unplug h
  cases c with
  | red =>
    obtain ⟨hs,-,hb,-⟩ := balanced_red.mp hn
    exact .inr ⟨rfl,hs,n,hb,hk⟩
  | black =>
    obtain ⟨m,rfl,hs,-⟩ := balanced_black.mp hn
    refine .inl ⟨rfl,m,hk,?_⟩
    cases hc : s.color with
    | red => exact .inr ⟨rfl,hs.blacken_red hc⟩
    | black => exact .inl ⟨rfl,hs⟩

theorem Removed.relabel {f f' : Frame Nat} (h : Removed c s (k ++ f :: k')) (hc : f'.c = f.c) (hs : f'.sib = f.sib) :
    Removed c s (k ++ f' :: k') := by
  rcases h with ⟨rfl,m,hk,hm⟩ | ⟨rfl,hb,m,hm,hk⟩
  · exact .inl ⟨rfl,m,hk.relabel hc hs,hm⟩
  · exact .inr ⟨rfl,hb,m,hm,hk.relabel hc hs⟩

/-- The fix-up that follows the removal of a black node restores the balance. -/
private theorem rep_removed (h : Rep t (plug k s)) (hr : Removed c s k) (hlen : k.length ≤ t.ulNodes + 1)
    (hnil : s = .nil → t.parent t.stNilT = up t.stNilT k) :
    ∃ T, Rep (if c = .black then osRbDeleteNodeFixup t (ptr t.stNilT s) else t) T ∧ T.IsRb ∧
      T.inorder = (plug k s).inorder ∧
      Trimmed t (if c = .black then osRbDeleteNodeFixup t (ptr t.stNilT s) else t) := by
  rcases hr with ⟨rfl,m,hs⟩ | ⟨rfl,hb,m,hm,hk⟩
  · rw [if_pos rfl]
    exact rep_deleteNodeFixup h hs hlen hnil
  · rw [if_neg (by simp)]
    exact ⟨_,h,isRb_plug hm hk hb,rfl,(SameRest.refl t).trimmed⟩

private theorem sameRest_resetNode : SameRest t (resetNode t z) := ⟨rfl,rfl,rfl,rfl,rfl⟩

/-- Case A of OsRbDeleteNode: z has at most one child, s. -/
private theorem rep_deleteOne (h : Rep t (plug k (join d c s z .nil))) (hrb : (plug k (join d c s z .nil)).IsRb)
    (hlen : k.length ≤ t.ulNodes + 1) {t₁ : LosRbTree K} (ht₁ : spliceOut t z (ptr t.stNilT s) = t₁) :
    ∃ T, Rep (resetNode (if t₁.color z = .black then osRbDeleteNodeFixup t₁ (ptr t.stNilT s) else t₁) z) T ∧ T.IsRb ∧
      T.inorder = (plug k s).inorder ∧
      Trimmed t (resetNode (if t₁.color z = .black then osRbDeleteNodeFixup t₁ (ptr t.stNilT s) else t₁) z) := by
  have hzn := h.ne_nil (mem_plug_join k)
  have hcz : t.color z = c := (links_join.mp (rep_plug.mp h).2.1).2.1
  have hz : z ∉ (plug k s).inorder := by
    obtain ⟨-,-,-,hd,-⟩ := rep_plug.mp h
    obtain ⟨hds,-,hdis⟩ := List.nodup_append'.mp hd
    intro hm
    rcases List.mem_append.mp ((perm_plug k s).mem_iff.mp hm) with hm | hm
    · exact (nodup_join.mp hds).1 hm
    · exact hdis (mem_inorder_join.mpr (.inl rfl)) hm
  obtain ⟨h₁,hpar,hcol,hrest⟩ := rep_spliceOut h
  subst ht₁
  rw [hcol, hcz]
  have hnil : s = .nil → (spliceOut t z (ptr t.stNilT s)).parent (spliceOut t z (ptr t.stNilT s)).stNilT =
      up (spliceOut t z (ptr t.stNilT s)).stNilT k := by
    rintro rfl
    rw [hrest.stNilT, hpar]
    exact if_pos rfl
  obtain ⟨T,h₂,hrb',hin,hrest'⟩ := rep_removed h₁ (removed_of_isRb hrb) (by rw [hrest.ulNodes]; exact hlen) hnil
  rw [hrest.stNilT] at h₂ hrest'
  refine ⟨T,?_,hrb',hin,(hrest.trans_trimmed hrest').trans_sameRest sameRest_resetNode⟩
  refine h₂.setNode ?_ ?_ _
  · rw [hin]
    exact hz
  · rw [(hrest.trans_trimmed hrest').stNilT]
    exact hzn

/-- Case B of OsRbDeleteNode: the successor y, at the end of the path k' of the right subtree, takes the place of z. -/
private theorem rep_deleteTwo (h : Rep t (plug k (.node c l z (plug k' (.node c' .nil y b)))))
    (hrb : (plug k (.node c l z (plug k' (.node c' .nil y b)))).IsRb) (hl : l ≠ .nil)
    (hlen : (k' ++ ⟨.right,c,z,l⟩ :: k).length ≤ t.ulNodes + 1) {t₁ : LosRbTree K}
    (ht₁ : replaceNode (spliceOut t y (ptr t.stNilT b)) z y = t₁) :
    ∃ T, Rep (resetNode (if c' = .black then osRbDeleteNodeFixup t₁ (ptr t.stNilT b) else t₁) z) T ∧ T.IsRb ∧
      T.inorder = (plug k (.node c l y (plug k' b))).inorder ∧
      Trimmed t (resetNode (if c' = .black then osRbDeleteNodeFixup t₁ (ptr t.stNilT b) else t₁) z) := by
  have hplug : ∀ (v : Nat) (u : RbTree Nat), plug (k' ++ ⟨.right,c,v,l⟩ :: k) u = plug k (.node c l v (plug k' u)) :=
    fun v u => plug_append _ _ _
  have h' : Rep t (plug (k' ++ ⟨.right,c,z,l⟩ :: k) (join .right c' b y .nil)) := by
    rw [hplug]
    exact h
  have hrm : Removed c' b (k' ++ ⟨.right,c,z,l⟩ :: k) := by
    apply removed_of_isRb (d := .right) (z := y)
    rw [hplug]
    exact hrb
  have hzmem : z ∈ (plug k (.node c l z (plug k' (.node c' .nil y b)))).inorder := mem_plug_join (d := .left) k
  have hymem : y ∈ (plug (k' ++ ⟨.right,c,z,l⟩ :: k) (join .right c' b y .nil)).inorder := mem_plug_join _
  have hzn := h.ne_nil hzmem
  have hyn := h'.ne_nil hymem
  have hy0 : y ≠ 0 := fun he => h'.zero_notMem (he ▸ hymem)
  have hd := (rep_plug.mp h').2.2.2.1
  obtain ⟨hds,-,hdis⟩ := List.nodup_append'.mp hd
  have hy : y ∉ (plug (k' ++ ⟨.right,c,z,l⟩ :: k) b).inorder := by
    intro hm
    rcases List.mem_append.mp ((perm_plug _ b).mem_iff.mp hm) with hm | hm
    · exact (nodup_join.mp hds).1 hm
    · exact hdis (mem_inorder_join.mpr (.inl rfl)) hm
  obtain ⟨h₁,hpar₁,hcol₁,hrest₁⟩ := rep_spliceOut h'
  rw [hplug] at h₁ hy
  rw [← hrest₁.stNilT] at hyn
  obtain ⟨h₂,hrest₂,hpar₂,-⟩ := rep_replaceNode (y := y) h₁ hy hyn hy0
  have hrest := hrest₁.trans hrest₂
  have hnil : b = .nil → (replaceNode (spliceOut t y (ptr t.stNilT b)) z y).parent
      (replaceNode (spliceOut t y (ptr t.stNilT b)) z y).stNilT =
      up (replaceNode (spliceOut t y (ptr t.stNilT b)) z y).stNilT (k' ++ ⟨.right,c,y,l⟩ :: k) := by
    rintro rfl
    rw [hrest.stNilT, hpar₂, hrest₁.stNilT]
    cases k' with
    | nil => exact if_pos rfl
    | cons f k' =>
      have hn₁ : (spliceOut t y (ptr t.stNilT .nil)).stNilT ∉ (plug (f :: k') .nil).inorder := fun hm =>
        h₁.nil_notMem ((perm_plug k _).mem_iff.mpr (List.mem_append_left _ (mem_inorder_join (d := .left).mpr (.inr (.inr hm)))))
      have hn₂ : (spliceOut t y (ptr t.stNilT .nil)).stNilT ∉ l.inorder := fun hm =>
        h₁.nil_notMem ((perm_plug k _).mem_iff.mpr (List.mem_append_left _ (mem_inorder_join (d := .left).mpr (.inr (.inl hm)))))
      have hne : plug (f :: k') (.nil : RbTree Nat) ≠ .nil := by
        intro he
        have hm : f.p ∈ (plug (f :: k') (.nil : RbTree Nat)).inorder := (perm_plug _ _).mem_iff.mpr (by simp [outer, inorder])
        rw [he] at hm
        cases hm
      rw [hrest₁.stNilT] at hn₁ hn₂ hyn
      rw [if_neg (ptr_ne_nil hn₁ hne), if_neg (ptr_ne_nil hn₂ hl), if_neg (Ne.symm hyn), hpar₁]
      exact if_pos rfl
  subst ht₁
  have h₃ : Rep (replaceNode (spliceOut t y (ptr t.stNilT b)) z y) (plug (k' ++ ⟨.right,c,y,l⟩ :: k) b) := by
    rw [hplug]
    exact h₂
  have hlen' : (k' ++ ⟨.right,c,y,l⟩ :: k).length ≤ (replaceNode (spliceOut t y (ptr t.stNilT b)) z y).ulNodes + 1 := by
    rw [hrest.ulNodes]
    simpa using hlen
  obtain ⟨T,h₄,hrb',hin,hrest'⟩ := rep_removed h₃ (hrm.relabel rfl rfl) hlen' hnil
  rw [hrest.stNilT] at h₄ hrest'
  rw [hplug] at hin
  refine ⟨T,?_,hrb',hin,(hrest.trans_trimmed hrest').trans_sameRest sameRest_resetNode⟩
  refine h₄.setNode ?_ ?_ _
  · rw [hin]
    intro hm
    have hd' := h.nodup
    have hzd : z ∉ l.inorder ∧ z ∉ (plug k' (.node c' .nil y b)).inorder ∧ z ∉ outer k := by
      have := (perm_plug k (.node c l z (plug k' (.node c' .nil y b)))).nodup_iff.mp hd'
      obtain ⟨h1,-,h3⟩ := List.nodup_append'.mp this
      obtain ⟨h4,h5,-⟩ := nodup_join (d := .left).mp h1
      exact ⟨h4,h5,fun hm => h3 (mem_inorder_join (d := .left).mpr (.inl rfl)) hm⟩
    have hz' : z ∉ (RbTree.node c' .nil y b).inorder ++ outer k' := fun hm => hzd.2.1 ((perm_plug k' _).mem_iff.mpr hm)
    rcases List.mem_append.mp ((perm_plug k _).mem_iff.mp hm) with hm | hm
    · rcases mem_inorder_join (d := .left).mp hm with he | hm | hm
      · apply hz'
        rw [he]
        exact List.mem_append_left _ (mem_inorder_join (d := .left).mpr (.inl rfl))
      · exact hzd.1 hm
      · rcases List.mem_append.mp ((perm_plug k' _).mem_iff.mp hm) with hm | hm
        · exact hz' (List.mem_append_left _ (mem_inorder_join (d := .left).mpr (.inr (.inr hm))))
        · exact hz' (List.mem_append_right _ hm)
    · exact hzd.2.2 hm
  · rw [(hrest.trans_trimmed hrest').stNilT]
    exact hzn

private theorem Rep.parent_eq_nil (h : Rep t (plug k (join d c a z b))) (hp : t.parent z = t.stNilT) : t.pstRoot = z := by
  obtain ⟨hr,hl,-,-,hn,-⟩ := rep_plug.mp h
  rw [(links_join.mp hl).1] at hp
  cases k with
  | nil =>
    rw [hr, ptr_join]
    rfl
  | cons f k =>
    apply absurd _ hn
    rw [← hp]
    exact List.mem_append_right _ (by simp [up, outer])

theorem erase_middle {l r : List Nat} (h : (l ++ z :: r).Nodup) : (l ++ z :: r).erase z = l ++ r := by
  rw [List.nodup_middle, List.nodup_cons, List.mem_append, not_or] at h
  rw [List.erase_append_right _ h.1.1, List.erase_cons_head]

/-- The tree after OsRbDeleteNode has taken the node z out of T. -/
structure Deleted (t t' : LosRbTree K) (T : RbTree Nat) (z : Nat) : Prop where
  rep : ∃ T', Rep t' T' ∧ T'.IsRb ∧ T'.inorder = T.inorder.erase z
  stNilT : t'.stNilT = t.stNilT
  key : t'.key = t.key
  ulNodes : t'.ulNodes = t.ulNodes - 1
  reset : t'.node z = { pstParent := t.stNilT, pstRight := t.stNilT, pstLeft := t.stNilT, lColor := .red }
  trimmed : Trimmed (moveWalks { t with ulNodes := t.ulNodes - 1 } z) t'

theorem rep_deleteNode (h : Rep t T) (hrb : T.IsRb) (hlen : T.inorder.length = t.ulNodes) (hz : z ∈ T.inorder) :
    Deleted t (osRbDeleteNode t z) T z := by
  obtain ⟨k,c,l,r,rfl⟩ := exists_plug hz
  have hz0 : z ≠ 0 := fun he => h.zero_notMem (he ▸ hz)
  have hnot := isNotNilT_plug (d := .left) h
  have hguard : ¬(t.parent z = t.stNilT ∧ t.child .left z = t.stNilT ∧ t.child .right z = t.stNilT ∧ t.pstRoot ≠ z) :=
    fun hg => hg.2.2.2 (Rep.parent_eq_nil (d := .left) h hg.1)
  have hpath := length_path k (.node c l z r)
  rw [osRbDeleteNode, if_neg hz0, hnot]
  simp only [Bool.not_true, Bool.false_eq_true, if_false]
  rw [if_neg hguard]
  set t₀ := moveWalks { t with ulNodes := t.ulNodes - 1 } z with ht₀
  have hn₀ : t₀.stNilT = t.stNilT := rfl
  have hu₀ : t₀.ulNodes = t.ulNodes - 1 := rfl
  have h₀ : Rep t₀ (plug k (.node c l z r)) := h.setRest _ _ _ _
  obtain ⟨-,hl,-,-,hn,-⟩ := rep_plug.mp h₀
  obtain ⟨-,-,h3,h4,h5,h6⟩ := hl
  have hnl : t₀.stNilT ∉ l.inorder := fun hm => hn (List.mem_append_left _ (mem_inorder_join (d := .left).mpr (.inr (.inl hm))))
  have hnr : t₀.stNilT ∉ r.inorder := fun hm => hn (List.mem_append_left _ (mem_inorder_join (d := .left).mpr (.inr (.inr hm))))
  have hin : (plug k (.node c l z r)).inorder = (before k ++ l.inorder) ++ z :: (r.inorder ++ after k) := by
    rw [inorder_plug, inorder]
    simp
  have herase := erase_middle (hin ▸ h.nodup)
  rw [← hin] at herase
  have hlr : (RbTree.node c l z r).inorder.length = l.inorder.length + (r.inorder.length + 1) := by
    rw [inorder, List.length_append, List.length_cons]
  rw [h3, h4, ← hn₀]
  have hdone : ∀ {t' : LosRbTree K} {T' : RbTree Nat}, Rep (resetNode t' z) T' → T'.IsRb →
      T'.inorder = (before k ++ l.inorder) ++ (r.inorder ++ after k) → Trimmed t₀ (resetNode t' z) →
      Deleted t (resetNode t' z) (plug k (.node c l z r)) z := by
    intro t' T' hr hb hi hs
    have hn' : t'.stNilT = t.stNilT := hs.stNilT
    refine ⟨⟨_,hr,hb,hi.trans herase.symm⟩,hs.stNilT,hs.key,hs.ulNodes,?_,hs⟩
    rw [← hn']
    exact if_pos rfl
  by_cases hlnil : l = .nil
  · subst hlnil
    have hchild : (if t₀.stNilT ≠ ptr t₀.stNilT .nil then ptr t₀.stNilT .nil else ptr t₀.stNilT r) = ptr t₀.stNilT r :=
      if_neg fun hc => hc rfl
    rw [if_pos (.inl rfl), hchild]
    obtain ⟨T',hr,hb,hi,hs⟩ := rep_deleteOne (d := .right) h₀ hrb (by omega) rfl
    refine hdone hr hb ?_ hs
    rw [hi, inorder_plug]
    simp [inorder]
  · have hl' : t₀.stNilT ≠ ptr t₀.stNilT l := ptr_ne_nil hnl hlnil
    by_cases hrnil : r = .nil
    · subst hrnil
      rw [if_pos (.inr rfl), if_pos hl']
      obtain ⟨T',hr,hb,hi,hs⟩ := rep_deleteOne (d := .left) h₀ hrb (by omega) rfl
      refine hdone hr hb ?_ hs
      rw [hi, inorder_plug]
      simp [inorder]
    · have hr' : t₀.stNilT ≠ ptr t₀.stNilT r := ptr_ne_nil hnr hrnil
      rw [if_neg (not_or.mpr ⟨hl',hr'⟩)]
      obtain ⟨k',c',y,b,rfl,hbef,hy⟩ := exists_leftmost h6 hnr hrnil (show _ ≤ t₀.ulNodes + 1 by omega)
      have hpath' := length_path k' (.node c' .nil y b)
      have hlen' : (k' ++ ⟨.right,c,z,l⟩ :: k).length ≤ t₀.ulNodes + 1 := by
        rw [List.length_append, List.length_cons]
        omega
      have hplug : Rep t₀ (plug (k' ++ ⟨.right,c,z,l⟩ :: k) (.node c' .nil y b)) := by
        rw [plug_append]
        exact h₀
      obtain ⟨-,⟨-,hcy,-,hby,-,-⟩,-⟩ := rep_plug.mp hplug
      rw [hy, hby, hcy]
      obtain ⟨T',hr,hb,hi,hs⟩ := rep_deleteTwo h₀ hrb hlnil hlen' rfl
      refine hdone hr hb ?_ hs
      rw [hi, inorder_plug, inorder, inorder_plug, inorder_plug, hbef]
      simp [inorder]

/-- A node that was deleted and not added again is left alone. -/
theorem deleteNode_again (h : Rep t T) (hrb : T.IsRb) (hlen : T.inorder.length = t.ulNodes) (hz : z ∈ T.inorder) :
    osRbDeleteNode (osRbDeleteNode t z) z = osRbDeleteNode t z := by
  obtain ⟨⟨T',hr,-,hin⟩,hn,-,-,hreset⟩ := rep_deleteNode h hrb hlen hz
  have hz0 : z ≠ 0 := fun he => h.zero_notMem (he ▸ hz)
  have hz' : z ∉ T'.inorder := by
    rw [hin, h.nodup.mem_erase_iff]
    exact fun hm => hm.1 rfl
  set t' := osRbDeleteNode t z
  have hchild : ∀ e, t'.child e z = t'.stNilT := by
    intro e
    rw [hn]
    cases e with
    | left => exact congrArg LosRbNode.pstLeft hreset
    | right => exact congrArg LosRbNode.pstRight hreset
  have hparent : t'.parent z = t'.stNilT := by
    rw [hn]
    exact congrArg LosRbNode.pstParent hreset
  have hroot : t'.pstRoot ≠ z := by
    rw [hr.root]
    exact ptr_ne hz' (by rw [hn]; exact h.ne_nil hz)
  have hnot : isNotNilT t' z = true := by
    rw [isNotNilT, hchild, hchild]
    simp [hr.nil_ne]
  rw [osRbDeleteNode, if_neg hz0, hnot]
  simp only [Bool.not_true, Bool.false_eq_true, if_false]
  exact if_pos ⟨hparent,hchild _,hchild _,hroot⟩

end LiteOsKernel.Rbtree
