import LiteOsKernel.Rbtree.Delete

/-! Search by key, first and next node, and the scan of the whole tree. -/
namespace LiteOsKernel.Rbtree
open RbZipper RbTree LosRbTree

variable {K : Type} {t t' : LosRbTree K} {T s a b : RbTree Nat} {k : List (Frame Nat)} {p q x y par fuel : Nat} {c : Color} {d : Dir}

theorem ptr_ne_nil {nilT : Nat} (hn : nilT ∉ s.inorder) (hs : s ≠ .nil) : nilT ≠ ptr nilT s := by
  intro he
  apply hn
  rw [he]
  exact ptr_mem hs

theorem Rep.ptr_ne_zero (h : Rep t (plug k s)) : ptr t.stNilT s ≠ 0 := by
  obtain ⟨-,-,-,-,-,h0,hn0,-⟩ := rep_plug.mp h
  cases s with
  | nil => exact hn0
  | node c l p r =>
    intro he
    apply h0
    rw [← he]
    exact List.mem_append_left _ (ptr_mem (by simp))

/-- Going down the left children of a subtree ends at a node without a left child. -/
theorem exists_leftmost : ∀ {s : RbTree Nat} {par fuel : Nat}, Links t par s → t.stNilT ∉ s.inorder → s ≠ .nil →
    s.inorder.length ≤ fuel →
    ∃ k c y r, s = plug k (.node c .nil y r) ∧ before k = [] ∧ leftmost t fuel (ptr t.stNilT s) = y := by
  intro s
  induction s with
  | nil =>
    intro par fuel _ _ hs
    exact absurd rfl hs
  | node c l p r ihl _ =>
    intro par fuel ⟨_,_,h3,_,h5,_⟩ hn _ hlen
    rw [inorder, List.length_append, List.length_cons] at hlen
    rcases fuel with - | fuel
    · omega
    have hn' : t.stNilT ∉ l.inorder := fun hm => hn (List.mem_append_left _ hm)
    by_cases hl : l = .nil
    · subst hl
      refine ⟨[],c,p,r,rfl,rfl,?_⟩
      rw [ptr, leftmost, h3, if_neg (by simp)]
    · obtain ⟨k,c',y,r',he,hb,hy⟩ := ihl h5 hn' hl (show l.inorder.length ≤ fuel by omega)
      refine ⟨k ++ [⟨.left,c,p,r⟩],c',y,r',?_,?_,?_⟩
      · rw [plug_append, ← he]
        rfl
      · rw [before_append, hb]
        rfl
      · rw [ptr, leftmost, h3, if_pos (ptr_ne_nil hn' hl)]
        exact hy

private theorem length_outer (k : List (Frame Nat)) : k.length ≤ (outer k).length := by
  induction k with
  | nil => exact Nat.le_refl _
  | cons f k ih =>
    rw [outer, List.length_cons, List.length_cons, List.length_append]
    omega

theorem length_path (k : List (Frame Nat)) (s : RbTree Nat) : k.length + s.inorder.length ≤ (plug k s).inorder.length := by
  have := (perm_plug k s).length_eq
  rw [List.length_append] at this
  have := length_outer k
  omega

/-- The leftmost node of a subtree is the first one in order. -/
private theorem head_inorder (hl : Links t par s) (hn : t.stNilT ∉ s.inorder) (hs : s ≠ .nil) (hlen : s.inorder.length ≤ fuel) :
    s.inorder.head? = some (leftmost t fuel (ptr t.stNilT s)) := by
  obtain ⟨k,c,y,r,rfl,hb,hy⟩ := exists_leftmost hl hn hs hlen
  rw [hy, inorder_plug, hb]
  rfl

theorem losRbFirstNode_eq (h : Rep t T) (hlen : T.inorder.length ≤ t.ulNodes) :
    losRbFirstNode t = T.inorder.head?.getD 0 := by
  have hroot0 : t.pstRoot ≠ 0 := by
    rw [h.root]
    exact Rep.ptr_ne_zero (k := []) h
  rw [losRbFirstNode, if_neg hroot0, h.root]
  by_cases hT : T = .nil
  · rw [hT, ptr_nil, if_pos rfl]
    rfl
  · have hh := head_inorder (t := t) (s := T) h.links h.nil_notMem hT (Nat.le_succ_of_le hlen)
    rw [if_neg (ptr_ne_nil h.nil_notMem hT), hh]
    rfl

/-- The climb from a subtree ends at the next node in order after it. -/
private theorem climb_eq : ∀ {k : List (Frame Nat)} {x fuel : Nat}, PathLinks t x k → x ≠ t.stNilT → x ∉ outer k → (outer k).Nodup →
    t.stNilT ∉ outer k → k.length ≤ fuel → climb t fuel x (up t.stNilT k) = (after k).head?.getD t.stNilT := by
  intro k
  induction k with
  | nil =>
    intro x fuel _ _ _ _ _ _
    cases fuel with
    | zero => rfl
    | succ fuel => rw [climb, if_neg (fun h => h.1 rfl)]; rfl
  | cons f k ih =>
    intro x fuel h hx hxo hd hn hlen
    obtain ⟨h1,h2,h3,h4,h5,h6⟩ := h
    rcases fuel with - | fuel
    · simp at hlen
    have hfn : t.stNilT ≠ f.p := fun he => hn (by rw [he, outer]; exact List.mem_cons_self)
    have hsib : ptr t.stNilT f.sib ≠ x := ptr_ne (fun hm => hxo (by rw [outer]; simp [hm])) hx
    rw [outer, List.nodup_cons] at hd
    rw [climb, up, after]
    cases hfd : f.d with
    | left =>
      rw [hfd] at h4
      rw [if_neg (fun hc => hsib (h4.symm.trans hc.2.symm))]
      rfl
    | right =>
      rw [hfd] at h3
      rw [if_pos ⟨hfn,h3.symm⟩, h1]
      refine ih h6 (Ne.symm hfn) (fun hm => hd.1 (List.mem_append_right _ hm)) (List.nodup_append'.mp hd.2).2.1 ?_ ?_
      · intro hm
        apply hn
        rw [outer]
        exact List.mem_cons_of_mem _ (List.mem_append_right _ hm)
      · simp at hlen
        omega

theorem isNotNilT_plug (h : Rep t (plug k (join d c a x b))) : isNotNilT t x = true := by
  have ha : ptr t.stNilT a ≠ 0 := Rep.ptr_ne_zero (k := ⟨d,c,x,b⟩ :: k) h
  have hb : ptr t.stNilT b ≠ 0 := Rep.ptr_ne_zero (k := ⟨d.flip,c,x,a⟩ :: k) (by rw [plug, Frame.fill, join_flip]; exact h)
  obtain ⟨-,hl,-⟩ := rep_plug.mp h
  obtain ⟨-,-,h3,h4,-,-⟩ := links_join.mp hl
  rw [isNotNilT]
  cases d with
  | left => simp [h3, show t.child .right x = _ from h4, ha, hb]
  | right => simp [h3, show t.child .left x = _ from h4, ha, hb]

private theorem successor_plug (h : Rep t (plug k (.node c a x b))) (hlen : (plug k (.node c a x b)).inorder.length ≤ t.ulNodes + 1) :
    losRbSuccessorNode t x = (b.inorder ++ after k).head?.getD 0 := by
  have hmem : x ∈ (plug k (.node c a x b)).inorder := mem_plug_join (d := .left) k
  have hxn := h.ne_nil hmem
  have hx0 : x ≠ 0 := fun he => h.zero_notMem (he ▸ hmem)
  have hnot := isNotNilT_plug (d := .left) h
  obtain ⟨-,hl,hpl,hd,hn,h0,-,-⟩ := rep_plug.mp h
  obtain ⟨h1,h2,h3,h4,h5,h6⟩ := hl
  have hle := length_path k (.node c a x b)
  rw [losRbSuccessorNode, if_neg hx0, hnot]
  simp only [Bool.not_true, Bool.false_eq_true, if_false]
  by_cases hb : b = .nil
  · subst hb
    rw [h4, if_neg (by simp), h1]
    have hxo : x ∉ outer k := fun hm => (List.nodup_append'.mp hd).2.2 (mem_inorder_join (d := .left).mpr (.inl rfl)) hm
    have hclimb := @climb_eq K t k x (t.ulNodes + 1) hpl hxn hxo (List.nodup_append'.mp hd).2.1
      (fun hm => hn (List.mem_append_right _ hm)) (by omega)
    rw [hclimb, show (RbTree.nil : RbTree Nat).inorder = [] from rfl, List.nil_append]
    cases ha : after k with
    | nil => simp
    | cons y l =>
      have hy : y ∈ (plug k (.node c a x .nil)).inorder := by
        rw [inorder_plug, ha]
        simp
      exact if_neg (h.ne_nil hy).symm
  · have hnb : t.stNilT ∉ b.inorder := fun hm => hn (List.mem_append_left _ (mem_inorder_join (d := .left).mpr (.inr (.inr hm))))
    have hlb : (RbTree.node c a x b).inorder.length = a.inorder.length + (b.inorder.length + 1) := by
      rw [inorder, List.length_append, List.length_cons]
    have hh := head_inorder h6 hnb hb (show b.inorder.length ≤ t.ulNodes + 1 by omega)
    rw [h4, if_pos (ptr_ne_nil hnb hb), List.head?_append, hh]
    rfl

/-- The successor of a node is the next one in order; the count may already miss the node that is to be deleted. -/
theorem losRbSuccessorNode_eq {l r : List Nat} (h : Rep t T) (hlen : T.inorder.length ≤ t.ulNodes + 1)
    (hT : T.inorder = l ++ x :: r) : losRbSuccessorNode t x = r.head?.getD 0 := by
  obtain ⟨k,c,a,b,rfl⟩ := exists_plug (p := x) (t := T) (by rw [hT]; simp)
  rw [successor_plug h hlen]
  have hd := h.nodup
  have hin : (plug k (.node c a x b)).inorder = (before k ++ a.inorder) ++ x :: (b.inorder ++ after k) := by
    rw [inorder_plug, inorder]
    simp
  rw [hT] at hin
  rw [hT, List.nodup_middle, List.nodup_cons, List.mem_append, not_or] at hd
  obtain ⟨-,-,he⟩ := (List.append_cons_inj_of_notMem hd.1.1 hd.1.2).mp hin
  rw [he]

private theorem scanFrom_eq (h : Rep t T) (hlen : T.inorder.length ≤ t.ulNodes) : ∀ {r l : List Nat} {fuel : Nat},
    T.inorder = l ++ r → r.length < fuel → scanFrom t fuel (r.head?.getD 0) = r := by
  intro r
  induction r with
  | nil =>
    intro l fuel _ hf
    cases fuel with
    | zero => cases hf
    | succ fuel => rw [scanFrom, List.head?_nil, Option.getD_none, if_pos rfl]
  | cons x r ih =>
    intro l fuel hT hf
    cases fuel with
    | zero => cases hf
    | succ fuel =>
      have hx0 : x ≠ 0 := fun he => h.zero_notMem (by rw [hT, he]; simp)
      rw [scanFrom, List.head?_cons, Option.getD_some, if_neg hx0, losRbSuccessorNode_eq h (Nat.le_succ_of_le hlen) hT]
      rw [ih (l := l ++ [x]) (by rw [hT]; simp) (by simp at hf; omega)]

/-- The scan lists the nodes in order. -/
theorem scan_eq (h : Rep t T) (hlen : T.inorder.length = t.ulNodes) : scan t = T.inorder := by
  rw [scan, losRbFirstNode_eq h (by omega)]
  exact scanFrom_eq h (by omega) (l := []) rfl (by omega)

variable {cmp : K → K → Cmp} {key : K}

/-- Along the list of nodes the comparisons of the key go from bigger over equal to smaller. -/
def Monotone (cmp : K → K → Cmp) (t : LosRbTree K) (key : K) (l : List Nat) : Prop :=
  l.Pairwise fun p q => (cmp key (t.key p) = .smaller → cmp key (t.key q) = .smaller) ∧
    (cmp key (t.key q) = .bigger → cmp key (t.key p) = .bigger)

/-- The key compares as bigger with all nodes before the subtree, and as smaller with all nodes after it. -/
def Between (cmp : K → K → Cmp) (t : LosRbTree K) (key : K) (k : List (Frame Nat)) : Prop :=
  (∀ q ∈ before k, cmp key (t.key q) = .bigger) ∧ ∀ q ∈ after k, cmp key (t.key q) = .smaller

theorem Between.left (h : Between cmp t key k) (hx : cmp key (t.key x) = .smaller)
    (hm : Monotone cmp t key (plug k (.node c a x b)).inorder) : Between cmp t key (⟨.left,c,x,b⟩ :: k) := by
  refine ⟨fun q hq => h.1 q (by simpa [before] using hq),fun q hq => ?_⟩
  rcases List.mem_append.mp hq with hq | hq
  · rcases List.mem_cons.mp hq with rfl | hq
    · exact hx
    · rw [inorder_plug, inorder, Monotone, List.pairwise_append, List.pairwise_append, List.pairwise_append] at hm
      exact (List.rel_of_pairwise_cons hm.1.2.1.2.1 hq).1 hx
  · exact h.2 q hq

theorem Between.right (h : Between cmp t key k) (hx : cmp key (t.key x) = .bigger)
    (hm : Monotone cmp t key (plug k (.node c a x b)).inorder) : Between cmp t key (⟨.right,c,x,a⟩ :: k) := by
  refine ⟨fun q hq => ?_,fun q hq => h.2 q (by simpa [after] using hq)⟩
  rcases List.mem_append.mp hq with hq | hq
  · exact h.1 q hq
  · rcases List.mem_append.mp hq with hq | hq
    · rw [inorder_plug, inorder, Monotone, List.pairwise_append, List.pairwise_append, List.pairwise_append] at hm
      exact (hm.1.2.1.2.2 q hq x List.mem_cons_self).2 hx
    · rw [List.mem_singleton] at hq
      rw [hq]
      exact hx

/-- The search loop from the root of a subtree: it finds a node that compares as equal, or ends at the place
where the key belongs. -/
private theorem getLoop_spec (hm : Monotone cmp t key T.inorder) (h : Rep t T) :
    ∀ {s : RbTree Nat} {k : List (Frame Nat)} {fuel y : Nat}, T = plug k s → Between cmp t key k →
    s.inorder.length < fuel → (s = .nil → y = up t.stNilT k) →
    (∃ x, getLoop cmp t key fuel (ptr t.stNilT s) y = (true,x) ∧ x ∈ T.inorder ∧ cmp key (t.key x) = .equal) ∨
    ∃ k', getLoop cmp t key fuel (ptr t.stNilT s) y = (false,up t.stNilT k') ∧ T = plug k' .nil ∧ Between cmp t key k' := by
  intro s
  induction s with
  | nil =>
    intro k fuel y hT hb hf hy
    rcases fuel with - | fuel
    · cases hf
    refine .inr ⟨k,?_,hT,hb⟩
    rw [getLoop, ptr_nil, if_neg (by simp), hy rfl]
  | node c l x r ihl ihr =>
    intro k fuel y hT hb hf _
    rcases fuel with - | fuel
    · cases hf
    rw [inorder, List.length_append, List.length_cons] at hf
    have hx : x ∈ T.inorder := by
      rw [hT]
      exact mem_plug_join (d := .left) k
    have hl : Links t (up t.stNilT k) (.node c l x r) := (rep_plug.mp (hT ▸ h)).2.1
    obtain ⟨-,-,h3,h4,-,-⟩ := hl
    rw [hT] at hm
    rw [getLoop, ptr, if_pos (h.ne_nil hx)]
    cases hcmp : cmp key (t.key x) with
    | equal => exact .inl ⟨x,rfl,hx,hcmp⟩
    | smaller =>
      simp only [h3]
      exact ihl (k := ⟨.left,c,x,r⟩ :: k) hT (hb.left hcmp hm) (by omega) fun _ => rfl
    | bigger =>
      simp only [h4]
      exact ihr (k := ⟨.right,c,x,l⟩ :: k) hT (hb.right hcmp hm) (by omega) fun _ => rfl

theorem losRbGetNode_spec (h : Rep t T) (hlen : T.inorder.length = t.ulNodes) (hm : Monotone cmp t key T.inorder) :
    (∃ x, losRbGetNode cmp t key = (true,x) ∧ x ∈ T.inorder ∧ cmp key (t.key x) = .equal) ∨
    ∃ k, losRbGetNode cmp t key = (false,up t.stNilT k) ∧ T = plug k .nil ∧ Between cmp t key k := by
  rw [losRbGetNode, h.root]
  refine getLoop_spec hm h (k := []) rfl ⟨by simp [before],by simp [after]⟩ (by omega) fun hT => ?_
  rw [hT]
  rfl

/-- No node compares as equal with a key that belongs between two neighbours. -/
theorem Between.ne_equal (hb : Between cmp t key k) (hq : q ∈ (plug k .nil).inorder) : cmp key (t.key q) ≠ .equal := by
  rw [inorder_plug] at hq
  rcases List.mem_append.mp hq with hq | hq
  · rw [hb.1 q (by simpa [inorder] using hq)]
    simp
  · rw [hb.2 q hq]
    simp

end LiteOsKernel.Rbtree
