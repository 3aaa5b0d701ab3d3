import LiteOsKernel.Rbtree.Run
import LiteOsKernel.Lib.Run

/-! Protected walks: every walker stands at the first node that it has still to return, also when nodes are deleted. -/
namespace LiteOsKernel.Rbtree
open RbZipper RbTree LosRbTree

variable {K : Type} {cmp : K → K → Cmp} {t t' : LosRbTree K} {T T' : RbTree Nat} {i j p q z : Nat} {R l r : List Nat} {P S : Set Nat}

/-- NULL, or a node with the links that a deletion leaves. -/
def Unlinked (t : LosRbTree K) (p : Nat) : Prop :=
  p = 0 ∨ p ≠ t.stNilT ∧ t.parent p = t.stNilT ∧ t.child .left p = t.stNilT ∧ t.child .right p = t.stNilT

instance : Decidable (Unlinked t p) := inferInstanceAs (Decidable (_ ∨ _))

/-- A tree with its walkers: the nodes that it stores, the walkers in use, and for each of them the nodes stored when it
was created and the nodes that it has returned. -/
structure WalkHist (K : Type) where
  tree : LosRbTree K
  stored : Set Nat
  walkers : Set Nat
  present : Nat → Set Nat
  returned : Nat → List Nat

inductive WalkCall where
  | createWalk (i : Nat)
  | walkNext (i : Nat)
  | deleteWalk (i : Nat)
  | delNode (p : Nat)

def WalkHist.run (x : WalkHist K) : WalkCall → WalkHist K
  | .createWalk i =>
    { x with
      tree := (losRbCreateWalk x.tree i).1
      walkers := { j | j ∈ x.walkers ∨ j = i ∧ (losRbCreateWalk x.tree i).2 = true }
      present := fun j => if j = i then x.stored else x.present j
      returned := fun j => if j = i then [] else x.returned j }
  | .walkNext i =>
    let p := (losRbWalkNext x.tree i).2
    { x with
      tree := (losRbWalkNext x.tree i).1
      returned := fun j => if j = i ∧ p ≠ 0 then x.returned i ++ [p] else x.returned j }
  | .deleteWalk i => { x with tree := losRbDeleteWalk x.tree i, walkers := x.walkers \ {i} }
  | .delNode p => { x with tree := losRbDelNode x.tree p, stored := x.stored \ {p} }

/-- Walks on a red-black tree. A new walker is memory not in use; the nodes deleted are stored, or were deleted before. -/
@[reducible] def walkSystem (cmp : K → K → Cmp) : Run.System (WalkHist K) WalkCall where
  init x := (∃ T, Holds cmp x.tree T x.stored) ∧ x.walkers = ∅
  pre x
    | .createWalk i => i ∉ x.walkers ∧ i ∉ x.tree.stWalkHead
    | .walkNext i => i ∈ x.walkers
    | .deleteWalk i => i ∈ x.walkers
    | .delNode p => p ∈ x.stored ∨ Unlinked x.tree p
  run := WalkHist.run

/-- The nodes that further calls of LOS_RbWalkNext return, up to NULL. -/
def walkOut (i : Nat) : Nat → LosRbTree K → List Nat
  | 0, _ => []
  | fuel + 1, t =>
    let (t, p) := losRbWalkNext t i
    if p = 0 then [] else p :: walkOut i fuel t

/-- The walker i, created when the tree stored P, has returned R and stands between the nodes l and r of the tree. -/
structure Standing (cmp : K → K → Cmp) (t : LosRbTree K) (T : RbTree Nat) (i : Nat) (P : Set Nat) (R l r : List Nat) : Prop where
  inorder : T.inorder = l ++ r
  pstCurrNode : (t.walk i).pstCurrNode = r.head?.getD 0
  linked : r ≠ [] → (t.walk i).attached = true ∧ i ∈ t.stWalkHead
  returned : ∀ q ∈ l, q ∈ R
  increasing : Increasing cmp t (R ++ r)
  present : ∀ q ∈ R ++ r, q ∈ P

/-- What a walker sees of another tree with the same keys. -/
theorem Standing.congr (h : Standing cmp t T i P R l r) (hk : t'.key = t.key) (hw : t'.walk i = t.walk i)
    (hl : i ∈ t.stWalkHead → i ∈ t'.stWalkHead) : Standing cmp t' T i P R l r := by
  refine ⟨h.inorder,?_,fun hr => ?_,h.returned,?_,h.present⟩
  · rw [hw]
    exact h.pstCurrNode
  · rw [hw]
    exact ⟨(h.linked hr).1,hl (h.linked hr).2⟩
  · rw [Increasing, hk]
    exact h.increasing

-- The calls of a walker

private theorem createWalk_spec (h : Holds cmp t T S) :
    S = ∅ ∧ losRbCreateWalk t i = (t,false) ∨
    ∃ t', losRbCreateWalk t i = (t',true) ∧ Holds cmp t' T S ∧ Standing cmp t' T i S [] [] T.inorder ∧
      t'.key = t.key ∧ ∀ j ≠ i, t'.walk j = t.walk j ∧ (j ∈ t.stWalkHead → j ∈ t'.stWalkHead) := by
  have hfirst := losRbFirstNode_eq h.rep (Nat.le_of_eq h.length_eq)
  rw [losRbCreateWalk, hfirst]
  cases hT : T.inorder with
  | nil =>
    refine .inl ⟨?_,if_pos rfl⟩
    ext q
    rw [← h.mem_iff, hT]
    simp
  | cons x r =>
    have hx0 : x ≠ 0 := fun he => h.rep.zero_notMem (by rw [hT, he]; exact List.mem_cons_self)
    refine .inr ⟨_,if_neg hx0,?_,?_,rfl,fun j hj => ⟨if_neg hj,List.mem_cons_of_mem _⟩⟩
    · exact ⟨h.rep.setRest _ _ _ _,h.isRb,h.length_eq,h.increasing,h.mem_iff⟩
    · refine ⟨hT,?_,fun _ => ⟨?_,List.mem_cons_self⟩,by simp,?_,fun q hq => ?_⟩
      · exact congrArg LosRbWalk.pstCurrNode (if_pos rfl)
      · exact congrArg LosRbWalk.attached (if_pos rfl)
      · rw [← hT]
        exact h.increasing
      · rw [← h.mem_iff, hT]
        exact hq

private theorem walkNext_spec (h : Holds cmp t T S) (hi : Standing cmp t T i P R l r) :
    r = [] ∧ losRbWalkNext t i = (t,0) ∨
    ∃ x r' t', r = x :: r' ∧ x ≠ 0 ∧ losRbWalkNext t i = (t',x) ∧ t'.ulNodes = t.ulNodes ∧ Holds cmp t' T S ∧
      Standing cmp t' T i P (R ++ [x]) (l ++ [x]) r' ∧ t'.key = t.key ∧
      ∀ j ≠ i, t'.walk j = t.walk j ∧ (j ∈ t.stWalkHead → j ∈ t'.stWalkHead) := by
  have hcurr := hi.pstCurrNode
  rw [losRbWalkNext]
  cases r with
  | nil => exact .inl ⟨rfl,if_pos (.inl hcurr)⟩
  | cons x r =>
    obtain ⟨hatt,hlink⟩ := hi.linked (by simp)
    have hcurr' : (t.walk i).pstCurrNode = x := hcurr
    have hx0 : x ≠ 0 := fun he => h.rep.zero_notMem (by rw [hi.inorder, he]; simp)
    have hnot : ¬((t.walk i).pstCurrNode = 0 ∨ (t.walk i).attached = false) := by
      rw [hcurr', hatt]
      simp [hx0]
    have hsucc := losRbSuccessorNode_eq h.rep (Nat.le_succ_of_le (Nat.le_of_eq h.length_eq)) hi.inorder
    rw [if_neg hnot, hcurr']
    simp only [hsucc]
    refine .inr ⟨x,r,_,rfl,hx0,rfl,rfl,?_,⟨?_,?_,fun _ => ⟨?_,hlink⟩,?_,?_,?_⟩,rfl,fun j hj => ⟨if_neg hj,id⟩⟩
    · exact ⟨h.rep.setRest _ _ _ _,h.isRb,h.length_eq,h.increasing,h.mem_iff⟩
    · rw [hi.inorder, List.append_assoc, List.singleton_append]
    · exact congrArg LosRbWalk.pstCurrNode (if_pos rfl)
    · exact (congrArg LosRbWalk.attached (if_pos rfl)).trans hatt
    · intro q hq
      rcases List.mem_append.mp hq with hq | hq
      · exact List.mem_append_left _ (hi.returned q hq)
      · exact List.mem_append_right _ hq
    · rw [List.append_assoc]
      exact hi.increasing
    · rw [List.append_assoc]
      exact hi.present

private theorem Standing.walkOut_eq : ∀ {r R l : List Nat} {t : LosRbTree K} {fuel : Nat}, Holds cmp t T S →
    Standing cmp t T i P R l r → r.length ≤ fuel → walkOut i fuel t = r := by
  intro r
  induction r with
  | nil =>
    intro R l t fuel h hi _
    cases fuel with
    | zero => rfl
    | succ fuel =>
      rcases walkNext_spec h hi with ⟨-,he⟩ | ⟨x,r',t',hr,-⟩
      · rw [walkOut, he]
        rfl
      · cases hr
  | cons y r ih =>
    intro R l t fuel h hi hlen
    cases fuel with
    | zero => cases hlen
    | succ fuel =>
      rcases walkNext_spec h hi with ⟨hr,-⟩ | ⟨x,r',t',hr,hx0,he,-,h',hi',-⟩
      · cases hr
      · cases hr
        rw [walkOut, he]
        simp only [if_neg hx0]
        rw [ih h' hi' (Nat.le_of_succ_le_succ hlen)]

-- Deletion

/-- The walkers that stand at z are moved to the next node of the tree before z is taken out. -/
private theorem standing_moveWalks (h : Holds cmp t T S) (hz : z ∈ T.inorder) (hi : Standing cmp t T i P R l r) :
    ((moveWalks { t with ulNodes := t.ulNodes - 1 } z).walk i).pstCurrNode = (r.erase z).head?.getD 0 ∧
    ((moveWalks { t with ulNodes := t.ulNodes - 1 } z).walk i).attached = (t.walk i).attached := by
  have hz0 : z ≠ 0 := fun he => h.rep.zero_notMem (he ▸ hz)
  have hcurr := hi.pstCurrNode
  rw [moveWalks]
  simp only
  cases r with
  | nil =>
    have hne : (t.walk i).pstCurrNode ≠ z := by
      rw [hcurr]
      exact hz0.symm
    rw [if_neg fun hc => hne hc.2]
    exact ⟨hcurr,rfl⟩
  | cons x r =>
    have hcurr' : (t.walk i).pstCurrNode = x := hcurr
    by_cases hx : x = z
    · subst hx
      have hlen : T.inorder.length ≤ t.ulNodes - 1 + 1 := by
        rw [h.length_eq]
        omega
      have hsucc : losRbSuccessorNode { t with ulNodes := t.ulNodes - 1 } x = r.head?.getD 0 :=
        losRbSuccessorNode_eq (h.rep.setRest _ _ _ _) hlen hi.inorder
      rw [if_pos ⟨(hi.linked (by simp)).2,hcurr'⟩, List.erase_cons_head]
      exact ⟨hsucc,rfl⟩
    · rw [if_neg fun hc => hx (hcurr'.symm.trans hc.2), List.erase_cons_tail (by simpa using hx)]
      exact ⟨hcurr,rfl⟩

private theorem erase_append_nodup (h : (l ++ r).Nodup) : (l ++ r).erase z = l.erase z ++ r.erase z := by
  rw [List.erase_append]
  split_ifs with hz
  · rw [List.erase_of_not_mem fun hm => (List.nodup_append'.mp h).2.2 hz hm]
  · rw [List.erase_of_not_mem hz]

/-- After a deletion the walker stands between what is left of the nodes on both sides. -/
theorem Standing.delNode (h : Holds cmp t T S) (hz : z ∈ T.inorder) (hi : Standing cmp t T i P R l r)
    (h' : Holds cmp (losRbDelNode t z) T' (S \ {z})) (hT : T'.inorder = T.inorder.erase z) :
    Standing cmp (losRbDelNode t z) T' i P R (l.erase z) (r.erase z) := by
  have hd := rep_deleteNode h.rep h.isRb h.length_eq hz
  obtain ⟨hcurr,hatt⟩ := standing_moveWalks h hz hi
  have hin : T'.inorder = l.erase z ++ r.erase z := by
    rw [hT, hi.inorder]
    exact erase_append_nodup (hi.inorder ▸ h.rep.nodup)
  have hsub : (R ++ r.erase z).Sublist (R ++ r) := List.erase_sublist.append_left R
  refine ⟨hin,?_,fun hr => ?_,fun q hq => hi.returned q (List.mem_of_mem_erase hq),?_,fun q hq => hi.present q (hsub.subset hq)⟩
  · rcases hd.trimmed.walks with ⟨-,hw⟩ | ⟨h0,-,hw⟩
    · rw [losRbDelNode, hw]
      exact hcurr
    · -- the tree is empty now
      have hnil : r.erase z = [] := by
        have hlen := h'.length_eq
        rw [hin, losRbDelNode, hd.trimmed.ulNodes, h0] at hlen
        exact (List.append_eq_nil_iff.mp (List.length_eq_zero_iff.mp hlen)).2
      rw [hnil] at hcurr ⊢
      rw [losRbDelNode, hw, osRbClearTree]
      simp only
      split_ifs
      · rfl
      · exact hcurr
  · have hr' : r ≠ [] := fun he => hr (by rw [he]; rfl)
    rcases hd.trimmed.walks with ⟨hl,hw⟩ | ⟨h0,-,-⟩
    · rw [losRbDelNode, hw, hl, hatt]
      exact hi.linked hr'
    · have hlen := h'.length_eq
      rw [hin, losRbDelNode, hd.trimmed.ulNodes, h0] at hlen
      exact absurd (List.append_eq_nil_iff.mp (List.length_eq_zero_iff.mp hlen)).2 hr
  · rw [Increasing, losRbDelNode, hd.key]
    exact List.Pairwise.sublist hsub hi.increasing

private theorem delNode_unlinked (h : Rep t T) (hp : p ∉ T.inorder) (hu : Unlinked t p) : losRbDelNode t p = t := by
  rw [losRbDelNode, osRbDeleteNode]
  rcases hu with rfl | ⟨hn,hpar,hleft,hright⟩
  · exact if_pos rfl
  · have hroot : t.pstRoot ≠ p := by
      rw [h.root]
      exact ptr_ne hp hn
    split_ifs with h1 h2 h3
    · rfl
    · rfl
    · rfl
    · exact absurd ⟨hpar,hleft,hright,hroot⟩ h3

-- Runs

/-- The walkers of a red-black tree are in use, and each of them stands somewhere in it. -/
def WalkInv (cmp : K → K → Cmp) (x : WalkHist K) : Prop :=
  ∃ T, Holds cmp x.tree T x.stored ∧
    ∀ i ∈ x.walkers, ∃ l r, Standing cmp x.tree T i (x.present i) (x.returned i) l r

private theorem walkInv_run {x : WalkHist K} {c : WalkCall} (hx : WalkInv cmp x) (hp : (walkSystem cmp).pre x c) :
    WalkInv cmp (x.run c) := by
  obtain ⟨T,h,hw⟩ := hx
  cases c with
  | createWalk i =>
    rcases createWalk_spec (i := i) h with ⟨-,he⟩ | ⟨t',he,h',hi,hk,hother⟩
    · refine ⟨T,by simp only [WalkHist.run, he]; exact h,fun j hj => ?_⟩
      simp only [WalkHist.run, he] at hj ⊢
      have hjw : j ∈ x.walkers := hj.resolve_right (by simp)
      have hij : j ≠ i := fun hij => hp.1 (hij ▸ hjw)
      simp only [if_neg hij]
      exact hw j hjw
    · refine ⟨T,by simp only [WalkHist.run, he]; exact h',fun j hj => ?_⟩
      simp only [WalkHist.run, he] at hj ⊢
      by_cases hij : j = i
      · subst hij
        simp only [if_true]
        exact ⟨_,_,hi⟩
      · obtain ⟨l,r,hr⟩ := hw j (hj.resolve_right fun hc => hij hc.1)
        simp only [if_neg hij]
        exact ⟨l,r,hr.congr hk (hother j hij).1 (hother j hij).2⟩
  | walkNext i =>
    obtain ⟨l,r,hi⟩ := hw i hp
    rcases walkNext_spec h hi with ⟨-,he⟩ | ⟨y,r',t',-,hy0,he,-,h',hi',hk,hother⟩
    · simp only [WalkHist.run, he]
      refine ⟨T,h,fun j hj => ?_⟩
      simp only [ne_eq, not_true, and_false, if_false]
      exact hw j hj
    · simp only [WalkHist.run, he]
      refine ⟨T,h',fun j hj => ?_⟩
      by_cases hij : j = i
      · subst hij
        simp only [ne_eq, hy0, not_false_iff, and_self, if_true]
        exact ⟨_,_,hi'⟩
      · obtain ⟨l,r,hr⟩ := hw j hj
        simp only [hij, false_and, if_false]
        exact ⟨l,r,hr.congr hk (hother j hij).1 (hother j hij).2⟩
  | deleteWalk i =>
    refine ⟨T,⟨h.rep.setRest _ _ _ _,h.isRb,h.length_eq,h.increasing,h.mem_iff⟩,fun j hj => ?_⟩
    obtain ⟨l,r,hr⟩ := hw j hj.1
    have hij : j ≠ i := hj.2
    exact ⟨l,r,hr.congr rfl (if_neg hij) fun hm => (List.mem_erase_of_ne hij).mpr hm⟩
  | delNode p =>
    by_cases hm : p ∈ x.stored
    · obtain ⟨T',h',hin⟩ := h.delNode hm
      refine ⟨T',h',fun i hi => ?_⟩
      obtain ⟨l,r,hr⟩ := hw i hi
      exact ⟨_,_,hr.delNode h ((h.mem_iff p).mpr hm) h' hin⟩
    · have hu := hp.resolve_left hm
      simp only [WalkHist.run, delNode_unlinked h.rep (fun hp => hm ((h.mem_iff p).mp hp)) hu, Set.sdiff_singleton_eq_self hm]
      exact ⟨T,h,hw⟩

/-- What a walker promises: the next node that it returns is stored, and what it has returned and still returns holds, in the
order of the keys, all nodes that were stored when it was created and have not been deleted. -/
structure WalkLaw (cmp : K → K → Cmp) (x : WalkHist K) (i : Nat) : Prop where
  increasing : (x.returned i).Pairwise fun p q => cmp (x.tree.key p) (x.tree.key q) = .smaller
  present : ∀ q ∈ x.returned i, q ∈ x.present i
  next : (losRbWalkNext x.tree i).2 = 0 ∨ (losRbWalkNext x.tree i).2 ∈ x.stored
  rest : ∀ q ∈ x.stored, q ∈ x.present i → q ∈ x.returned i ++ walkOut i x.tree.ulNodes x.tree
  done : (losRbWalkNext x.tree i).2 = 0 → ∀ q ∈ x.stored, q ∈ x.present i → q ∈ x.returned i
  empty : x.stored = ∅ → (losRbWalkNext x.tree i).2 = 0

theorem walkLaw_of_reachable {x : WalkHist K} (h : Run.Reachable (walkSystem cmp) (fun _ _ => True) x) (hi : i ∈ x.walkers) :
    WalkLaw cmp x i := by
  have hinv : WalkInv cmp x := by
    refine h.invariant ?_ fun x c hx hp _ => walkInv_run hx hp
    rintro x ⟨⟨T,hT⟩,hw⟩
    exact ⟨T,hT,fun i hi => absurd hi (by rw [hw]; simp)⟩
  obtain ⟨T,hT,hw⟩ := hinv
  obtain ⟨l,r,hr⟩ := hw i hi
  have hin := hr.inorder
  have hnext : (losRbWalkNext x.tree i).2 = r.head?.getD 0 := by
    rcases walkNext_spec hT hr with ⟨rfl,he⟩ | ⟨y,r',t',rfl,-,he,-⟩ <;> rw [he] <;> rfl
  have hall : ∀ q ∈ x.stored, q ∈ x.returned i ++ r := by
    intro q hq
    have hm := (hT.mem_iff q).mpr hq
    rw [hin] at hm
    exact List.mem_append.mpr ((List.mem_append.mp hm).imp_left (hr.returned q))
  have hr0 : r.head?.getD 0 = 0 → r = [] := by
    intro h0
    cases r with
    | nil => rfl
    | cons y r =>
      have hy : y = 0 := h0
      exact absurd (by rw [hin, hy]; simp) hT.rep.zero_notMem
  have hlen : r.length ≤ x.tree.ulNodes := by
    rw [← hT.length_eq, hin, List.length_append]
    omega
  exact {
    increasing := (List.pairwise_append.mp hr.increasing).1
    present := fun q hq => hr.present q (List.mem_append_left _ hq)
    next := by
      rw [hnext]
      cases r with
      | nil => exact .inl rfl
      | cons y r => exact .inr ((hT.mem_iff y).mp (by rw [hin]; simp))
    rest := fun q hq _ => by
      rw [hr.walkOut_eq hT hlen]
      exact hall q hq
    done := fun h0 q hq _ => by
      have hm := hall q hq
      rw [hr0 (hnext.symm.trans h0), List.append_nil] at hm
      exact hm
    empty := fun he => by
      rw [hnext]
      cases r with
      | nil => rfl
      | cons y r => exact absurd ((hT.mem_iff y).mp (by rw [hin]; simp)) (by rw [he]; simp) }

/-- The nodes 2, 4 and 6 under their own addresses as keys. -/
def threeNodes : LosRbTree Nat :=
  let t := losRbInitTree 9 (fun _ => default) id (fun _ => default)
  let t := (losRbAddNode natCmp t 4).1
  let t := (losRbAddNode natCmp t 2).1
  (losRbAddNode natCmp t 6).1

private theorem reachable_threeNodes : Reachable natCmp threeNodes (insert 6 (insert 2 (insert 4 ∅))) := by
  refine Reachable.add_one (.add_one (.add_one (.init (by decide) _ _ _) ?_ ?_ ?_) ?_ ?_ ?_) ?_ ?_ ?_ <;> decide +kernel

/-- Two walkers, of which the second stands at the node 4 when it is deleted; the node 6 goes after both have returned it. -/
theorem walkLaw_threeNodes : ∃ x : WalkHist Nat, x.returned 0 = [2,4,6] ∧ x.returned 1 = [2,6] ∧ x.tree.ulNodes = 1 ∧
    WalkLaw natCmp x 0 ∧ WalkLaw natCmp x 1 := by
  let x₀ : WalkHist Nat := ⟨threeNodes,insert 6 (insert 2 (insert 4 ∅)),∅,fun _ => ∅,fun _ => []⟩
  have hw₀ : 0 ∈ ((x₀.run (.createWalk 0)).run (.createWalk 1)).walkers := Or.inl (Or.inr ⟨rfl,by decide +kernel⟩)
  have hw₁ : 1 ∈ ((x₀.run (.createWalk 0)).run (.createWalk 1)).walkers := Or.inr ⟨rfl,by decide +kernel⟩
  have hfresh : 1 ∉ (x₀.run (.createWalk 0)).walkers := by
    rintro (h | ⟨h,-⟩)
    · exact h
    · cases h
  have h₀ : Run.Reachable (walkSystem natCmp) (fun _ _ => True) x₀ :=
    .init ⟨holds_of_reachable cmpOrder_natCmp reachable_threeNodes,rfl⟩
  have h₂ := (h₀.call (.createWalk 0) ⟨id,by decide +kernel⟩ trivial).call (.createWalk 1) ⟨hfresh,by decide +kernel⟩ trivial
  have h₃ := ((h₂.call (.walkNext 0) hw₀ trivial).call (.walkNext 0) hw₀ trivial).call (.walkNext 1) hw₁ trivial
  have h₄ := h₃.call (.delNode 4) (Or.inl (Or.inr (Or.inr (Or.inl rfl)))) trivial
  have h₅ := ((h₄.call (.walkNext 0) hw₀ trivial).call (.walkNext 1) hw₁ trivial).call (.delNode 6)
    (Or.inl ⟨Or.inl rfl,by decide⟩) trivial
  exact ⟨_,by decide +kernel,by decide +kernel,by decide +kernel,walkLaw_of_reachable h₅ hw₀,walkLaw_of_reachable h₅ hw₁⟩

end LiteOsKernel.Rbtree
