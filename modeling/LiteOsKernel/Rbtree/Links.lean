import LiteOsKernel.Rbtree.Rbtree
import Mathlib.Data.List.Nodup
import Mathlib.Data.List.Perm.Basic

/-! The nodes of a memory that make up a tree: links of a subtree and of the path above it,
and what a change of single fields leaves of them. -/
namespace LiteOsKernel.Rbtree
open RbZipper RbTree LosRbTree

variable {K : Type} {t t' : LosRbTree K} {T s s' : RbTree Nat} {k : List (Frame Nat)} {p q v x y : Nat} {c : Color} {d e : Dir}

section Fields

@[simp] theorem parent_setParent : (t.setParent p v).parent q = if q = p then v else t.parent q := by
  simp only [LosRbTree.parent, setParent, setNode]
  split <;> rfl

@[simp] theorem child_setParent : (t.setParent p v).child d q = t.child d q := by
  cases d <;> simp only [LosRbTree.child, setParent, setNode] <;> split <;> simp_all

@[simp] theorem color_setParent : (t.setParent p v).color q = t.color q := by
  simp only [LosRbTree.color, setParent, setNode]
  split <;> simp_all

@[simp] theorem parent_setChild : (t.setChild d p v).parent q = t.parent q := by
  cases d <;> simp only [LosRbTree.parent, setChild, setNode] <;> split <;> simp_all

@[simp] theorem child_setChild : (t.setChild d p v).child e q = if q = p ∧ e = d then v else t.child e q := by
  cases d <;> cases e <;> simp only [LosRbTree.child, setChild, setNode] <;> split <;> simp_all

@[simp] theorem color_setChild : (t.setChild d p v).color q = t.color q := by
  cases d <;> simp only [LosRbTree.color, setChild, setNode] <;> split <;> simp_all

@[simp] theorem parent_setColor : (t.setColor p c).parent q = t.parent q := by
  simp only [LosRbTree.parent, setColor, setNode]
  split <;> simp_all

@[simp] theorem child_setColor : (t.setColor p c).child d q = t.child d q := by
  cases d <;> simp only [LosRbTree.child, setColor, setNode] <;> split <;> simp_all

@[simp] theorem color_setColor : (t.setColor p c).color q = if q = p then c else t.color q := by
  simp only [LosRbTree.color, setColor, setNode]
  split <;> rfl

@[simp] theorem stNilT_setParent : (t.setParent p v).stNilT = t.stNilT := rfl
@[simp] theorem stNilT_setChild : (t.setChild d p v).stNilT = t.stNilT := by cases d <;> rfl
@[simp] theorem stNilT_setColor : (t.setColor p c).stNilT = t.stNilT := rfl
@[simp] theorem pstRoot_setParent : (t.setParent p v).pstRoot = t.pstRoot := rfl
@[simp] theorem pstRoot_setChild : (t.setChild d p v).pstRoot = t.pstRoot := by cases d <;> rfl
@[simp] theorem pstRoot_setColor : (t.setColor p c).pstRoot = t.pstRoot := rfl
@[simp] theorem parent_setRoot : ({ t with pstRoot := v } : LosRbTree K).parent q = t.parent q := rfl
@[simp] theorem child_setRoot : ({ t with pstRoot := v } : LosRbTree K).child d q = t.child d q := by cases d <;> rfl
@[simp] theorem color_setRoot : ({ t with pstRoot := v } : LosRbTree K).color q = t.color q := rfl

/-- What the tree operations that only set links and colours leave alone. -/
structure SameRest (t t' : LosRbTree K) : Prop where
  stNilT : t'.stNilT = t.stNilT
  key : t'.key = t.key
  ulNodes : t'.ulNodes = t.ulNodes
  stWalkHead : t'.stWalkHead = t.stWalkHead
  walk : t'.walk = t.walk

theorem SameRest.refl (t : LosRbTree K) : SameRest t t := ⟨rfl,rfl,rfl,rfl,rfl⟩

theorem SameRest.trans {t'' : LosRbTree K} (h : SameRest t t') (h' : SameRest t' t'') : SameRest t t'' :=
  ⟨h'.1.trans h.1,h'.2.trans h.2,h'.3.trans h.3,h'.4.trans h.4,h'.5.trans h.5⟩

theorem sameRest_setParent : SameRest t (t.setParent p v) := ⟨rfl,rfl,rfl,rfl,rfl⟩
theorem sameRest_setColor : SameRest t (t.setColor p c) := ⟨rfl,rfl,rfl,rfl,rfl⟩
theorem sameRest_setChild : SameRest t (t.setChild d p v) := by cases d <;> exact ⟨rfl,rfl,rfl,rfl,rfl⟩

private theorem sameRest_relink : SameRest t (relink t d p v) := by
  rw [relink]
  split_ifs
  · exact ⟨rfl,rfl,rfl,rfl,rfl⟩
  · exact sameRest_setChild
  · exact sameRest_setChild

theorem sameRest_rotateNode : SameRest t (rotateNode d t x) :=
  ((((((sameRest_setChild.trans sameRest_setParent).trans sameRest_setParent).trans sameRest_relink).trans
    sameRest_setParent).trans sameRest_setChild).trans sameRest_setParent)

end Fields

/-- The address of the root of a subtree. -/
def ptr (nilT : Nat) : RbTree Nat → Nat
  | .nil => nilT
  | .node _ _ p _ => p

@[simp] theorem ptr_nil (nilT : Nat) : ptr nilT .nil = nilT := rfl

@[simp] theorem ptr_join (nilT : Nat) (d : Dir) (c : Color) (a b : RbTree Nat) : ptr nilT (join d c a p b) = p := by
  cases d <;> rfl

theorem ptr_mem {nilT : Nat} : ∀ {s : RbTree Nat}, s ≠ .nil → ptr nilT s ∈ s.inorder
  | .nil, h => absurd rfl h
  | .node _ _ _ _, _ => by simp [ptr, inorder]

theorem ptr_ne {nilT : Nat} {s : RbTree Nat} (hx : x ∉ s.inorder) (hxn : x ≠ nilT) : ptr nilT s ≠ x := by
  cases s with
  | nil => exact Ne.symm hxn
  | node c l p r => exact fun he => hx (he ▸ ptr_mem (by simp))

theorem mem_inorder_join {a b : RbTree Nat} : q ∈ (join d c a p b).inorder ↔ q = p ∨ q ∈ a.inorder ∨ q ∈ b.inorder := by
  cases d <;> simp [join, inorder] <;> tauto

theorem nodup_join {a b : RbTree Nat} : (join d c a p b).inorder.Nodup ↔ p ∉ a.inorder ∧ p ∉ b.inorder ∧
    a.inorder.Nodup ∧ b.inorder.Nodup ∧ ∀ q ∈ a.inorder, q ∉ b.inorder := by
  have hl : ∀ l r : List Nat, (l ++ p :: r).Nodup ↔ p ∉ l ∧ p ∉ r ∧ l.Nodup ∧ r.Nodup ∧ ∀ q ∈ l, q ∉ r := by
    intro l r
    rw [List.nodup_middle, List.nodup_cons, List.mem_append, not_or, List.nodup_append', List.disjoint_left, and_assoc]
  cases d with
  | left => exact hl _ _
  | right =>
    refine (hl _ _).trans ?_
    constructor
    · rintro ⟨h1,h2,h3,h4,h5⟩
      exact ⟨h2,h1,h4,h3,fun q h6 h7 => h5 q h7 h6⟩
    · rintro ⟨h1,h2,h3,h4,h5⟩
      exact ⟨h2,h1,h4,h3,fun q h6 h7 => h5 q h7 h6⟩

/-- The memory below par holds the subtree. -/
def Links (t : LosRbTree K) : Nat → RbTree Nat → Prop
  | _, .nil => True
  | par, .node c l p r => t.parent p = par ∧ t.color p = c ∧ t.child .left p = ptr t.stNilT l ∧
      t.child .right p = ptr t.stNilT r ∧ Links t p l ∧ Links t p r

theorem links_join {par : Nat} {a b : RbTree Nat} : Links t par (join d c a p b) ↔
    t.parent p = par ∧ t.color p = c ∧ t.child d p = ptr t.stNilT a ∧ t.child d.flip p = ptr t.stNilT b ∧
      Links t p a ∧ Links t p b := by
  cases d with
  | left => exact Iff.rfl
  | right =>
    constructor
    · rintro ⟨h1,h2,h3,h4,h5,h6⟩
      exact ⟨h1,h2,h4,h3,h6,h5⟩
    · rintro ⟨h1,h2,h3,h4,h5,h6⟩
      exact ⟨h1,h2,h4,h3,h6,h5⟩

/-- The fields of a node are the same. -/
def Same (t t' : LosRbTree K) (p : Nat) : Prop :=
  t'.parent p = t.parent p ∧ t'.color p = t.color p ∧ ∀ d, t'.child d p = t.child d p

theorem Links.congr (hn : t'.stNilT = t.stNilT) : ∀ {T : RbTree Nat} {par : Nat}, Links t par T →
    (∀ q ∈ T.inorder, Same t t' q) → Links t' par T
  | .nil, _, _, _ => trivial
  | .node c l p r, par, ⟨h1,h2,h3,h4,h5,h6⟩, hs => by
    obtain ⟨g1,g2,g3⟩ := hs p (by simp [inorder])
    refine ⟨by rw [g1, h1],by rw [g2, h2],by rw [g3, h3, hn],by rw [g3, h4, hn],?_,?_⟩
    · exact h5.congr hn fun q hq => hs q (by simp [inorder, hq])
    · exact h6.congr hn fun q hq => hs q (by simp [inorder, hq])

/-- A subtree with another parent. -/
theorem Links.reparent {par par' : Nat} (hn : t'.stNilT = t.stNilT) (h : Links t par T) (hd : T.inorder.Nodup)
    (hs : ∀ q ∈ T.inorder, q ≠ ptr t.stNilT T → Same t t' q)
    (hr : T ≠ .nil → t'.parent (ptr t.stNilT T) = par' ∧ t'.color (ptr t.stNilT T) = t.color (ptr t.stNilT T) ∧
      ∀ d, t'.child d (ptr t.stNilT T) = t.child d (ptr t.stNilT T)) : Links t' par' T := by
  cases T with
  | nil => trivial
  | node c l p r =>
    obtain ⟨h1,h2,h3,h4,h5,h6⟩ := h
    obtain ⟨g1,g2,g3⟩ := hr (by simp)
    have hp : p ∉ l.inorder ∧ p ∉ r.inorder := by
      have := List.nodup_middle.mp hd
      rw [List.nodup_cons, List.mem_append, not_or] at this
      exact this.1
    refine ⟨g1,by rw [← h2]; exact g2,by rw [← hn] at h3; rw [← h3]; exact g3 _,
      by rw [← hn] at h4; rw [← h4]; exact g3 _,?_,?_⟩
    · exact h5.congr hn fun q hq => hs q (by simp [inorder, hq]) (fun (he : q = p) => hp.1 (he ▸ hq))
    · exact h6.congr hn fun q hq => hs q (by simp [inorder, hq]) (fun (he : q = p) => hp.2 (he ▸ hq))

/-- The address of the parent of the subtree at the end of the path. -/
def up (nilT : Nat) : List (Frame Nat) → Nat
  | [] => nilT
  | f :: _ => f.p

/-- The addresses outside the subtree at the end of the path. -/
def outer : List (Frame Nat) → List Nat
  | [] => []
  | f :: k => f.p :: (f.sib.inorder ++ outer k)

/-- The root of a subtree that shares no node with the path. -/
theorem ptr_notMem_outer {nilT : Nat} {s : RbTree Nat} (hn : nilT ∉ outer k) (hs : ∀ q ∈ s.inorder, q ∉ outer k) :
    ptr nilT s ∉ outer k := by
  intro hm
  refine ptr_ne (fun hq => hs _ hq hm) (fun he => hn ?_) rfl
  exact he ▸ hm

theorem perm_plug : ∀ (k : List (Frame Nat)) (s : RbTree Nat), (plug k s).inorder.Perm (s.inorder ++ outer k)
  | [], s => by simp [plug, outer]
  | f :: k, s => by
    refine (perm_plug k _).trans ?_
    have hf : (f.fill s).inorder.Perm (s.inorder ++ f.p :: f.sib.inorder) := by
      rcases f with ⟨d,c,p,sib⟩
      cases d with
      | left => exact List.Perm.refl _
      | right =>
        refine List.perm_middle.trans (.trans ?_ List.perm_middle.symm)
        exact List.Perm.cons p List.perm_append_comm
    refine (hf.append_right _).trans ?_
    simp [outer]

/-- The memory holds the path above a subtree whose root is x. -/
def PathLinks (t : LosRbTree K) : Nat → List (Frame Nat) → Prop
  | _, [] => True
  | x, f :: k => t.parent f.p = up t.stNilT k ∧ t.color f.p = f.c ∧ t.child f.d f.p = x ∧
      t.child f.d.flip f.p = ptr t.stNilT f.sib ∧ Links t f.p f.sib ∧ PathLinks t f.p k

private theorem links_plug : ∀ {k : List (Frame Nat)} {s : RbTree Nat},
    Links t t.stNilT (plug k s) ↔ Links t (up t.stNilT k) s ∧ PathLinks t (ptr t.stNilT s) k
  | [], s => by simp [plug, up, PathLinks]
  | f :: k, s => by
    rw [plug, links_plug (k := k), Frame.fill, links_join, ptr_join]
    constructor
    · rintro ⟨⟨h1,h2,h3,h4,h5,h6⟩,h7⟩
      exact ⟨h5,h1,h2,h3,h4,h6,h7⟩
    · rintro ⟨h5,h1,h2,h3,h4,h6,h7⟩
      exact ⟨⟨h1,h2,h3,h4,h5,h6⟩,h7⟩

theorem PathLinks.congr (hn : t'.stNilT = t.stNilT) : ∀ {k : List (Frame Nat)} {x : Nat}, PathLinks t x k →
    (∀ q ∈ outer k, Same t t' q) → PathLinks t' x k
  | [], _, _, _ => trivial
  | f :: k, x, ⟨h1,h2,h3,h4,h5,h6⟩, hs => by
    obtain ⟨g1,g2,g3⟩ := hs f.p (by simp [outer])
    refine ⟨by rw [g1, h1, hn],by rw [g2, h2],by rw [g3, h3],by rw [g3, h4, hn],?_,?_⟩
    · exact h5.congr hn fun q hq => hs q (by simp [outer, hq])
    · exact h6.congr hn fun q hq => hs q (by simp [outer, hq])

/-- The address of the root, given that of the subtree. -/
def top : Nat → List (Frame Nat) → Nat
  | x, [] => x
  | _, f :: k => top f.p k

theorem ptr_plug (nilT : Nat) : ∀ (k : List (Frame Nat)) (s : RbTree Nat), ptr nilT (plug k s) = top (ptr nilT s) k
  | [], _ => rfl
  | f :: k, s => by
    rw [plug, ptr_plug nilT k, Frame.fill, ptr_join]
    rfl

/-- Sets the link that leads to the subtree at the end of the path. -/
def attach (t : LosRbTree K) : List (Frame Nat) → Nat → LosRbTree K
  | [], v => { t with pstRoot := v }
  | f :: _, v => t.setChild f.d f.p v

@[simp] theorem parent_attach : (attach t k v).parent q = t.parent q := by
  cases k with
  | nil => rfl
  | cons f k => exact parent_setChild

@[simp] theorem color_attach : (attach t k v).color q = t.color q := by
  cases k with
  | nil => rfl
  | cons f k => exact color_setChild

theorem attach_same (hq : q ∉ outer k) : Same t (attach t k v) q := by
  cases k with
  | nil => exact ⟨rfl,rfl,fun d => by cases d <;> rfl⟩
  | cons f k =>
    refine ⟨by simp [attach],by simp [attach],fun d => ?_⟩
    rw [attach, child_setChild, if_neg]
    rintro ⟨rfl,-⟩
    exact hq (by simp [outer])

theorem sameRest_attach : SameRest t (attach t k v) := by
  cases k with
  | nil => exact ⟨rfl,rfl,rfl,rfl,rfl⟩
  | cons f k => exact sameRest_setChild

theorem PathLinks.attach (h : PathLinks t x k) (hr : t.pstRoot = top x k) (hd : (outer k).Nodup) :
    PathLinks (attach t k v) v k ∧ (attach t k v).pstRoot = top v k := by
  cases k with
  | nil => exact ⟨trivial,rfl⟩
  | cons f k =>
    obtain ⟨h1,h2,h3,h4,h5,h6⟩ := h
    rw [outer, List.nodup_cons, List.mem_append, not_or] at hd
    have hsame : ∀ q, q ≠ f.p → Same t (Rbtree.attach t (f :: k) v) q := by
      intro q hq
      refine ⟨by simp [Rbtree.attach],by simp [Rbtree.attach],fun d => ?_⟩
      rw [Rbtree.attach, child_setChild, if_neg (fun hc => hq hc.1)]
    have hn : (Rbtree.attach t (f :: k) v).stNilT = t.stNilT := sameRest_attach.stNilT
    refine ⟨⟨?_,?_,?_,?_,?_,?_⟩,?_⟩
    · rw [hn, ← h1]
      simp [Rbtree.attach]
    · rw [← h2]
      simp [Rbtree.attach]
    · simp [Rbtree.attach]
    · rw [hn, ← h4]
      simp [Rbtree.attach]
    · exact h5.congr hn fun q hq => hsame q fun he => hd.1.1 (he ▸ hq)
    · exact h6.congr hn fun q hq => hsame q fun he => hd.1.2 (he ▸ hq)
    · rw [Rbtree.attach, pstRoot_setChild]
      exact hr

/-- Relinking finds the link that leads to the node. -/
theorem relink_eq (h : PathLinks t p k) (hp : t.parent p = up t.stNilT k) (hn : t.stNilT ∉ outer k)
    (hpn : p ≠ t.stNilT) (hpo : p ∉ outer k) (d : Dir) : relink t d p v = attach t k v := by
  cases k with
  | nil =>
    rw [relink, hp]
    exact if_pos rfl
  | cons f k =>
    obtain ⟨-,-,h3,h4,-,-⟩ := h
    have hfn : t.stNilT ≠ f.p := fun he => hn (by simp [outer, he])
    have hsib : ptr t.stNilT f.sib ≠ p := by
      rcases hs : f.sib with - | ⟨c,l,q,r⟩
      · exact fun he => hpn he.symm
      · intro he
        refine hpo ?_
        rw [outer, hs]
        simp [← he, ptr, inorder]
    rw [relink, hp, up, if_neg hfn, attach]
    rcases Dir.eq_or d f.d with he | he
    · rw [← he, if_pos h3.symm]
    · have hd : f.d.flip = d := by rw [he, Dir.flip_flip]
      rw [← hd, if_neg (fun hc => hsib (by rw [← h4, ← hc])), Dir.flip_flip]

structure Rep (t : LosRbTree K) (T : RbTree Nat) : Prop where
  root : t.pstRoot = ptr t.stNilT T
  links : Links t t.stNilT T
  nodup : T.inorder.Nodup
  nil_notMem : t.stNilT ∉ T.inorder
  zero_notMem : 0 ∉ T.inorder
  nil_ne : t.stNilT ≠ 0
  nil_black : t.color t.stNilT = .black

/-- A tree seen from one of its subtrees. -/
theorem rep_plug : Rep t (plug k s) ↔ t.pstRoot = top (ptr t.stNilT s) k ∧ Links t (up t.stNilT k) s ∧
    PathLinks t (ptr t.stNilT s) k ∧ (s.inorder ++ outer k).Nodup ∧ t.stNilT ∉ s.inorder ++ outer k ∧
    0 ∉ s.inorder ++ outer k ∧ t.stNilT ≠ 0 ∧ t.color t.stNilT = .black := by
  have hp := perm_plug k s
  constructor
  · intro h
    obtain ⟨h1,h2⟩ := links_plug.mp h.links
    exact ⟨by rw [h.root, ptr_plug],h1,h2,hp.nodup_iff.mp h.nodup,fun hm => h.nil_notMem (hp.mem_iff.mpr hm),
      fun hm => h.zero_notMem (hp.mem_iff.mpr hm),h.nil_ne,h.nil_black⟩
  · rintro ⟨h1,h2,h3,h4,h5,h6,h7,h8⟩
    exact ⟨by rw [h1, ptr_plug],links_plug.mpr ⟨h2,h3⟩,hp.nodup_iff.mpr h4,fun hm => h5 (hp.mem_iff.mp hm),
      fun hm => h6 (hp.mem_iff.mp hm),h7,h8⟩

end LiteOsKernel.Rbtree
