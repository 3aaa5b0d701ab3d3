import Mathlib.Data.List.Basic
import Mathlib.Tactic.Linarith

/-! Red-black trees with a hole: colours, directions, the path from a subtree to the root,
and balance of a tree in terms of the balance of a subtree and of its path. -/
namespace LiteOsKernel.RbZipper

inductive Color where
  | red
  | black
  deriving DecidableEq, Inhabited

inductive Dir where
  | left
  | right
  deriving DecidableEq

def Dir.flip : Dir → Dir
  | .left => .right
  | .right => .left

@[simp] theorem Dir.flip_flip (d : Dir) : d.flip.flip = d := by cases d <;> rfl

@[simp] theorem Dir.flip_ne (d : Dir) : d.flip ≠ d := by cases d <;> simp [Dir.flip]

@[simp] theorem Dir.ne_flip (d : Dir) : d ≠ d.flip := (Dir.flip_ne d).symm

theorem Dir.eq_or (d e : Dir) : e = d ∨ e = d.flip := by cases d <;> cases e <;> simp [Dir.flip]

inductive RbTree (α : Type) where
  | nil
  | node (c : Color) (l : RbTree α) (p : α) (r : RbTree α)

variable {α : Type}

/-- The node with children near on side d and far on the other side. -/
def join (d : Dir) (c : Color) (near : RbTree α) (p : α) (far : RbTree α) : RbTree α :=
  match d with
  | .left => .node c near p far
  | .right => .node c far p near

theorem join_flip (d : Dir) (c : Color) (a : RbTree α) (p : α) (b : RbTree α) : join d.flip c a p b = join d c b p a := by
  cases d <;> rfl

namespace RbTree

def color : RbTree α → Color
  | .nil => .black
  | .node c _ _ _ => c

@[simp] theorem color_nil : (nil : RbTree α).color = .black := rfl

@[simp] theorem color_join (d : Dir) (c : Color) (a : RbTree α) (p : α) (b : RbTree α) : (join d c a p b).color = c := by
  cases d <;> rfl

def inorder : RbTree α → List α
  | .nil => []
  | .node _ l p r => inorder l ++ p :: inorder r

/-- Every tree but the empty one has children on side d and on the other side. -/
theorem exists_join (d : Dir) : ∀ {t : RbTree α}, t ≠ .nil → ∃ a p b, t = join d t.color a p b
  | .nil, h => absurd rfl h
  | .node c l p r, _ => by
    cases d with
    | left => exact ⟨l,p,r,rfl⟩
    | right => exact ⟨r,p,l,rfl⟩

def blacken : RbTree α → RbTree α
  | .nil => .nil
  | .node _ l p r => .node .black l p r

@[simp] theorem blacken_join (d : Dir) (c : Color) (a : RbTree α) (p : α) (b : RbTree α) :
    (join d c a p b).blacken = join d .black a p b := by
  cases d <;> rfl

@[simp] theorem color_blacken : ∀ t : RbTree α, t.blacken.color = .black
  | .nil => rfl
  | .node _ _ _ _ => rfl

@[simp] theorem inorder_blacken : ∀ t : RbTree α, t.blacken.inorder = t.inorder
  | .nil => rfl
  | .node _ _ _ _ => rfl

/-- All paths down to the leaves have n black nodes, and no red node has a red child. -/
def Balanced : RbTree α → Nat → Prop
  | .nil, n => n = 0
  | .node .red l _ r, n => l.color = .black ∧ r.color = .black ∧ Balanced l n ∧ Balanced r n
  | .node .black l _ r, n => ∃ m, n = m + 1 ∧ Balanced l m ∧ Balanced r m

theorem balanced_red {d : Dir} {a b : RbTree α} {p : α} {n : Nat} :
    (join d .red a p b).Balanced n ↔ a.color = .black ∧ b.color = .black ∧ a.Balanced n ∧ b.Balanced n := by
  cases d with
  | left => exact Iff.rfl
  | right => exact ⟨fun ⟨h1,h2,h3,h4⟩ => ⟨h2,h1,h4,h3⟩,fun ⟨h1,h2,h3,h4⟩ => ⟨h2,h1,h4,h3⟩⟩

theorem balanced_black {d : Dir} {a b : RbTree α} {p : α} {n : Nat} :
    (join d .black a p b).Balanced n ↔ ∃ m, n = m + 1 ∧ a.Balanced m ∧ b.Balanced m := by
  cases d with
  | left => exact Iff.rfl
  | right => exact ⟨fun ⟨m,h1,h2,h3⟩ => ⟨m,h1,h3,h2⟩,fun ⟨m,h1,h2,h3⟩ => ⟨m,h1,h3,h2⟩⟩

theorem balanced_black_succ {d : Dir} {a b : RbTree α} {p : α} {n : Nat} :
    (join d .black a p b).Balanced (n+1) ↔ a.Balanced n ∧ b.Balanced n := by
  rw [balanced_black]
  constructor
  · rintro ⟨m,hm,h1,h2⟩
    obtain rfl : n = m := by omega
    exact ⟨h1,h2⟩
  · rintro ⟨h1,h2⟩
    exact ⟨n,rfl,h1,h2⟩

theorem Balanced.ne_nil {t : RbTree α} {n : Nat} (h : t.Balanced (n+1)) : t ≠ .nil := by
  rintro rfl
  exact absurd h (Nat.succ_ne_zero n)

/-- Blackening a red root adds one to the black height. -/
theorem Balanced.blacken_red {t : RbTree α} {n : Nat} (h : t.Balanced n) (hc : t.color = .red) : t.blacken.Balanced (n+1) := by
  cases t with
  | nil => cases hc
  | node c l p r =>
    cases hc
    exact ⟨n,rfl,h.2.2.1,h.2.2.2⟩

/-- A red-black tree. -/
def IsRb (t : RbTree α) : Prop := t.color = .black ∧ ∃ n, t.Balanced n

end RbTree
open RbTree

/-- A step of the path from a subtree up: the side the subtree is on, and the rest of its parent. -/
structure Frame (α : Type) where
  d : Dir
  c : Color
  p : α
  sib : RbTree α

def Frame.fill (f : Frame α) (t : RbTree α) : RbTree α := join f.d f.c t f.p f.sib

/-- The tree with subtree t at the end of the path. -/
def plug : List (Frame α) → RbTree α → RbTree α
  | [], t => t
  | f :: k, t => plug k (f.fill t)

def before : List (Frame α) → List α
  | [] => []
  | f :: k => before k ++ match f.d with
    | .left => []
    | .right => f.sib.inorder ++ [f.p]

def after : List (Frame α) → List α
  | [] => []
  | f :: k => (match f.d with
    | .left => f.p :: f.sib.inorder
    | .right => []) ++ after k

theorem inorder_plug : ∀ (k : List (Frame α)) (t : RbTree α), (plug k t).inorder = before k ++ t.inorder ++ after k
  | [], t => by simp [plug, before, after]
  | f :: k, t => by
    rw [plug, inorder_plug k, before, after, Frame.fill]
    cases f.d <;> simp [join, inorder]

theorem plug_append : ∀ (k k' : List (Frame α)) (t : RbTree α), plug (k ++ k') t = plug k' (plug k t)
  | [], _, _ => rfl
  | _ :: k, k', _ => plug_append k k' _

theorem before_append : ∀ k k' : List (Frame α), before (k ++ k') = before k' ++ before k
  | [], k' => by simp [before]
  | f :: k, k' => by
    rw [List.cons_append, before, before_append k, before, List.append_assoc]

/-- Every node of a tree is the root of a subtree at the end of some path. -/
theorem exists_plug {p : α} : ∀ {t : RbTree α}, p ∈ t.inorder → ∃ k c a b, t = plug k (.node c a p b)
  | .nil, h => by cases h
  | .node c l q r, h => by
    rcases List.mem_append.mp h with hl | hr
    · obtain ⟨k,c',a,b,rfl⟩ := exists_plug hl
      exact ⟨k ++ [⟨.left,c,q,r⟩],c',a,b,by rw [plug_append]; rfl⟩
    · rcases List.mem_cons.mp hr with rfl | hr
      · exact ⟨[],c,l,r,rfl⟩
      · obtain ⟨k,c',a,b,rfl⟩ := exists_plug hr
        exact ⟨k ++ [⟨.right,c,q,l⟩],c',a,b,by rw [plug_append]; rfl⟩

/-- The order of the nodes is a matter of the subtree alone. -/
theorem inorder_plug_congr (k : List (Frame α)) {t t' : RbTree α} (h : t.inorder = t'.inorder) :
    (plug k t).inorder = (plug k t').inorder := by
  rw [inorder_plug, inorder_plug, h]

def topColor : List (Frame α) → Option Color
  | [] => none
  | f :: _ => some f.c

/-- The path is balanced for a subtree of black height n, and the root is not red. -/
def Hole : List (Frame α) → Nat → Prop
  | [], _ => True
  | f :: k, n => match f.c with
    | .red => f.sib.color = .black ∧ f.sib.Balanced n ∧ topColor k = some .black ∧ Hole k n
    | .black => f.sib.Balanced n ∧ Hole k (n+1)

theorem hole_red {d : Dir} {p : α} {sib : RbTree α} {k : List (Frame α)} {n : Nat} :
    Hole (⟨d,.red,p,sib⟩ :: k) n ↔ sib.color = .black ∧ sib.Balanced n ∧ topColor k = some .black ∧ Hole k n := Iff.rfl

theorem hole_black {d : Dir} {p : α} {sib : RbTree α} {k : List (Frame α)} {n : Nat} :
    Hole (⟨d,.black,p,sib⟩ :: k) n ↔ sib.Balanced n ∧ Hole k (n+1) := Iff.rfl

theorem balanced_plug : ∀ {k : List (Frame α)} {t : RbTree α} {n : Nat}, t.Balanced n → Hole k n →
    (topColor k = some .red → t.color = .black) → ∃ m, (plug k t).Balanced m
  | [], _, n, h, _, _ => ⟨n,h⟩
  | ⟨d,.red,p,sib⟩ :: k, t, n, h, hk, hc => by
    obtain ⟨h1,h2,h3,h4⟩ := hole_red.mp hk
    exact balanced_plug (k := k) (t := join d .red t p sib) (balanced_red.mpr ⟨hc rfl,h1,h,h2⟩) h4 (fun h5 => by rw [h3] at h5; cases h5)
  | ⟨d,.black,p,sib⟩ :: k, t, n, h, hk, _ => by
    obtain ⟨h1,h2⟩ := hole_black.mp hk
    exact balanced_plug (k := k) (t := join d .black t p sib) (balanced_black_succ.mpr ⟨h,h1⟩) h2 (fun _ => color_join _ _ _ _ _)

/-- Below a balanced path the root is black. -/
theorem Hole.color_plug : ∀ {k : List (Frame α)} {n : Nat} (t : RbTree α), Hole k n → k ≠ [] → (plug k t).color = .black
  | [], _, _, _, h => absurd rfl h
  | [⟨d,.black,p,sib⟩], _, t, _, _ => color_join _ _ _ _ _
  | [⟨d,.red,p,sib⟩], _, t, h, _ => absurd h.2.2.1 (by simp [topColor])
  | ⟨d,.red,p,sib⟩ :: f :: k, n, t, h, _ => Hole.color_plug (k := f :: k) _ (hole_red.mp h).2.2.2 (by simp)
  | ⟨d,.black,p,sib⟩ :: f :: k, n, t, h, _ => Hole.color_plug (k := f :: k) _ (hole_black.mp h).2 (by simp)

theorem isRb_plug {k : List (Frame α)} {t : RbTree α} {n : Nat} (h : t.Balanced n) (hk : Hole k n) (hc : t.color = .black) :
    (plug k t).IsRb := by
  refine ⟨?_,balanced_plug h hk fun _ => hc⟩
  cases k with
  | nil => exact hc
  | cons f k => exact hk.color_plug t (by simp)

/-- A subtree of a red-black tree and its path are balanced. -/
theorem isRb_unplug : ∀ {k : List (Frame α)} {t : RbTree α}, (plug k t).IsRb →
    ∃ n, t.Balanced n ∧ Hole k n ∧ (topColor k = some .red → t.color = .black) ∧ (k = [] → t.color = .black)
  | [], t, ⟨hc,n,hn⟩ => ⟨n,hn,trivial,fun _ => hc,fun _ => hc⟩
  | ⟨d,c,p,sib⟩ :: k, t, h => by
    obtain ⟨n,h1,h2,h3,h4⟩ := isRb_unplug (t := Frame.fill ⟨d,c,p,sib⟩ t) h
    cases c with
    | red =>
      obtain ⟨h5,h6,h7,h8⟩ := balanced_red.mp h1
      have htop : topColor k = some .black := by
        rcases hk : topColor k with - | c
        · have : k = [] := by
            cases k with
            | nil => rfl
            | cons => cases hk
          have := h4 this
          simp [Frame.fill] at this
        · cases c with
          | red =>
            have := h3 hk
            simp [Frame.fill] at this
          | black => rfl
      exact ⟨n,h7,hole_red.mpr ⟨h6,h8,htop,h2⟩,fun _ => h5,fun h => by cases h⟩
    | black =>
      obtain ⟨m,rfl,h5,h6⟩ := balanced_black.mp h1
      exact ⟨m,h5,hole_black.mpr ⟨h6,h2⟩,(fun h => by cases h),fun h => by cases h⟩

/-- Balance does not depend on the labels of the path. -/
theorem Hole.relabel {f f' : Frame α} (hc : f'.c = f.c) (hs : f'.sib = f.sib) {k' : List (Frame α)} :
    ∀ {k : List (Frame α)} {n : Nat}, Hole (k ++ f :: k') n → Hole (k ++ f' :: k') n
  | [], n, h => by
    simp only [List.nil_append, Hole, hc, hs] at h ⊢
    exact h
  | ⟨d,.red,p,sib⟩ :: k, n, h => by
    obtain ⟨h1,h2,h3,h4⟩ := hole_red.mp h
    refine hole_red.mpr ⟨h1,h2,?_,Hole.relabel hc hs h4⟩
    cases k with
    | nil => simpa [topColor, hc] using h3
    | cons => exact h3
  | ⟨d,.black,p,sib⟩ :: k, n, h => by
    obtain ⟨h1,h2⟩ := hole_black.mp h
    exact hole_black.mpr ⟨h1,Hole.relabel hc hs h2⟩

end LiteOsKernel.RbZipper
