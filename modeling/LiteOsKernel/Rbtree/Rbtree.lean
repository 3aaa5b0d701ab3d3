import LiteOsKernel.Lib.RbZipper

/-! Red-black trees of los_rbtree.c over a memory of nodes: rotations, fix-up after insertion
and deletion, search, traversal and protected walks. -/
namespace LiteOsKernel.Rbtree
open RbZipper

/-- LOS_RB_RED and LOS_RB_BLACK are the two colours; pointers are addresses, NULL is 0. -/
structure LosRbNode where
  pstParent : Nat
  pstRight : Nat
  pstLeft : Nat
  lColor : Color
  deriving DecidableEq, Inhabited

/-- attached says whether pstTree is not NULL. -/
structure LosRbWalk where
  pstCurrNode : Nat
  attached : Bool
  deriving DecidableEq, Inhabited

/-- RB_EQUAL, RB_BIGGER and RB_SMALLER. -/
inductive Cmp where
  | equal
  | bigger
  | smaller
  deriving DecidableEq

/-- The tree with the memory of its nodes. stNilT is the address of the sentinel, key is what
pfGetKey finds at a node, and stWalkHead lists the walkers. -/
structure LosRbTree (K : Type) where
  pstRoot : Nat
  stNilT : Nat
  node : Nat → LosRbNode
  key : Nat → K
  ulNodes : Nat
  stWalkHead : List Nat
  walk : Nat → LosRbWalk

variable {K : Type}

namespace LosRbTree

def parent (t : LosRbTree K) (p : Nat) : Nat := (t.node p).pstParent

def child (t : LosRbTree K) : Dir → Nat → Nat
  | .left, p => (t.node p).pstLeft
  | .right, p => (t.node p).pstRight

def color (t : LosRbTree K) (p : Nat) : Color := (t.node p).lColor

def setNode (t : LosRbTree K) (p : Nat) (v : LosRbNode) : LosRbTree K :=
  { t with node := fun q => if q = p then v else t.node q }

def setParent (t : LosRbTree K) (p v : Nat) : LosRbTree K := t.setNode p { t.node p with pstParent := v }

def setChild (t : LosRbTree K) (d : Dir) (p v : Nat) : LosRbTree K :=
  match d with
  | .left => t.setNode p { t.node p with pstLeft := v }
  | .right => t.setNode p { t.node p with pstRight := v }

def setColor (t : LosRbTree K) (p : Nat) (c : Color) : LosRbTree K := t.setNode p { t.node p with lColor := c }

end LosRbTree
open LosRbTree

/-- The link that leads to p, from the root pointer or from its parent, is set to v. The test for the
side is made on side d. -/
def relink (t : LosRbTree K) (d : Dir) (p v : Nat) : LosRbTree K :=
  if t.stNilT = t.parent p then { t with pstRoot := v }
  else if p = t.child d (t.parent p) then t.setChild d (t.parent p) v
  else t.setChild d.flip (t.parent p) v

/-- Rotation towards side d: the child of x on the other side takes its place. The parent pointer of
the sentinel is saved and restored. -/
def rotateNode (d : Dir) (t : LosRbTree K) (x : Nat) : LosRbTree K :=
  let nilT := t.stNilT
  let saved := t.parent nilT
  let y := t.child d.flip x
  let t := t.setChild d.flip x (t.child d y)
  let t := t.setParent (t.child d y) x
  let t := t.setParent y (t.parent x)
  let t := relink t d x y
  let t := t.setParent x y
  let t := t.setChild d y x
  t.setParent nilT saved

def osRbLeftRotateNode (t : LosRbTree K) (x : Nat) : LosRbTree K := rotateNode .left t x

def osRbRightRotateNode (t : LosRbTree K) (y : Nat) : LosRbTree K := rotateNode .right t y

/-- One round of the loop of OsRbInsertNodeFixup when the parent is on side d of the grandparent: the
tree, the next node, and whether the loop goes on. -/
def insertRound (d : Dir) (t : LosRbTree K) (x : Nat) : LosRbTree K × Nat :=
  let parent := t.parent x
  let gParent := t.parent parent
  let y := t.child d.flip gParent
  if t.color y = .red then
    let t := t.setColor y .black
    let t := t.setColor parent .black
    let t := t.setColor gParent .red
    (t, gParent)
  else
    let (t, x) := if t.child d.flip parent = x then (rotateNode d t parent, parent) else (t, x)
    let t := t.setColor (t.parent x) .black
    let t := t.setColor gParent .red
    (rotateNode d.flip t gParent, x)

def insertLoop : Nat → LosRbTree K → Nat → LosRbTree K
  | 0, t, _ => t
  | fuel + 1, t, x =>
    if t.color (t.parent x) = .red then
      let d := if t.parent x = t.child .left (t.parent (t.parent x)) then Dir.left else Dir.right
      let (t, x) := insertRound d t x
      insertLoop fuel t x
    else t

def osRbInsertNodeFixup (t : LosRbTree K) (x : Nat) : LosRbTree K :=
  let t := { t with ulNodes := t.ulNodes + 1 }
  let t := insertLoop (t.ulNodes + 1) t x
  t.setColor t.pstRoot .black

/-- The case of OsRbDeleteNodeFixup in which the far child of the black sibling w is black. -/
def deleteCase3 (d : Dir) (t : LosRbTree K) (node w : Nat) : LosRbTree K × Nat :=
  if t.color (t.child d.flip w) = .black then
    let t := t.setColor (t.child d w) .black
    let t := t.setColor w .red
    let t := rotateNode d.flip t w
    (t, t.child d.flip (t.parent node))
  else (t, w)

/-- The case in which the far child of the black sibling w is red; the loop ends at the root. -/
def deleteCase4 (d : Dir) (t : LosRbTree K) (node w : Nat) : LosRbTree K × Nat :=
  let t := t.setColor w (t.color (t.parent node))
  let t := t.setColor (t.parent node) .black
  let t := t.setColor (t.child d.flip w) .black
  let t := rotateNode d t (t.parent node)
  (t, t.pstRoot)

/-- A round of the loop of OsRbDeleteNodeFixup once the sibling w is black. -/
def deleteRoundBlack (d : Dir) (t : LosRbTree K) (node w : Nat) : LosRbTree K × Nat :=
  if t.color (t.child .left w) = .black ∧ t.color (t.child .right w) = .black then
    let t := t.setColor w .red
    (t, t.parent node)
  else
    let (t, w) := deleteCase3 d t node w
    deleteCase4 d t node w

/-- A round of the loop of OsRbDeleteNodeFixup when node is on side d of its parent. -/
def deleteRound (d : Dir) (t : LosRbTree K) (node : Nat) : LosRbTree K × Nat :=
  let w := t.child d.flip (t.parent node)
  if t.color w = .red then
    let t := t.setColor w .black
    let t := t.setColor (t.parent node) .red
    let t := rotateNode d t (t.parent node)
    deleteRoundBlack d t node (t.child d.flip (t.parent node))
  else deleteRoundBlack d t node w

def deleteLoop : Nat → LosRbTree K → Nat → LosRbTree K × Nat
  | 0, t, node => (t, node)
  | fuel + 1, t, node =>
    if node ≠ t.pstRoot ∧ t.color node = .black then
      let d := if t.child .left (t.parent node) = node then Dir.left else Dir.right
      let (t, node) := deleteRound d t node
      deleteLoop fuel t node
    else (t, node)

/-- OsRbClearTree detaches every walker. -/
def osRbClearTree (t : LosRbTree K) : LosRbTree K :=
  { t with
    stWalkHead := []
    walk := fun i => if i ∈ t.stWalkHead then { pstCurrNode := 0, attached := false } else t.walk i }

def osRbDeleteNodeFixup (t : LosRbTree K) (node : Nat) : LosRbTree K :=
  let (t, node) := deleteLoop (t.ulNodes + 1) t node
  let t := t.setColor node .black
  if t.ulNodes = 0 then osRbClearTree t else t

/-- RB_IS_NOT_NILT. -/
def isNotNilT (t : LosRbTree K) (x : Nat) : Bool := t.child .left x ≠ 0 && t.child .right x ≠ 0

/-- Down the left children to the sentinel. -/
def leftmost (t : LosRbTree K) : Nat → Nat → Nat
  | 0, node => node
  | fuel + 1, node => if t.stNilT ≠ t.child .left node then leftmost t fuel (t.child .left node) else node

def losRbFirstNode (t : LosRbTree K) : Nat :=
  if t.pstRoot = 0 then 0
  else if t.stNilT = t.pstRoot then 0
  else leftmost t (t.ulNodes + 1) t.pstRoot

/-- The climb of LOS_RbSuccessorNode: the ancestor y and the node below it. -/
def climb (t : LosRbTree K) : Nat → Nat → Nat → Nat
  | 0, _, y => y
  | fuel + 1, node, y => if t.stNilT ≠ y ∧ node = t.child .right y then climb t fuel y (t.parent y) else y

def losRbSuccessorNode (t : LosRbTree K) (node : Nat) : Nat :=
  if node = 0 then 0
  else if !isNotNilT t node then 0
  else if t.stNilT ≠ t.child .right node then leftmost t (t.ulNodes + 1) (t.child .right node)
  else
    let y := climb t (t.ulNodes + 1) node (t.parent node)
    if t.stNilT = y then 0 else y

/-- The node z, which has at most one child, is taken out and child takes its place. -/
def spliceOut (t : LosRbTree K) (z child : Nat) : LosRbTree K := relink (t.setParent child (t.parent z)) .left z child

/-- The node del is replaced by z, which takes over its links and its colour. -/
def replaceNode (t : LosRbTree K) (del z : Nat) : LosRbTree K :=
  let t := t.setParent z (t.parent del)
  let t := t.setColor z (t.color del)
  let t := t.setChild .right z (t.child .right del)
  let t := t.setChild .left z (t.child .left del)
  let t := relink t .left del z
  let t := t.setParent (t.child .left del) z
  t.setParent (t.child .right del) z

/-- A deleted node is left red with all links to the sentinel. -/
def resetNode (t : LosRbTree K) (z : Nat) : LosRbTree K :=
  t.setNode z { pstParent := t.stNilT, pstRight := t.stNilT, pstLeft := t.stNilT, lColor := .red }

/-- The walkers that stand at z move on to its successor. -/
def moveWalks (t : LosRbTree K) (z : Nat) : LosRbTree K :=
  { t with walk := fun i =>
      if i ∈ t.stWalkHead ∧ (t.walk i).pstCurrNode = z then { t.walk i with pstCurrNode := losRbSuccessorNode t z }
      else t.walk i }

def osRbDeleteNode (t : LosRbTree K) (z : Nat) : LosRbTree K :=
  let nilT := t.stNilT
  if z = 0 then t
  else if !isNotNilT t z then t
  else if t.parent z = nilT ∧ t.child .left z = nilT ∧ t.child .right z = nilT ∧ t.pstRoot ≠ z then t
  else
    let t := { t with ulNodes := t.ulNodes - 1 }
    let t := moveWalks t z
    if nilT = t.child .left z ∨ nilT = t.child .right z then
      let child := if nilT ≠ t.child .left z then t.child .left z else t.child .right z
      let t := spliceOut t z child
      let t := if t.color z = .black then osRbDeleteNodeFixup t child else t
      resetNode t z
    else
      let del := z
      let z := leftmost t (t.ulNodes + 1) (t.child .right z)
      let child := t.child .right z
      let lColor := t.color z
      let t := spliceOut t z child
      let t := replaceNode t del z
      let t := if lColor = .black then osRbDeleteNodeFixup t child else t
      resetNode t del

/-- The search loop of LOS_RbGetNode: whether the key was found, and the node or the last one seen. -/
def getLoop (cmp : K → K → Cmp) (t : LosRbTree K) (key : K) : Nat → Nat → Nat → Bool × Nat
  | 0, _, y => (false, y)
  | fuel + 1, x, y =>
    if x ≠ t.stNilT then
      match cmp key (t.key x) with
      | .equal => (true, x)
      | .smaller => getLoop cmp t key fuel (t.child .left x) x
      | .bigger => getLoop cmp t key fuel (t.child .right x) x
    else (false, y)

def losRbGetNode (cmp : K → K → Cmp) (t : LosRbTree K) (key : K) : Bool × Nat :=
  getLoop cmp t key (t.ulNodes + 1) t.pstRoot t.pstRoot

def losRbInsertOneNodeProcess (cmp : K → K → Cmp) (t : LosRbTree K) (parent new : Nat) : LosRbTree K :=
  let nilT := t.stNilT
  let t := t.setColor new .red
  let t := t.setChild .right new nilT
  let t := t.setChild .left new nilT
  let t := t.setParent new parent
  let t :=
    if parent = nilT then { t with pstRoot := new }
    else if cmp (t.key new) (t.key parent) = .smaller then t.setChild .left parent new
    else t.setChild .right parent new
  osRbInsertNodeFixup t new

def losRbAddNode (cmp : K → K → Cmp) (t : LosRbTree K) (new : Nat) : LosRbTree K × Bool :=
  if new = 0 then (t, false)
  else
    match losRbGetNode cmp t (t.key new) with
    | (true, _) => (t, false)
    | (false, x) => if x = 0 then (t, false) else (losRbInsertOneNodeProcess cmp t x new, true)

def losRbDelNode (t : LosRbTree K) (node : Nat) : LosRbTree K := osRbDeleteNode t node

/-- LOS_RbInitTree on a memory of nodes. -/
def losRbInitTree (nilT : Nat) (node : Nat → LosRbNode) (key : Nat → K) (walk : Nat → LosRbWalk) : LosRbTree K where
  pstRoot := nilT
  stNilT := nilT
  node := fun q => if q = nilT then { pstParent := 0, pstRight := 0, pstLeft := 0, lColor := .black } else node q
  key := key
  ulNodes := 0
  stWalkHead := []
  walk := walk

/-- RB_SCAN: the nodes from the first one on by LOS_RbSuccessorNode. -/
def scanFrom (t : LosRbTree K) : Nat → Nat → List Nat
  | 0, _ => []
  | fuel + 1, node => if node = 0 then [] else node :: scanFrom t fuel (losRbSuccessorNode t node)

def scan (t : LosRbTree K) : List Nat := scanFrom t (t.ulNodes + 1) (losRbFirstNode t)

-- Protected walks

def losRbCreateWalk (t : LosRbTree K) (i : Nat) : LosRbTree K × Bool :=
  let node := losRbFirstNode t
  if node = 0 then (t, false)
  else
    ({ t with
        stWalkHead := i :: t.stWalkHead
        walk := fun j => if j = i then { pstCurrNode := node, attached := true } else t.walk j }, true)

def losRbWalkNext (t : LosRbTree K) (i : Nat) : LosRbTree K × Nat :=
  if (t.walk i).pstCurrNode = 0 ∨ (t.walk i).attached = false then (t, 0)
  else
    let node := (t.walk i).pstCurrNode
    ({ t with walk := fun j =>
        if j = i then { t.walk i with pstCurrNode := losRbSuccessorNode t node } else t.walk j }, node)

def losRbDeleteWalk (t : LosRbTree K) (i : Nat) : LosRbTree K :=
  { t with
    stWalkHead := t.stWalkHead.erase i
    walk := fun j => if j = i then { pstCurrNode := 0, attached := false } else t.walk j }

end LiteOsKernel.Rbtree
