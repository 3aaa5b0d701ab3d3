import LiteOsKernel.Mem.TlsfInit

/-! The list of registered pools of kernel/base/mem/tlsf/los_memory.c with LOSCFG_MEM_MUL_POOL: the heads lie in
the memory that the pools manage, and LOS_MemInit formats a new one before it looks for a conflict. -/
namespace LiteOsKernel.Mem.Pools
open LiteOsKernel Tlsf

/-- The word memory with the heads in it, and the first pool of the list. -/
structure Kernel where
  mem : Nat → Nat
  gPoolHead : Nat

/-- The pool whose head lies at an address. -/
def poolAt (mem : Nat → Nat) (pool : Nat) : MemPool where
  pool := pool
  totalSize := mem (pool + 4)
  attr := mem (pool + 8)
  waterLine := mem (pool + 12)
  curUsedSize := mem (pool + 16)
  freeListBitmap w := mem (pool + 20 + 4*w)
  freeList i := mem (pool + 48 + 4*i)
  mem := mem
  pages := []
  panic := false

def nextPool (mem : Nat → Nat) (pool : Nat) : Nat := mem (pool + 956)

/-- The member of the spinlock at an offset; lockName is the address of the name. -/
def losSpinInit (lockName k : Nat) : Nat := if k = 4 then 2^32 - 1 else if k = 12 then lockName else 0

/-- The word of a pool head at an offset. -/
def headWord (lockName : Nat) (p : MemPool) (next k : Nat) : Nat :=
  if k = 0 then p.pool else if k = 4 then p.totalSize else if k = 8 then p.attr else if k = 12 then p.waterLine
  else if k = 16 then p.curUsedSize else if k < 48 then p.freeListBitmap ((k - 20)/4)
  else if k < 940 then p.freeList ((k - 48)/4) else if k < 956 then losSpinInit lockName (k - 940) else next

/-- A memory with other words in the head of a pool. -/
def withHead (mem : Nat → Nat) (pool : Nat) (word : Nat → Nat) (x : Nat) : Nat :=
  if pool ≤ x ∧ x < pool + sizeofPoolHead ∧ (x - pool)%4 = 0 then word (x - pool) else mem x

/-- Formats the head and the first and the last node; none when LOS_Panic is called. -/
def osMemPoolInit (lockName : Nat) (mem : Nat → Nat) (pool size : Nat) : Option (Nat → Nat) :=
  let p := Tlsf.osMemPoolInit mem [] pool size
  if p.panic then none else some (withHead p.mem pool (headWord lockName p 0))

def osMemPoolDeInit (mem : Nat → Nat) (pool : Nat) : Nat → Nat := withHead mem pool fun _ => 0

def poolConflict (mem : Nat → Nat) (pool size next : Nat) : Prop :=
  let poolEnd := Word.add next (losMemPoolSizeGet (poolAt mem next))
  (pool ≤ next ∧ next < Word.add pool size) ∨ (pool < poolEnd ∧ poolEnd ≤ Word.add pool size)

instance (mem : Nat → Nat) (pool size next : Nat) : Decidable (poolConflict mem pool size next) :=
  inferInstanceAs (Decidable (_ ∨ _))

/-- The addresses that a list without a cycle can have are fewer than this. -/
@[irreducible] def poolFuel : Nat := 2^32

/-- The loop of OsMemPoolAdd: the last pool of the list, or a conflict, which is no pool; none when it never ends. -/
def poolAddFrom (mem : Nat → Nat) (pool size : Nat) : Nat → Nat → Nat → Option (Option Nat)
  | 0, _, _ => none
  | fuel+1, curPool, next =>
    if next = 0 then some (some curPool)
    else if poolConflict mem pool size next then some none
    else poolAddFrom mem pool size fuel next (nextPool mem next)

def osMemPoolAdd (k : Kernel) (pool size : Nat) : Option (Kernel × Nat) :=
  (poolAddFrom k.mem pool size poolFuel k.gPoolHead k.gPoolHead).map fun
    | none => (k, LOS_NOK)
    | some curPool =>
      let k := if k.gPoolHead = 0 then { k with gPoolHead := pool }
        else { k with mem := Function.update k.mem (curPool + 956) pool }
      ({ k with mem := Function.update k.mem (pool + 956) 0 }, LOS_OK)

/-- None when the call panics or never returns. -/
def losMemInit (lockName : Nat) (k : Kernel) (pool size : Nat) : Option (Kernel × Nat) :=
  if pool = 0 ∨ size ≤ OS_MEM_MIN_POOL_SIZE then some (k, OS_ERROR)
  else
    let size := osMemAlign size OS_MEM_ALIGN_SIZE
    match osMemPoolInit lockName k.mem pool size with
    | none => none
    | some mem =>
      match osMemPoolAdd { k with mem := mem } pool size with
      | none => none
      | some (k, ret) =>
        if ret ≠ LOS_OK then some ({ k with mem := osMemPoolDeInit k.mem pool }, OS_ERROR) else some (k, LOS_OK)

-- The registered pools

/-- The pools of the list. -/
inductive Registered (k : Kernel) : Nat → Prop
  | first (h : k.gPoolHead ≠ 0) : Registered k k.gPoolHead
  | next {p : Nat} (hp : Registered k p) (h : nextPool k.mem p ≠ 0) : Registered k (nextPool k.mem p)

/-- The words of a pool: those of its head, of the nodes up to its end, and of the areas that its sentinels list. -/
def OfPool (mem : Nat → Nat) (p x : Nat) : Prop :=
  (p ≤ x ∧ x < p + sizeofPoolHead) ∨ (p ≤ x ∧ x < p + (poolAt mem p).totalSize) ∨
    ∃ E, SentinelChain (poolAt mem p) (osMemEndNode p (poolAt mem p).totalSize) E ∧ ∃ y ∈ E, y.node ≤ x ∧ x < y.node + y.size

/-- The list is as it was, and so is every word of the heads, nodes and free lists of its pools. -/
structure LeftIntact (k k' : Kernel) : Prop where
  gPoolHead : k'.gPoolHead = k.gPoolHead
  list : ∀ p, Registered k' p ↔ Registered k p
  words : ∀ p, Registered k p → ∀ x, OfPool k.mem p x → k'.mem x = k.mem x

-- What LOS_MemInit leaves

/-- The word at x when the first and the last node of a pool are formatted over the word d. -/
def nodeWord (pool size d x : Nat) : Nat :=
  let endNode := pool + size - OS_MEM_NODE_HEAD_SIZE
  let newNode := pool + sizeofPoolHead
  if x = endNode + 8 then OS_MEM_NODE_USED_FLAG ||| OS_MEM_NODE_LAST_FLAG
  else if x = endNode + 4 then 0
  else if x = endNode then OS_MEM_NODE_MAGIC
  else if x = newNode then OS_MEM_NODE_MAGIC
  else if x = newNode + 16 ∨ x = newNode + 12 ∨ x = newNode + 4 then 0
  else if x = newNode + 8 then size - OS_MEM_MIN_POOL_SIZE
  else d

/-- The word at x when a head and its two nodes have been formatted over the word d and the head cleared again. -/
def formatted (pool size d x : Nat) : Nat :=
  if pool ≤ x ∧ x < pool + sizeofPoolHead ∧ (x - pool)%4 = 0 then 0 else nodeWord pool size d x

/-- The parameter check fails, or formatting puts nothing into a registered pool that is not there already. -/
def Spared (k : Kernel) (pool size : Nat) : Prop :=
  pool = 0 ∨ size ≤ OS_MEM_MIN_POOL_SIZE ∨ ∀ p, Registered k p → ∀ x, OfPool k.mem p x →
    formatted pool (osMemAlign size OS_MEM_ALIGN_SIZE) (k.mem x) x = k.mem x

variable {lockName pool size : Nat} {mem m : Nat → Nat} {k k' : Kernel}

private theorem poolInit_panic (hidx : OS_MEM_FREE_LIST_COUNT ≤ osMemFreeListIndexGet (size - 972)) (hsz : 972 ≤ size)
    (hlt : size < 2^32) : (Tlsf.osMemPoolInit mem [] pool size).panic = true := by
  have hs : Word.sub (Word.sub size sizeofPoolHead) OS_MEM_NODE_HEAD_SIZE = size - 972 := by
    rw [sizeofPoolHead, OS_MEM_NODE_HEAD_SIZE, Word.sub_eq (x := size) (by omega), Word.sub_eq (by omega)]
    omega
  simp [Tlsf.osMemPoolInit, hs, osMemFreeNodeAdd, MemPool.sizeAndFlag, MemPool.setMagic, MemPool.setPtr,
    MemPool.setSizeAndFlag, hidx, losPanic, osMemSentinelNodeSet]

private theorem newNode_mem (i x : Nat) : (osMemListAdd (headInit mem [] pool size) i (pool + 960)).mem x =
    if x = pool + 960 then OS_MEM_NODE_MAGIC
    else if x = pool + 960 + 16 ∨ x = pool + 960 + 12 ∨ x = pool + 960 + 4 then 0
    else if x = pool + 960 + 8 then size - 972 else mem x := by
  have hempty : (headInit mem [] pool size).freeList i = 0 := rfl
  rw [listAdd_mem, headInit_mem, hempty]
  split_ifs <;> omega

private theorem osMemPoolInit_mem (hpos : 0 < pool) (hsz : 972 ≤ size) (htop : pool + size ≤ 2^32)
    (h : osMemPoolInit lockName mem pool size = some m) (x : Nat) (hx : ¬(pool ≤ x ∧ x < pool + sizeofPoolHead ∧ (x - pool)%4 = 0)) :
    m x = nodeWord pool size (mem x) x := by
  have hidx : osMemFreeListIndexGet (size - 972) < OS_MEM_FREE_LIST_COUNT := by
    by_contra hno
    rw [osMemPoolInit, poolInit_panic (by omega) hsz (by omega), if_pos rfl] at h
    cases h
  obtain ⟨m',hp,hm⟩ := poolInit_eq mem [] hpos hsz hidx htop
  have hm' : m x = m' x := by
    rw [osMemPoolInit, hp] at h
    split at h
    case isTrue => cases h
    obtain rfl := Option.some.inj h
    rw [withHead, if_neg hx]
  have hflags : OS_MEM_NODE_USED_FLAG ||| OS_MEM_NODE_LAST_FLAG = 2^31 + 2^29 := by decide
  have hmin : size - (12 + 960) = size - 972 := rfl
  rw [hm', hm, newNode_mem, nodeWord, hflags]
  simp only [OS_MEM_NODE_HEAD_SIZE, sizeofPoolHead, OS_MEM_MIN_POOL_SIZE, hmin]

/-- A LOS_MemInit in vain leaves the list's start alone, and of the words those that it formats. -/
private theorem losMemInit_error (hmod : pool%4 = 0) (htop : pool + size ≤ 2^32) (h0 : pool ≠ 0) (hsz : ¬size ≤ OS_MEM_MIN_POOL_SIZE)
    (h : losMemInit lockName k pool size = some (k', OS_ERROR)) : k'.gPoolHead = k.gPoolHead ∧
      ∀ x, k'.mem x = formatted pool (osMemAlign size OS_MEM_ALIGN_SIZE) (k.mem x) x := by
  have hal : osMemAlign size OS_MEM_ALIGN_SIZE = (size + 3)/4*4 := osMemAlign_four (by omega)
  rw [losMemInit, if_neg (by omega)] at h
  dsimp only at h
  split at h
  case h_1 => cases h
  case h_2 m hm =>
  split at h
  case h_1 => cases h
  case h_2 k₁ ret hadd =>
  split at h
  case isFalse => cases h
  case isTrue hret =>
  -- the list is walked and found in conflict, which changes nothing
  obtain ⟨hk,-⟩ := Prod.mk.inj (Option.some.inj h)
  have hk₁ : k₁ = { k with mem := m } := by
    obtain ⟨r,-,hr⟩ := Option.map_eq_some_iff.mp hadd
    cases r with
    | none => exact (Prod.mk.inj hr).1.symm
    | some curPool => exact absurd (Prod.mk.inj hr).2.symm hret
  subst hk₁ hk
  refine ⟨rfl,fun x => ?_⟩
  show osMemPoolDeInit m pool x = _
  rw [osMemPoolDeInit, withHead, formatted]
  split
  case isTrue => rfl
  case isFalse hx =>
  rw [OS_MEM_MIN_POOL_SIZE, OS_MEM_NODE_HEAD_SIZE, sizeofPoolHead] at hsz
  rw [hal] at hm ⊢
  exact osMemPoolInit_mem (by omega) (by omega) (by omega) hm x hx

/-- Where the words of the registered pools stay, so does their list. -/
private theorem registered_iff (hg : k'.gPoolHead = k.gPoolHead) (hw : ∀ p, Registered k p → ∀ x, OfPool k.mem p x → k'.mem x = k.mem x)
    (p : Nat) : Registered k' p ↔ Registered k p := by
  have hnext : ∀ p, Registered k p → nextPool k'.mem p = nextPool k.mem p := fun p hp =>
    hw p hp (p + 956) (.inl ⟨by omega,by simp only [sizeofPoolHead]; omega⟩)
  constructor
  · intro h
    induction h with
    | first h0 =>
      rw [hg] at h0 ⊢
      exact .first h0
    | @next p _ h0 ih =>
      rw [hnext p ih] at h0 ⊢
      exact .next ih h0
  · intro h
    induction h with
    | first h0 =>
      rw [← hg] at h0 ⊢
      exact .first h0
    | @next p hp h0 ih =>
      rw [← hnext p hp] at h0 ⊢
      exact .next ih h0

/-- A LOS_MemInit that returns OS_ERROR leaves the registered pools intact exactly where it formats nothing of them. -/
theorem leftIntact_iff_spared (lockName : Nat) (k k' : Kernel) (pool size : Nat) (hmod : pool%4 = 0) (htop : pool + size ≤ 2^32)
    (h : losMemInit lockName k pool size = some (k', OS_ERROR)) : LeftIntact k k' ↔ Spared k pool size := by
  by_cases hc : pool = 0 ∨ size ≤ OS_MEM_MIN_POOL_SIZE
  · rw [losMemInit, if_pos hc] at h
    obtain ⟨rfl,-⟩ := Prod.mk.inj (Option.some.inj h)
    exact iff_of_true ⟨rfl,fun _ => Iff.rfl,fun _ _ _ _ => rfl⟩ (hc.imp_right .inl)
  obtain ⟨h0,hsz⟩ := not_or.mp hc
  obtain ⟨hg,hmem⟩ := losMemInit_error hmod htop h0 hsz h
  constructor
  · intro hI
    refine .inr (.inr fun p hp x hx => ?_)
    rw [← hmem]
    exact hI.words p hp x hx
  · intro hS
    have hwords : ∀ p, Registered k p → ∀ x, OfPool k.mem p x → k'.mem x = k.mem x := by
      intro p hp x hx
      rw [hmem]
      exact (hS.resolve_left h0).resolve_left hsz p hp x hx
    exact ⟨hg,registered_iff hg hwords,hwords⟩

/-- Formatting leaves alone what is neither in the head, nor in the first node, nor in the last node. -/
private theorem formatted_outside {d x : Nat} (h1 : x < pool ∨ pool + 980 ≤ x)
    (h2 : x < pool + size - 12 ∨ pool + size ≤ x) (hsz : 12 ≤ size) : formatted pool size d x = d := by
  have hhead : OS_MEM_NODE_HEAD_SIZE = 12 := rfl
  have hpool : sizeofPoolHead = 960 := rfl
  rw [formatted, if_neg (by omega), nodeWord]
  split_ifs <;> omega

/-- A kernel with one pool of a page at 0x10000, in memory that is clear. -/
def onePool : Kernel := ((losMemInit 0 ⟨fun _ => 0,0⟩ 0x10000 0x1000).map Prod.fst).getD ⟨fun _ => 0,0⟩

private theorem onePool_registered {p : Nat} (h : Registered onePool p) : p = 0x10000 := by
  have hg : onePool.gPoolHead = 0x10000 := by decide +kernel
  have hn : nextPool onePool.mem 0x10000 = 0 := by decide +kernel
  induction h with
  | first => exact hg
  | next _ h0 ih =>
    rw [ih] at h0
    exact absurd hn h0

/-- A pool around the registered one is refused and does no harm. -/
theorem leftIntact_around : ∃ k', losMemInit 0 onePool 0x9000 0x9000 = some (k', OS_ERROR) ∧ LeftIntact onePool k' := by
  have hret : (losMemInit 0 onePool 0x9000 0x9000).map Prod.snd = some OS_ERROR := by decide +kernel
  obtain ⟨⟨k',r⟩,he,rfl⟩ := Option.map_eq_some_iff.mp hret
  refine ⟨k',he,(leftIntact_iff_spared 0 onePool k' 0x9000 0x9000 (by norm_num) (by norm_num) he).mpr (.inr (.inr ?_))⟩
  intro p hp x hx
  obtain rfl := onePool_registered hp
  have hal : osMemAlign 0x9000 OS_MEM_ALIGN_SIZE = 0x9000 := by decide +kernel
  have hsz : (poolAt onePool.mem 0x10000).totalSize = 0x1000 := by decide +kernel
  have hend : osMemEndNode 0x10000 0x1000 = 0x10ff4 := by decide +kernel
  have hptr : (poolAt onePool.mem 0x10000).ptr 0x10ff4 = 0 := by decide +kernel
  have hflag : (poolAt onePool.mem 0x10000).sizeAndFlag 0x10ff4 = 2^31 + 2^29 := by decide +kernel
  have hzero : (poolAt onePool.mem 0x10000).magic 0 ≠ OS_MEM_NODE_MAGIC := by decide +kernel
  have hin : 0x10000 ≤ x ∧ x < 0x11000 := by
    rcases hx with hx | hx | ⟨E,hE,y,hy,hl,hr⟩
    · rw [sizeofPoolHead] at hx
      omega
    · rw [hsz] at hx
      omega
    · -- the last sentinel lists no area
      exfalso
      rw [hsz, hend] at hE
      cases E with
      | nil => cases hy
      | cons z E =>
        obtain ⟨h1,-,h3,h4⟩ := hE
        have hz : z.sentinel = 0 := by
          rw [Area.sentinel]
          omega
        rcases List.mem_cons.mp hy with rfl | hy
        · omega
        · rw [hz] at h4
          cases E with
          | nil => cases hy
          | cons w E => exact hzero h4.2.1
  rw [hal]
  exact formatted_outside (.inr (by omega)) (.inl (by omega)) (by norm_num)

/-- The registered pool's own address is refused only after its head has been formatted, and then the head is cleared. -/
theorem leftIntact_fails_again : ¬∀ lockName k k' pool size, pool%4 = 0 → pool + size ≤ 2^32 →
    losMemInit lockName k pool size = some (k', OS_ERROR) → LeftIntact k k' := by
  intro hall
  have hret : (losMemInit 0 onePool 0x10000 0x1000).map (fun r => (r.2, r.1.mem 0x10004)) = some (OS_ERROR, 0) := by
    decide +kernel
  have hsz : onePool.mem 0x10004 = 0x1000 := by decide +kernel
  obtain ⟨⟨k',r⟩,he,hr⟩ := Option.map_eq_some_iff.mp hret
  obtain ⟨rfl,h4⟩ := Prod.mk.inj hr
  have hg : onePool.gPoolHead = 0x10000 := by decide +kernel
  have hreg : Registered onePool 0x10000 := hg ▸ .first (by rw [hg]; norm_num)
  have := (hall 0 onePool k' 0x10000 0x1000 (by norm_num) (by norm_num) he).words 0x10000 hreg 0x10004
    (.inl ⟨by norm_num,by norm_num [sizeofPoolHead]⟩)
  rw [hsz] at this
  exact absurd (this.symm.trans h4) (by norm_num)

end LiteOsKernel.Mem.Pools
