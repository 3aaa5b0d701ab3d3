import LiteOsKernel.Lib.Run
import LiteOsKernel.Mem.TlsfRun

/-! Whole runs of a heap that may expand: the areas it owns, the blocks its clients hold, and what a call
changes of them. -/
namespace LiteOsKernel.Mem.Tlsf
open LiteOsKernel Links Lib Run

variable {p q v : MemPool} {E E' : List Area} {N N' F F' : Set Nat} {L L' : Nat → List Nat} {a b c k r : Nat}
  {x : Option Area} {own own' : Nat → Nat}

-- The effect of a call

/-- The node that a client's pointer resolves to. -/
def blockNode (p : MemPool) (ptr : Nat) : Nat := Word.sub (osGetRealPtr p ptr) OS_MEM_NODE_HEAD_SIZE

namespace Call

/-- The size of the node that the call asks OsMemAlloc for. -/
def asks (p : MemPool) : Call → Option Nat
  | .alloc size => (allocUse size).map allocSizeOf
  | .allocAlign size boundary => (alignUse size boundary).map allocSizeOf
  | .realloc ptr size =>
    if ptr = 0 then ((reallocUse size).bind allocUse).map allocSizeOf
    else ((reallocUse size).map allocSizeOf).filter fun k => Moves p (blockNode p ptr) k
  | _ => none

/-- The area that the call obtains. -/
def grown (p : MemPool) (c : Call) : Option Area := (c.asks p).bind (grownArea p)

/-- The node that the call releases, with the pool it is released in. -/
def released (p : MemPool) : Call → Option (MemPool × Nat)
  | .free ptr => some (p, blockNode p ptr)
  | .realloc ptr size =>
    if ptr = 0 then none
    else ((reallocUse size).filter fun s => Moves p (blockNode p ptr) (allocSizeOf s) ∧ ¬NoRoom p (allocSizeOf s)).map
      fun s => (copied p (osGetRealPtr p ptr) (blockNode p ptr) s, blockNode p ptr)
  | _ => none

/-- The area that the call gives back, by its first node. -/
def returned (p : MemPool) (c : Call) : Option Nat := (c.released p).bind fun r => handedBack r.1 r.2

end Call

-- Runs

/-- LosVmPage's nPages of the area's first page, a UINT16. -/
def Area.nPages (x : Area) : Nat := (x.size >>> PAGE_SHIFT)%2^16

/-- A block that a client holds: its pointer, and the size and the boundary asked for. -/
structure Block where
  ptr : Nat
  size : Nat
  boundary : Nat
deriving DecidableEq

/-- A pool with the areas it owns, the blocks its clients hold, and the values that curUsedSize has taken. -/
structure Arena where
  pool : MemPool
  areas : List Area
  live : List Block
  values : List Nat

/-- A call with the answers that the page allocator has for it, a write of other code, or LOS_MemExpandEnable. -/
inductive Event where
  | call (c : Call) (pages : List Nat)
  | foreign (addr value : Nat)
  | expandEnable

def losMemExpandEnable (p : MemPool) : MemPool := { p with attr := p.attr ||| OS_MEM_POOL_EXPAND_ENABLE }

namespace Arena

/-- OsMemLargeNodeFree of an area that the pool owns: it is refused where the page count reads 0. -/
def largeNodeFree (h : Arena) (p : MemPool) (c : Call) (node : Nat) : Bool :=
  (h.areas ++ (c.grown p).toList).any fun x => x.node == node && x.nPages != 0

/-- The area whose pages go back to the page allocator, by its first node. -/
def givenBack (h : Arena) (p : MemPool) (c : Call) : Option Nat := (c.returned p).filter (h.largeNodeFree p c)

/-- The arena when the call c has led to the pool q and the blocks live. -/
def called (h : Arena) (p : MemPool) (c : Call) (q : MemPool) (live : List Block) : Arena :=
  ⟨q,remaining (h.areas ++ (c.grown p).toList) (h.givenBack p c),live,
    q.curUsedSize :: ((c.released p).map fun r => r.1.curUsedSize).toList ++
      (countArea p (c.grown p)).curUsedSize :: h.values⟩

/-- A call in the pool p. -/
def call (h : Arena) (p : MemPool) : Call → Arena
  | .alloc size =>
    let (q, r) := losMemAlloc p size
    h.called p (.alloc size) q (if r = 0 then h.live else ⟨r,size,OS_MEM_ALIGN_SIZE⟩ :: h.live)
  | .allocAlign size boundary =>
    let (q, r) := losMemAllocAlign p size boundary
    h.called p (.allocAlign size boundary) q (if r = 0 then h.live else ⟨r,size,boundary⟩ :: h.live)
  | .realloc ptr size =>
    let (q, r) := losMemRealloc (h.largeNodeFree p (.realloc ptr size)) p ptr size
    h.called p (.realloc ptr size) q
      (if r = 0 then h.live else ⟨r,size,OS_MEM_ALIGN_SIZE⟩ :: h.live.filter (·.ptr ≠ ptr))
  | .free ptr =>
    let (q, ret) := losMemFree (h.largeNodeFree p (.free ptr)) p ptr
    h.called p (.free ptr) q (if ret = LOS_OK then h.live.filter (·.ptr ≠ ptr) else h.live)
  | .store ptr addr value => h.called p (.store ptr addr value) (p.setWord addr value) h.live

def run (h : Arena) : Event → Arena
  | .call c pages => h.call { h.pool with pages := pages } c
  | .foreign addr value => { h with pool := h.pool.setWord addr value }
  | .expandEnable => { h with pool := losMemExpandEnable h.pool }

end Arena

/-- Whole pages that neither the pool nor its areas meet, as the page allocator hands them out. -/
structure Area.Pages (p : MemPool) (E : List Area) (x : Area) : Prop where
  node_pos : 0 < x.node
  node_mod : x.node%4096 = 0
  size_pos : 0 < x.size
  size_mod : x.size%4096 = 0
  top : x.node + x.size < 2^32
  outside : x.node + x.size ≤ p.pool ∨ p.pool + p.totalSize ≤ x.node
  apart : ∀ y ∈ E, x.node + x.size ≤ y.node ∨ y.node + y.size ≤ x.node

/-- Arguments are words; a freed or reallocated pointer is one of a live block, whose bytes the client may write. -/
def Arena.Legal (h : Arena) : Call → Prop
  | .alloc size => size < 2^32
  | .allocAlign size boundary => size < 2^32 ∧ boundary < 2^32
  | .realloc ptr size => (ptr = 0 ∨ ∃ b ∈ h.live, b.ptr = ptr) ∧ size < 2^32
  | .free ptr => ∃ b ∈ h.live, b.ptr = ptr
  | .store ptr addr value => (∃ b ∈ h.live, b.ptr = ptr ∧ ptr ≤ addr ∧ addr < ptr + b.size) ∧ addr%4 = 0 ∧ value < 2^32

/-- The page allocator keeps its promise, and other code writes outside the pool and its areas. -/
def Arena.Pre (h : Arena) : Event → Prop
  | .call c pages => h.Legal c ∧ ∀ x, c.grown { h.pool with pages := pages } = some x → x.Pages h.pool h.areas
  | .foreign addr value => addr%4 = 0 ∧ value < 2^32 ∧ (addr < h.pool.pool ∨ h.pool.pool + h.pool.totalSize ≤ addr) ∧
      ∀ x ∈ h.areas, addr < x.node ∨ x.node + x.size ≤ addr
  | .expandEnable => True

/-- The heaps that start as any pool of LOS_MemInit with room for a free node, with a size within bounds. -/
@[reducible] def arenaSystem (within : Nat → Prop) : System Arena Event where
  init h := ∃ mem pages pool size p, pool%4 = 0 ∧ size < 2^32 ∧
    sizeofPoolHead + OS_MEM_NODE_HEAD_SIZE + 20 ≤ osMemAlign size OS_MEM_ALIGN_SIZE ∧
    pool + osMemAlign size OS_MEM_ALIGN_SIZE ≤ 2^32 ∧ within (osMemAlign size OS_MEM_ALIGN_SIZE) ∧
    losMemInit mem pages pool size = some p ∧ h = ⟨p,[],[],[p.curUsedSize]⟩
  pre := Arena.Pre
  run := Arena.run

/-- The first node's size leaves the flag bits clear. -/
def PoolBelow (size : Nat) : Prop := size < 2^29 + 972

/-- What the call has to give back is no area of 65536 pages, whose count reads 0. -/
def Arena.Returnable (h : Arena) (p : MemPool) (c : Call) : Prop :=
  ∀ x ∈ h.areas ++ (c.grown p).toList, c.returned p = some x.node → x.nPages ≠ 0

/-- A node of 2^29 bytes or more is asked for only where no free node is of the classes searched for it, no area of
2^29 bytes or more is obtained, and none of 65536 pages is given back. -/
def Arena.Fits (h : Arena) : Event → Prop
  | .call c pages =>
    (∀ r, c.asks { h.pool with pages := pages } = some r →
      r < 2^29 ∨ ∀ a, Listed h.pool a → getSize (h.pool.sizeAndFlag a) < hugeBound r) ∧
    (∀ x, c.grown { h.pool with pages := pages } = some x → x.size < 2^29) ∧ h.Returnable { h.pool with pages := pages } c
  | _ => True

/-- The call makes a block grow in place. -/
def Call.GrowsInPlace (p : MemPool) : Call → Prop
  | .realloc ptr size => ptr ≠ 0 ∧ ∃ s, reallocUse size = some s ∧
      ¬allocSizeOf s ≤ getSize (p.sizeAndFlag (blockNode p ptr)) ∧ ¬Moves p (blockNode p ptr) (allocSizeOf s)
  | _ => False

-- Soundness

/-- The blocks live in nodes of their own, which hold the bytes asked for behind the pointer. -/
structure Sound (h : Arena) (N F : Set Nat) (L : Nat → List Nat) (own : Nat → Nat) : Prop where
  held : Held h.pool h.areas N F L own (h.live.map Block.ptr)
  nodup : (h.live.map Block.ptr).Nodup
  room : ∀ b ∈ h.live, b.ptr + b.size ≤ own b.ptr + h.pool.size (own b.ptr)
  dvd : ∀ b ∈ h.live, b.boundary ∣ b.ptr

/-- What a call changes of the nodes in use and of the usage counters: x is the area it obtains, r the node it
releases with the pool it does so in, and g says that it makes a block grow in place. -/
inductive Change (p q : MemPool) (E : List Area) (N N' : Set Nat) : Option Area → Option (MemPool × Nat) → Prop → Prop
  | kept {g : Prop} (nodes : N' = N) (flags : ∀ a ∈ N, q.sizeAndFlag a = p.sizeAndFlag a)
      (curUsedSize : q.curUsedSize = p.curUsedSize) (waterLine : q.waterLine = p.waterLine) : Change p q E N N' none none g
  | granted {x : Option Area} {a : Nat} {g : Prop} (mem : a ∈ N') (used : 2^31 ≤ q.sizeAndFlag a)
      (new : a ∈ N → p.sizeAndFlag a < 2^31) (kept : UsedKept p N q N' {a})
      (recorded : Recorded (countArea p x) q (q.size a)) : Change p q E N N' x none g
  | freed {F' : Set Nat} {L' : Nat → List Nat} {a : Nat} {g : Prop} (mem : a ∈ N) (used : 2^31 ≤ p.sizeAndFlag a)
      (freed : Freed p q (remaining E (handedBack p a)) N N' F' L' a) : Change p q E N N' none (some (p, a)) g
  | resized {a : Nat} {g : Prop} (mem : a ∈ N) (used : 2^31 ≤ p.sizeAndFlag a) (mem' : a ∈ N')
      (used' : 2^31 ≤ q.sizeAndFlag a) (kept : UsedKept p N q N' {a})
      (shrunk : ¬g → q.waterLine = p.waterLine ∧
        ((q.size a ≤ p.size a ∧ q.curUsedSize = Word.sub p.curUsedSize (p.size a - q.size a)) ∨
          (q.size a = p.size a ∧ q.curUsedSize = p.curUsedSize))) :
      Change p q E N N' none none g
  | moved {v : MemPool} {x : Option Area} {F F' : Set Nat} {L' : Nat → List Nat} {a c k : Nat} {g : Prop} (mem : a ∈ N)
      (used : 2^31 ≤ p.sizeAndFlag a) (moved : Moved p v q x E N F N' F' L' a c k) :
      Change p q E N N' x (some (v, a)) g

theorem Arena.largeNodeFree_owned (h : Arena) (c : Call) {x : Area} (hx : x ∈ h.areas ++ (c.grown p).toList)
    (hn : x.nPages ≠ 0) : h.largeNodeFree p c x.node = true :=
  List.any_eq_true.mpr ⟨x,hx,by rw [beq_self_eq_true, Bool.true_and]; exact bne_iff_ne.mpr hn⟩

/-- What the call has to give back is given back where it is an area of the pool with a page count. -/
theorem Arena.givenBack_eq {h : Arena} {c : Call} (hf : h.Returnable p c)
    (hw : ∀ n, c.returned p = some n → ∃ x ∈ h.areas ++ (c.grown p).toList, x.node = n) : h.givenBack p c = c.returned p := by
  rw [Arena.givenBack]
  rcases hr : c.returned p with _ | n
  · rfl
  · obtain ⟨x,hx,rfl⟩ := hw n hr
    rw [Option.filter_some, if_pos (h.largeNodeFree_owned c hx (hf x hx hr))]

theorem Arena.returnable_of_no_area {h : Arena} {c : Call} (hE : h.areas = []) (hg : c.grown p = none) : h.Returnable p c := by
  intro x hx
  rw [hE, hg] at hx
  cases hx

@[simp] theorem Arena.call_areas (h : Arena) (p : MemPool) (c : Call) :
    (h.call p c).areas = remaining (h.areas ++ (c.grown p).toList) (h.givenBack p c) := by
  cases c <;> rfl

@[simp] theorem Arena.call_values (h : Arena) (p : MemPool) (c : Call) : (h.call p c).values =
    (h.call p c).pool.curUsedSize :: ((c.released p).map fun r => r.1.curUsedSize).toList ++
      (countArea p (c.grown p)).curUsedSize :: h.values := by
  cases c <;> rfl

namespace Sound
variable {h : Arena} {vals : List Nat} {ptr size boundary : Nat} {X : Set Nat}

theorem ptr_mem {b : Block} (hb : b ∈ h.live) : b.ptr ∈ h.live.map Block.ptr := List.mem_map_of_mem hb

/-- A step that keeps the nodes and the sizes of the blocks' nodes. -/
theorem kept (hS : Sound h N F L own) (hq : Held q h.areas N F L own (h.live.map Block.ptr))
    (hs : ∀ a ∈ N, q.sizeAndFlag a = h.pool.sizeAndFlag a) : Sound ⟨q,h.areas,h.live,vals⟩ N F L own := by
  refine ⟨hq,hS.nodup,?_,hS.dvd⟩
  intro b hb
  rw [MemPool.size, hs _ (hS.held.owns b.ptr (ptr_mem hb)).1]
  exact hS.room b hb

theorem ptr_ne_zero (hS : Sound h N F L own) {b : Block} (hb : b ∈ h.live) : b.ptr ≠ 0 := by
  have := (hS.held.owns b.ptr (ptr_mem hb)).2.le
  omega

/-- The node of a block that a call does not touch keeps its size. -/
theorem room_kept (hS : Sound h N F L own) {b : Block} (hb : b ∈ h.live) (hX : own b.ptr ∉ X)
    (hk : UsedKept h.pool N q N' X) : b.ptr + b.size ≤ own b.ptr + q.size (own b.ptr) := by
  obtain ⟨h1,h2⟩ := hS.held.owns b.ptr (ptr_mem hb)
  rw [MemPool.size, (hk.keep _ h1 hX h2.used).2.1]
  exact hS.room b hb

/-- A pointer handed out is not that of a block that stays live. -/
private theorem ptr_ne_new (hS : Sound h N F L own) (hI : Inv q E' N' F' ∅ ∅ L') {b : Block} (hb : b ∈ h.live)
    (hX : own b.ptr ∉ X) (hk : UsedKept h.pool N q N' X) (ha : a ∈ N') (ho : Owns q a ptr) (hne : own b.ptr ≠ a) :
    b.ptr ≠ ptr := by
  obtain ⟨h1,h2⟩ := hS.held.owns b.ptr (ptr_mem hb)
  obtain ⟨h3,h4⟩ := h2.kept h1 hX hk
  have h5 := getRealPtr_eq hI h3 h4
  have h6 := getRealPtr_eq hI ha ho
  intro he
  rw [he] at h5 hne
  omega

/-- A pointer handed out beside the blocks that stay. -/
theorem handOut (hS : Sound h N F L own) {live : List Block}
    (hH : Held q E' N' F' L' (Function.update own ptr a) (ptr :: live.map Block.ptr)) (hk : UsedKept h.pool N q N' X)
    (hlive : ∀ b ∈ live, b ∈ h.live ∧ own b.ptr ∉ X ∧ own b.ptr ≠ a) (hnd : (live.map Block.ptr).Nodup)
    (hroom : ptr + size ≤ a + q.size a) (hdvd : boundary ∣ ptr) :
    Sound ⟨q,E',⟨ptr,size,boundary⟩ :: live,vals⟩ N' F' L' (Function.update own ptr a) := by
  obtain ⟨ha,ho⟩ := hH.owns ptr List.mem_cons_self
  rw [Function.update_self] at ha ho
  have hne : ∀ b ∈ live, b.ptr ≠ ptr := fun b hb =>
    hS.ptr_ne_new hH.inv (hlive b hb).1 (hlive b hb).2.1 hk ha ho (hlive b hb).2.2
  refine ⟨hH,List.nodup_cons.mpr ⟨?_,hnd⟩,?_,?_⟩
  · intro hm
    obtain ⟨b,hb,he⟩ := List.mem_map.mp hm
    exact hne b hb he
  · intro b hb
    rcases List.mem_cons.mp hb with rfl | hb
    · rwa [Function.update_self]
    · rw [Function.update_of_ne (hne b hb)]
      exact hS.room_kept (hlive b hb).1 (hlive b hb).2.1 hk
  · intro b hb
    rcases List.mem_cons.mp hb with rfl | hb
    · exact hdvd
    · exact hS.dvd b (hlive b hb).1

private theorem map_filter (live : List Block) (ptr : Nat) : (live.filter (·.ptr ≠ ptr)).map Block.ptr =
    (live.map Block.ptr).filter (· ≠ ptr) := by
  rw [List.filter_map]
  rfl

theorem mem_filter {live : List Block} {b : Block} (hb : b ∈ live.filter (·.ptr ≠ ptr)) : b ∈ live ∧ b.ptr ≠ ptr := by
  rwa [List.mem_filter, decide_eq_true_eq] at hb

/-- The blocks other than the one at ptr have other nodes. -/
theorem own_ne (hS : Sound h N F L own) (hp : ptr ∈ h.live.map Block.ptr) {b : Block} (hb : b ∈ h.live)
    (hne : b.ptr ≠ ptr) : own b.ptr ≠ own ptr :=
  fun he => hne (hS.held.inj b.ptr (ptr_mem hb) ptr hp he)

theorem grant (hS : Sound h N F L own) (hg : Granted h.pool q x h.areas N F N' F' L' a r ptr)
    (hroom : ptr + size ≤ a + q.size a) (hdvd : boundary ∣ ptr) :
    Sound ⟨q,h.areas ++ x.toList,⟨ptr,size,boundary⟩ :: h.live,vals⟩ N' F' L' (Function.update own ptr a) := by
  refine hS.handOut (hS.held.grant hg) hg.used ?_ hS.nodup hroom hdvd
  intro b hb
  have hne := hS.held.own_ne (ptr_mem hb) hg.new
  exact ⟨hb,hne,hne⟩

theorem release (hS : Sound h N F L own) (hp : ptr ∈ h.live.map Block.ptr) (hf : Freed h.pool q E' N N' F' L' (own ptr)) :
    Sound ⟨q,E',h.live.filter (·.ptr ≠ ptr),vals⟩ N' F' L' own := by
  have hH := hS.held.release hp hf
  rw [← map_filter] at hH
  refine ⟨hH,?_,?_,fun b hb => hS.dvd b (mem_filter hb).1⟩
  · rw [map_filter]
    exact hS.nodup.filter _
  · intro b hb
    obtain ⟨h1,h2⟩ := mem_filter hb
    exact hS.room_kept h1 (hS.own_ne hp h1 h2) hf.used

theorem resize (hS : Sound h N F L own) (hp : ptr ∈ h.live.map Block.ptr)
    (hr : Resized h.pool q h.areas N N' F' L' (own ptr) k) (hroom : size + 12 ≤ k) :
    Sound ⟨q,h.areas,⟨own ptr + 12,size,OS_MEM_ALIGN_SIZE⟩ :: h.live.filter (·.ptr ≠ ptr),vals⟩ N' F' L'
      (Function.update own (own ptr + 12) (own ptr)) := by
  have hH := hS.held.resize hp hr
  rw [← map_filter] at hH
  have hk := hr.room
  have hb := hr.inv.bounds hr.mem
  refine hS.handOut hH hr.used ?_ ?_ (by omega) ?_
  · intro b hb
    obtain ⟨h1,h2⟩ := mem_filter hb
    have hne := hS.own_ne hp h1 h2
    exact ⟨h1,hne,hne⟩
  · rw [map_filter]
    exact hS.nodup.filter _
  · exact Nat.dvd_of_mod_eq_zero (by simp only [OS_MEM_ALIGN_SIZE]; omega)

theorem move (hS : Sound h N F L own) (hp : ptr ∈ h.live.map Block.ptr)
    (hm : Moved h.pool v q x h.areas N F N' F' L' (own ptr) c k) (hk : k < 2^29) (hroom : size + 12 ≤ k) :
    Sound ⟨q,remaining (h.areas ++ x.toList) (handedBack v (own ptr)),
      ⟨c + 12,size,OS_MEM_ALIGN_SIZE⟩ :: h.live.filter (·.ptr ≠ ptr),vals⟩ N' F' L' (Function.update own (c + 12) c) := by
  have hH := hS.held.move hp hm
  rw [← map_filter] at hH
  have hkr := hm.room hk
  have hb := hm.inv.bounds hm.mem
  refine hS.handOut hH hm.used ?_ ?_ (by omega) ?_
  · intro b hb
    obtain ⟨h1,h2⟩ := mem_filter hb
    have hne := hS.held.own_ne (ptr_mem h1) hm.new
    refine ⟨h1,?_,hne⟩
    rintro (he | he)
    · exact hS.own_ne hp h1 h2 he
    · exact hne he
  · rw [map_filter]
    exact hS.nodup.filter _
  · exact Nat.dvd_of_mod_eq_zero (by simp only [OS_MEM_ALIGN_SIZE]; omega)

theorem setPages (hS : Sound h N F L own) (pages : List Nat) :
    Sound { h with pool := { h.pool with pages := pages } } N F L own :=
  ⟨⟨hS.held.inv.setPages pages,hS.held.owns,hS.held.inj⟩,hS.nodup,hS.room,hS.dvd⟩

theorem refused (hS : Sound h N F L own) (pages : List Nat) (g : Prop) : ∃ N' F' L' own',
    Sound ⟨{ h.pool with pages := pages },h.areas,h.live,vals⟩ N' F' L' own' ∧
      Change h.pool { h.pool with pages := pages } h.areas N N' none none g :=
  ⟨N,F,L,own,hS.kept (hS.setPages pages).held fun _ _ => rfl,.kept rfl (fun _ _ => rfl) rfl rfl⟩

theorem granted (hS : Sound h N F L own) (hg : Granted h.pool q x h.areas N F N' F' L' a r ptr)
    (hroom : ptr + size ≤ a + q.size a) (hdvd : boundary ∣ ptr) (g : Prop) : ∃ N' F' L' own',
    Sound ⟨q,h.areas ++ x.toList,⟨ptr,size,boundary⟩ :: h.live,vals⟩ N' F' L' own' ∧
      Change h.pool q h.areas N N' x none g :=
  ⟨N',F',L',_,hS.grant hg hroom hdvd,.granted hg.mem hg.owns.used hg.new hg.used hg.recorded⟩

theorem alloc (hS : Sound h N F L own) (hsz : size < 2^32)
    (hx : ∀ x, (Call.alloc size).grown h.pool = some x → x.Fresh h.pool h.areas)
    (hfit : ∀ r, (Call.alloc size).asks h.pool = some r → r < 2^29 ∨ ∀ a ∈ F, h.pool.size a < hugeBound r) :
    ∃ N' F' L' own', Sound (h.call h.pool (.alloc size)) N' F' L' own' ∧
      Change h.pool (h.call h.pool (.alloc size)).pool h.areas N N' ((Call.alloc size).grown h.pool)
        ((Call.alloc size).released h.pool) ((Call.alloc size).GrowsInPlace h.pool) := by
  have hrel : (Call.alloc size).released h.pool = none := rfl
  rcases he : losMemAlloc h.pool size with ⟨q,ptr⟩
  simp only [Arena.call, he, Arena.called, Arena.givenBack, Call.returned, hrel, Option.bind_none, Option.filter_none, remaining_none]
  rcases hs : allocUse size with _ | s
  · have hn : (Call.alloc size).grown h.pool = none := by simp only [Call.grown, Call.asks, hs]; rfl
    rw [losMemAlloc_eq, hs] at he
    obtain ⟨rfl,rfl⟩ := Prod.mk.inj he
    simp only [hn, if_true, Option.toList_none, List.append_nil]
    exact hS.refused h.pool.pages _
  · have hn : (Call.alloc size).grown h.pool = grownArea h.pool (allocSizeOf s) := by
      simp only [Call.grown, Call.asks, hs]
      rfl
    rw [hn] at hx ⊢
    obtain ⟨-,-,hle⟩ := allocUse_spec hsz hs
    rcases hS.held.inv.losMemAlloc hsz hs hx he with ⟨hno,rfl,pages,rfl⟩ | ⟨-,a,N',F',L',rfl,hg⟩
    · simp only [hno.2, if_true, Option.toList_none, List.append_nil]
      exact hS.refused pages _
    · have hk := hg.lt (hfit _ (by simp only [Call.asks, hs]; rfl))
      have hroom := hg.room hk
      have hb := hg.inv.bounds hg.mem
      rw [if_neg (by omega)]
      refine hS.granted hg ?_ ?_ _
      · rw [allocSizeOf] at hroom
        omega
      · exact Nat.dvd_of_mod_eq_zero (by simp only [OS_MEM_ALIGN_SIZE]; omega)

theorem allocAlign (hS : Sound h N F L own) (hsz : size < 2^32) (hbd : boundary < 2^32)
    (hx : ∀ x, (Call.allocAlign size boundary).grown h.pool = some x → x.Fresh h.pool h.areas)
    (hfit : ∀ r, (Call.allocAlign size boundary).asks h.pool = some r → r < 2^29 ∨ ∀ a ∈ F, h.pool.size a < hugeBound r) :
    ∃ N' F' L' own', Sound (h.call h.pool (.allocAlign size boundary)) N' F' L' own' ∧
      Change h.pool (h.call h.pool (.allocAlign size boundary)).pool h.areas N N'
        ((Call.allocAlign size boundary).grown h.pool) ((Call.allocAlign size boundary).released h.pool)
        ((Call.allocAlign size boundary).GrowsInPlace h.pool) := by
  have hrel : (Call.allocAlign size boundary).released h.pool = none := rfl
  rcases he : losMemAllocAlign h.pool size boundary with ⟨q,ptr⟩
  simp only [Arena.call, he, Arena.called, Arena.givenBack, Call.returned, hrel, Option.bind_none, Option.filter_none, remaining_none]
  rcases hs : alignUse size boundary with _ | s
  · have hn : (Call.allocAlign size boundary).grown h.pool = none := by simp only [Call.grown, Call.asks, hs]; rfl
    rw [losMemAllocAlign_eq, hs] at he
    obtain ⟨rfl,rfl⟩ := Prod.mk.inj he
    simp only [hn, if_true, Option.toList_none, List.append_nil]
    exact hS.refused h.pool.pages _
  · have hn : (Call.allocAlign size boundary).grown h.pool = grownArea h.pool (allocSizeOf s) := by
      simp only [Call.grown, Call.asks, hs]
      rfl
    have hfits := hfit (allocSizeOf s) (by simp only [Call.asks, hs]; rfl)
    rw [hn] at hx ⊢
    obtain ⟨h30,hsm,i,hi2,hi30,hi⟩ := alignUse_spec hsz hbd hs
    have hm := minSize_bounds hsz
    have hp4 : 2^2 ≤ 2^i := Nat.pow_le_pow_right (by norm_num) hi2
    have h4i : 2^i%4 = 0 := Nat.mod_eq_zero_of_dvd (pow_dvd_pow 2 hi2)
    have hfit' : boundary ≠ 2^29 ∨ ∀ c ∈ F, h.pool.size c < hugeBound (allocSizeOf s) := by
      rcases hfits with hlt | hno
      · left
        rintro rfl
        rw [allocSizeOf] at hlt
        omega
      · exact .inr hno
    rcases hS.held.inv.losMemAllocAlign hsz hbd hs hx hfit' he with ⟨hno,rfl,pages,rfl⟩ | ⟨-,a,N',F',L',hmod,hlt,hg⟩
    · simp only [hno.2, if_true, Option.toList_none, List.append_nil]
      exact hS.refused pages _
    · have hroom := hg.room (hg.lt hfits)
      have hb := hg.inv.bounds hg.mem
      have hle := hg.owns.le
      have hdvd := Nat.dvd_of_mod_eq_zero hmod
      have hp : ptr%4 = 0 := Nat.mod_eq_zero_of_dvd ((Nat.dvd_of_mod_eq_zero (hi ▸ h4i)).trans hdvd)
      rw [if_neg (by omega)]
      refine hS.granted hg ?_ hdvd _
      rw [allocSizeOf] at hroom
      omega

theorem blockNode_eq (hS : Sound h N F L own) (hp : ptr ∈ h.live.map Block.ptr) :
    osGetRealPtr h.pool ptr = own ptr + 12 ∧ blockNode h.pool ptr = own ptr := by
  obtain ⟨ha,ho⟩ := hS.held.owns ptr hp
  have hb := hS.held.inv.inside ha
  have hreal := getRealPtr_eq hS.held.inv ha ho
  refine ⟨hreal,?_⟩
  rw [blockNode, hreal, OS_MEM_NODE_HEAD_SIZE, Word.sub_eq (by omega), Nat.add_sub_cancel]

theorem free_eq (hS : Sound h N F L own) (hp : ptr ∈ h.live.map Block.ptr) (hf : h.Returnable h.pool (.free ptr)) : ∃ q N' F' L',
    h.call h.pool (.free ptr) = h.called h.pool (.free ptr) q (h.live.filter (·.ptr ≠ ptr)) ∧
      (h.call h.pool (.free ptr)).areas = remaining h.areas (handedBack h.pool (own ptr)) ∧
      Freed h.pool q (remaining h.areas (handedBack h.pool (own ptr))) N N' F' L' (own ptr) := by
  obtain ⟨ha,ho⟩ := hS.held.owns ptr hp
  have hn : (Call.free ptr).grown h.pool = none := rfl
  have hrel : (Call.free ptr).returned h.pool = handedBack h.pool (own ptr) := by
    rw [← (hS.blockNode_eq hp).2]
    rfl
  have hback : h.givenBack h.pool (.free ptr) = handedBack h.pool (own ptr) := by
    refine (Arena.givenBack_eq hf fun n hr => ?_).trans hrel
    obtain ⟨x,hx,he,-⟩ := hS.held.inv.handedBack_whole ha ho.used (hrel.symm.trans hr)
    exact ⟨x,List.mem_append_left _ hx,he⟩
  obtain ⟨q,N',F',L',he,hF⟩ := hS.held.inv.osMemFree ha ho.used fun x hx hb =>
    h.largeNodeFree_owned (p := h.pool) (.free ptr) (List.mem_append_left _ hx)
      (hf x (List.mem_append_left _ hx) (hrel.trans hb))
  refine ⟨q,N',F',L',?_,?_,hF⟩
  · simp only [Arena.call, losMemFree_eq hS.held.inv ha ho, he, if_true]
  · simp only [Arena.call, Arena.called, hn, hback, Option.toList_none, List.append_nil]

theorem free (hS : Sound h N F L own) (hp : ptr ∈ h.live.map Block.ptr) (hf : h.Returnable h.pool (.free ptr)) : ∃ N' F' L' own',
    Sound (h.call h.pool (.free ptr)) N' F' L' own' ∧
      Change h.pool (h.call h.pool (.free ptr)).pool h.areas N N' ((Call.free ptr).grown h.pool)
        ((Call.free ptr).released h.pool) ((Call.free ptr).GrowsInPlace h.pool) := by
  obtain ⟨ha,ho⟩ := hS.held.owns ptr hp
  obtain ⟨q,N',F',L',he,hareas,hF⟩ := hS.free_eq hp hf
  have hrel : (Call.free ptr).released h.pool = some (h.pool, own ptr) := by
    rw [← (hS.blockNode_eq hp).2]
    rfl
  have hsound : Sound ⟨q,(h.call h.pool (.free ptr)).areas,h.live.filter (·.ptr ≠ ptr),(h.call h.pool (.free ptr)).values⟩
      N' F' L' own := hareas ▸ hS.release hp hF
  rw [he] at hsound ⊢
  rw [hrel]
  exact ⟨N',F',L',own,hsound,.freed ha ho.used hF⟩

theorem store (hS : Sound h N F L own) {addr value : Nat} {b : Block} (hb : b ∈ h.live) (hl : b.ptr ≤ addr)
    (hr : addr < b.ptr + b.size) : ∃ N' F' L' own',
    Sound (h.call h.pool (.store b.ptr addr value)) N' F' L' own' ∧
      Change h.pool (h.call h.pool (.store b.ptr addr value)).pool h.areas N N'
        ((Call.store b.ptr addr value).grown h.pool) ((Call.store b.ptr addr value).released h.pool)
        ((Call.store b.ptr addr value).GrowsInPlace h.pool) := by
  have hroom := hS.room b hb
  obtain ⟨hH,-,hk⟩ := hS.held.store (ptr_mem hb) (v := value) hl (by omega)
  have hn : (Call.store b.ptr addr value).grown h.pool = none := rfl
  have hrel : (Call.store b.ptr addr value).released h.pool = none := rfl
  simp only [Arena.call, Arena.called, Arena.givenBack, hn, hrel, Call.returned, Option.bind_none, Option.filter_none,
    Option.toList_none, List.append_nil, remaining_none]
  exact ⟨N,F,L,own,hS.kept hH hk.sizeAndFlag,.kept rfl hk.sizeAndFlag rfl rfl⟩

theorem filter_zero (hS : Sound h N F L own) : h.live.filter (·.ptr ≠ 0) = h.live :=
  List.filter_eq_self.mpr fun _ hb => decide_eq_true (hS.ptr_ne_zero hb)

private theorem realloc_null (hS : Sound h N F L own) (hsz : size < 2^32)
    (hx : ∀ x, (Call.realloc 0 size).grown h.pool = some x → x.Fresh h.pool h.areas)
    (hfit : ∀ r, (Call.realloc 0 size).asks h.pool = some r → r < 2^29 ∨ ∀ a ∈ F, h.pool.size a < hugeBound r) :
    ∃ N' F' L' own', Sound (h.call h.pool (.realloc 0 size)) N' F' L' own' ∧
      Change h.pool (h.call h.pool (.realloc 0 size)).pool h.areas N N' ((Call.realloc 0 size).grown h.pool)
        ((Call.realloc 0 size).released h.pool) ((Call.realloc 0 size).GrowsInPlace h.pool) := by
  have hrel : (Call.realloc 0 size).released h.pool = none := by simp only [Call.released, if_true]
  have hask : (Call.realloc 0 size).asks h.pool = ((reallocUse size).bind allocUse).map allocSizeOf := by
    simp only [Call.asks, if_true]
  have hgrown : (Call.realloc 0 size).grown h.pool = (((reallocUse size).bind allocUse).map allocSizeOf).bind (grownArea h.pool) := by
    rw [Call.grown, hask]
  rw [hask] at hfit
  rw [hgrown] at hx ⊢
  simp only [Arena.call, Arena.called, Arena.givenBack, Call.returned, hrel, Option.bind_none, Option.filter_none, remaining_none,
    losMemRealloc_null, hgrown]
  rcases hs : reallocUse size with _ | s
  · simp only [if_true, Option.bind_none, Option.map_none, Option.toList_none, List.append_nil]
    exact hS.refused h.pool.pages _
  obtain ⟨-,h30,hle⟩ := reallocUse_spec hsz hs
  rcases hs' : allocUse s with _ | s'
  · have he : losMemAlloc h.pool s = (h.pool, 0) := by rw [losMemAlloc_eq, hs']
    simp only [he, hs', if_true, Option.bind_some, Option.map_none, Option.bind_none, Option.toList_none, List.append_nil]
    exact hS.refused h.pool.pages _
  · rcases he : losMemAlloc h.pool s with ⟨q,ptr⟩
    simp only [hs, hs', he, Option.bind_some, Option.map_some] at hx hfit ⊢
    obtain ⟨-,-,hle'⟩ := allocUse_spec (by omega) hs'
    rcases hS.held.inv.losMemAlloc (by omega) hs' hx he with ⟨hno,rfl,pages,rfl⟩ | ⟨-,a,N',F',L',rfl,hg⟩
    · simp only [hno.2, if_true, Option.toList_none, List.append_nil]
      exact hS.refused pages _
    · have hroom := hg.room (hg.lt (hfit _ rfl))
      have hb := hg.inv.bounds hg.mem
      rw [if_neg (by omega), hS.filter_zero]
      refine hS.granted hg ?_ ?_ _
      · rw [allocSizeOf] at hroom
        omega
      · exact Nat.dvd_of_mod_eq_zero (by simp only [OS_MEM_ALIGN_SIZE]; omega)

theorem ptr_ne (hS : Sound h N F L own) (hp : ptr ∈ h.live.map Block.ptr) : ptr ≠ 0 := by
  obtain ⟨b,hb,rfl⟩ := List.mem_map.mp hp
  exact hS.ptr_ne_zero hb

theorem asks_realloc (hS : Sound h N F L own) (hp : ptr ∈ h.live.map Block.ptr) :
    (Call.realloc ptr size).asks h.pool = ((reallocUse size).map allocSizeOf).filter fun k => Moves h.pool (own ptr) k := by
  simp only [Call.asks, if_neg (hS.ptr_ne hp), (hS.blockNode_eq hp).2]

theorem released_realloc (hS : Sound h N F L own) (hp : ptr ∈ h.live.map Block.ptr) :
    (Call.realloc ptr size).released h.pool =
      ((reallocUse size).filter fun s => Moves h.pool (own ptr) (allocSizeOf s) ∧ ¬NoRoom h.pool (allocSizeOf s)).map
        fun s => (copied h.pool (own ptr + 12) (own ptr) s, own ptr) := by
  obtain ⟨hreal,hnode⟩ := hS.blockNode_eq hp
  simp only [Call.released, if_neg (hS.ptr_ne hp), hnode, hreal]

theorem returned_realloc (hS : Sound h N F L own) (hp : ptr ∈ h.live.map Block.ptr) {s : Nat} (hs : reallocUse size = some s)
    (hm : Moves h.pool (own ptr) (allocSizeOf s) ∧ ¬NoRoom h.pool (allocSizeOf s)) :
    (Call.realloc ptr size).returned h.pool = handedBack (copied h.pool (own ptr + 12) (own ptr) s) (own ptr) := by
  rw [Call.returned, hS.released_realloc hp, hs, Option.filter_some, if_pos (decide_eq_true hm), Option.map_some, Option.bind_some]

/-- Reallocation of a block is refused, resizes it in place, finds no room, or moves it. -/
theorem realloc_spec (hS : Sound h N F L own) (hp : ptr ∈ h.live.map Block.ptr) (hsz : size < 2^32)
    (hx : ∀ x, (Call.realloc ptr size).grown h.pool = some x → x.Fresh h.pool h.areas)
    (hfit : ∀ r, (Call.realloc ptr size).asks h.pool = some r → r < 2^29 ∨ ∀ a ∈ F, h.pool.size a < hugeBound r)
    (hback : h.Returnable h.pool (.realloc ptr size)) (he : losMemRealloc (h.largeNodeFree h.pool (.realloc ptr size)) h.pool ptr size = (q, r)) :
    (reallocUse size = none ∧ q = h.pool ∧ r = 0) ∨ ∃ s, reallocUse size = some s ∧ size + 12 ≤ allocSizeOf s ∧
      ((¬Moves h.pool (own ptr) (allocSizeOf s) ∧ r = own ptr + 12 ∧ ∃ N' F' L',
          Resized h.pool q h.areas N N' F' L' (own ptr) (allocSizeOf s) ∧
            (allocSizeOf s ≤ h.pool.size (own ptr) → q.waterLine = h.pool.waterLine ∧
              ((q.size (own ptr) = allocSizeOf s ∧
                  q.curUsedSize = Word.sub h.pool.curUsedSize (h.pool.size (own ptr) - allocSizeOf s)) ∨
                (q.size (own ptr) = h.pool.size (own ptr) ∧ q.curUsedSize = h.pool.curUsedSize)))) ∨
        (Moves h.pool (own ptr) (allocSizeOf s) ∧ NoRoom h.pool (allocSizeOf s) ∧ r = 0 ∧
          ∃ pages, q = { h.pool with pages := pages }) ∨
        (Moves h.pool (own ptr) (allocSizeOf s) ∧ ¬NoRoom h.pool (allocSizeOf s) ∧ allocSizeOf s < 2^29 ∧
          ∃ c N' F' L', r = c + 12 ∧ Moved h.pool (copied h.pool (own ptr + 12) (own ptr) s) q
            (grownArea h.pool (allocSizeOf s)) h.areas N F N' F' L' (own ptr) c (allocSizeOf s))) := by
  obtain ⟨ha,ho⟩ := hS.held.owns ptr hp
  rw [Call.grown, hS.asks_realloc hp] at hx
  rw [hS.asks_realloc hp] at hfit
  rw [losMemRealloc_eq hS.held.inv ha ho hsz] at he
  rcases hs : reallocUse size with _ | s
  · rw [hs] at he
    obtain ⟨rfl,rfl⟩ := Prod.mk.inj he
    exact .inl ⟨rfl,rfl,rfl⟩
  rw [hs] at he
  obtain ⟨h8,h30,hle⟩ := reallocUse_spec hsz hs
  have hk : size + 12 ≤ allocSizeOf s := by
    rw [allocSizeOf]
    omega
  have hask : Moves h.pool (own ptr) (allocSizeOf s) →
      ((reallocUse size).map allocSizeOf).filter (fun k => decide (Moves h.pool (own ptr) k)) = some (allocSizeOf s) := by
    intro hm
    simp [hs, hm]
  have hlf : Moves h.pool (own ptr) (allocSizeOf s) ∧ ¬NoRoom h.pool (allocSizeOf s) →
      ∀ y ∈ h.areas ++ (grownArea h.pool (allocSizeOf s)).toList,
        handedBack (copied h.pool (own ptr + 12) (own ptr) s) (own ptr) = some y.node →
          h.largeNodeFree h.pool (.realloc ptr size) y.node = true := by
    intro hm y hy hb
    have hy' : y ∈ h.areas ++ ((Call.realloc ptr size).grown h.pool).toList := by
      rw [Call.grown, hS.asks_realloc hp, hask hm.1]
      exact hy
    exact h.largeNodeFree_owned _ hy' (hback y hy' ((hS.returned_realloc hp hs hm).trans hb))
  have hfits : Moves h.pool (own ptr) (allocSizeOf s) →
      allocSizeOf s < 2^29 ∨ ∀ a ∈ F, h.pool.size a < hugeBound (allocSizeOf s) := fun hm => hfit _ (hask hm)
  refine .inr ⟨s,rfl,hk,?_⟩
  rcases hS.held.inv.osMemRealloc ha ho.used h8 h30 hlf (fun hm x hx' => hx x (by rw [hask hm]; exact hx')) (by
      intro hm h29 c hc hle
      rcases hfits hm with hlt | hno
      · omega
      · have := hno c hc
        omega) he with h1 | h1 | ⟨hm,hroom,c,N',F',L',rfl,hM⟩
  · exact .inl h1
  · exact .inr (.inl h1)
  · exact .inr (.inr ⟨hm,hroom,hM.lt (hfits hm),c,N',F',L',rfl,hM⟩)

/-- The area that a reallocation has to give back is one of the pool. -/
theorem givenBack_realloc (hS : Sound h N F L own) (hp : ptr ∈ h.live.map Block.ptr) (hsz : size < 2^32)
    (hx : ∀ x, (Call.realloc ptr size).grown h.pool = some x → x.Fresh h.pool h.areas)
    (hfit : ∀ r, (Call.realloc ptr size).asks h.pool = some r → r < 2^29 ∨ ∀ a ∈ F, h.pool.size a < hugeBound r)
    (hback : h.Returnable h.pool (.realloc ptr size))
    (he : losMemRealloc (h.largeNodeFree h.pool (.realloc ptr size)) h.pool ptr size = (q, r)) :
    h.givenBack h.pool (.realloc ptr size) = (Call.realloc ptr size).returned h.pool := by
  refine Arena.givenBack_eq hback fun n hr => ?_
  have hkept : ∀ s, reallocUse size = some s → Moves h.pool (own ptr) (allocSizeOf s) ∧ ¬NoRoom h.pool (allocSizeOf s) := by
    intro s hs
    by_contra hno
    rw [Call.returned, hS.released_realloc hp, hs, Option.filter_some, if_neg (by simpa using hno)] at hr
    cases hr
  rcases hS.realloc_spec hp hsz hx hfit hback he with ⟨hs,-,-⟩ | ⟨s,hs,-,⟨hm,-⟩ | ⟨-,hno,-⟩ | ⟨hm,hroom,-,c,N',F',L',-,hM⟩⟩
  · rw [Call.returned, hS.released_realloc hp, hs] at hr
    cases hr
  · exact absurd (hkept s hs).1 hm
  · exact absurd hno (hkept s hs).2
  · have hask : ((some s).map allocSizeOf).filter (fun k => decide (Moves h.pool (own ptr) k)) = some (allocSizeOf s) := by
      rw [Option.map_some, Option.filter_some, if_pos (decide_eq_true hm)]
    obtain ⟨N₁,F₁,L₁,hC,-⟩ := hM.copied
    obtain ⟨x,hxm,hn,-⟩ := hC.inv.handedBack_whole hC.old (by rw [hC.kept]; exact (hS.held.owns ptr hp).2.used)
      ((hS.returned_realloc hp hs ⟨hm,hroom⟩).symm.trans hr)
    rw [Call.grown, hS.asks_realloc hp, hs, hask]
    exact ⟨x,hxm,hn⟩

theorem realloc (hS : Sound h N F L own) (hp : ptr ∈ h.live.map Block.ptr) (hsz : size < 2^32)
    (hx : ∀ x, (Call.realloc ptr size).grown h.pool = some x → x.Fresh h.pool h.areas)
    (hfit : ∀ r, (Call.realloc ptr size).asks h.pool = some r → r < 2^29 ∨ ∀ a ∈ F, h.pool.size a < hugeBound r)
    (hback : h.Returnable h.pool (.realloc ptr size)) :
    ∃ N' F' L' own', Sound (h.call h.pool (.realloc ptr size)) N' F' L' own' ∧
      Change h.pool (h.call h.pool (.realloc ptr size)).pool h.areas N N' ((Call.realloc ptr size).grown h.pool)
        ((Call.realloc ptr size).released h.pool) ((Call.realloc ptr size).GrowsInPlace h.pool) := by
  obtain ⟨ha,ho⟩ := hS.held.owns ptr hp
  obtain ⟨-,hnode⟩ := hS.blockNode_eq hp
  have h0 := hS.ptr_ne hp
  have hrel : (Call.realloc ptr size).released h.pool = _ := hS.released_realloc hp
  have hgrow : (Call.realloc ptr size).GrowsInPlace h.pool ↔ ∃ s, reallocUse size = some s ∧
      ¬allocSizeOf s ≤ h.pool.size (own ptr) ∧ ¬Moves h.pool (own ptr) (allocSizeOf s) := by
    simp only [Call.GrowsInPlace, hnode, Tlsf.getSize_eq, MemPool.size, ne_eq, h0, not_false_eq_true, true_and]
  rcases he : losMemRealloc (h.largeNodeFree h.pool (.realloc ptr size)) h.pool ptr size with ⟨q,r⟩
  have hspec := hS.realloc_spec hp hsz hx hfit hback he
  have hgb := hS.givenBack_realloc hp hsz hx hfit hback he
  simp only [Arena.call, Arena.called, he, hgb, Call.returned, hrel, Call.grown, hS.asks_realloc hp]
  rcases hspec with ⟨hs,rfl,rfl⟩ | ⟨s,hs,hk,⟨hm,rfl,N',F',L',hR,hshrunk⟩ | ⟨hm,hno,rfl,pages,rfl⟩ |
    ⟨hm,hroom,hlt,c,N',F',L',rfl,hM⟩⟩
  · simp only [hs, if_true, Option.map_none, Option.filter_none, Option.bind_none, Option.toList_none, List.append_nil,
      remaining_none]
    exact hS.refused h.pool.pages _
  · have hb := hR.inv.inside hR.mem
    have hfilter : (some (allocSizeOf s)).filter (fun k => decide (Moves h.pool (own ptr) k)) = none := by simp [hm]
    have hrel' : ((some s).filter fun s => decide (Moves h.pool (own ptr) (allocSizeOf s) ∧ ¬NoRoom h.pool (allocSizeOf s))) =
        none := by simp [hm]
    simp only [hs, hfilter, hrel', Option.map_some, Option.bind_none, Option.map_none, Option.toList_none, List.append_nil,
      remaining_none]
    rw [if_neg (by omega)]
    refine ⟨N',F',L',_,hS.resize hp hR hk,.resized ha ho.used hR.mem (by rw [hR.plain]; omega) hR.used ?_⟩
    intro hg
    rw [hgrow] at hg
    have hle : allocSizeOf s ≤ h.pool.size (own ptr) := by
      by_contra hno
      exact hg ⟨s,hs,hno,hm⟩
    obtain ⟨h1,⟨h2,h3⟩ | h2⟩ := hshrunk hle
    · exact ⟨h1,.inl ⟨h2.le.trans hle,by rw [h2, h3]⟩⟩
    · exact ⟨h1,.inr h2⟩
  · have hfilter : (some (allocSizeOf s)).filter (fun k => decide (Moves h.pool (own ptr) k)) = some (allocSizeOf s) := by
      simp [hm]
    have hrel' : ((some s).filter fun s => decide (Moves h.pool (own ptr) (allocSizeOf s) ∧ ¬NoRoom h.pool (allocSizeOf s))) =
        none := by simp [hno]
    simp only [hs, hfilter, hrel', hno.2, if_true, Option.map_some, Option.map_none, Option.bind_some, Option.bind_none,
      Option.toList_none, List.append_nil, remaining_none]
    exact hS.refused pages _
  · have hb := hM.inv.inside hM.mem
    have hfilter : (some (allocSizeOf s)).filter (fun k => decide (Moves h.pool (own ptr) k)) = some (allocSizeOf s) := by
      simp [hm]
    have hrel' : ((some s).filter fun s => decide (Moves h.pool (own ptr) (allocSizeOf s) ∧ ¬NoRoom h.pool (allocSizeOf s))) =
        some s := by simp [hm, hroom]
    simp only [hs, hfilter, hrel', if_neg (show ¬c + 12 = 0 by omega), Option.map_some, Option.bind_some]
    exact ⟨N',F',L',_,hS.move hp hM hlt hk,.moved ha ho.used hM⟩

/-- One call keeps the blocks in nodes of their own. -/
theorem call (hS : Sound h N F L own) {c : Call} (hl : h.Legal c)
    (hx : ∀ x, c.grown h.pool = some x → x.Fresh h.pool h.areas)
    (hfit : ∀ r, c.asks h.pool = some r → r < 2^29 ∨ ∀ a ∈ F, h.pool.size a < hugeBound r) (hback : h.Returnable h.pool c) :
    ∃ N' F' L' own', Sound (h.call h.pool c) N' F' L' own' ∧
      Change h.pool (h.call h.pool c).pool h.areas N N' (c.grown h.pool) (c.released h.pool) (c.GrowsInPlace h.pool) := by
  cases c with
  | alloc size => exact hS.alloc hl hx hfit
  | allocAlign size boundary => exact hS.allocAlign hl.1 hl.2 hx hfit
  | realloc ptr size =>
    obtain ⟨rfl | ⟨b,hb,rfl⟩,hsz⟩ := hl
    · exact hS.realloc_null hsz hx hfit
    · exact hS.realloc (ptr_mem hb) hsz hx hfit hback
  | free ptr =>
    obtain ⟨b,hb,rfl⟩ := hl
    exact hS.free (ptr_mem hb) hback
  | store ptr addr value =>
    obtain ⟨⟨b,hb,rfl,h1,h2⟩,-⟩ := hl
    exact hS.store hb h1 h2

/-- A page answer below 2^29 bytes is a fresh area. -/
theorem fresh {x : Area} (hx : x.Pages p E) (hlt : x.size < 2^29) : x.Fresh p E :=
  ⟨⟨hx.node_pos,hx.node_mod,hx.size_pos,hx.size_mod,hlt,hx.top,hx.outside⟩,hx.apart⟩

/-- The areas and the node sizes of a call that fits. -/
theorem within (hS : Sound h N F L own) {c : Call} {pages : List Nat} (hp : h.Pre (.call c pages))
    (hf : h.Fits (.call c pages)) :
    (∀ x, c.grown { h.pool with pages := pages } = some x → x.Fresh { h.pool with pages := pages } h.areas) ∧
      ∀ r, c.asks { h.pool with pages := pages } = some r → r < 2^29 ∨ ∀ a ∈ F, h.pool.size a < hugeBound r := by
  refine ⟨?_,?_⟩
  · intro x hx
    have h1 := fresh (hp.2 x hx) (hf.2.1 x hx)
    exact ⟨h1.ok.congr rfl rfl,h1.apart⟩
  · intro r hr
    refine (hf.1 r hr).imp_right fun hall a ha => ?_
    have h1 := hall a (hS.held.inv.listed_iff.mpr ha)
    rwa [Tlsf.getSize_eq] at h1

theorem callWithin (hS : Sound h N F L own) {c : Call} {pages : List Nat} (hp : h.Pre (.call c pages))
    (hf : h.Fits (.call c pages)) : ∃ N' F' L' own', Sound (h.run (.call c pages)) N' F' L' own' ∧
      Change { h.pool with pages := pages } (h.run (.call c pages)).pool h.areas N N'
        (c.grown { h.pool with pages := pages }) (c.released { h.pool with pages := pages })
        (c.GrowsInPlace { h.pool with pages := pages }) :=
  (hS.setPages pages).call hp.1 (hS.within hp hf).1 (hS.within hp hf).2 hf.2.2

/-- Other code writes outside the intervals. -/
theorem outside (hS : Sound h N F L own) {addr value : Nat} (hp : h.Pre (.foreign addr value)) :
    ∀ e ∈ extents h.pool h.areas, addr < e.first ∨ e.last + 12 ≤ addr := by
  obtain ⟨-,-,hpool,hareas⟩ := hp
  have hge := hS.held.inv.fixed.total_ge
  simp only [sizeofPoolHead] at hge
  intro e he
  rcases mem_extents.mp he with rfl | ⟨x,hx,rfl⟩
  · simp only [endAddr, Inv.first_eq]
    omega
  · have h1 := hareas x hx
    have h2 := (hS.held.inv.fixed.areas x hx).size_pos
    have h3 := (hS.held.inv.fixed.areas x hx).size_mod
    simp only [Area.extent, Area.sentinel]
    omega

theorem foreign (hS : Sound h N F L own) {addr value : Nat} (hp : h.Pre (.foreign addr value)) :
    Sound (h.run (.foreign addr value)) N F L own := by
  obtain ⟨hI,hk⟩ := hS.held.inv.setOutside (y := addr) (v := value) (hS.outside hp)
  have howns : ∀ q ∈ h.live.map Block.ptr, own q ∈ N ∧ Owns (h.pool.setWord addr value) (own q) q := fun q hq =>
    (hS.held.owns q hq).2.kept (hS.held.owns q hq).1 (Set.notMem_empty _) hk
  exact ⟨⟨hI,howns,hS.held.inj⟩,hS.nodup,fun b hb => hS.room_kept hb (Set.notMem_empty _) hk,hS.dvd⟩

theorem expandEnable (hS : Sound h N F L own) : Sound (h.run .expandEnable) N F L own := by
  obtain ⟨⟨hI,howns,hinj⟩,hnd,hroom,hdvd⟩ := hS
  have hI' : Inv (losMemExpandEnable h.pool) h.areas N F ∅ ∅ L :=
    ⟨hI.fixed.congr rfl rfl rfl fun _ _ _ _ => rfl,⟨hI.nodes.tiling,hI.nodes.mod,hI.nodes.flags⟩,
      hI.lists.congr rfl rfl (fun _ _ => rfl) (fun _ _ => rfl) fun _ _ => rfl,hI.sub,hI.full,hI.apart,hI.coalesced,hI.magic⟩
  exact ⟨⟨hI',howns,hinj⟩,hnd,hroom,hdvd⟩

end Sound

/-- A pool fresh from LOS_MemInit. -/
theorem init_sound {h : Arena} (hi : (arenaSystem PoolBelow).init h) :
    ∃ F L, Created h.pool h.pool.pool h.pool.totalSize ∧ h.areas = [] ∧ h.values = [h.pool.curUsedSize] ∧
      Sound h {h.pool.pool + 960} F L id := by
  obtain ⟨mem,pages,pool,size,p,hmod,hsz,hroom,htop,hlt,hcreated,rfl⟩ := hi
  rw [losMemInit] at hcreated
  split at hcreated
  case isTrue => cases hcreated
  case isFalse hno =>
  obtain rfl := Option.some.inj hcreated
  have hS4 : osMemAlign size OS_MEM_ALIGN_SIZE%2^2 = 0 := by
    rw [osMemAlign, Nat.and_mod_two_pow, show Word.not (Word.sub OS_MEM_ALIGN_SIZE 1)%2^2 = 0 by decide +kernel, Nat.and_zero]
  simp only [sizeofPoolHead, OS_MEM_NODE_HEAD_SIZE] at hroom
  obtain ⟨hc,F,L,hI⟩ := inv_poolInit mem pages pool _ (by omega) hmod hS4 (by omega) hlt htop
  refine ⟨F,L,by rw [hc.pool, hc.totalSize]; exact hc,rfl,rfl,?_⟩
  rw [hc.pool]
  exact ⟨⟨hI,by simp,by simp⟩,List.nodup_nil,by simp,by simp⟩

/-- A pool of one page at 0x1000, in memory that is clear. -/
def smallArena : Arena := ⟨osMemPoolInit (fun _ => 0) [] 0x1000 0x1000,[],[],[972]⟩

theorem smallArena_init {within : Nat → Prop} (hw : within 0x1000) : (arenaSystem within).init smallArena := by
  have hal : osMemAlign 0x1000 OS_MEM_ALIGN_SIZE = 0x1000 := (osMemAlign_four (by norm_num)).trans (by norm_num)
  refine ⟨fun _ => 0,[],0x1000,0x1000,_,by norm_num,by norm_num,?_,?_,?_,?_,rfl⟩
  · rw [hal]
    decide
  · rw [hal]
    norm_num
  · rwa [hal]
  · rw [losMemInit, if_neg (by decide), hal]

/-- The small arena after an allocation of 100 bytes. -/
def plainArena : Arena := smallArena.run (.call (.alloc 100) [])

theorem plainArena_reachable {within : Nat → Prop} {ok : Arena → Event → Prop} (hw : within 0x1000)
    (hok : smallArena.Fits (.call (.alloc 100) []) → ok smallArena (.call (.alloc 100) [])) :
    Run.Reachable (arenaSystem within) ok plainArena := by
  have hg : (Call.alloc 100).grown { smallArena.pool with pages := [] } = none := by decide +kernel
  have hr : (Call.alloc 100).asks { smallArena.pool with pages := [] } = some 112 := by decide +kernel
  have h0 : Run.Reachable (arenaSystem within) ok smallArena := .init (smallArena_init hw)
  refine h0.call (.call (.alloc 100) []) ⟨by norm_num [Arena.Legal],?_⟩ (hok ⟨?_,?_,Arena.returnable_of_no_area rfl hg⟩)
  · intro x hx
    cases hg.symm.trans hx
  · intro r hr'
    obtain rfl := Option.some.inj (hr.symm.trans hr')
    exact .inl (by norm_num)
  · intro x hx
    cases hg.symm.trans hx

/-- In every heap whose calls fit the blocks live in nodes of their own. -/
theorem sound_of_reachable {h : Arena} (hr : Run.Reachable (arenaSystem PoolBelow) Arena.Fits h) :
    ∃ N F L own, Sound h N F L own := by
  refine hr.invariant (I := fun h => ∃ N F L own, Sound h N F L own) ?_ ?_
  · intro h hi
    obtain ⟨F,L,-,-,-,hS⟩ := init_sound hi
    exact ⟨_,F,L,id,hS⟩
  · rintro h e ⟨N,F,L,own,hS⟩ hp hf
    cases e with
    | call c pages =>
      obtain ⟨N',F',L',own',hS',-⟩ := hS.callWithin hp hf
      exact ⟨N',F',L',own',hS'⟩
    | foreign addr value => exact ⟨N,F,L,own,hS.foreign hp⟩
    | expandEnable => exact ⟨N,F,L,own,hS.expandEnable⟩

end LiteOsKernel.Mem.Tlsf
