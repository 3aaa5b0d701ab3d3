import LiteOsKernel.Lib.Ring
import LiteOsKernel.Lib.Run
import LiteOsKernel.Log.HiLog

/-! The circular buffer of los_cir_buf.c: writes and reads that go on at the start of the buffer, and the stream of
bytes that runs of them carry. The callers' pointers are not NULL. -/
namespace LiteOsKernel.Libscrew
open LiteOsKernel.Ring LiteOsKernel.Run

inductive CirBufStatus where
  | unused
  | used
deriving DecidableEq

/-- fifo is none for NULL. -/
structure CirBuf where
  startIdx : Nat
  endIdx : Nat
  size : Nat
  remain : Nat
  status : CirBufStatus
  fifo : Option (Nat → UInt8)

namespace CirBuf

def bytes (cb : CirBuf) : Nat → UInt8 := cb.fifo.getD fun _ => 0

def store (cb : CirBuf) (off : Nat) (xs : List UInt8) : CirBuf := { cb with fifo := cb.fifo.map fun f => put f off xs }

/-- An index at the end of the buffer goes to its start. -/
def wrapEnd (cb : CirBuf) : CirBuf := if cb.endIdx = cb.size then { cb with endIdx := 0 } else cb

def wrapStart (cb : CirBuf) : CirBuf := if cb.startIdx = cb.size then { cb with startIdx := 0 } else cb

end CirBuf

def EOK : Int := 0

def losCirBufUsedSize (cb : CirBuf) : Nat := Word.sub cb.size cb.remain

section
-- memcpy_s with the size of the destination and the bytes to copy: its result, and what it puts at the destination
variable (memcpyS : Nat → List UInt8 → Int × List UInt8)

/-- buf holds the size bytes to write. -/
def osCirBufWriteLinear (cb : CirBuf) (buf : List UInt8) : CirBuf × Nat :=
  let size := buf.length
  let cpSize := if cb.remain < size then cb.remain else size
  if cpSize = 0 then (cb,0)
  else
    let (err,xs) := memcpyS cb.remain (buf.take cpSize)
    let cb := cb.store cb.endIdx xs
    if err ≠ EOK then (cb,0)
    else ({ cb with remain := Word.sub cb.remain cpSize, endIdx := Word.add cb.endIdx cpSize },cpSize)

def osCirBufWriteLoop (cb : CirBuf) (buf : List UInt8) : CirBuf × Nat :=
  let size := buf.length
  let right := Word.sub cb.size cb.endIdx
  let cpSize := if right < size then right else size
  let (err,xs) := memcpyS right (buf.take cpSize)
  let cb := cb.store cb.endIdx xs
  if err ≠ EOK then (cb,0)
  else
    let cb := { cb with remain := Word.sub cb.remain cpSize, endIdx := Word.add cb.endIdx cpSize }.wrapEnd
    if cpSize = size then (cb,size)
    else
      let (cb,n) := osCirBufWriteLinear memcpyS cb (buf.drop cpSize)
      (cb,Word.add cpSize n)

def losCirBufWrite (cb : CirBuf) (buf : List UInt8) : CirBuf × Nat :=
  if buf.length = 0 ∨ cb.status ≠ .used then (cb,0)
  else if cb.fifo.isNone ∨ cb.remain = 0 then (cb,0)
  else if cb.startIdx ≤ cb.endIdx then osCirBufWriteLoop memcpyS cb buf
  else osCirBufWriteLinear memcpyS cb buf

/-- Reads to the place off of the caller's buffer. -/
def osCirBufReadLinear (cb : CirBuf) (buf : Nat → UInt8) (off size : Nat) : CirBuf × (Nat → UInt8) × Nat :=
  let remain := Word.sub cb.endIdx cb.startIdx
  let cpSize := if remain < size then remain else size
  if cpSize = 0 then (cb,buf,0)
  else
    let (err,xs) := memcpyS size (cells cb.bytes cb.startIdx cpSize)
    let buf := put buf off xs
    if err ≠ EOK then (cb,buf,0)
    else ({ cb with remain := Word.add cb.remain cpSize, startIdx := Word.add cb.startIdx cpSize },buf,cpSize)

def osCirBufReadLoop (cb : CirBuf) (buf : Nat → UInt8) (size : Nat) : CirBuf × (Nat → UInt8) × Nat :=
  let right := Word.sub cb.size cb.startIdx
  let cpSize := if right < size then right else size
  let (err,xs) := memcpyS size (cells cb.bytes cb.startIdx cpSize)
  let buf := put buf 0 xs
  if err ≠ EOK then (cb,buf,0)
  else
    let cb := { cb with remain := Word.add cb.remain cpSize, startIdx := Word.add cb.startIdx cpSize }.wrapStart
    if cpSize < size then
      let (cb,buf,n) := osCirBufReadLinear memcpyS cb buf cpSize (size - cpSize)
      (cb,buf,Word.add cpSize n)
    else (cb,buf,cpSize)

def losCirBufRead (cb : CirBuf) (buf : Nat → UInt8) (size : Nat) : CirBuf × (Nat → UInt8) × Nat :=
  if size = 0 ∨ cb.status ≠ .used then (cb,buf,0)
  else if cb.fifo.isNone ∨ cb.remain = cb.size then (cb,buf,0)
  else if cb.endIdx ≤ cb.startIdx then osCirBufReadLoop memcpyS cb buf size
  else osCirBufReadLinear memcpyS cb buf 0 size

end

def losCirBufInit (fifo : Nat → UInt8) (size : Nat) : CirBuf := ⟨0,0,size,size,.used,some fifo⟩

-- Runs

inductive CirCall where
  | write (buf : List UInt8)
  | read (buf : Nat → UInt8) (size : Nat)

/-- A buffer with all the bytes stored in it so far and all the bytes read from it. -/
structure Stream where
  cb : CirBuf
  stored : List UInt8
  fetched : List UInt8

def Stream.run (memcpyS : Nat → List UInt8 → Int × List UInt8) (t : Stream) : CirCall → Stream
  | .write buf =>
    let (cb,n) := losCirBufWrite memcpyS t.cb buf
    ⟨cb,t.stored ++ buf.take n,t.fetched⟩
  | .read buf size =>
    let (cb,buf,n) := losCirBufRead memcpyS t.cb buf size
    ⟨cb,t.stored,t.fetched ++ cells buf 0 n⟩

/-- Sizes are words, and the buffer is not empty. -/
@[reducible] def streamSystem (memcpyS : Nat → List UInt8 → Int × List UInt8) : System Stream CirCall where
  init t := ∃ fifo size, 0 < size ∧ size < 2^32 ∧ t = ⟨losCirBufInit fifo size,[],[]⟩
  pre _
    | .write buf => buf.length < 2^32
    | .read _ size => size < 2^32
  run := Stream.run memcpyS

/-- memcpy_s copies what the destination has room for, and refuses a destination of more than SECUREC_MEM_MAX_LEN bytes. -/
structure Copies (memcpyS : Nat → List UInt8 → Int × List UInt8) : Prop where
  copied : ∀ destMax src, destMax ≤ SECUREC_MEM_MAX_LEN → 0 < src.length → src.length ≤ destMax → memcpyS destMax src = (EOK,src)
  refused : ∀ destMax src, SECUREC_MEM_MAX_LEN < destMax → memcpyS destMax src = (Log.ERANGE,[])

/-- The bytes from the start on, around the end of the buffer. -/
def CirBuf.content (cb : CirBuf) : List UInt8 :=
  (List.range (losCirBufUsedSize cb)).map fun k => cb.bytes ((cb.startIdx + k)%cb.size)

/-- The buffer holds xs. -/
structure Contains (cb : CirBuf) (xs : List UInt8) : Prop where
  status : cb.status = .used
  fifo : ∃ f, cb.fifo = some f ∧ Holds cb.size f cb.startIdx xs
  lt : cb.size < 2^32
  endIdx : cb.endIdx = (cb.startIdx + xs.length)%cb.size
  remain : cb.remain + xs.length = cb.size

variable {memcpyS : Nat → List UInt8 → Int × List UInt8} {cb : CirBuf} {xs ys buf : List UInt8} {n : Nat}

namespace Contains

private theorem startIdx_lt (h : Contains cb xs) : cb.startIdx < cb.size := by
  obtain ⟨f,-,hf⟩ := h.fifo
  exact hf.head_lt

private theorem endIdx_lt (h : Contains cb xs) : cb.endIdx < cb.size := by
  have := h.startIdx_lt
  rw [h.endIdx]
  exact Nat.mod_lt _ (by omega)

/-- The end comes after the start, or the bytes wrap around. -/
private theorem endIdx_cases (h : Contains cb xs) :
    (cb.endIdx = cb.startIdx + xs.length) ∨ (cb.endIdx + cb.size = cb.startIdx + xs.length) := by
  have h1 := h.startIdx_lt
  have h2 := h.remain
  rw [h.endIdx]
  by_cases hlt : cb.startIdx + xs.length < cb.size
  · exact .inl (Nat.mod_eq_of_lt hlt)
  · right
    rw [Nat.mod_eq_sub_mod (by omega), Nat.mod_eq_of_lt (by omega)]
    omega

end Contains

private theorem Contains.used_eq (h : Contains cb xs) : losCirBufUsedSize cb = xs.length := by
  have := h.remain
  rw [losCirBufUsedSize, Word.sub_eq (by omega)]
  omega

private theorem Contains.content_eq (h : Contains cb xs) : cb.content = xs := by
  obtain ⟨f,hf,hh⟩ := h.fifo
  refine List.ext_getElem (by simp [CirBuf.content, h.used_eq]) fun k h1 h2 => ?_
  simp only [CirBuf.content, List.getElem_map, List.getElem_range, CirBuf.bytes, hf, Option.getD_some]
  exact hh.get k h2

private theorem CirBuf.store_nil (cb : CirBuf) (off : Nat) : cb.store off [] = cb := by
  cases cb
  simp [CirBuf.store, put_nil]

/-- The bytes ys after the end. -/
def CirBuf.append (cb : CirBuf) (ys : List UInt8) : CirBuf :=
  { cb.store cb.endIdx ys with remain := cb.remain - ys.length, endIdx := (cb.endIdx + ys.length)%cb.size }

/-- n bytes fewer at the start. -/
def CirBuf.drop (cb : CirBuf) (n : Nat) : CirBuf :=
  { cb with remain := cb.remain + n, startIdx := (cb.startIdx + n)%cb.size }

theorem Contains.append (h : Contains cb xs) (ys : List UInt8) (hroom : ys.length ≤ cb.remain) (hend : cb.endIdx + ys.length ≤ cb.size) :
    Contains (cb.append ys) (xs ++ ys) := by
  obtain ⟨f,hf,hh⟩ := h.fifo
  have hr := h.remain
  refine ⟨h.status,⟨put f cb.endIdx ys,?_,hh.append_put (by omega) h.endIdx hend⟩,h.lt,?_,?_⟩
  · simp [CirBuf.append, CirBuf.store, hf]
  · simp only [CirBuf.append, CirBuf.store]
    rw [h.endIdx, Nat.mod_add_mod, List.length_append, Nat.add_assoc]
  · simp only [CirBuf.append, CirBuf.store]
    rw [List.length_append]
    omega

theorem Contains.drop (h : Contains cb xs) (hn : n ≤ xs.length) : Contains (cb.drop n) (xs.drop n) := by
  obtain ⟨f,hf,hh⟩ := h.fifo
  have hr := h.remain
  refine ⟨h.status,⟨f,hf,hh.drop hn⟩,h.lt,?_,?_⟩
  · simp only [CirBuf.drop]
    rw [h.endIdx, Nat.mod_add_mod, List.length_drop]
    congr 1
    omega
  · simp only [CirBuf.drop]
    rw [List.length_drop]
    omega

-- Writes

/-- As many bytes of buf as there is room for are stored after xs. -/
def Writes (cb : CirBuf) (xs buf : List UInt8) (r : CirBuf × Nat) : Prop :=
  r.2 = min buf.length cb.remain ∧ r.1.size = cb.size ∧ Contains r.1 (xs ++ buf.take r.2)

theorem Writes.zero (h : Contains cb xs) (hz : min buf.length cb.remain = 0) : Writes cb xs buf (cb,0) := by
  refine ⟨hz.symm,rfl,?_⟩
  rwa [List.take_zero, List.append_nil]

private theorem length_take_min (buf : List UInt8) (n : Nat) : (buf.take (min buf.length n)).length = min buf.length n := by
  rw [List.length_take]
  omega

/-- The room after the end comes in one piece. -/
private theorem osCirBufWriteLinear_spec (buf : List UInt8) (hc : Copies memcpyS) (h : Contains cb xs) (hl : cb.size ≤ SECUREC_MEM_MAX_LEN)
    (hend : cb.endIdx + cb.remain < cb.size) : Writes cb xs buf (osCirBufWriteLinear memcpyS cb buf) := by
  have hcp : (if cb.remain < buf.length then cb.remain else buf.length) = min buf.length cb.remain := by
    split_ifs <;> omega
  have hlen := length_take_min buf cb.remain
  rw [osCirBufWriteLinear]
  simp only [hcp]
  by_cases hz : min buf.length cb.remain = 0
  · rw [if_pos hz]
    exact .zero h hz
  · have hlt := h.lt
    have happ := h.append (buf.take (min buf.length cb.remain)) (by omega) (by omega)
    rw [CirBuf.append, hlen, Nat.mod_eq_of_lt (by omega)] at happ
    rw [if_neg hz, hc.copied cb.remain _ (by omega) (by omega) (by omega)]
    simp only [ne_eq, not_true_eq_false, ite_false]
    refine ⟨rfl,rfl,?_⟩
    simp only [CirBuf.store] at happ ⊢
    rwa [Word.sub_eq (Nat.min_le_right _ _), Word.add_eq (by omega)]

private theorem CirBuf.wrapEnd_eq (h : cb.endIdx ≤ cb.size) : cb.wrapEnd = { cb with endIdx := cb.endIdx%cb.size } := by
  rw [wrapEnd]
  split_ifs with hw
  · rw [hw, Nat.mod_self]
  · rw [Nat.mod_eq_of_lt (by omega)]

private theorem CirBuf.wrapStart_eq (h : cb.startIdx ≤ cb.size) : cb.wrapStart = { cb with startIdx := cb.startIdx%cb.size } := by
  rw [wrapStart]
  split_ifs with hw
  · rw [hw, Nat.mod_self]
  · rw [Nat.mod_eq_of_lt (by omega)]

/-- The buffer after a first piece, whether or not that ends at the end of the buffer. -/
private theorem CirBuf.wrapEnd_append (ys : List UInt8) (hlt : cb.size < 2^32) (hroom : ys.length ≤ cb.remain)
    (hend : cb.endIdx + ys.length ≤ cb.size) :
    wrapEnd { cb.store cb.endIdx ys with remain := Word.sub cb.remain ys.length, endIdx := Word.add cb.endIdx ys.length } =
      cb.append ys := by
  rw [Word.sub_eq hroom, Word.add_eq (by omega), wrapEnd_eq hend]
  rfl

private theorem CirBuf.wrapStart_drop (hlt : cb.size < 2^32) (hend : cb.startIdx + n ≤ cb.size) (hroom : cb.remain + n ≤ cb.size) :
    wrapStart { cb with remain := Word.add cb.remain n, startIdx := Word.add cb.startIdx n } = cb.drop n := by
  rw [Word.add_eq (by omega), Word.add_eq (by omega), wrapStart_eq hend]
  rfl

/-- The room goes to the end of the buffer and on at its start. -/
private theorem osCirBufWriteLoop_spec (buf : List UInt8) (hc : Copies memcpyS) (h : Contains cb xs)
    (hl : cb.size ≤ SECUREC_MEM_MAX_LEN) (hpos : 0 < buf.length)
    (hbuf : buf.length < 2^32) (hend : cb.endIdx = cb.startIdx + xs.length) :
    Writes cb xs buf (osCirBufWriteLoop memcpyS cb buf) := by
  have hlt := h.lt
  have hr := h.remain
  have he := h.endIdx_lt
  have hlen := length_take_min buf (cb.size - cb.endIdx)
  have happ := h.append (buf.take (min buf.length (cb.size - cb.endIdx))) (by omega) (by omega)
  have hcp : (if cb.size - cb.endIdx < buf.length then cb.size - cb.endIdx else buf.length) = min buf.length (cb.size - cb.endIdx) := by
    split_ifs <;> omega
  rw [osCirBufWriteLoop, Word.sub_eq he.le]
  simp only [hcp]
  rw [hc.copied (cb.size - cb.endIdx) _ (by omega) (by omega) (by omega)]
  simp only [ne_eq, not_true_eq_false, ite_false]
  have hwrap := CirBuf.wrapEnd_append (buf.take (min buf.length (cb.size - cb.endIdx))) hlt (by omega) (by omega)
  rw [hlen] at hwrap
  simp only [CirBuf.store] at hwrap ⊢
  rw [hwrap]
  split_ifs with hall
  · refine ⟨by simp only; omega,rfl,?_⟩
    rw [hall, List.take_length] at happ ⊢
    exact happ
  · -- the first piece ends at the end of the buffer, and the room left is before the start
    have hn : min buf.length (cb.size - cb.endIdx) = cb.size - cb.endIdx := by omega
    rw [hn] at happ hlen ⊢
    have hz : (cb.append (buf.take (cb.size - cb.endIdx))).endIdx = 0 := by
      simp only [CirBuf.append]
      rw [hlen, Nat.add_sub_cancel' he.le, Nat.mod_self]
    have hroom : (cb.append (buf.take (cb.size - cb.endIdx))).remain = cb.remain - (cb.size - cb.endIdx) := by
      simp only [CirBuf.append]
      rw [hlen]
    have hsize : (cb.append (buf.take (cb.size - cb.endIdx))).size = cb.size := rfl
    obtain ⟨h1,h2,h3⟩ := osCirBufWriteLinear_spec (buf.drop (cb.size - cb.endIdx)) hc happ hl (by omega)
    rw [List.length_drop, hroom] at h1
    rw [List.append_assoc, ← List.take_add] at h3
    have hadd : cb.size - cb.endIdx + min (buf.length - (cb.size - cb.endIdx)) (cb.remain - (cb.size - cb.endIdx)) =
        min buf.length cb.remain := by
      omega
    refine ⟨?_,h2,?_⟩
    · simp only [h1]
      rw [Word.add_eq (by omega), hadd]
    · simp only [h1] at h3 ⊢
      rwa [Word.add_eq (by omega)]

private theorem losCirBufWrite_spec (buf : List UInt8) (hc : Copies memcpyS) (h : Contains cb xs)
    (hl : cb.size ≤ SECUREC_MEM_MAX_LEN) (hbuf : buf.length < 2^32) :
    Writes cb xs buf (losCirBufWrite memcpyS cb buf) := by
  have hr := h.remain
  rw [losCirBufWrite]
  split_ifs with h1 h2 h3
  · rcases h1 with h1 | h1
    · exact .zero h (by omega)
    · exact absurd h.status h1
  · obtain ⟨f,hf,-⟩ := h.fifo
    rw [hf] at h2
    exact .zero h (by simp at h2; omega)
  · rw [not_or] at h1 h2
    refine osCirBufWriteLoop_spec buf hc h hl (by omega) hbuf ?_
    rcases h.endIdx_cases with he | he
    · exact he
    · have := h2.2
      omega
  · refine osCirBufWriteLinear_spec buf hc h hl ?_
    have := h.startIdx_lt
    rcases h.endIdx_cases with he | he <;> omega

/-- A buffer that is too large for memcpy_s takes no bytes. -/
private theorem losCirBufWrite_refused (buf : List UInt8) (hc : Copies memcpyS) (h : Contains cb []) (h0 : cb.startIdx = 0)
    (hl : SECUREC_MEM_MAX_LEN < cb.size) : losCirBufWrite memcpyS cb buf = (cb,0) := by
  have he : cb.endIdx = 0 := by
    rw [h.endIdx, h0, List.length_nil, Nat.add_zero, Nat.zero_mod]
  have herr : Log.ERANGE ≠ EOK := by decide
  rw [losCirBufWrite, h0, he, if_pos le_rfl, osCirBufWriteLoop, he, Word.sub_eq (Nat.zero_le _)]
  simp only [Nat.sub_zero, hc.refused cb.size _ hl, herr, ne_eq, not_false_eq_true, if_true, CirBuf.store_nil, ite_self]

-- Reads

/-- As many bytes of xs as are asked for are put at the place off of buf, and the rest stay. -/
def Reads (cb : CirBuf) (xs : List UInt8) (buf : Nat → UInt8) (off size : Nat) (r : CirBuf × (Nat → UInt8) × Nat) : Prop :=
  r.2.2 = min size xs.length ∧ r.1.size = cb.size ∧ Contains r.1 (xs.drop r.2.2) ∧ r.2.1 = put buf off (xs.take r.2.2)

theorem Reads.zero {buf : Nat → UInt8} {off size : Nat} (h : Contains cb xs) (hz : min size xs.length = 0) :
    Reads cb xs buf off size (cb,buf,0) := by
  refine ⟨hz.symm,rfl,by rwa [List.drop_zero],?_⟩
  rw [List.take_zero, put_nil]

theorem Contains.cells_eq (h : Contains cb xs) (hn : n ≤ xs.length) (hend : cb.startIdx + n ≤ cb.size) :
    cells cb.bytes cb.startIdx n = xs.take n := by
  obtain ⟨f,hf,hh⟩ := h.fifo
  rw [CirBuf.bytes, hf, Option.getD_some]
  exact hh.cells_eq hn hend

/-- The bytes come in one piece. -/
private theorem osCirBufReadLinear_spec (buf : Nat → UInt8) (off size : Nat) (hc : Copies memcpyS) (h : Contains cb xs)
    (hl : size ≤ SECUREC_MEM_MAX_LEN) (hend : cb.endIdx = cb.startIdx + xs.length) :
    Reads cb xs buf off size (osCirBufReadLinear memcpyS cb buf off size) := by
  have hlt := h.lt
  have hr := h.remain
  have he := h.endIdx_lt
  have hcp : (if cb.endIdx - cb.startIdx < size then cb.endIdx - cb.startIdx else size) = min size xs.length := by
    split_ifs <;> omega
  rw [osCirBufReadLinear, Word.sub_eq (by omega)]
  simp only [hcp]
  by_cases hz : min size xs.length = 0
  · rw [if_pos hz]
    exact .zero h hz
  · have hcells := h.cells_eq (n := min size xs.length) (by omega) (by omega)
    have hlen : (xs.take (min size xs.length)).length = min size xs.length := by
      rw [List.length_take]
      omega
    have hdrop := h.drop (n := min size xs.length) (by omega)
    rw [CirBuf.drop, Nat.mod_eq_of_lt (by omega)] at hdrop
    rw [if_neg hz, hcells, hc.copied size _ hl (by omega) (by omega)]
    simp only [ne_eq, not_true_eq_false, ite_false]
    rw [Word.add_eq (by omega), Word.add_eq (by omega)]
    exact ⟨rfl,rfl,hdrop,rfl⟩

/-- The bytes go to the end of the buffer and on at its start. -/
private theorem osCirBufReadLoop_spec (buf : Nat → UInt8) {size : Nat} (hc : Copies memcpyS) (h : Contains cb xs)
    (hl : size ≤ SECUREC_MEM_MAX_LEN) (hpos : 0 < size) (hend : cb.endIdx + cb.size = cb.startIdx + xs.length) :
    Reads cb xs buf 0 size (osCirBufReadLoop memcpyS cb buf size) := by
  have hlt := h.lt
  have hr := h.remain
  have hs := h.startIdx_lt
  have hcp : (if cb.size - cb.startIdx < size then cb.size - cb.startIdx else size) = min size (cb.size - cb.startIdx) := by
    split_ifs <;> omega
  have hcells := h.cells_eq (n := min size (cb.size - cb.startIdx)) (by omega) (by omega)
  have hlen : (xs.take (min size (cb.size - cb.startIdx))).length = min size (cb.size - cb.startIdx) := by
    rw [List.length_take]
    omega
  have hdrop := h.drop (n := min size (cb.size - cb.startIdx)) (by omega)
  rw [osCirBufReadLoop, Word.sub_eq hs.le]
  simp only [hcp]
  rw [hcells, hc.copied size _ hl (by omega) (by omega)]
  simp only [ne_eq, not_true_eq_false, ite_false]
  rw [CirBuf.wrapStart_drop hlt (by omega) (by omega)]
  split_ifs with hall
  · -- the first piece ends at the end of the buffer, and the bytes left start at its start
    have hn : min size (cb.size - cb.startIdx) = cb.size - cb.startIdx := by omega
    rw [hn] at hdrop hlen ⊢
    have hz : (cb.drop (cb.size - cb.startIdx)).startIdx = 0 := by
      simp only [CirBuf.drop]
      rw [Nat.add_sub_cancel' hs.le, Nat.mod_self]
    obtain ⟨h1,h2,h3,h4⟩ := osCirBufReadLinear_spec (put buf 0 (xs.take (cb.size - cb.startIdx))) (cb.size - cb.startIdx)
      (size - (cb.size - cb.startIdx)) hc hdrop (by omega)
      (by rw [hz, List.length_drop]; simp only [CirBuf.drop]; omega)
    rw [List.length_drop] at h1
    rw [List.drop_drop] at h3
    have hadd : cb.size - cb.startIdx + min (size - (cb.size - cb.startIdx)) (xs.length - (cb.size - cb.startIdx)) =
        min size xs.length := by
      omega
    refine ⟨?_,h2,?_,?_⟩
    · simp only [h1]
      rw [Word.add_eq (by omega), hadd]
    · simp only [h1] at h3 ⊢
      rwa [Word.add_eq (by omega)]
    · simp only [h4, h1]
      have happ := put_append buf 0 (xs.take (cb.size - cb.startIdx))
        ((xs.drop (cb.size - cb.startIdx)).take (min (size - (cb.size - cb.startIdx)) (xs.length - (cb.size - cb.startIdx))))
      rw [hlen, Nat.zero_add] at happ
      rw [happ, ← List.take_add, Word.add_eq (by omega)]
  · exact ⟨by simp only; omega,rfl,hdrop,rfl⟩

private theorem losCirBufRead_spec (buf : Nat → UInt8) {size : Nat} (hc : Copies memcpyS) (h : Contains cb xs) (hl : size ≤ SECUREC_MEM_MAX_LEN) :
    Reads cb xs buf 0 size (losCirBufRead memcpyS cb buf size) := by
  have hr := h.remain
  rw [losCirBufRead]
  split_ifs with h1 h2 h3
  · rcases h1 with h1 | h1
    · exact .zero h (by omega)
    · exact absurd h.status h1
  · obtain ⟨f,hf,-⟩ := h.fifo
    rw [hf] at h2
    exact .zero h (by simp at h2; omega)
  · rw [not_or] at h1 h2
    refine osCirBufReadLoop_spec buf hc h hl (by omega) ?_
    rcases h.endIdx_cases with he | he
    · have := h2.2
      omega
    · exact he
  · refine osCirBufReadLinear_spec buf 0 size hc h hl ?_
    have := h.startIdx_lt
    rcases h.endIdx_cases with he | he <;> omega

/-- A buffer of the caller that is too large for memcpy_s gets no bytes. -/
private theorem losCirBufRead_refused (buf : Nat → UInt8) {size : Nat} (hc : Copies memcpyS) (hl : SECUREC_MEM_MAX_LEN < size) :
    losCirBufRead memcpyS cb buf size = (cb,buf,0) := by
  have herr : Log.ERANGE ≠ EOK := by decide
  simp only [losCirBufRead, osCirBufReadLoop, osCirBufReadLinear, hc.refused size _ hl, herr, ne_eq, not_false_eq_true, if_true,
    put_nil, ite_self]

private theorem contains_init {size : Nat} (fifo : Nat → UInt8) (hpos : 0 < size) (hlt : size < 2^32) :
    Contains (losCirBufInit fifo size) [] :=
  ⟨rfl,⟨fifo,rfl,holds_nil hpos fifo⟩,hlt,(Nat.mod_eq_of_lt hpos).symm,rfl⟩

-- Streams

/-- What is stored is what has been read and what the buffer holds; a buffer that is too large for memcpy_s stays as it was. -/
def StreamInv (t : Stream) : Prop :=
  ∃ xs, Contains t.cb xs ∧ t.stored = t.fetched ++ xs ∧ (SECUREC_MEM_MAX_LEN < t.cb.size → xs = [] ∧ t.cb.startIdx = 0)

private theorem streamInv_write {t : Stream} {buf : List UInt8} (hc : Copies memcpyS) (h : StreamInv t) (hb : buf.length < 2^32) :
    StreamInv (t.run memcpyS (.write buf)) := by
  obtain ⟨xs,hx,hs,hbig⟩ := h
  rcases Nat.lt_or_ge SECUREC_MEM_MAX_LEN t.cb.size with hl | hl
  · obtain ⟨rfl,h0⟩ := hbig hl
    simp only [Stream.run, losCirBufWrite_refused buf hc hx h0 hl, List.take_zero, List.append_nil]
    exact ⟨[],hx,hs,hbig⟩
  · obtain ⟨-,h2,h3⟩ := losCirBufWrite_spec buf hc hx hl hb
    refine ⟨_,h3,?_,fun hl' => ?_⟩
    · simp only [Stream.run]
      rw [hs, List.append_assoc]
    · simp only [Stream.run, h2] at hl'
      omega

private theorem streamInv_read {t : Stream} {buf : Nat → UInt8} {size : Nat} (hc : Copies memcpyS) (h : StreamInv t) :
    StreamInv (t.run memcpyS (.read buf size)) := by
  obtain ⟨xs,hx,hs,hbig⟩ := h
  rcases Nat.lt_or_ge SECUREC_MEM_MAX_LEN size with hl | hl
  · simp only [Stream.run, losCirBufRead_refused buf hc hl]
    exact ⟨xs,hx,by simpa [cells] using hs,hbig⟩
  obtain ⟨h1,h2,h3,h4⟩ := losCirBufRead_spec buf hc hx hl
  refine ⟨_,h3,?_,fun hl' => ?_⟩
  · have hlen : (xs.take (min size xs.length)).length = min size xs.length := by
      rw [List.length_take]
      omega
    have hcells := cells_put buf 0 (xs.take (min size xs.length))
    rw [hlen] at hcells
    simp only [Stream.run, h4, h1]
    rw [hcells, List.append_assoc, List.take_append_drop, hs]
  · -- the buffer has no bytes to read
    simp only [Stream.run, h2] at hl'
    obtain ⟨rfl,h0⟩ := hbig hl'
    refine ⟨List.drop_nil,?_⟩
    have hz : losCirBufRead memcpyS t.cb buf size = (t.cb,buf,0) := by
      obtain ⟨f,hf,-⟩ := hx.fifo
      have hr := hx.remain
      rw [losCirBufRead]
      split_ifs with g1 g2
      · rfl
      · rfl
      · simp [hf] at g2
        simp at hr
        omega
      · simp [hf] at g2
        simp at hr
        omega
    simp only [Stream.run, hz]
    exact h0

private theorem streamInv_run {t : Stream} {c : CirCall} (hc : Copies memcpyS) (h : StreamInv t) (hp : (streamSystem memcpyS).pre t c) :
    StreamInv (t.run memcpyS c) := by
  cases c with
  | write buf => exact streamInv_write hc h hp
  | read buf size => exact streamInv_read hc h

/-- What is stored is what has been read, followed by the bytes in the buffer, and the next write and the next read take
all that they can; they do nothing where memcpy_s refuses their destination for its size. -/
structure StreamLaw (memcpyS : Nat → List UInt8 → Int × List UInt8) (t : Stream) : Prop where
  held : t.stored = t.fetched ++ t.cb.content
  fifo : t.fetched <+: t.stored
  size : t.cb.remain + losCirBufUsedSize t.cb = t.cb.size
  startIdx : t.cb.startIdx < t.cb.size
  endIdx : t.cb.endIdx < t.cb.size
  write : ∀ buf : List UInt8, buf.length < 2^32 →
    if t.cb.size ≤ SECUREC_MEM_MAX_LEN then (losCirBufWrite memcpyS t.cb buf).2 = min buf.length t.cb.remain
    else losCirBufWrite memcpyS t.cb buf = (t.cb,0)
  read : ∀ buf size, size < 2^32 →
    if size ≤ SECUREC_MEM_MAX_LEN then (losCirBufRead memcpyS t.cb buf size).2.2 = min size (losCirBufUsedSize t.cb)
    else losCirBufRead memcpyS t.cb buf size = (t.cb,buf,0)

theorem streamLaw_of_reachable (hc : Copies memcpyS) {t : Stream} (h : Reachable (streamSystem memcpyS) (fun _ _ => True) t) :
    StreamLaw memcpyS t := by
  have hinv : StreamInv t := by
    refine h.invariant ?_ fun t c ht hp _ => streamInv_run hc ht hp
    rintro t ⟨fifo,size,hpos,hlt,rfl⟩
    exact ⟨[],contains_init fifo hpos hlt,rfl,fun _ => ⟨rfl,rfl⟩⟩
  obtain ⟨xs,hx,hs,hbig⟩ := hinv
  exact {
    held := by rw [hx.content_eq]; exact hs
    fifo := ⟨xs,hs.symm⟩
    size := by rw [hx.used_eq]; exact hx.remain
    startIdx := hx.startIdx_lt
    endIdx := hx.endIdx_lt
    write := by
      intro buf hb
      split
      case isTrue hl => exact (losCirBufWrite_spec buf hc hx hl hb).1
      case isFalse hl =>
        obtain ⟨rfl,h0⟩ := hbig (by omega)
        exact losCirBufWrite_refused buf hc hx h0 (by omega)
    read := by
      intro buf size _
      split
      case isTrue hl => rw [hx.used_eq]; exact (losCirBufRead_spec buf hc hx hl).1
      case isFalse hl => exact losCirBufRead_refused buf hc (by omega) }

/-- The log's memcpy_s with the bound on the destination. -/
def boundedMemcpyS (destMax : Nat) (src : List UInt8) : Int × List UInt8 :=
  if SECUREC_MEM_MAX_LEN < destMax then (Log.ERANGE,[]) else Log.memcpyS destMax src

private theorem copies_boundedMemcpyS : Copies boundedMemcpyS := by
  refine ⟨fun destMax src hl hpos hle => ?_,fun destMax src hl => if_pos hl⟩
  rw [boundedMemcpyS, if_neg (by omega), Log.memcpyS, if_neg (by omega), if_neg (by omega)]
  rfl

/-- Three places, of which the second write goes around the end. -/
theorem streamLaw_wraps : ∃ t : Stream, t.cb.endIdx < t.cb.startIdx ∧ t.stored = [1,2,3,4] ∧ t.fetched = [1,2] ∧
    StreamLaw boundedMemcpyS t := by
  have h : Reachable (streamSystem boundedMemcpyS) (fun _ _ => True) ⟨losCirBufInit (fun _ => 0) 3,[],[]⟩ :=
    .init ⟨_,3,by decide,by decide,rfl⟩
  exact ⟨_,by decide +kernel,by decide +kernel,by decide +kernel,streamLaw_of_reachable copies_boundedMemcpyS
    (((h.call (.write [1,2]) (by decide) trivial).call (.read (fun _ => 0) 2) (by decide) trivial).call (.write [3,4])
      (by decide) trivial)⟩

/-- An empty buffer of 2^31 bytes takes no byte. -/
theorem streamLaw_fails_large : ¬∀ memcpyS, Copies memcpyS → ∀ t, Reachable (streamSystem memcpyS) (fun _ _ => True) t →
    ∀ buf : List UInt8, buf.length < 2^32 → (losCirBufWrite memcpyS t.cb buf).2 = min buf.length t.cb.remain := by
  intro hall
  have h := hall boundedMemcpyS copies_boundedMemcpyS ⟨losCirBufInit (fun _ => 0) (2^31),[],[]⟩
    (.init ⟨_,2^31,by norm_num,by norm_num,rfl⟩) [1] (by norm_num)
  have hz : (losCirBufWrite boundedMemcpyS (losCirBufInit (fun _ => 0) (2^31)) [1]).2 = 0 := by decide +kernel
  rw [hz] at h
  cases h

end LiteOsKernel.Libscrew
