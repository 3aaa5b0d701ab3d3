import LiteOsKernel.Log.HiLog
import LiteOsKernel.Lib.Run

/-! The hilog ring buffer along any run is a queue of whole records: writers append one and drop the oldest that are in its way,
readers take the oldest. -/
namespace LiteOsKernel.Log

/-- A header with the message that it announces. -/
structure LogRecord where
  header : List UInt8
  body : List UInt8
  header_length : header.length = HILOG_ENTRY_SIZE
  len_eq : headerLen header = body.length

def LogRecord.bytes (r : LogRecord) : List UInt8 := r.header ++ r.body

def contents (rs : List LogRecord) : List UInt8 := rs.flatMap LogRecord.bytes

/-- The records that are left when the oldest are dropped until n bytes fit, and no more of them. -/
def room (cfg : Config) (n : Nat) : List LogRecord → List LogRecord
  | [] => []
  | r :: rs => if n + (contents (r :: rs)).length ≤ cfg.HILOG_BUFFER then r :: rs else room cfg n rs

/-- What a call has done: a message was written (fault: its copy faulted), bytes were read, the buffer was emptied because the
caller's buffer was too small, or an error was returned. -/
inductive LogOp where
  | write (header bytes : List UInt8) (fault : Bool)
  | read (bytes : List UInt8)
  | clear
  | refuse

/-- The queue of records that the users see. A copy that faults unnoticed leaves other bytes in the message. -/
inductive LogStep (cfg : Config) : List LogRecord → LogOp → List LogRecord → Prop
  | write (rs : List LogRecord) (r : LogRecord) {bytes : List UInt8} {fault : Bool} (hl : r.body.length = bytes.length)
      (hf : fault = false → r.body = bytes) : LogStep cfg rs (.write r.header bytes fault) (room cfg r.bytes.length rs ++ [r])
  | read (r : LogRecord) (rs : List LogRecord) : LogStep cfg (r :: rs) (.read r.bytes) rs
  | clear (rs : List LogRecord) : LogStep cfg rs .clear []
  | refuse (rs : List LogRecord) : LogStep cfg rs .refuse rs

abbrev LogRun (cfg : Config) : List LogOp → List LogRecord → Prop := Run.Trace (LogStep cfg) []

/-- The device with the readers that have left wait_event_interruptible, and what the calls so far have done. -/
structure LogHist where
  st : HiLogCharDevice
  readers : List Nat
  done : List LogOp

inductive LogCall where
  | write (printOnly : Bool) (e : HiLogEntry) (user : Bool) (left left' : Nat) (buffer : List UInt8)
  | wait (reader : Nat) (interrupted : Bool)
  | read (reader : Nat) (user : Bool) (left : ReadFaults) (buffer : Nat → UInt8) (bufLen : Nat)

namespace LogCall

def run (cfg : Config) (x : LogHist) : LogCall → LogHist
  | write printOnly e user left left' buffer =>
    match hiLogWrite cfg x.st printOnly e user left left' buffer with
    | none => x
    | some (st,retval) =>
      let fault := user && (left ≠ 0 || left' ≠ 0)
      { x with st := st, done := x.done ++ [if 0 ≤ retval then .write (hiLogHeadInit e buffer.length) buffer fault else .refuse] }
  | wait reader _ => { x with readers := x.readers ++ [reader] }
  | read reader user left buffer bufLen =>
    let (st,retval,buffer) := hiLogRead cfg x.st user left buffer bufLen
    { st := st
      readers := x.readers.erase reader
      done := x.done ++ [if 0 ≤ retval then .read (Ring.cells buffer 0 retval.toNat) else if retval = -ENOMEM then .clear else .refuse] }

/-- A reader leaves the wait when there is something to read or when it is interrupted, and goes on to read. -/
def Pre (x : LogHist) : LogCall → Prop
  | wait _ interrupted => 0 < x.st.size ∨ interrupted = true
  | read reader .. => reader ∈ x.readers
  | write .. => True

/-- The condition: the copy of a message that wraps around does not fault in its first piece; a reader that finds the buffer
empty has a buffer too small for the record that it sees there, and no copy to the buffer of another reader faults. -/
def Ok (cfg : Config) (x : LogHist) : LogCall → Prop
  | write _ _ user left _ buffer =>
    user = true → cfg.HILOG_BUFFER - (x.st.writeOffset + HILOG_ENTRY_SIZE) % cfg.HILOG_BUFFER < buffer.length → left = 0
  | wait .. => True
  | read _ user left _ bufLen =>
    (x.st.size = 0 → bufLen < Word.add (headerLen (readHeader cfg x.st).2) HILOG_ENTRY_SIZE) ∧
      (x.st.size ≠ 0 → user = true → left.header = 0 ∧ left.first = 0 ∧ left.second = 0)

end LogCall

@[reducible] def logSystem (cfg : Config) : Run.System LogHist LogCall where
  init x := ∃ buffer, x = ⟨hiLogDeviceInit buffer,[],[]⟩
  pre x c := c.Pre x
  run x c := c.run cfg x

/-- The bytes from headOffset to writeOffset are xs, and size is their number. -/
structure Filled (cfg : Config) (d : HiLogCharDevice) (xs : List UInt8) : Prop where
  holds : Ring.Holds cfg.HILOG_BUFFER d.buffer d.headOffset xs
  size : d.size = xs.length
  write : d.writeOffset = (d.headOffset + d.size) % cfg.HILOG_BUFFER

/-- The bytes in the buffer are those of the records. -/
abbrev Framed (cfg : Config) (d : HiLogCharDevice) (rs : List LogRecord) : Prop := Filled cfg d (contents rs)

structure LogLaw (cfg : Config) (x : LogHist) : Prop where
  framed : ∃ rs, Framed cfg x.st rs ∧ LogRun cfg x.done rs
  returns : ∀ printOnly e user left left' buffer, hiLogWrite cfg x.st printOnly e user left left' buffer ≠ none

section
variable {cfg : Config} {x : LogHist} {d : HiLogCharDevice} {rs : List LogRecord} {r : LogRecord} {xs ys src : List UInt8}
  {user : Bool} {left left' dstLen n off : Nat} {buffer : Nat → UInt8} {header bytes : List UInt8}

@[simp] theorem contents_nil : contents [] = [] := rfl

private theorem contents_cons (r : LogRecord) (rs : List LogRecord) : contents (r :: rs) = r.header ++ (r.body ++ contents rs) := by
  rw [contents, List.flatMap_cons, LogRecord.bytes, List.append_assoc]
  rfl

private theorem contents_snoc (rs : List LogRecord) (r : LogRecord) : contents (rs ++ [r]) = contents rs ++ r.header ++ r.body := by
  simp [contents, LogRecord.bytes]

theorem toNat_ofNat (n : Nat) : (UInt8.ofNat n).toNat = n % 2^8 := rfl

private theorem headerLen_init (e : HiLogEntry) (hn : n < 2^32) : headerLen (hiLogHeadInit e n) = n := by
  simp only [headerLen, hiLogHeadInit, le32, List.cons_append, List.getD_cons_zero, List.getD_cons_succ, toNat_ofNat]
  omega

private theorem length_init (e : HiLogEntry) (n : Nat) : (hiLogHeadInit e n).length = HILOG_ENTRY_SIZE := rfl

/-- A copy that fits and does not fault. -/
private theorem copy_ok (hk : user = true → left = 0) (hfit : src.length ≤ dstLen) :
    ∃ retval, 0 ≤ retval ∧ (0 < dstLen → retval = 0) ∧ hiLogBufferCopy user left dstLen src = (retval,src) := by
  rw [hiLogBufferCopy]
  split_ifs with h1 h2 h2
  · rw [hk h2.1]
    exact ⟨0,le_rfl,fun _ => rfl,by simp⟩
  · rw [memcpyS]
    split_ifs with h3 h4
    · omega
    · omega
    · exact ⟨0,le_rfl,fun _ => rfl,rfl⟩
  · rw [hk h2.1]
    exact ⟨0,le_rfl,fun _ => rfl,by simp [List.take_of_length_le hfit]⟩
  · rw [memcpyS]
    split_ifs with h3 h4
    · have : src = [] := List.eq_nil_of_length_eq_zero (by omega)
      exact ⟨ERANGE,by decide,fun h => absurd h (by omega),by rw [this]⟩
    · omega
    · exact ⟨0,le_rfl,fun _ => rfl,rfl⟩

/-- A copy that fits, with or without a fault. -/
private theorem copy_any (user : Bool) (left : Nat) (hfit : src.length ≤ dstLen) : ∃ retval bytes, 0 ≤ retval ∧ bytes.length ≤ src.length ∧
    ((user && left ≠ 0) = false → bytes = src) ∧ hiLogBufferCopy user left dstLen src = (retval,bytes) := by
  by_cases hu : user = true ∧ left ≠ 0
  · rw [hiLogBufferCopy]
    split_ifs with h1 h2 h2
    · exact ⟨left,_,Int.natCast_nonneg _,by simp,by simp [hu],rfl⟩
    · have hz : src = [] := List.eq_nil_of_length_eq_zero (by by_contra hc; exact h2 ⟨hu.1,by omega⟩)
      exact ⟨0,src,le_rfl,le_rfl,fun _ => rfl,by rw [memcpyS, if_neg (by omega), if_neg (by omega)]⟩
    · exact ⟨left,_,Int.natCast_nonneg _,by simp,by simp [hu],rfl⟩
    · have hz : dstLen = 0 := by by_contra hc; exact h2 ⟨hu.1,by omega⟩
      have hs : src = [] := List.eq_nil_of_length_eq_zero (by omega)
      exact ⟨ERANGE,src,by decide,le_rfl,fun _ => rfl,by rw [memcpyS, if_pos hz, hs]⟩
  · have hk : user = true → left = 0 := fun h => by by_contra hc; exact hu ⟨h,hc⟩
    obtain ⟨retval,h0,-,he⟩ := copy_ok hk hfit
    exact ⟨retval,src,h0,le_rfl,fun _ => rfl,he⟩

/-- The first n bytes of what the ring buffer holds are read. -/
private theorem readRing_spec (h : Ring.Holds cfg.HILOG_BUFFER d.buffer d.headOffset xs) (hn : n ≤ xs.length)
    (hk : user = true → left = 0 ∧ left' = 0) (buffer : Nat → UInt8) (off : Nat) :
    ∃ retval, 0 ≤ retval ∧ hiLogReadRingBuffer cfg d user left left' buffer off n = (retval,Ring.put buffer off (xs.take n)) := by
  have hlt := h.head_lt
  by_cases h1 : n < cfg.HILOG_BUFFER - d.headOffset
  · obtain ⟨retval,h0,-,he⟩ := copy_ok (fun hu => (hk hu).1) (Ring.length_cells d.buffer d.headOffset n).le
    refine ⟨retval,h0,?_⟩
    rw [hiLogReadRingBuffer, if_pos h1, he, h.cells_eq hn (by omega)]
  · obtain ⟨retval,h0,-,he⟩ := copy_ok (fun hu => (hk hu).1)
      (show (Ring.cells d.buffer d.headOffset (cfg.HILOG_BUFFER - d.headOffset)).length ≤ n by rw [Ring.length_cells]; omega)
    obtain ⟨retval',h0',-,he'⟩ := copy_ok (fun hu => (hk hu).2)
      (Ring.length_cells d.buffer 0 (n - (cfg.HILOG_BUFFER - d.headOffset))).le
    have hp := Ring.put_append buffer off (Ring.cells d.buffer d.headOffset (cfg.HILOG_BUFFER - d.headOffset))
      (Ring.cells d.buffer 0 (n - (cfg.HILOG_BUFFER - d.headOffset)))
    rw [Ring.length_cells, h.cells_append hn (by omega)] at hp
    refine ⟨retval',h0',?_⟩
    rw [hiLogReadRingBuffer, if_neg h1, he]
    simp only
    rw [if_neg (not_lt.mpr h0), he', hp]

private theorem readHeader_spec (h : Ring.Holds cfg.HILOG_BUFFER d.buffer d.headOffset xs) (hn : HILOG_ENTRY_SIZE ≤ xs.length) :
    ∃ retval, 0 ≤ retval ∧ readHeader cfg d = (retval,xs.take HILOG_ENTRY_SIZE) := by
  obtain ⟨retval,h0,he⟩ := readRing_spec h hn (show false = true → 0 = 0 ∧ 0 = 0 from nofun) (fun _ => 0) 0
  have hc := Ring.cells_put (fun _ => 0) 0 (xs.take HILOG_ENTRY_SIZE)
  rw [List.length_take, Nat.min_eq_left hn] at hc
  refine ⟨retval,h0,?_⟩
  rw [readHeader, he]
  exact Prod.ext rfl hc

private theorem Filled.size_le (h : Filled cfg d xs) : d.size ≤ cfg.HILOG_BUFFER := h.size ▸ h.holds.length_le

/-- The oldest bytes are taken away. -/
private theorem Filled.dec (h : Filled cfg d (xs ++ ys)) : Filled cfg (hiLogBufferDec cfg d xs.length) ys := by
  have hlen : (xs ++ ys).length = xs.length + ys.length := List.length_append
  have := h.holds.head_lt
  have := h.holds.length_le
  have := h.size
  have := cfg.lt
  rw [hiLogBufferDec, if_pos (by omega), Word.add_eq (by omega)]
  have hdrop := h.holds.drop (show xs.length ≤ (xs ++ ys).length by omega)
  rw [List.drop_left] at hdrop
  refine ⟨hdrop,by simp only; omega,?_⟩
  simp only [h.write, Nat.mod_add_mod]
  congr 1
  omega

private theorem Filled.inc {mem : Nat → UInt8} (h : Filled cfg d xs) (hh : Ring.Holds cfg.HILOG_BUFFER mem d.headOffset (xs ++ ys)) :
    Filled cfg (hiLogBufferInc cfg { d with buffer := mem } ys.length) (xs ++ ys) ∧
      (hiLogBufferInc cfg { d with buffer := mem } ys.length).writeOffset = (d.writeOffset + ys.length) % cfg.HILOG_BUFFER := by
  have hlen : (xs ++ ys).length = xs.length + ys.length := List.length_append
  have := hh.length_le
  have := h.size
  have := cfg.lt
  have hlt : d.writeOffset < cfg.HILOG_BUFFER := h.write ▸ Nat.mod_lt _ cfg.pos
  rw [hiLogBufferInc]
  simp only
  rw [Word.add_eq (by omega), if_pos (by omega), Word.add_eq (by omega)]
  refine ⟨⟨hh,by simp only; omega,?_⟩,rfl⟩
  simp only [h.write, Nat.mod_add_mod, Nat.add_assoc]

/-- Bytes are appended to what the ring buffer holds; where the copy faults they are others. -/
private theorem Filled.writeRing (h : Filled cfg d xs) (hfit : xs.length + bytes.length ≤ cfg.HILOG_BUFFER)
    (hk : user = true → cfg.HILOG_BUFFER - d.writeOffset < bytes.length → left = 0) (left' : Nat) :
    ∃ ys mem, ys.length = bytes.length ∧ ((user && (left ≠ 0 || left' ≠ 0)) = false → ys = bytes) ∧
      Ring.Holds cfg.HILOG_BUFFER mem d.headOffset (xs ++ ys) ∧
      hiLogWriteRingBuffer cfg d user left left' bytes = ({ d with buffer := mem },true) := by
  have hw : d.writeOffset = (d.headOffset + xs.length) % cfg.HILOG_BUFFER := h.size ▸ h.write
  have hlt : d.writeOffset < cfg.HILOG_BUFFER := hw ▸ Nat.mod_lt _ cfg.pos
  by_cases h1 : cfg.HILOG_BUFFER - d.writeOffset < bytes.length
  · -- the first piece is whole, and the second is at the start of the buffer
    have ht : (bytes.take (cfg.HILOG_BUFFER - d.writeOffset)).length = cfg.HILOG_BUFFER - d.writeOffset := by
      rw [List.length_take, Nat.min_eq_left (Nat.le_of_lt h1)]
    obtain ⟨retval,-,hz,he⟩ := copy_ok (fun hu => hk hu h1) ht.le
    obtain ⟨retval',bs,h0',hb,hbs,he'⟩ := copy_any user left'
      (show (bytes.drop (cfg.HILOG_BUFFER - d.writeOffset)).length ≤ cfg.HILOG_BUFFER by rw [List.length_drop]; omega)
    rw [List.length_drop] at hb
    have hput := h.holds.append_put (by rw [ht]; omega) hw (by rw [ht]; omega)
    have hoff : 0 = (d.headOffset + (xs ++ bytes.take (cfg.HILOG_BUFFER - d.writeOffset)).length) % cfg.HILOG_BUFFER := by
      rw [List.length_append, ht, ← Nat.add_assoc, ← Nat.mod_add_mod, ← hw, Nat.add_sub_cancel' hlt.le, Nat.mod_self]
    obtain ⟨zs,hzl,hze,hh⟩ := hput.append_piece (n := bytes.length - (cfg.HILOG_BUFFER - d.writeOffset))
      (by rw [List.length_append, ht]; omega) hoff (by omega) hb
    refine ⟨bytes.take (cfg.HILOG_BUFFER - d.writeOffset) ++ zs,_,by rw [List.length_append, ht]; omega,fun hf => ?_,
      by rwa [← List.append_assoc],?_⟩
    · have hd := hbs (by revert hf; cases user <;> simp +contextual)
      rw [hze (by rw [hd, List.length_drop]), hd, List.take_append_drop]
    · rw [hiLogWriteRingBuffer]
      simp only
      rw [if_pos h1, he]
      simp only
      rw [if_neg (not_not.mpr (hz (by omega))), he']
      simp only [h0', decide_true]
  · obtain ⟨retval,bs,h0,hb,hbs,he⟩ := copy_any user left (not_lt.mp h1)
    obtain ⟨zs,hzl,hze,hh⟩ := h.holds.append_piece hfit hw (by omega) hb
    refine ⟨zs,_,hzl,fun hf => ?_,hh,?_⟩
    · have hd := hbs (by revert hf; cases user <;> simp +contextual)
      rw [hze (by rw [hd]), hd]
    · rw [hiLogWriteRingBuffer]
      simp only
      rw [if_neg h1, he]
      simp only [h0, decide_true]

/-- Bytes are written and counted. -/
theorem Filled.append (h : Filled cfg d xs) (hfit : xs.length + bytes.length ≤ cfg.HILOG_BUFFER)
    (hk : user = true → cfg.HILOG_BUFFER - d.writeOffset < bytes.length → left = 0) (left' : Nat) :
    ∃ ys d', ys.length = bytes.length ∧ ((user && (left ≠ 0 || left' ≠ 0)) = false → ys = bytes) ∧
      hiLogWriteRingBuffer cfg d user left left' bytes = (d',true) ∧
      Filled cfg (hiLogBufferInc cfg d' bytes.length) (xs ++ ys) ∧
      (hiLogBufferInc cfg d' bytes.length).writeOffset = (d.writeOffset + bytes.length) % cfg.HILOG_BUFFER := by
  obtain ⟨ys,mem,hl,hys,hh,he⟩ := h.writeRing hfit hk left'
  exact ⟨ys,_,hl,hys,he,hl ▸ h.inc hh⟩

private theorem length_le_contents (rs : List LogRecord) : rs.length ≤ (contents rs).length := by
  induction rs with
  | nil => exact Nat.zero_le _
  | cons r rs ih =>
    rw [contents_cons, List.length_append, List.length_append, r.header_length, List.length_cons, HILOG_ENTRY_SIZE]
    omega

theorem length_bytes (r : LogRecord) : r.bytes.length = r.body.length + HILOG_ENTRY_SIZE := by
  rw [LogRecord.bytes, List.length_append, r.header_length, Nat.add_comm]

private theorem Framed.empty_iff (h : Framed cfg d rs) : d.size = 0 ↔ rs = [] := by
  rw [h.size]
  refine ⟨fun hz => List.eq_nil_of_length_eq_zero ?_,fun he => by rw [he]; rfl⟩
  have := length_le_contents rs
  omega

theorem Framed.readHeader (h : Framed cfg d (r :: rs)) : ∃ retval, 0 ≤ retval ∧ readHeader cfg d = (retval,r.header) := by
  have hholds := h.holds
  rw [contents_cons] at hholds
  obtain ⟨retval,h0,he⟩ := readHeader_spec hholds (by rw [List.length_append, r.header_length]; omega)
  refine ⟨retval,h0,?_⟩
  rw [he, ← r.header_length, List.take_left]

private theorem Framed.dec_header (h : Framed cfg d (r :: rs)) :
    Filled cfg (hiLogBufferDec cfg d HILOG_ENTRY_SIZE) (r.body ++ contents rs) := by
  rw [Framed, contents_cons] at h
  exact r.header_length ▸ h.dec

private theorem Framed.dec_record (h : Framed cfg d (r :: rs)) :
    Framed cfg (hiLogBufferDec cfg (hiLogBufferDec cfg d HILOG_ENTRY_SIZE) (headerLen r.header)) rs := by
  rw [r.len_eq]
  exact h.dec_header.dec

private theorem contents_room_le (hn : n ≤ cfg.HILOG_BUFFER) (rs : List LogRecord) :
    n + (contents (room cfg n rs)).length ≤ cfg.HILOG_BUFFER := by
  induction rs with
  | nil => exact hn
  | cons r rs ih =>
    rw [room]
    split_ifs with h
    · exact h
    · exact ih

/-- The loop ends, and drops the oldest records until there is room. -/
private theorem coverLoop_spec (hn : n ≤ cfg.HILOG_BUFFER) (h : Framed cfg d rs) {fuel : Nat} (hf : rs.length < fuel) :
    ∃ d', hiLogCoverLoop cfg n fuel d = some d' ∧ Framed cfg d' (room cfg n rs) ∧ d'.writeOffset = d.writeOffset := by
  have hadd : ∀ {d : HiLogCharDevice} {rs : List LogRecord}, Framed cfg d rs → Word.add n d.size = n + d.size := by
    intro d rs h
    have := h.size_le
    have := cfg.lt
    exact Word.add_eq (by omega)
  induction rs generalizing d fuel with
  | nil =>
    obtain ⟨fuel,rfl⟩ := Nat.exists_eq_add_one_of_ne_zero (Nat.ne_of_gt hf)
    rw [hiLogCoverLoop, hadd h, if_pos (by rw [Framed.empty_iff h |>.mpr rfl]; exact hn)]
    exact ⟨d,rfl,h,rfl⟩
  | cons r rs ih =>
    obtain ⟨fuel,rfl⟩ := Nat.exists_eq_add_one_of_ne_zero (Nat.ne_of_gt (Nat.zero_lt_of_lt hf))
    rw [hiLogCoverLoop, hadd h, room, ← h.size]
    split_ifs with hfit
    · exact ⟨d,rfl,h,rfl⟩
    · obtain ⟨retval,h0,he⟩ := Framed.readHeader h
      obtain ⟨d',he',hd',hw⟩ := ih (Framed.dec_record h) (Nat.lt_of_succ_lt_succ hf)
      rw [he]
      simp only
      rw [if_neg (not_lt.mpr h0)]
      refine ⟨d',he',hd',?_⟩
      rw [hw, hiLogBufferDec, hiLogBufferDec]
      split_ifs <;> rfl

private theorem cover_spec (h : Framed cfg d rs) (hn : n + HILOG_ENTRY_SIZE ≤ cfg.HILOG_BUFFER) : ∃ d', hiLogCoverOldLog cfg d n = some d' ∧
    Framed cfg d' (room cfg (n + HILOG_ENTRY_SIZE) rs) ∧ d'.writeOffset = d.writeOffset := by
  have := cfg.lt
  rw [hiLogCoverOldLog, Word.add_eq (by omega)]
  exact coverLoop_spec hn h (Nat.lt_succ_of_le (h.size ▸ length_le_contents rs))

/-- The length check of HiLogWrite. -/
private theorem writeCheck_iff (n : Nat) : ¬ (Word.add n HILOG_ENTRY_SIZE < n ∨ cfg.HILOG_BUFFER < Word.add n HILOG_ENTRY_SIZE) ↔
    n + HILOG_ENTRY_SIZE ≤ cfg.HILOG_BUFFER := by
  have := cfg.lt
  rw [Word.add, HILOG_ENTRY_SIZE]
  omega

private theorem write_returns (h : Framed cfg d rs) (printOnly : Bool) (e : HiLogEntry) (user : Bool) (left left' : Nat)
    (buffer : List UInt8) : hiLogWrite cfg d printOnly e user left left' buffer ≠ none := by
  rw [hiLogWrite]
  split_ifs with hc
  · nofun
  · obtain ⟨d',he,-,-⟩ := cover_spec h ((writeCheck_iff _).mp hc)
    rw [hiLogWriteInternal]
    split_ifs
    · nofun
    · rw [he]
      simp only
      split
      · nofun
      · split <;> nofun

private theorem toInt_eq (hn : n < 2^31) : toInt n = n := if_pos hn

/-- A write refuses and changes nothing, or drops the oldest records that are in the way and appends one. -/
private theorem write_spec (h : Framed cfg d rs) (printOnly : Bool) (e : HiLogEntry) {buffer : List UInt8}
    (hk : user = true → cfg.HILOG_BUFFER - (d.writeOffset + HILOG_ENTRY_SIZE) % cfg.HILOG_BUFFER < buffer.length → left = 0)
    (left' : Nat) :
    (∃ retval, retval < 0 ∧ hiLogWrite cfg d printOnly e user left left' buffer = some (d,retval)) ∨
    ∃ d' r, hiLogWrite cfg d printOnly e user left left' buffer = some (d',(buffer.length : Int)) ∧
      r.header = hiLogHeadInit e buffer.length ∧ r.body.length = buffer.length ∧
      ((user && (left ≠ 0 || left' ≠ 0)) = false → r.body = buffer) ∧ Framed cfg d' (room cfg r.bytes.length rs ++ [r]) := by
  have hlt := cfg.lt
  rw [hiLogWrite]
  split_ifs with hc
  · exact .inl ⟨-ENOMEM,by decide,rfl⟩
  · have hn := (writeCheck_iff _).mp hc
    rw [hiLogWriteInternal]
    split_ifs with hp
    · exact .inl ⟨-EAGAIN,by decide,rfl⟩
    · right
      have hroom := contents_room_le hn rs
      have hlen := length_init e buffer.length
      obtain ⟨d1,hcover,h1,hw1⟩ := cover_spec h hn
      obtain ⟨header,d2,-,hheader,hwrite,h2,hw2⟩ := Filled.append h1
        (show (contents _).length + (hiLogHeadInit e buffer.length).length ≤ _ by rw [hlen]; omega) (show false = true → _ → 0 = 0 from nofun) 0
      rw [hheader rfl] at h2
      rw [hlen] at h2 hw2
      obtain ⟨body,d3,hl,hbody,hwrite',h3,-⟩ := h2.append (by rw [List.length_append, hlen]; omega) (hw2 ▸ hw1 ▸ hk) left'
      have hheaderLen : headerLen (hiLogHeadInit e buffer.length) = body.length := by rw [headerLen_init e (by omega), hl]
      refine ⟨hiLogBufferInc cfg d3 buffer.length,⟨hiLogHeadInit e buffer.length,body,hlen,hheaderLen⟩,?_,rfl,hl,hbody,?_⟩
      · rw [hcover]
        simp only [hwrite, hwrite', toInt_eq (show buffer.length < 2^31 by omega)]
      · rw [Framed, contents_snoc, length_bytes]
        simp only [hl]
        exact h3

private theorem readOut_eq {retval : Int} (h : 0 ≤ retval) (buffer : Nat → UInt8) : hiLogReadOut d retval buffer = (d,retval,buffer) := by
  rw [hiLogReadOut, if_neg (by rw [ENOMEM]; omega)]

/-- A read empties the buffer when the caller's is too small for the oldest record, and returns that record and takes it away
otherwise. -/
private theorem read_spec (h : Framed cfg d (r :: rs)) {left : ReadFaults}
    (hk : user = true → left.header = 0 ∧ left.first = 0 ∧ left.second = 0) (buffer : Nat → UInt8) (bufLen : Nat) :
    (hiLogRead cfg d user left buffer bufLen = ({ d with writeOffset := 0, headOffset := 0, size := 0 },-ENOMEM,buffer)) ∨
    ∃ d' buffer', hiLogRead cfg d user left buffer bufLen = (d',(r.bytes.length : Int),buffer') ∧
      Ring.cells buffer' 0 r.bytes.length = r.bytes ∧ Framed cfg d' rs := by
  have hlt := cfg.lt
  have hle := h.holds.length_le
  rw [contents_cons, List.length_append, List.length_append, r.header_length] at hle
  obtain ⟨retval,h0,he⟩ := Framed.readHeader h
  have hbytes := length_bytes r
  have hadd : Word.add (headerLen r.header) HILOG_ENTRY_SIZE = r.bytes.length := by
    rw [Word.add_eq (by rw [r.len_eq]; omega), hbytes, r.len_eq]
  by_cases hfit : bufLen < r.bytes.length
  · left
    rw [hiLogRead, he]
    change (if retval < 0 then _ else if bufLen < Word.add (headerLen r.header) HILOG_ENTRY_SIZE then _ else _) = _
    rw [if_neg (not_lt.mpr h0), hadd, if_pos hfit]
    rfl
  · right
    obtain ⟨retval1,h1,-,he1⟩ := copy_ok (fun hu => (hk hu).1) (show r.header.length ≤ bufLen by rw [r.header_length]; omega)
    obtain ⟨retval2,h2,he2⟩ := readRing_spec (Framed.dec_header h).holds (show headerLen r.header ≤ _ by
      rw [List.length_append, r.len_eq]; omega) (fun hu => (hk hu).2) (Ring.put buffer 0 r.header) HILOG_ENTRY_SIZE
    have hput := Ring.put_append buffer 0 r.header r.body
    rw [r.header_length, Nat.zero_add] at hput
    rw [r.len_eq, List.take_left, ← r.len_eq, hput] at he2
    refine ⟨_,_,?_,Ring.cells_put buffer 0 r.bytes,Framed.dec_record h⟩
    rw [hiLogRead, he]
    change (if retval < 0 then _ else if bufLen < Word.add (headerLen r.header) HILOG_ENTRY_SIZE then _ else _) = _
    rw [if_neg (not_lt.mpr h0), hadd, if_neg hfit, he1]
    change (if retval1 < 0 then _ else _) = _
    rw [if_neg (not_lt.mpr h1), he2]
    change (if retval2 < 0 then _ else _) = _
    rw [if_neg (not_lt.mpr h2), toInt_eq (by omega), readOut_eq (Int.natCast_nonneg _)]
    rfl

private theorem framed_clear (d : HiLogCharDevice) : Framed cfg { d with writeOffset := 0, headOffset := 0, size := 0 } [] :=
  ⟨Ring.holds_nil cfg.pos _,rfl,(Nat.zero_mod _).symm⟩

/-- A read of an empty buffer returns no data when the caller's buffer is too small for what the header seems to say. -/
private theorem read_empty (hk : bufLen < Word.add (headerLen (readHeader cfg d).2) HILOG_ENTRY_SIZE) (user : Bool) (left : ReadFaults)
    (buffer : Nat → UInt8) :
    hiLogRead cfg d user left buffer bufLen = (d,-EINVAL,buffer) ∨
    hiLogRead cfg d user left buffer bufLen = ({ d with writeOffset := 0, headOffset := 0, size := 0 },-ENOMEM,buffer) := by
  rcases hr : readHeader cfg d with ⟨retval,header⟩
  rw [hr] at hk
  rw [hiLogRead, hr]
  change (if retval < 0 then _ else if bufLen < Word.add (headerLen header) HILOG_ENTRY_SIZE then _ else _) = _ ∨
    (if retval < 0 then _ else if bufLen < Word.add (headerLen header) HILOG_ENTRY_SIZE then _ else _) = _
  by_cases h0 : retval < 0
  · left
    rw [if_pos h0]
    rfl
  · right
    rw [if_neg h0, if_pos hk]
    rfl

private theorem not_framed_header_alone (hs : d.size = HILOG_ENTRY_SIZE) (hlen : headerLen (readHeader cfg d).2 ≠ 0) : ¬ Framed cfg d rs := by
  intro h
  cases rs with
  | nil => exact absurd ((Framed.empty_iff h).mpr rfl) (by rw [hs]; decide)
  | cons r rs =>
    obtain ⟨retval,-,he⟩ := Framed.readHeader h
    have hzero : headerLen r.header ≠ 0 := by rwa [he] at hlen
    have hsize := h.size
    rw [contents_cons, List.length_append, List.length_append, r.header_length, ← r.len_eq, hs] at hsize
    omega

theorem LogCall.step_inv {c : LogCall} (h : Framed cfg x.st rs) (hrun : LogRun cfg x.done rs) (hok : c.Ok cfg x) :
    ∃ rs', Framed cfg (c.run cfg x).st rs' ∧ LogRun cfg (c.run cfg x).done rs' := by
  cases c with
  | write printOnly e user left left' buffer =>
    rcases write_spec h printOnly e hok left' with ⟨retval,hneg,he⟩ | ⟨d',r,he,hheader,hl,hbody,h'⟩
    · rw [run, he]
      simp only
      rw [if_neg (not_le.mpr hneg)]
      exact ⟨rs,h,hrun.snoc (.refuse rs)⟩
    · rw [run, he]
      simp only
      rw [if_pos (Int.natCast_nonneg _), ← hheader]
      exact ⟨_,h',hrun.snoc (.write rs r hl hbody)⟩
  | wait reader interrupted => exact ⟨rs,h,hrun⟩
  | read reader user left buffer bufLen =>
    rw [run]
    cases rs with
    | nil =>
      rcases read_empty (hok.1 ((Framed.empty_iff h).mpr rfl)) user left buffer with he | he
      · rw [he]
        exact ⟨[],h,hrun.snoc (.refuse [])⟩
      · rw [he]
        exact ⟨[],framed_clear _,hrun.snoc (.clear [])⟩
    | cons r rs =>
      have hsize : x.st.size ≠ 0 := fun hz => List.cons_ne_nil _ _ ((Framed.empty_iff h).mp hz)
      rcases read_spec h (hok.2 hsize) buffer bufLen with he | ⟨d',buffer',he,hcells,h'⟩
      · rw [he]
        exact ⟨[],framed_clear _,hrun.snoc (.clear _)⟩
      · rw [he]
        simp only
        rw [if_pos (Int.natCast_nonneg _), Int.toNat_natCast, hcells]
        exact ⟨rs,h',hrun.snoc (.read r rs)⟩

private theorem logLaw_of_framed (h : Framed cfg x.st rs) (hrun : LogRun cfg x.done rs) : LogLaw cfg x :=
  ⟨⟨rs,h,hrun⟩,write_returns h⟩

/-- Along any run whose calls meet the condition, the buffer is a queue of whole records. -/
theorem logLaw_of_reachable (cfg : Config) (x : LogHist) (h : Run.Reachable (logSystem cfg) (fun x c => c.Ok cfg x) x) :
    LogLaw cfg x := by
  obtain ⟨rs,hf,hrun⟩ := h.invariant (I := fun x => ∃ rs, Framed cfg x.st rs ∧ LogRun cfg x.done rs)
    (by
      rintro x ⟨buffer,rfl⟩
      exact ⟨[],⟨Ring.holds_nil cfg.pos _,rfl,(Nat.zero_mod _).symm⟩,.nil⟩)
    (fun x c ⟨rs,hf,hrun⟩ _ hok => LogCall.step_inv hf hrun hok)
  exact logLaw_of_framed hf hrun

end

/-- A buffer with room for two headers and a few bytes more. -/
def smallLog : Config := ⟨64,by decide,by decide⟩

def startLog : LogHist := ⟨hiLogDeviceInit fun _ => 0,[],[]⟩

def userWrite (left n : Nat) : LogCall := .write false ⟨2,7,0,0,0⟩ true left 0 (List.replicate n 1)

def userRead (reader : Nat) : LogCall := .read reader true ⟨0,0,0⟩ (fun _ => 0) 64

/-- The second of two messages wraps around and drops the first, and is read. -/
theorem logLaw_wrapped : ∃ x, Run.Reachable (logSystem smallLog) (fun x c => c.Ok smallLog x) x ∧ x.done.length = 3 ∧
    x.st.headOffset = 5 ∧ x.st.size = 0 ∧ LogLaw smallLog x := by
  have h0 : Run.Reachable (logSystem smallLog) (fun x c => c.Ok smallLog x) startLog := .init ⟨_,rfl⟩
  have h1 : Run.Reachable (logSystem smallLog) (fun x c => c.Ok smallLog x) _ := .call h0 (userWrite 0 3) trivial (fun _ _ => rfl)
  have h2 : Run.Reachable (logSystem smallLog) (fun x c => c.Ok smallLog x) _ := .call h1 (userWrite 0 18) trivial (fun _ _ => rfl)
  have h3 : Run.Reachable (logSystem smallLog) (fun x c => c.Ok smallLog x) _ :=
    .call h2 (.wait 1 false) (.inl (by decide +kernel)) trivial
  have h4 : Run.Reachable (logSystem smallLog) (fun x c => c.Ok smallLog x) _ :=
    .call h3 (userRead 1) (show 1 ∈ LogHist.readers _ by decide +kernel)
      ⟨fun hz => absurd hz (by decide +kernel),fun _ _ => ⟨rfl,rfl,rfl⟩⟩
  exact ⟨_,h4,by decide +kernel,by decide +kernel,by decide +kernel,logLaw_of_reachable _ _ h4⟩

/-- The copy of a message that wraps around faults in its first piece: the header stays in the buffer without the message. -/
theorem logLaw_fails_header_alone : ¬ ∀ cfg x, Run.Reachable (logSystem cfg) (fun _ _ => True) x → LogLaw cfg x := by
  intro hall
  have h0 : Run.Reachable (logSystem smallLog) (fun _ _ => True) startLog := .init ⟨_,rfl⟩
  have h1 : Run.Reachable (logSystem smallLog) (fun _ _ => True) _ := .call h0 (userWrite 0 3) trivial trivial
  have h2 : Run.Reachable (logSystem smallLog) (fun _ _ => True) _ := .call h1 (.wait 1 false) (.inl (by decide +kernel)) trivial
  have h3 : Run.Reachable (logSystem smallLog) (fun _ _ => True) _ := .call h2 (userRead 1) (show 1 ∈ LogHist.readers _ by decide +kernel) trivial
  have h4 : Run.Reachable (logSystem smallLog) (fun _ _ => True) _ := .call h3 (userWrite 1 18) trivial trivial
  obtain ⟨rs,hf,-⟩ := (hall _ _ h4).framed
  exact not_framed_header_alone (by decide +kernel) (by decide +kernel) hf

end LiteOsKernel.Log
