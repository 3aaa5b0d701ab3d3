import LiteOsKernel.Ipc.Queue
import LiteOsKernel.Lib.Run

/-! A message queue along any run is a bounded deque: the operations that completed, in the order of their copies, are those of a
list of messages, and the buffer holds that list. -/
namespace LiteOsKernel.Ipc.Queue

/-- The deque that the users of a queue see: the messages, an operation with what a reader gets, and the messages after it. -/
inductive DequeStep : List (List UInt8) → Operate × List UInt8 → List (List UInt8) → Prop
  | readHead (m : List UInt8) (ms : List (List UInt8)) (n : Nat) : DequeStep (m :: ms) (.readHead n,m.take n) ms
  | writeHead (m : List UInt8) (ms : List (List UInt8)) : DequeStep ms (.writeHead m,[]) (m :: ms)
  | writeTail (m : List UInt8) (ms : List (List UInt8)) : DequeStep ms (.writeTail m,[]) (ms ++ [m])

inductive DequeRun : List (Operate × List UInt8) → List (List UInt8) → Prop
  | nil : DequeRun [] []
  | snoc {done : List (Operate × List UInt8)} {ms ms' : List (List UInt8)} {a : Operate × List UInt8}
      (h : DequeRun done ms) (hs : DequeStep ms a ms') : DequeRun (done ++ [a]) ms'

/-- The queue with the operations that have returned LOS_OK since its creation. -/
structure QueueHist where
  st : QueueState
  done : List (Operate × List UInt8)

inductive QueueCall where
  | create (len maxMsgSize : Nat) (queue : Option (Nat → QueueNode))
  | readCopy (ctx : PendContext) (task queueID : Nat) (bufferAddr : Bool) (bufferSize timeout : Nat)
  | writeHeadCopy (ctx : PendContext) (task queueID : Nat) (bufferAddr : Option (List UInt8)) (timeout : Nat)
  | writeCopy (ctx : PendContext) (task queueID : Nat) (bufferAddr : Option (List UInt8)) (timeout : Nat)
  | delete (queueID : Nat)
  | expire (w : QueueWaiter) (ops : SchedOps)
  | resume (r : Resumed)

namespace QueueHist

/-- An operation that returns LOS_OK is written down. -/
def record (x : QueueHist) (operate : Operate) : QueueState × Option (QueueRet × List UInt8) → QueueHist
  | (st,some (.ok,bytes)) => ⟨st,x.done ++ [(operate,bytes)]⟩
  | (st,_) => { x with st := st }

end QueueHist

namespace QueueCall

def run (x : QueueHist) : QueueCall → QueueHist
  | create len maxMsgSize queue =>
    match losQueueCreate x.st len maxMsgSize queue with
    | (st,.ok) => ⟨st,[]⟩
    | (st,_) => { x with st := st }
  | readCopy ctx task queueID bufferAddr bufferSize timeout =>
    x.record (.readHead bufferSize) (losQueueReadCopy x.st ctx task queueID bufferAddr bufferSize timeout)
  | writeHeadCopy ctx task queueID bufferAddr timeout =>
    x.record (.writeHead (bufferAddr.getD [])) (losQueueWriteHeadCopy x.st ctx task queueID bufferAddr timeout)
  | writeCopy ctx task queueID bufferAddr timeout =>
    x.record (.writeTail (bufferAddr.getD [])) (losQueueWriteCopy x.st ctx task queueID bufferAddr timeout)
  | delete queueID => { x with st := (losQueueDelete x.st queueID).1 }
  | expire w ops => { x with st := queueTimeout x.st w ops }
  | resume r =>
    let (st,ret) := queueReturn x.st r
    x.record r.operate (st,some ret)

/-- A control block is taken from the free ones, a task that times out waits for a bounded time, and a task that returns was
resumed. -/
def Pre (s : QueueState) : QueueCall → Prop
  | create .. => s.queueCB.queueState = false
  | expire w _ => (w ∈ s.queueCB.readList ∨ w ∈ s.queueCB.writeList) ∧ w.ticks ≠ LOS_WAIT_FOREVER
  | resume r => r ∈ s.resumed
  | readCopy .. | writeHeadCopy .. | writeCopy .. | delete .. => True

instance (s : QueueState) (w : QueueWaiter) (ops : SchedOps) : Decidable ((expire w ops).Pre s) := inferInstanceAs (Decidable (_ ∧ _))

instance (s : QueueState) (r : Resumed) : Decidable ((resume r).Pre s) := inferInstanceAs (Decidable (_ ∈ _))

/-- The condition: no deadline task times out. -/
def Ok : QueueCall → Prop
  | expire _ ops => ops = .hpf
  | _ => True

end QueueCall

/-- The tasks that were woken for their read, or for their write, and have not run since. -/
def tokens (resumed : List Resumed) (isRead : Bool) : Nat :=
  resumed.countP fun r => r.timeout = false ∧ r.operate.isRead = isRead

/-- The message in a place of the buffer. -/
def message (queueCB : LosQueueCB) (i : Nat) : List UInt8 :=
  (queueCB.queueHandle i).data.take (queueCB.queueHandle i).msgDataSize

/-- The messages that were written and not read yet. -/
def stored (s : QueueState) : List (List UInt8) :=
  (List.range (s.queueCB.readCnt + tokens s.resumed true)).map fun k =>
    message s.queueCB ((s.queueCB.queueHead + k) % s.queueCB.queueLen)

/-- The buffer holds the messages xs. -/
structure Stores (q : LosQueueCB) (xs : List (List UInt8)) : Prop where
  holds : Ring.Holds q.queueLen (message q) q.queueHead xs
  tail : q.queueTail = (q.queueHead + xs.length) % q.queueLen

/-- The counters, when r reads and w writes were counted that have still to be done. -/
structure Balanced (s : QueueState) (r w : Nat) (xs : List (List UInt8)) : Prop where
  stores : Stores s.queueCB xs
  read : s.queueCB.readCnt + tokens s.resumed true + r = xs.length
  write : s.queueCB.writeCnt + tokens s.resumed false + w + xs.length = s.queueCB.queueLen

structure QueueInv (x : QueueHist) : Prop where
  readers : ∀ w ∈ x.st.queueCB.readList, w.operate.isRead = true
  writers : ∀ w ∈ x.st.queueCB.writeList, w.operate.isRead = false
  idle : x.st.queueCB.queueState = false → x.st.queueCB.readList = [] ∧ x.st.queueCB.writeList = [] ∧ ∀ r ∈ x.st.resumed, r.timeout = true
  live : x.st.queueCB.queueState = true → ∃ xs, Balanced x.st 0 0 xs ∧ DequeRun x.done xs

variable {x : QueueHist} {s : QueueState} {q : LosQueueCB} {xs : List (List UInt8)} {o : Operate} {r w : Nat}

@[simp] theorem osQueueBufferOperate_queueLen (q : LosQueueCB) (o : Operate) : (osQueueBufferOperate q o).1.queueLen = q.queueLen := by
  cases o <;> rfl

@[simp] theorem osQueueBufferOperate_readCnt (q : LosQueueCB) (o : Operate) : (osQueueBufferOperate q o).1.readCnt = q.readCnt := by
  cases o <;> rfl

@[simp] theorem osQueueBufferOperate_writeCnt (q : LosQueueCB) (o : Operate) : (osQueueBufferOperate q o).1.writeCnt = q.writeCnt := by
  cases o <;> rfl

@[simp] theorem osQueueBufferOperate_readList (q : LosQueueCB) (o : Operate) : (osQueueBufferOperate q o).1.readList = q.readList := by
  cases o <;> rfl

@[simp] theorem osQueueBufferOperate_writeList (q : LosQueueCB) (o : Operate) : (osQueueBufferOperate q o).1.writeList = q.writeList := by
  cases o <;> rfl

@[simp] theorem osQueueBufferOperate_queueState (q : LosQueueCB) (o : Operate) :
    (osQueueBufferOperate q o).1.queueState = q.queueState := by
  cases o <;> rfl

private theorem message_storeMessage (q : LosQueueCB) (i : Nat) (m : List UInt8) :
    message (storeMessage q i m) = Function.update (message q) i m := by
  funext j
  by_cases he : j = i
  · subst he
    simp [message, storeMessage]
  · simp [message, storeMessage, Function.update_of_ne he]

/-- A copy is a step of the deque. -/
theorem Stores.operate (h : Stores q xs) (hr : o.isRead = true → xs ≠ []) (hw : o.isRead = false → xs.length < q.queueLen) :
    ∃ ys, DequeStep xs (o,(osQueueBufferOperate q o).2) ys ∧ Stores (osQueueBufferOperate q o).1 ys ∧
      ys.length + (if o.isRead then 1 else 0) = xs.length + (if o.isRead then 0 else 1) := by
  cases o with
  | readHead n =>
    cases xs with
    | nil => exact absurd rfl (hr rfl)
    | cons m ms =>
      obtain ⟨hm,hp⟩ := h.holds.pop
      have hbytes : (osQueueBufferOperate q (.readHead n)).2 = m.take n := by
        rw [← hm, message, List.take_take, Nat.min_def]
        rw [osQueueBufferOperate]
        simp only
        split_ifs with h1 h2 h2
        · rfl
        · omega
        · rw [show n = (q.queueHandle q.queueHead).msgDataSize by omega]
        · rfl
      refine ⟨ms,hbytes ▸ .readHead m ms n,⟨hp,?_⟩,rfl⟩
      exact h.tail.trans (Ring.next_add h.holds.head_lt ms.length).symm
  | writeHead m =>
    have hlt := hw rfl
    refine ⟨m :: xs,.writeHead m xs,⟨?_,?_⟩,rfl⟩
    · rw [osQueueBufferOperate]
      simp only [message_storeMessage]
      exact h.holds.push_front hlt m
    · refine h.tail.trans ?_
      have := Ring.next_add (Ring.pred_lt h.holds.head_lt) xs.length
      rw [Ring.next_pred h.holds.head_lt] at this
      exact this
  | writeTail m =>
    have hlt := hw rfl
    refine ⟨xs ++ [m],.writeTail m xs,⟨?_,?_⟩,by simp [Operate.isRead]⟩
    · rw [osQueueBufferOperate]
      simp only [message_storeMessage]
      rw [h.tail]
      exact h.holds.push hlt m
    · refine Eq.trans (b := Ring.next q.queueLen q.queueTail) rfl ?_
      rw [h.tail, Ring.next_mod (Nat.lt_of_le_of_lt (Nat.zero_le _) h.holds.head_lt), List.length_append]
      rfl

private theorem tokens_append (l : List Resumed) (r : Resumed) (b : Bool) :
    tokens (l ++ [r]) b = tokens l b + if r.timeout = false ∧ r.operate.isRead = b then 1 else 0 := by
  rw [tokens, List.countP_append, List.countP_singleton, tokens]
  congr 1
  simp

private theorem tokens_erase {l : List Resumed} {r : Resumed} (h : r ∈ l) (b : Bool) :
    tokens (l.erase r) b + (if r.timeout = false ∧ r.operate.isRead = b then 1 else 0) = tokens l b := by
  rw [tokens, tokens, (List.perm_cons_erase h).countP_eq, List.countP_cons]
  simp

/-- What the second half of OsQueueOperate does after the copy: a waiter of the other kind is woken, or the other counter grows. -/
private theorem osQueueOperateEnd_cases (s : QueueState) (o : Operate) :
    (∃ v rest, o.isRead = true ∧ s.queueCB.writeList = v :: rest ∧ osQueueOperateEnd s o =
      (⟨{ (osQueueBufferOperate s.queueCB o).1 with writeList := rest },s.resumed ++ [⟨v.task,v.operate,false⟩]⟩,
        (osQueueBufferOperate s.queueCB o).2)) ∨
    (∃ v rest, o.isRead = false ∧ s.queueCB.readList = v :: rest ∧ osQueueOperateEnd s o =
      (⟨{ (osQueueBufferOperate s.queueCB o).1 with readList := rest },s.resumed ++ [⟨v.task,v.operate,false⟩]⟩,
        (osQueueBufferOperate s.queueCB o).2)) ∨
    (o.isRead = true ∧ s.queueCB.writeList = [] ∧ osQueueOperateEnd s o =
      (⟨{ (osQueueBufferOperate s.queueCB o).1 with writeCnt := s.queueCB.writeCnt + 1 },s.resumed⟩,
        (osQueueBufferOperate s.queueCB o).2)) ∨
    (o.isRead = false ∧ s.queueCB.readList = [] ∧ osQueueOperateEnd s o =
      (⟨{ (osQueueBufferOperate s.queueCB o).1 with readCnt := s.queueCB.readCnt + 1 },s.resumed⟩,
        (osQueueBufferOperate s.queueCB o).2)) := by
  rw [osQueueOperateEnd]
  simp only [osQueueBufferOperate_readList, osQueueBufferOperate_writeList]
  cases ho : o.isRead with
  | true =>
    cases hl : s.queueCB.writeList with
    | nil => exact .inr (.inr (.inl ⟨rfl,rfl,by rw [osQueueBufferOperate_writeCnt]⟩))
    | cons v rest => exact .inl ⟨v,rest,rfl,rfl,rfl⟩
  | false =>
    cases hl : s.queueCB.readList with
    | nil => exact .inr (.inr (.inr ⟨rfl,rfl,by rw [osQueueBufferOperate_readCnt]⟩))
    | cons v rest => exact .inr (.inl ⟨v,rest,rfl,rfl,rfl⟩)

/-- A counted operation is done: a step of the deque, after which the counters are balanced again. -/
private theorem QueueInv.operateEnd (hr : ∀ v ∈ s.queueCB.readList, v.operate.isRead = true)
    (hw : ∀ v ∈ s.queueCB.writeList, v.operate.isRead = false) (hlive : s.queueCB.queueState = true)
    (h : Balanced s (if o.isRead then 1 else 0) (if o.isRead then 0 else 1) xs) {done : List (Operate × List UInt8)}
    (hd : DequeRun done xs) : QueueInv ⟨(osQueueOperateEnd s o).1,done ++ [(o,(osQueueOperateEnd s o).2)]⟩ := by
  obtain ⟨hs,hread,hwrite⟩ := h
  obtain ⟨ys,hstep,hys,hlen⟩ := hs.operate (o := o)
    (by intro he hnil; rw [he, hnil] at hread; simp at hread) (by intro he; simp only [he] at hwrite; simp at hwrite; omega)
  have hrun : DequeRun (done ++ [(o,(osQueueBufferOperate s.queueCB o).2)]) ys := .snoc hd hstep
  have hst := osQueueBufferOperate_queueState s.queueCB o
  rcases osQueueOperateEnd_cases s o with ⟨v,rest,ho,hl,he⟩ | ⟨v,rest,ho,hl,he⟩ | ⟨ho,hl,he⟩ | ⟨ho,hl,he⟩
  all_goals
    rw [he]
    simp only [ho, if_true, Bool.false_eq_true, if_false, Nat.add_zero] at hread hwrite hlen
    refine ⟨?_,?_,fun hc => absurd (hst.symm.trans hc) (by rw [hlive]; decide),fun _ => ⟨ys,⟨⟨hys.holds,hys.tail⟩,?_,?_⟩,hrun⟩⟩
    all_goals simp only [tokens_append, osQueueBufferOperate_readList, osQueueBufferOperate_writeList, osQueueBufferOperate_readCnt,
      osQueueBufferOperate_writeCnt, osQueueBufferOperate_queueLen]
  · exact hr
  · exact fun u hu => hw u (hl ▸ List.mem_cons_of_mem v hu)
  · simp [hw v (hl ▸ List.mem_cons_self)]
    omega
  · simp [hw v (hl ▸ List.mem_cons_self)]
    omega
  · exact fun u hu => hr u (hl ▸ List.mem_cons_of_mem v hu)
  · exact hw
  · simp [hr v (hl ▸ List.mem_cons_self)]
    omega
  · simp [hr v (hl ▸ List.mem_cons_self)]
    omega
  · exact hr
  · exact hw
  · omega
  · omega
  · exact hr
  · exact hw
  · omega
  · omega

/-- A waiter leaves or joins the lists, or a task with no claim on the queue is resumed or returns: the messages stay. -/
theorem QueueInv.keep (hx : QueueInv x) {rl wl : List QueueWaiter} {resumed : List Resumed}
    (hr : ∀ v ∈ rl, v.operate.isRead = true) (hw : ∀ v ∈ wl, v.operate.isRead = false)
    (hidle : x.st.queueCB.queueState = false → rl = [] ∧ wl = [] ∧ ∀ r ∈ resumed, r.timeout = true)
    (ht : ∀ b, tokens resumed b = tokens x.st.resumed b) :
    QueueInv { x with st := ⟨{ x.st.queueCB with readList := rl, writeList := wl },resumed⟩ } := by
  refine ⟨hr,hw,hidle,fun hlive => ?_⟩
  obtain ⟨xs,hb,hd⟩ := hx.live hlive
  refine ⟨xs,⟨⟨hb.stores.holds,hb.stores.tail⟩,?_,?_⟩,hd⟩
  · simp only [ht]
    exact hb.read
  · simp only [ht]
    exact hb.write

/-- What OsQueueOperate does: it returns an error; the task waits; or the operation is counted and done. -/
private theorem osQueueOperate_cases (s : QueueState) (p : Bool) (t id : Nat) (o : Operate) (n : Nat) :
    (∃ ret, ret ≠ .ok ∧ osQueueOperate s p t id o n = (s,some (ret,[]))) ∨
    (s.queueCB.queueState = true ∧ o.isRead = true ∧ osQueueOperate s p t id o n =
      ({ s with queueCB := { s.queueCB with readList := s.queueCB.readList ++ [⟨⟨t,n⟩,o⟩] } },none)) ∨
    (s.queueCB.queueState = true ∧ o.isRead = false ∧ osQueueOperate s p t id o n =
      ({ s with queueCB := { s.queueCB with writeList := s.queueCB.writeList ++ [⟨⟨t,n⟩,o⟩] } },none)) ∨
    (s.queueCB.queueState = true ∧ ∃ q, osQueueOperate s p t id o n =
        ((osQueueOperateEnd { s with queueCB := q } o).1,some (.ok,(osQueueOperateEnd { s with queueCB := q } o).2)) ∧
      (o.isRead = true ∧ 0 < s.queueCB.readCnt ∧ q = { s.queueCB with readCnt := s.queueCB.readCnt - 1 } ∨
        o.isRead = false ∧ 0 < s.queueCB.writeCnt ∧ q = { s.queueCB with writeCnt := s.queueCB.writeCnt - 1 })) := by
  have hlive : osQueueOperateParamCheck s.queueCB id o = .ok → s.queueCB.queueState = true := by
    rw [osQueueOperateParamCheck.eq_def]
    split_ifs with h1
    · exact nofun
    · rw [not_or, Bool.not_eq_false] at h1
      exact fun _ => h1.2
  rw [osQueueOperate]
  simp only
  split_ifs with h1 ho h2 h3 h4 h2 h3 h4
  · exact .inl ⟨_,h1,rfl⟩
  · exact .inl ⟨_,by decide,rfl⟩
  · exact .inl ⟨_,by decide,rfl⟩
  · exact .inr (.inl ⟨hlive (not_not.mp h1),ho,rfl⟩)
  · exact .inr (.inr (.inr ⟨hlive (not_not.mp h1),_,rfl,.inl ⟨ho,Nat.pos_of_ne_zero h2,rfl⟩⟩))
  · exact .inl ⟨_,by decide,rfl⟩
  · exact .inl ⟨_,by decide,rfl⟩
  · exact .inr (.inr (.inl ⟨hlive (not_not.mp h1),Bool.eq_false_iff.mpr ho,rfl⟩))
  · exact .inr (.inr (.inr ⟨hlive (not_not.mp h1),_,rfl,.inr ⟨Bool.eq_false_iff.mpr ho,Nat.pos_of_ne_zero h2,rfl⟩⟩))

/-- A call of OsQueueOperate. -/
theorem QueueInv.operate (hx : QueueInv x) (p : Bool) (t id : Nat) (o : Operate) (n : Nat) :
    QueueInv (x.record o (osQueueOperate x.st p t id o n)) := by
  rcases osQueueOperate_cases x.st p t id o n with ⟨ret,hret,he⟩ | ⟨hlive,ho,he⟩ | ⟨hlive,ho,he⟩ | ⟨hlive,q,he,hq⟩
  · rw [he]
    cases ret <;> first | exact hx | exact absurd rfl hret
  · rw [he]
    refine hx.keep (fun v hv => ?_) hx.writers (fun hc => absurd (hlive.symm.trans hc) (by decide)) fun _ => rfl
    rcases List.mem_append.mp hv with hv | hv
    · exact hx.readers v hv
    · rw [List.mem_singleton.mp hv]
      exact ho
  · rw [he]
    refine hx.keep hx.readers (fun v hv => ?_) (fun hc => absurd (hlive.symm.trans hc) (by decide)) fun _ => rfl
    rcases List.mem_append.mp hv with hv | hv
    · exact hx.writers v hv
    · rw [List.mem_singleton.mp hv]
      exact ho
  · rw [he]
    obtain ⟨xs,hb,hd⟩ := hx.live hlive
    obtain ⟨hs,hread,hwrite⟩ := hb
    rw [QueueHist.record]
    rcases hq with ⟨ho,hpos,rfl⟩ | ⟨ho,hpos,rfl⟩
    · refine QueueInv.operateEnd ?_ ?_ ?_ ?_ hd
      · exact hx.readers
      · exact hx.writers
      · exact hlive
      refine ⟨⟨hs.holds,hs.tail⟩,?_,?_⟩
      · simp only [ho, if_true]
        omega
      · simp only [ho, if_true]
        exact hwrite
    · refine QueueInv.operateEnd ?_ ?_ ?_ ?_ hd
      · exact hx.readers
      · exact hx.writers
      · exact hlive
      refine ⟨⟨hs.holds,hs.tail⟩,?_,?_⟩
      · simp only [ho, Bool.false_eq_true, if_false]
        exact hread
      · simp only [ho, Bool.false_eq_true, if_false]
        omega

theorem QueueInv.write (hx : QueueInv x) (mk : List UInt8 → Operate) (ctx : PendContext) (t id : Nat) (b : Option (List UInt8)) (n : Nat) :
    QueueInv (x.record (mk (b.getD [])) (queueWrite mk x.st ctx t id b n)) := by
  cases b with
  | none => exact hx
  | some buffer =>
    rw [queueWrite]
    split_ifs with h1 h2
    · exact hx
    · exact hx
    · exact hx.operate ..

theorem QueueInv.create (hx : QueueInv x) (hfree : x.st.queueCB.queueState = false) (len maxMsgSize : Nat)
    (queue : Option (Nat → QueueNode)) : QueueInv (QueueCall.run x (.create len maxMsgSize queue)) := by
  rw [QueueCall.run, losQueueCreate.eq_def]
  split_ifs with h1 h2
  · exact hx
  · exact hx
  · cases queue with
    | none => exact hx
    | some queue =>
      have hpos : 0 < len := Nat.pos_of_ne_zero fun hc => h2 (.inl hc)
      have hzero : ∀ b, tokens x.st.resumed b = 0 := by
        intro b
        refine List.countP_eq_zero.mpr fun r hr => ?_
        simp [(hx.idle hfree).2.2 r hr]
      refine ⟨nofun,nofun,nofun,fun _ => ⟨[],⟨⟨Ring.holds_nil hpos _,?_⟩,?_,?_⟩,.nil⟩⟩
      · exact (Nat.zero_mod len).symm
      · simp only [hzero]
        rfl
      · simp only [hzero]
        rfl

/-- What LOS_QueueDelete does: nothing, with an error; or the queue is gone, which nobody uses. -/
private theorem losQueueDelete_cases (s : QueueState) (id : Nat) :
    (∃ ret, ret ≠ .ok ∧ losQueueDelete s id = (s,ret)) ∨
    (s.queueCB.queueState = true ∧ s.queueCB.readList = [] ∧ s.queueCB.writeList = [] ∧
      s.queueCB.writeCnt + s.queueCB.readCnt = s.queueCB.queueLen ∧
      ∃ newID, losQueueDelete s id = ({ s with queueCB := { s.queueCB with queueState := false, queueID := newID } },.ok)) := by
  rw [losQueueDelete]
  simp only
  split_ifs with h1 h2 h3 h4
  · exact .inl ⟨_,by decide,rfl⟩
  · exact .inl ⟨_,by decide,rfl⟩
  · exact .inl ⟨_,by decide,rfl⟩
  · exact .inl ⟨_,by decide,rfl⟩
  · rw [not_or, Bool.not_eq_false] at h1
    exact .inr ⟨h1.2,not_not.mp h2,not_not.mp h3,not_not.mp h4,_,rfl⟩

/-- Where the counters add up, no task that left the lists has still to do its copy. -/
private theorem QueueInv.no_tokens (hx : QueueInv x) (hlive : x.st.queueCB.queueState = true)
    (hsum : x.st.queueCB.writeCnt + x.st.queueCB.readCnt = x.st.queueCB.queueLen) : ∀ r ∈ x.st.resumed, r.timeout = true := by
  obtain ⟨xs,⟨-,hread,hwrite⟩,-⟩ := hx.live hlive
  intro r hr
  cases hb : r.timeout with
  | true => rfl
  | false =>
    have h0 : tokens x.st.resumed r.operate.isRead = 0 := by
      cases r.operate.isRead <;> omega
    have := List.countP_eq_zero.mp h0 r hr
    simp [hb] at this

theorem QueueInv.delete (hx : QueueInv x) (id : Nat) : QueueInv { x with st := (losQueueDelete x.st id).1 } := by
  rcases losQueueDelete_cases x.st id with ⟨ret,-,he⟩ | ⟨hlive,hr,hw,hsum,newID,he⟩
  · rw [he]
    exact hx
  · rw [he]
    exact ⟨hx.readers,hx.writers,fun _ => ⟨hr,hw,hx.no_tokens hlive hsum⟩,nofun⟩

theorem QueueInv.expire (hx : QueueInv x) {v : QueueWaiter} (hv : v ∈ x.st.queueCB.readList ∨ v ∈ x.st.queueCB.writeList) :
    QueueInv { x with st := queueTimeout x.st v .hpf } := by
  have hlive : x.st.queueCB.queueState ≠ false := by
    intro hc
    obtain ⟨hr,hw,-⟩ := hx.idle hc
    rw [hr, hw] at hv
    rcases hv with hv | hv <;> cases hv
  have ht : ∀ b, tokens (x.st.resumed ++ [⟨v.task,v.operate,true⟩]) b = tokens x.st.resumed b := by
    intro b
    rw [tokens_append]
    simp
  rw [queueTimeout]
  split_ifs with ho
  · exact hx.keep (fun u hu => hx.readers u (List.mem_of_mem_erase hu)) hx.writers (fun hc => absurd hc hlive) ht
  · exact hx.keep hx.readers (fun u hu => hx.writers u (List.mem_of_mem_erase hu)) (fun hc => absurd hc hlive) ht

theorem QueueInv.resume (hx : QueueInv x) {r : Resumed} (hr : r ∈ x.st.resumed) : QueueInv (QueueCall.run x (.resume r)) := by
  rw [QueueCall.run, queueReturn]
  cases hb : r.timeout with
  | true =>
    refine hx.keep hx.readers hx.writers (fun hc => ?_) fun b => ?_
    · obtain ⟨h1,h2,h3⟩ := hx.idle hc
      exact ⟨h1,h2,fun u hu => h3 u (List.mem_of_mem_erase hu)⟩
    · have := tokens_erase hr b
      rw [hb] at this
      simpa using this
  | false =>
    have hlive : x.st.queueCB.queueState = true := by
      cases hq : x.st.queueCB.queueState with
      | true => rfl
      | false => exact absurd (hb.symm.trans ((hx.idle hq).2.2 r hr)) (by decide)
    obtain ⟨xs,⟨hs,hread,hwrite⟩,hd⟩ := hx.live hlive
    have hrt := tokens_erase hr true
    have hwt := tokens_erase hr false
    simp only [Bool.false_eq_true, if_false, QueueHist.record]
    refine QueueInv.operateEnd ?_ ?_ ?_ ?_ hd
    · exact hx.readers
    · exact hx.writers
    · exact hlive
    refine ⟨⟨hs.holds,hs.tail⟩,?_,?_⟩
    · cases ho : r.operate.isRead <;> simp [hb, ho] at hrt hwt ⊢ <;> omega
    · cases ho : r.operate.isRead <;> simp [hb, ho] at hrt hwt ⊢ <;> omega

theorem QueueCall.run_inv (c : QueueCall) (hx : QueueInv x) (hp : c.Pre x.st) (hok : c.Ok) : QueueInv (c.run x) := by
  cases c with
  | create len maxMsgSize queue => exact hx.create hp ..
  | readCopy ctx t id b size n =>
    rw [run, losQueueReadCopy]
    split_ifs with h1 h2 h3
    · exact hx
    · exact hx
    · exact hx
    · exact hx.operate ..
  | writeHeadCopy ctx t id b n => exact hx.write ..
  | writeCopy ctx t id b n => exact hx.write ..
  | delete id => exact hx.delete id
  | expire v ops =>
    rw [run, hok]
    exact hx.expire hp.1
  | resume r => exact hx.resume hp

/-- The law of a queue in use: the operations that completed are a run of the deque that ends with the stored messages, these
are no more than queueLen, the counters and the tasks with a token add up to queueLen, and the queue is deleted only when no
task waits and none has still to do its copy. -/
structure QueueLaw (x : QueueHist) : Prop where
  deque : x.st.queueCB.queueState = true → DequeRun x.done (stored x.st)
  bounded : x.st.queueCB.queueState = true → (stored x.st).length ≤ x.st.queueCB.queueLen
  balance : x.st.queueCB.queueState = true →
    x.st.queueCB.readCnt + x.st.queueCB.writeCnt + (tokens x.st.resumed true + tokens x.st.resumed false) = x.st.queueCB.queueLen
  deletes : ∀ id, (losQueueDelete x.st id).2 = .ok →
    x.st.queueCB.readList = [] ∧ x.st.queueCB.writeList = [] ∧ ∀ r ∈ x.st.resumed, r.timeout = true

private theorem Balanced.stored_eq (h : Balanced s 0 0 xs) : stored s = xs := by
  have hlen : (stored s).length = xs.length := by
    rw [stored, List.length_map, List.length_range]
    exact h.read
  refine List.ext_getElem hlen fun k h1 h2 => ?_
  simp only [stored, List.getElem_map, List.getElem_range]
  exact h.stores.holds.get k h2

theorem QueueInv.law (hx : QueueInv x) : QueueLaw x := by
  refine ⟨fun hlive => ?_,fun hlive => ?_,fun hlive => ?_,fun id hd => ?_⟩
  · obtain ⟨xs,hb,hd⟩ := hx.live hlive
    rw [hb.stored_eq]
    exact hd
  · obtain ⟨xs,hb,-⟩ := hx.live hlive
    rw [hb.stored_eq]
    exact hb.stores.holds.length_le
  · obtain ⟨xs,⟨-,hread,hwrite⟩,-⟩ := hx.live hlive
    omega
  · rcases losQueueDelete_cases x.st id with ⟨ret,hret,he⟩ | ⟨hlive,hr,hw,hsum,-⟩
    · rw [he] at hd
      exact absurd hd hret
    · exact ⟨hr,hw,hx.no_tokens hlive hsum⟩

/-- A control block that is not in use. -/
def queueInit (queueID : Nat) : QueueHist := ⟨⟨⟨fun _ => ⟨[],0⟩,false,0,0,queueID,0,0,0,0,[],[]⟩,[]⟩,[]⟩

/-- The calls on a free control block. -/
def queueSystem : Run.System QueueHist QueueCall where
  init x := ∃ queueID, x = queueInit queueID
  pre x c := c.Pre x.st
  run x c := c.run x

abbrev QueueReachable (ok : QueueCall → Prop) := Run.Reachable queueSystem fun _ c => ok c

instance (x : QueueHist) (w : QueueWaiter) (ops : SchedOps) : Decidable (queueSystem.pre x (.expire w ops)) :=
  inferInstanceAs (Decidable (QueueCall.Pre x.st (.expire w ops)))

instance (x : QueueHist) (r : Resumed) : Decidable (queueSystem.pre x (.resume r)) := inferInstanceAs (Decidable (QueueCall.Pre x.st (.resume r)))

private theorem queue_init {ok : QueueCall → Prop} (queueID : Nat) : QueueReachable ok (queueInit queueID) := .init ⟨queueID,rfl⟩

private theorem queueInv_init (queueID : Nat) : QueueInv (queueInit queueID) := ⟨nofun,nofun,fun _ => ⟨rfl,rfl,nofun⟩,nofun⟩

private theorem queueInv_of_reachable (h : QueueReachable QueueCall.Ok x) : QueueInv x :=
  h.invariant (fun _ ⟨queueID,hx⟩ => hx ▸ queueInv_init queueID) fun _ c hx hp hok => c.run_inv hx hp hok

/-- A queue is a bounded deque along every run in which no deadline task times out. -/
theorem queueLaw_of_reachable (x : QueueHist) (h : QueueReachable QueueCall.Ok x) : QueueLaw x :=
  (queueInv_of_reachable h).law

/-- The memory of a new queue. -/
def queueMemory : Nat → QueueNode := fun _ => ⟨[0,0,0,0],0⟩

def queueContext : PendContext := ⟨false,false,true⟩

/-- A reader waits at the empty queue, is woken by a write and takes the message, cut to its buffer. -/
theorem queueLaw_reader_woken : ∃ x, QueueReachable QueueCall.Ok x ∧ x.st.queueCB.queueState = true ∧
    x.done = [(.writeTail [1,2,3],[]),(.readHead 2,[1,2])] ∧ QueueLaw x := by
  have h1 : QueueReachable QueueCall.Ok _ := (queue_init 0).call (.create 1 4 (some queueMemory)) rfl trivial
  have h2 : QueueReachable QueueCall.Ok _ := .call h1 (.readCopy queueContext 1 0 true 2 LOS_WAIT_FOREVER) trivial trivial
  have h3 : QueueReachable QueueCall.Ok _ := .call h2 (.writeCopy queueContext 2 0 (some [1,2,3]) LOS_NO_WAIT) trivial trivial
  have h4 : QueueReachable QueueCall.Ok _ := .call h3 (.resume ⟨1,.readHead 2,false⟩) (by decide +kernel) trivial
  exact ⟨_,h4,by decide +kernel,by decide +kernel,queueLaw_of_reachable _ h4⟩

/-- A deadline task whose read of an empty queue times out goes on to read, and returns with LOS_OK. -/
theorem queueLaw_fails_deadline_task : ¬ ∀ x, QueueReachable (fun _ => True) x → QueueLaw x := by
  intro hall
  have h1 : QueueReachable (fun _ => True) _ := (queue_init 0).call (.create 1 4 (some queueMemory)) rfl trivial
  have h2 : QueueReachable (fun _ => True) _ := .call h1 (.readCopy queueContext 1 0 true 2 10) trivial trivial
  have h3 : QueueReachable (fun _ => True) _ := .call h2 (.expire ⟨⟨1,10⟩,.readHead 2⟩ .edf) (by decide +kernel) trivial
  have h4 : QueueReachable (fun _ => True) _ := .call h3 (.resume ⟨1,.readHead 2,false⟩) (by decide +kernel) trivial
  have hc := (hall _ h4).balance (by decide +kernel)
  exact absurd hc (by decide +kernel)

end LiteOsKernel.Ipc.Queue
