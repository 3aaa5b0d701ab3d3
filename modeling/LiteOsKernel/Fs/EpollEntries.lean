import LiteOsKernel.Fs.Epoll

/-! What the operations of epoll_ctl do to the entries of an instance. -/
namespace LiteOsKernel.Epoll
open LiteOsKernel.Bytes

variable {h : EpollHead} {evs : Nat → UInt8} {fd : Fd} {events : Events} {i j : Nat}
  {memmoveS : Nat → List UInt8 → Int × List UInt8}

/-- The descriptor and the events at a place of the array. -/
def entryOf (evs : Nat → UInt8) (i : Nat) : Fd × Events :=
  (BitVec.ofNat 32 (get32 evs (EPOLL_EVENT_SIZE * i + 8)),BitVec.ofNat 32 (get32 evs (EPOLL_EVENT_SIZE * i)))

/-- The entries of an instance. -/
def entries (h : EpollHead) : List (Fd × Events) := (List.range h.nodeCount).map (entryOf h.evs)

theorem length_entries (h : EpollHead) : (entries h).length = h.nodeCount := by
  rw [entries, List.length_map, List.length_range]

theorem entryOf_fst (h : EpollHead) (i : Nat) : (entryOf h.evs i).1 = h.fd i := rfl

/-- An entry is made of the bytes of its structure. -/
private theorem entryOf_congr {evs' : Nat → UInt8} (he : ∀ a < EPOLL_EVENT_SIZE, evs' (EPOLL_EVENT_SIZE * j + a) = evs (EPOLL_EVENT_SIZE * i + a)) :
    entryOf evs' j = entryOf evs i := by
  rw [EPOLL_EVENT_SIZE] at he
  have hevents : get32 evs' (16 * j) = get32 evs (16 * i) := get32_of_bytes fun t ht => he t (by omega)
  have hfd : get32 evs' (16 * j + 8) = get32 evs (16 * i + 8) := by
    refine get32_of_bytes fun t ht => ?_
    rw [Nat.add_assoc, Nat.add_assoc]
    exact he (8 + t) (by omega)
  rw [entryOf, entryOf, EPOLL_EVENT_SIZE, hevents, hfd]

theorem entryOf_setEvents (h : EpollHead) (i : Nat) (events : Events) (j : Nat) :
    entryOf (h.setEvents i events).evs j = if j = i then (h.fd i,events) else entryOf h.evs j := by
  split_ifs with hj
  · subst hj
    rw [EpollHead.setEvents, entryOf, get32_set32 events.isLt, get32_set32_of_disjoint (by omega), BitVec.ofNat_toNat, BitVec.setWidth_eq]
    rfl
  · refine entryOf_congr fun a ha => set32_of_outside ?_ _
    rw [EPOLL_EVENT_SIZE] at *
    omega

private theorem entryOf_setFd (h : EpollHead) (i : Nat) (fd : Fd) (j : Nat) :
    entryOf (h.setFd i fd).evs j = if j = i then (fd,h.events i) else entryOf h.evs j := by
  split_ifs with hj
  · subst hj
    rw [EpollHead.setFd, entryOf, get32_set32 fd.isLt, get32_set32_of_disjoint (by omega), BitVec.ofNat_toNat, BitVec.setWidth_eq]
    rfl
  · refine entryOf_congr fun a ha => set32_of_outside ?_ _
    rw [EPOLL_EVENT_SIZE] at *
    omega

/-- A new entry goes behind the others. -/
theorem entries_add (h : EpollHead) (fd : Fd) (events : Events) :
    entries { (h.setEvents h.nodeCount events).setFd h.nodeCount fd with nodeCount := h.nodeCount + 1 } = entries h ++ [(fd,events)] := by
  have hentry : ∀ j, entryOf ((h.setEvents h.nodeCount events).setFd h.nodeCount fd).evs j =
      if j = h.nodeCount then (fd,events) else entryOf h.evs j := by
    intro j
    rw [entryOf_setFd, entryOf_setEvents]
    split_ifs with hj
    · have hsame := entryOf_setEvents h h.nodeCount events h.nodeCount
      rw [if_pos rfl] at hsame
      exact congrArg _ (congrArg Prod.snd hsame)
    · rfl
  rw [entries, entries, List.range_succ, List.map_append, List.map_singleton, hentry, if_pos rfl]
  congr 1
  refine List.map_congr_left fun j hj => ?_
  rw [hentry, if_neg (Nat.ne_of_lt (List.mem_range.mp hj))]

/-- The entries without the one at i. -/
def without (h : EpollHead) (i : Nat) : List (Fd × Events) :=
  (List.range i).map (entryOf h.evs) ++ (List.range' (i + 1) (h.nodeCount - 1 - i)).map (entryOf h.evs)

theorem entries_eq (hi : i < h.nodeCount) :
    entries h = (List.range i).map (entryOf h.evs) ++
      entryOf h.evs i :: (List.range' (i + 1) (h.nodeCount - 1 - i)).map (entryOf h.evs) := by
  have hn : h.nodeCount = i + (h.nodeCount - 1 - i + 1) := by omega
  conv_lhs => rw [entries, hn]
  rw [List.range_eq_range', ← List.range'_append_1, List.map_append, Nat.zero_add, List.range'_succ, List.map_cons, List.range_eq_range']

/-- The last entry is the one that goes. -/
theorem entries_delete_last (hi : i + 1 = h.nodeCount) : entries { h with nodeCount := h.nodeCount - 1 } = without h i := by
  rw [entries, without, ← hi, Nat.add_sub_cancel, Nat.sub_self]
  exact (List.append_nil _).symm

/-- The structure at j, with the first r bytes of the next one. -/
def mixed (evs : Nat → UInt8) (j r : Nat) : Nat → UInt8 := fun a =>
  if a < r then evs (EPOLL_EVENT_SIZE * (j + 1) + a) else evs (EPOLL_EVENT_SIZE * j + a)

/-- The place of the structure that is moved in part, when as many bytes as there are entries from i on are moved. -/
def torn (h : EpollHead) (i : Nat) : Nat := i + (h.nodeCount - i) / EPOLL_EVENT_SIZE

/-- The entry that is left at the torn place. -/
def tornEntry (h : EpollHead) (i : Nat) : Fd × Events :=
  entryOf (mixed h.evs (torn h i) ((h.nodeCount - i) % EPOLL_EVENT_SIZE)) 0

private theorem torn_lt (hi : i + 1 < h.nodeCount) : torn h i + 1 < h.nodeCount := by
  rw [torn, EPOLL_EVENT_SIZE]
  omega

/-- The bytes after the call of memmove_s. -/
private theorem moveDown_evs (hm : Copies memmoveS EPOLL_DEFAULT_SIZE) (hn : h.nodeCount ≤ EPOLL_DEFAULT_SIZE) (hi : i < h.nodeCount) (a : Nat) :
    (moveDown memmoveS h i).evs a =
      if EPOLL_EVENT_SIZE * i ≤ a ∧ a < EPOLL_EVENT_SIZE * i + (h.nodeCount - i) then
        h.evs (EPOLL_EVENT_SIZE * (i + 1) + (a - EPOLL_EVENT_SIZE * i)) else h.evs a := by
  have hcopy := hm (h.nodeCount - i) (bytes h.evs (EPOLL_EVENT_SIZE * (i + 1)) (h.nodeCount - i)) (by omega)
    (by rw [length_bytes]; omega) (Nat.le_of_eq (length_bytes ..))
  rw [moveDown, hcopy]
  exact store_bytes a

/-- What the call of memmove_s leaves at a place: entries that have moved, the torn one, and entries that have stayed. -/
private theorem entryOf_moveDown (hm : Copies memmoveS EPOLL_DEFAULT_SIZE) (hn : h.nodeCount ≤ EPOLL_DEFAULT_SIZE) (hi : i < h.nodeCount) (j : Nat) :
    entryOf (moveDown memmoveS h i).evs j =
      if j < i then entryOf h.evs j
      else if j < torn h i then entryOf h.evs (j + 1)
      else if j = torn h i then tornEntry h i
      else entryOf h.evs j := by
  have hq := Nat.div_add_mod (h.nodeCount - i) EPOLL_EVENT_SIZE
  have hr := Nat.mod_lt (h.nodeCount - i) (show 0 < EPOLL_EVENT_SIZE by decide)
  have hlow : ∀ j a, j < i → a < EPOLL_EVENT_SIZE → EPOLL_EVENT_SIZE * j + a < EPOLL_EVENT_SIZE * i := by
    intro j a hj ha
    rw [EPOLL_EVENT_SIZE] at *
    omega
  rw [tornEntry, torn]
  split_ifs with h1 h2 h3
  · refine entryOf_congr fun a ha => ?_
    rw [moveDown_evs hm hn hi, if_neg fun hc => Nat.not_le.mpr (hlow j a h1 ha) hc.1]
  · refine entryOf_congr fun a ha => ?_
    rw [EPOLL_EVENT_SIZE] at *
    rw [moveDown_evs hm hn hi, if_pos (by rw [EPOLL_EVENT_SIZE]; omega), EPOLL_EVENT_SIZE]
    congr 1
    omega
  · subst h3
    refine entryOf_congr fun a ha => ?_
    rw [moveDown_evs hm hn hi, mixed, Nat.mul_zero, Nat.zero_add]
    rw [EPOLL_EVENT_SIZE] at *
    by_cases hmoved : a < (h.nodeCount - i) % 16
    · rw [if_pos (by omega), if_pos hmoved]
      congr 1
      omega
    · rw [if_neg (by omega), if_neg hmoved]
  · refine entryOf_congr fun a ha => ?_
    rw [moveDown_evs hm hn hi, if_neg]
    rw [EPOLL_EVENT_SIZE] at *
    omega

/-- A deletion before the last entry leaves the right entries iff the torn one is the last. -/
theorem entries_delete_middle (hm : Copies memmoveS EPOLL_DEFAULT_SIZE) (hn : h.nodeCount ≤ EPOLL_DEFAULT_SIZE) (hi : i + 1 < h.nodeCount) :
    (entries { moveDown memmoveS h i with nodeCount := h.nodeCount - 1 }).Perm (without h i) ↔
      tornEntry h i = entryOf h.evs (h.nodeCount - 1) := by
  have htorn := torn_lt hi
  have hle : i ≤ torn h i := Nat.le_add_right ..
  obtain ⟨q,hq⟩ := Nat.exists_eq_add_of_le hle
  obtain ⟨c,hc⟩ := Nat.exists_eq_add_of_lt (show torn h i < h.nodeCount - 1 by omega)
  have hmove := entryOf_moveDown hm hn (show i < h.nodeCount by omega)
  -- the places before i, those that get the next entry, the torn one, and the rest
  have hafter : entries { moveDown memmoveS h i with nodeCount := h.nodeCount - 1 } =
      (List.range i).map (entryOf h.evs) ++ ((List.range' (i + 1) q).map (entryOf h.evs) ++
        ([tornEntry h i] ++ (List.range' (torn h i + 1) c).map (entryOf h.evs))) := by
    have hcount : h.nodeCount - 1 = i + (q + (1 + c)) := by omega
    rw [entries]
    simp only [hcount]
    rw [List.range_eq_range', ← List.range'_append_1, ← List.range'_append_1, ← List.range'_append_1, List.map_append, List.map_append,
      List.map_append, Nat.zero_add, ← hq]
    congr 1
    · rw [List.range_eq_range']
      refine List.map_congr_left fun j hj => ?_
      rw [hmove, if_pos (by have := (List.mem_range'_1.mp hj).2; omega)]
    · congr 1
      · refine List.ext_getElem (by simp) fun n h1 h2 => ?_
        simp only [List.length_map, List.length_range'] at h1
        simp only [List.getElem_map, List.getElem_range', Nat.one_mul]
        rw [hmove, if_neg (by omega), if_pos (by omega), Nat.add_right_comm]
      · congr 1
        · rw [List.range'_one, List.map_singleton, hmove, if_neg (by omega), if_neg (Nat.lt_irrefl _), if_pos rfl]
        · refine List.map_congr_left fun j hj => ?_
          have hj := (List.mem_range'_1.mp hj).1
          rw [hmove, if_neg (by omega), if_neg (by omega), if_neg (by omega)]
  have hwithout : without h i = (List.range i).map (entryOf h.evs) ++ ((List.range' (i + 1) q).map (entryOf h.evs) ++
      ((List.range' (torn h i + 1) c).map (entryOf h.evs) ++ [entryOf h.evs (h.nodeCount - 1)])) := by
    have hcount : h.nodeCount - 1 - i = q + (c + 1) := by omega
    have hlast : torn h i + 1 + c = h.nodeCount - 1 := by omega
    rw [without, hcount, ← List.range'_append_1, ← List.range'_append_1, List.map_append, List.map_append, List.range'_one, List.map_singleton,
      Nat.add_right_comm i 1 q, ← hq, hlast]
  rw [hafter, hwithout, List.perm_append_left_iff, List.perm_append_left_iff]
  constructor
  · intro hp
    have hp' : ([tornEntry h i] ++ (List.range' (torn h i + 1) c).map (entryOf h.evs)).Perm
        ([entryOf h.evs (h.nodeCount - 1)] ++ (List.range' (torn h i + 1) c).map (entryOf h.evs)) := hp.trans List.perm_append_comm
    rwa [List.perm_append_right_iff, List.singleton_perm_singleton] at hp'
  · intro he
    rw [he]
    exact List.perm_append_comm

end LiteOsKernel.Epoll
