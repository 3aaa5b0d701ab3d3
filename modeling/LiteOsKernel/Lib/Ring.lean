import Mathlib.Data.List.Basic
import Mathlib.Data.Nat.ModEq
import Mathlib.Logic.Function.Basic

/-! Circular buffers: the list that a buffer holds from a head on, and what pushing at either end and popping do to it. -/
namespace LiteOsKernel.Ring

variable {α : Type} {len head i : Nat} {buf : Nat → α} {xs : List α} {x : α}

def next (len i : Nat) : Nat := if i + 1 = len then 0 else i + 1

def pred (len i : Nat) : Nat := if i = 0 then len - 1 else i - 1

private theorem next_lt (h : i < len) : next len i < len := by
  rw [next]
  split_ifs <;> omega

theorem pred_lt (h : i < len) : pred len i < len := by
  rw [pred]
  split_ifs <;> omega

theorem next_eq (h : i < len) : next len i = (i + 1) % len := by
  rw [next]
  split_ifs with he
  · rw [he, Nat.mod_self]
  · rw [Nat.mod_eq_of_lt (by omega)]

theorem next_mod (h : 0 < len) (n : Nat) : next len (n % len) = (n + 1) % len := by
  rw [next_eq (Nat.mod_lt n h), Nat.mod_add_mod]

theorem next_pred (h : i < len) : next len (pred len i) = i := by
  rw [next, pred]
  split_ifs <;> omega

theorem next_add (h : i < len) (n : Nat) : (next len i + n) % len = (i + (n + 1)) % len := by
  rw [next_eq h, Nat.mod_add_mod]
  congr 1
  omega

/-- The places of a buffer are apart. -/
private theorem add_mod_inj {a b : Nat} (ha : a < len) (hb : b < len) (he : (i + a) % len = (i + b) % len) : a = b := by
  have hm : a ≡ b [MOD len] := Nat.ModEq.add_left_cancel' i he
  rw [Nat.ModEq, Nat.mod_eq_of_lt ha, Nat.mod_eq_of_lt hb] at hm
  exact hm

/-- The buffer of len places holds xs from head on. -/
structure Holds (len : Nat) (buf : Nat → α) (head : Nat) (xs : List α) : Prop where
  head_lt : head < len
  length_le : xs.length ≤ len
  get : ∀ k (h : k < xs.length), buf ((head + k) % len) = xs[k]

theorem holds_nil (h : head < len) (buf : Nat → α) : Holds len buf head [] :=
  ⟨h,Nat.zero_le _,nofun⟩

theorem Holds.push (h : Holds len buf head xs) (hlt : xs.length < len) (x : α) :
    Holds len (Function.update buf ((head + xs.length) % len) x) head (xs ++ [x]) := by
  refine ⟨h.head_lt,by rw [List.length_append]; exact hlt,fun k hk => ?_⟩
  by_cases he : k < xs.length
  · rw [List.getElem_append_left he, Function.update_of_ne, h.get k he]
    exact fun hc => absurd (add_mod_inj (he.trans hlt) hlt hc) (Nat.ne_of_lt he)
  · have hk' : k = xs.length := by
      rw [List.length_append, List.length_singleton] at hk
      omega
    subst hk'
    rw [Function.update_self, List.getElem_concat_length rfl]

theorem Holds.push_front (h : Holds len buf head xs) (hlt : xs.length < len) (x : α) :
    Holds len (Function.update buf (pred len head) x) (pred len head) (x :: xs) := by
  have hp := pred_lt h.head_lt
  refine ⟨hp,hlt,fun k hk => ?_⟩
  cases k with
  | zero => rw [Nat.add_zero, Nat.mod_eq_of_lt hp, Function.update_self, List.getElem_cons_zero]
  | succ k =>
    have hk' : k < xs.length := Nat.lt_of_succ_lt_succ hk
    have hadd : (pred len head + (k + 1)) % len = (head + k) % len := by
      rw [← next_add hp, next_pred h.head_lt]
    rw [List.getElem_cons_succ, Function.update_of_ne, hadd, h.get k hk']
    intro hc
    have hz : (pred len head + (k + 1)) % len = (pred len head + 0) % len := by
      rw [hc, Nat.add_zero, Nat.mod_eq_of_lt hp]
    have := add_mod_inj (show k + 1 < len by omega) (by omega) hz
    omega

theorem Holds.pop (h : Holds len buf head (x :: xs)) : buf head = x ∧ Holds len buf (next len head) xs := by
  refine ⟨?_,next_lt h.head_lt,(Nat.le_succ _).trans h.length_le,fun k hk => ?_⟩
  · have := h.get 0 (Nat.succ_pos _)
    rwa [Nat.add_zero, Nat.mod_eq_of_lt h.head_lt] at this
  · rw [next_add h.head_lt, h.get (k + 1) (Nat.succ_lt_succ hk), List.getElem_cons_succ]

/-- The places after the list can be read as part of it. -/
private theorem Holds.extend {n : Nat} (h : Holds len buf head xs) (hn : xs.length + n ≤ len) :
    ∃ ys, ys.length = n ∧ Holds len buf head (xs ++ ys) := by
  refine ⟨(List.range n).map fun k => buf ((head + (xs.length + k)) % len),by simp,h.head_lt,by simp; omega,fun k hk => ?_⟩
  by_cases he : k < xs.length
  · rw [List.getElem_append_left he, h.get k he]
  · rw [List.getElem_append_right (by omega)]
    simp only [List.getElem_map, List.getElem_range]
    congr 3
    omega

theorem Holds.drop {n : Nat} (h : Holds len buf head xs) (hn : n ≤ xs.length) :
    Holds len buf ((head + n) % len) (xs.drop n) := by
  have hpos : 0 < len := Nat.lt_of_le_of_lt (Nat.zero_le _) h.head_lt
  have hle := h.length_le
  refine ⟨Nat.mod_lt _ hpos,by rw [List.length_drop]; omega,fun k hk => ?_⟩
  rw [List.length_drop] at hk
  rw [List.getElem_drop, ← h.get (n + k) (by omega), Nat.mod_add_mod, Nat.add_assoc]

/-- Consecutive cells are overwritten. -/
def put (buf : Nat → α) (off : Nat) (xs : List α) : Nat → α :=
  fun i => if off ≤ i then xs[i - off]?.getD (buf i) else buf i

/-- Consecutive cells are read. -/
def cells (buf : Nat → α) (off n : Nat) : List α := (List.range n).map fun k => buf (off + k)

@[simp] theorem length_cells (buf : Nat → α) (off n : Nat) : (cells buf off n).length = n := by
  simp [cells]

private theorem put_of_outside {off : Nat} (h : i < off ∨ off + xs.length ≤ i) : put buf off xs i = buf i := by
  rw [put]
  split_ifs
  · rw [List.getElem?_eq_none (by omega), Option.getD_none]
  · rfl

private theorem put_add {off k : Nat} (h : k < xs.length) : put buf off xs (off + k) = xs[k] := by
  rw [put, if_pos (Nat.le_add_right _ _), Nat.add_sub_cancel_left, List.getElem?_eq_getElem h, Option.getD_some]

theorem put_nil (buf : Nat → α) (off : Nat) : put buf off [] = buf := by
  funext i
  exact put_of_outside (by simp; omega)

theorem put_append (buf : Nat → α) (off : Nat) (xs ys : List α) :
    put (put buf off xs) (off + xs.length) ys = put buf off (xs ++ ys) := by
  funext i
  by_cases h : i < off + xs.length
  · rw [put_of_outside (.inl h), put, put]
    split_ifs
    · rw [List.getElem?_append_left (by omega)]
    · rfl
  · rw [put, if_pos (not_lt.mp h), put_of_outside (.inr (not_lt.mp h)), put, if_pos (by omega), List.getElem?_append_right (by omega)]
    congr 2
    omega

theorem cells_put (buf : Nat → α) (off : Nat) (xs : List α) : cells (put buf off xs) off xs.length = xs := by
  refine List.ext_getElem (by simp) fun k h1 h2 => ?_
  simp only [cells, List.getElem_map, List.getElem_range]
  exact put_add h2

/-- Cells that do not wrap around are appended to the list. -/
theorem Holds.append_put {off : Nat} {ys : List α} (h : Holds len buf head xs) (hfit : xs.length + ys.length ≤ len)
    (hoff : off = (head + xs.length) % len) (hend : off + ys.length ≤ len) : Holds len (put buf off ys) head (xs ++ ys) := by
  have hplace : ∀ k, k < ys.length → (head + (xs.length + k)) % len = off + k := by
    intro k hk
    rw [← Nat.add_assoc, ← Nat.mod_add_mod, ← hoff, Nat.mod_eq_of_lt (by omega)]
  refine ⟨h.head_lt,by rw [List.length_append]; exact hfit,fun k hk => ?_⟩
  rw [List.length_append] at hk
  by_cases he : k < xs.length
  · rw [List.getElem_append_left he, put_of_outside, h.get k he]
    by_contra hc
    rw [not_or, not_lt, not_le] at hc
    have hin := hplace ((head + k) % len - off) (by omega)
    rw [Nat.add_sub_cancel' hc.1] at hin
    have := add_mod_inj (i := head) (by omega) (by omega) hin
    omega
  · obtain ⟨j,rfl⟩ := Nat.exists_eq_add_of_le (not_lt.mp he)
    rw [hplace j (by omega), put_add (by omega), List.getElem_append_right (Nat.le_add_right _ _)]
    simp

/-- Cells of which only the first are overwritten are appended to the list. -/
theorem Holds.append_piece {off n : Nat} {ys : List α} (h : Holds len buf head xs) (hfit : xs.length + n ≤ len)
    (hoff : off = (head + xs.length) % len) (hend : off + n ≤ len) (hy : ys.length ≤ n) :
    ∃ zs, zs.length = n ∧ (ys.length = n → zs = ys) ∧ Holds len (put buf off ys) head (xs ++ zs) := by
  have hput := h.append_put (show xs.length + ys.length ≤ len by omega) hoff (by omega)
  obtain ⟨zs,hz,hh⟩ := hput.extend (show (xs ++ ys).length + (n - ys.length) ≤ len by rw [List.length_append]; omega)
  refine ⟨ys ++ zs,by rw [List.length_append]; omega,fun he => ?_,by rwa [← List.append_assoc]⟩
  rw [List.eq_nil_of_length_eq_zero (show zs.length = 0 by omega), List.append_nil]

/-- The list is read in one piece, or in two where it wraps around. -/
theorem Holds.cells_eq {n : Nat} (h : Holds len buf head xs) (hn : n ≤ xs.length) (hend : head + n ≤ len) :
    cells buf head n = xs.take n := by
  refine List.ext_getElem (by simp; omega) fun k h1 h2 => ?_
  rw [length_cells] at h1
  simp only [cells, List.getElem_map, List.getElem_range, List.getElem_take]
  rw [← h.get k (by omega)]
  by_cases he : head + k < len
  · rw [Nat.mod_eq_of_lt he]
  · omega

theorem Holds.cells_append {n : Nat} (h : Holds len buf head xs) (hn : n ≤ xs.length) (hend : len ≤ head + n) :
    cells buf head (len - head) ++ cells buf 0 (n - (len - head)) = xs.take n := by
  have hlt := h.head_lt
  have hle := h.length_le
  refine List.ext_getElem (by simp; omega) fun k h1 h2 => ?_
  rw [List.length_take] at h2
  rw [List.getElem_take, ← h.get k (by omega)]
  by_cases he : k < len - head
  · rw [List.getElem_append_left (by simpa using he)]
    simp only [cells, List.getElem_map, List.getElem_range]
    rw [Nat.mod_eq_of_lt (by omega)]
  · rw [List.getElem_append_right (by simpa using not_lt.mp he)]
    simp only [cells, List.getElem_map, List.getElem_range]
    congr 1
    rw [Nat.mod_eq_sub_mod (by omega), Nat.mod_eq_of_lt (by omega)]
    simp
    omega

end LiteOsKernel.Ring
