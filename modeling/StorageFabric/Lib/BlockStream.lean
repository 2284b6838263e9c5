import Mathlib.Data.List.Basic
import Mathlib.Data.List.Induction
import Mathlib.Logic.Function.Iterate

/-!
Block-wise functions on a stream.

A state takes a message in blocks of a fixed size. A stream keeps what does not fill a
block in a buffer and hands the buffer on when it is full. However the message arrives,
the state is that after its whole blocks, and the buffer holds the rest.
-/

namespace BlockStream

variable {σ α : Type}

def block (size : Nat) (m : List α) (i : Nat) : List α := (m.drop (size * i)).take size

def absorb (size : Nat) (f : σ → List α → σ) (s : σ) (m : List α) : σ :=
  (List.range (m.length / size)).foldl (fun s i => f s (block size m i)) s

def rest (size : Nat) (m : List α) : List α := m.drop (size * (m.length / size))

def push (size : Nat) (f : σ → List α → σ) (s : σ × List α) (a : α) : σ × List α :=
  let buffer := s.2 ++ [a]
  if buffer.length = size then (f s.1 buffer, []) else (s.1, buffer)

section

variable {size : Nat} {f : σ → List α → σ}

theorem length_rest (m : List α) : (rest size m).length = m.length % size := by
  rw [rest, List.length_drop, Nat.mod_def]

theorem length_block {m : List α} {i : Nat} (hi : i < m.length / size) :
    (block size m i).length = size := by
  have hend : size * (i + 1) ≤ m.length :=
    Nat.le_trans (Nat.mul_le_mul_left size hi) (Nat.mul_div_le m.length size)
  rw [Nat.mul_succ] at hend
  rw [block, List.length_take, List.length_drop]
  omega

theorem block_append {m : List α} {i : Nat} (hi : i < m.length / size) (n : List α) :
    block size (m ++ n) i = block size m i := by
  have hend : size * (i + 1) ≤ m.length :=
    Nat.le_trans (Nat.mul_le_mul_left size hi) (Nat.mul_div_le m.length size)
  rw [Nat.mul_succ] at hend
  rw [block, block, List.drop_append_of_le_length (by omega),
    List.take_append_of_le_length (by rw [List.length_drop]; omega)]

theorem foldl_block_append (m n : List α) (s : σ) :
    (List.range (m.length / size)).foldl (fun s i => f s (block size (m ++ n) i)) s =
      absorb size f s m := by
  refine List.foldl_ext _ _ _ fun s i hi => ?_
  rw [block_append (List.mem_range.mp hi)]

theorem foldl_push (hsize : 0 < size) (s : σ) (m : List α) :
    m.foldl (push size f) (s, []) = (absorb size f s m, rest size m) := by
  induction m using List.reverseRecOn with
  | nil => simp [absorb, rest]
  | append_singleton m a ih =>
      have hrest : (rest size m ++ [a]).length = m.length % size + 1 := by
        rw [List.length_append, length_rest, List.length_singleton]
      have hlength : (m ++ [a]).length = size * (m.length / size) + (m.length % size + 1) := by
        rw [List.length_append, List.length_singleton, ← Nat.add_assoc, Nat.div_add_mod]
      have hsplit : (m ++ [a]).drop (size * (m.length / size)) = rest size m ++ [a] :=
        List.drop_append_of_le_length (Nat.mul_div_le m.length size)
      rw [List.foldl_append, ih, List.foldl_cons, List.foldl_nil, push]
      by_cases hfull : m.length % size + 1 = size
      · -- the buffer is one more block
        have hblocks : (m ++ [a]).length = size * (m.length / size + 1) := by
          rw [hlength, hfull, Nat.mul_succ]
        have hcount : (m ++ [a]).length / size = m.length / size + 1 := by
          rw [hblocks, Nat.mul_div_cancel_left _ hsize]
        have hlast : block size (m ++ [a]) (m.length / size) = rest size m ++ [a] := by
          rw [block, hsplit, List.take_of_length_le (Nat.le_of_eq (hrest.trans hfull))]
        have hnone : rest size (m ++ [a]) = [] := by
          rw [rest, hcount, ← hblocks, List.drop_length]
        rw [if_pos (hrest.trans hfull), hnone, absorb.eq_def (m := m ++ [a]), hcount,
          List.range_succ, List.foldl_append, foldl_block_append, List.foldl_cons, List.foldl_nil,
          hlast]
      · have hroom : m.length % size + 1 < size :=
          Nat.lt_of_le_of_ne (Nat.mod_lt m.length hsize) hfull
        have hcount : (m ++ [a]).length / size = m.length / size := by
          rw [hlength, Nat.mul_add_div hsize, Nat.div_eq_of_lt hroom, Nat.add_zero]
        rw [if_neg (fun h => hfull (hrest.symm.trans h)), absorb.eq_def (m := m ++ [a]), hcount,
          foldl_block_append, rest.eq_def (m := m ++ [a]), hcount, hsplit]

theorem length_foldl_push {s : σ × List α} (hs : s.2.length < size) (m : List α) :
    (m.foldl (push size f) s).2.length = (s.2.length + m.length) % size := by
  induction m generalizing s with
  | nil => exact (Nat.mod_eq_of_lt hs).symm
  | cons a m ih =>
      have hbuffer : (s.2 ++ [a]).length = s.2.length + 1 := by
        rw [List.length_append, List.length_singleton]
      have hcount : s.2.length + (a :: m).length = s.2.length + 1 + m.length := by
        rw [List.length_cons]
        omega
      rw [List.foldl_cons, hcount, push]
      by_cases hfull : s.2.length + 1 = size
      · have hempty : (f s.1 (s.2 ++ [a]), ([] : List α)).2.length < size := Nat.zero_lt_of_lt hs
        rw [if_pos (hbuffer.trans hfull), ih hempty, hfull, Nat.add_mod_left]
        exact congrArg (· % size) (Nat.zero_add m.length)
      · have hroom : s.2.length + 1 < size := Nat.lt_of_le_of_ne hs hfull
        rw [if_neg (fun h => hfull (hbuffer.symm.trans h)), ih (hbuffer ▸ hroom), hbuffer]

/-- What goes with the function on blocks goes with whole messages. -/
theorem absorb_map {τ : Type} {g : σ → τ} {f' : τ → List α → τ}
    (hg : ∀ s p, p.length = size → g (f s p) = f' (g s) p) (s : σ) (m : List α) :
    g (absorb size f s m) = absorb size f' (g s) m := by
  have hstep : ∀ is : List Nat, (∀ i ∈ is, i < m.length / size) → ∀ s,
      g (is.foldl (fun s i => f s (block size m i)) s) =
        is.foldl (fun s i => f' s (block size m i)) (g s) := by
    intro is
    induction is with
    | nil => exact fun _ _ => rfl
    | cons i is ih =>
        intro his s
        rw [List.foldl_cons, List.foldl_cons, ih (fun j hj => his j (List.mem_cons_of_mem i hj)),
          hg s _ (length_block (his i List.mem_cons_self))]
  exact hstep _ (fun i hi => List.mem_range.mp hi) s

theorem absorb_const (next : σ → σ) (s : σ) (m : List α) :
    absorb size (fun s _ => next s) s m = next^[m.length / size] s := by
  rw [absorb, List.foldl_const, List.length_range]

end

end BlockStream
