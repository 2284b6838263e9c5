import Mathlib.Algebra.Order.Ring.Nat
import Mathlib.Order.CompletePartialOrder
import Mathlib.Order.Interval.Set.Disjoint

/-!
Extents: stretches of positions given by where they start and how long they
are, and the lists of extents that lie one after the other.
-/

structure Extent where
  start : Nat
  length : Nat
  deriving DecidableEq

namespace Extent

def stop (e : Extent) : Nat := e.start + e.length

def positions (e : Extent) : Set Nat := Set.Ico e.start e.stop

/-- The extents lie one after the other between `lo` and `hi`. -/
def Packed : Nat → List Extent → Nat → Prop
  | lo, [], hi => lo ≤ hi
  | lo, e :: es, hi => lo ≤ e.start ∧ Packed e.stop es hi

/-- The extents lie one after the other from `lo` to `hi`, without a gap. -/
def Tiles : Nat → List Extent → Nat → Prop
  | lo, [], hi => lo = hi
  | lo, e :: es, hi => e.start = lo ∧ Tiles e.stop es hi

theorem Tiles.packed {lo hi : Nat} {es : List Extent} (h : Tiles lo es hi) : Packed lo es hi := by
  induction es generalizing lo with
  | nil => exact Nat.le_of_eq h
  | cons e es ih => exact ⟨Nat.le_of_eq h.1.symm, ih h.2⟩

theorem Tiles.sum_length {lo hi : Nat} {es : List Extent} (h : Tiles lo es hi) :
    lo + (es.map length).sum = hi := by
  induction es generalizing lo with
  | nil => exact h
  | cons e es ih =>
      have hrest := ih h.2
      have hstart := h.1
      simp only [stop] at hrest
      rw [List.map_cons, List.sum_cons]
      omega

theorem Packed.le {lo hi : Nat} {es : List Extent} (h : Packed lo es hi) : lo ≤ hi := by
  induction es generalizing lo with
  | nil => exact h
  | cons e es ih =>
      have hstop : e.stop ≤ hi := ih h.2
      have hstart : e.start ≤ e.stop := Nat.le_add_right _ _
      exact h.1.trans (hstart.trans hstop)

theorem Packed.within {lo hi : Nat} {es : List Extent} (h : Packed lo es hi) :
    ∀ e ∈ es, lo ≤ e.start ∧ e.stop ≤ hi := by
  induction es generalizing lo with
  | nil => exact fun e he => absurd he List.not_mem_nil
  | cons e es ih =>
      intro e' he'
      rcases List.mem_cons.mp he' with rfl | he'
      · exact ⟨h.1, h.2.le⟩
      · obtain ⟨hlo, hhi⟩ := ih h.2 e' he'
        have hstop : e.start ≤ e.stop := Nat.le_add_right _ _
        exact ⟨h.1.trans (hstop.trans hlo), hhi⟩

theorem Packed.pairwise {lo hi : Nat} {es : List Extent} (h : Packed lo es hi) :
    es.Pairwise fun e e' => e.stop ≤ e'.start := by
  induction es generalizing lo with
  | nil => exact .nil
  | cons e es ih => exact .cons (fun e' he' => (h.2.within e' he').1) (ih h.2)

theorem Packed.disjoint {lo hi : Nat} {es : List Extent} (h : Packed lo es hi) :
    es.Pairwise fun e e' => Disjoint e.positions e'.positions := by
  refine h.pairwise.imp fun {e e'} hle => ?_
  rw [positions, positions, Set.Ico_disjoint_Ico]
  exact (min_le_left _ _).trans (hle.trans (le_max_right _ _))

theorem Packed.ascending {lo hi : Nat} {es : List Extent} (h : Packed lo es hi)
    (hpos : ∀ e ∈ es, 0 < e.length) : es.Pairwise fun e e' => e.start < e'.start := by
  refine h.pairwise.imp_of_mem fun {e e'} he _ hle => ?_
  exact (Nat.lt_add_of_pos_right (hpos e he)).trans_le hle

end Extent
