import Mathlib.Logic.Function.Iterate
import Mathlib.Order.Basic

/-!
Runs of a deterministic labelled system: a step function applied to a list of
labels from left to right.

A condition on a run is a condition on each of its steps, stated about the
state in which the step is taken (`Along`). The rules at the end are the only
inductions over runs that are ever needed: one for a property of states, one for
a relation between the first and the last state, and one for a relation between
two moments.
-/

namespace Runs

variable {σ ι : Type}

/-- The state after taking the steps `is` from `s`. -/
def run (step : σ → ι → σ) (s : σ) (is : List ι) : σ := is.foldl step s

@[simp] theorem run_nil (step : σ → ι → σ) (s : σ) : run step s [] = s := rfl

@[simp] theorem run_cons (step : σ → ι → σ) (s : σ) (i : ι) (is : List ι) :
    run step s (i :: is) = run step (step s i) is := rfl

theorem run_append (step : σ → ι → σ) (s : σ) (is js : List ι) :
    run step s (is ++ js) = run step (run step s is) js :=
  List.foldl_append

/-- Every step of the run satisfies `P` in the state it is taken in. -/
def Along (step : σ → ι → σ) (P : σ → ι → Prop) : σ → List ι → Prop
  | _, [] => True
  | s, i :: is => P s i ∧ Along step P (step s i) is

instance Along.instDecidable (step : σ → ι → σ) (P : σ → ι → Prop)
    [∀ s i, Decidable (P s i)] : ∀ s is, Decidable (Along step P s is)
  | _, [] => .isTrue trivial
  | s, i :: is =>
      have := Along.instDecidable step P (step s i) is
      inferInstanceAs (Decidable (P s i ∧ Along step P (step s i) is))

theorem Along.mono {step : σ → ι → σ} {P Q : σ → ι → Prop} (hPQ : ∀ s i, P s i → Q s i)
    {s : σ} {is : List ι} (h : Along step P s is) : Along step Q s is := by
  induction is generalizing s with
  | nil => trivial
  | cons i is ih => exact ⟨hPQ s i h.1, ih h.2⟩

theorem Along.mono_of_invariant {step : σ → ι → σ} {P Q : σ → ι → Prop} {I : σ → Prop}
    (hstep : ∀ s i, I s → P s i → I (step s i)) (hPQ : ∀ s i, I s → P s i → Q s i) {s : σ}
    {is : List ι} (hs : I s) (h : Along step P s is) : Along step Q s is := by
  induction is generalizing s with
  | nil => trivial
  | cons i is ih => exact ⟨hPQ s i hs h.1, ih (hstep s i hs h.1) h.2⟩

theorem along_of_forall {step : σ → ι → σ} {P : σ → ι → Prop} (h : ∀ s i, P s i) (s : σ)
    (is : List ι) : Along step P s is := by
  induction is generalizing s with
  | nil => trivial
  | cons i is ih => exact ⟨h s i, ih _⟩

theorem along_of_mem {step : σ → ι → σ} {P : σ → ι → Prop} {s : σ} {is : List ι}
    (h : ∀ t, ∀ i ∈ is, P t i) : Along step P s is := by
  induction is generalizing s with
  | nil => trivial
  | cons i is ih =>
      exact ⟨h s i List.mem_cons_self, ih fun t j hj => h t j (List.mem_cons_of_mem i hj)⟩

theorem along_and {step : σ → ι → σ} {P Q : σ → ι → Prop} {s : σ} {is : List ι} :
    Along step (fun s i => P s i ∧ Q s i) s is ↔ Along step P s is ∧ Along step Q s is := by
  induction is generalizing s with
  | nil => exact ⟨fun _ => ⟨trivial, trivial⟩, fun _ => trivial⟩
  | cons i is ih =>
      rw [Along, Along, Along, ih]
      exact and_and_and_comm

theorem along_append {step : σ → ι → σ} {P : σ → ι → Prop} {s : σ} {is js : List ι} :
    Along step P s (is ++ js) ↔ Along step P s is ∧ Along step P (run step s is) js := by
  induction is generalizing s with
  | nil => simp [Along]
  | cons i is ih => simp [Along, ih, and_assoc]

/-! ### Projections

A state with something recorded on the side runs as the state alone. -/

section Project

variable {τ : Type} {step : σ → ι → σ} {step' : τ → ι → τ} {φ : σ → τ}

theorem run_project (hφ : ∀ s i, φ (step s i) = step' (φ s) i) (s : σ) (is : List ι) :
    φ (run step s is) = run step' (φ s) is := by
  induction is generalizing s with
  | nil => rfl
  | cons i is ih => rw [run_cons, run_cons, ih, hφ]

theorem along_project (hφ : ∀ s i, φ (step s i) = step' (φ s) i) {P : τ → ι → Prop} {s : σ}
    {is : List ι} (h : Along step' P (φ s) is) : Along step (fun s i => P (φ s) i) s is := by
  induction is generalizing s with
  | nil => trivial
  | cons i is ih => exact ⟨h.1, ih (hφ s i ▸ h.2)⟩

end Project

/-! ### Rules -/

/-- The invariant rule: what one step preserves under `P`, a run whose steps
all satisfy `P` preserves. -/
theorem invariant {step : σ → ι → σ} {P : σ → ι → Prop} {I : σ → Prop}
    (hstep : ∀ s i, I s → P s i → I (step s i)) {s : σ} {is : List ι}
    (hs : I s) (his : Along step P s is) : I (run step s is) := by
  induction is generalizing s with
  | nil => exact hs
  | cons i is ih => exact ih (hstep s i hs his.1) his.2

/-- The relational rule: a reflexive and transitive relation that holds across
every step taken from an invariant state holds across a run. -/
theorem related {step : σ → ι → σ} {P : σ → ι → Prop} {I : σ → Prop} {R : σ → σ → Prop}
    (hrefl : ∀ s, R s s) (htrans : ∀ s t u, R s t → R t u → R s u)
    (hinv : ∀ s i, I s → P s i → I (step s i))
    (hstep : ∀ s i, I s → P s i → R s (step s i)) {s : σ} {is : List ι}
    (hs : I s) (his : Along step P s is) : R s (run step s is) := by
  induction is generalizing s with
  | nil => exact hrefl s
  | cons i is ih =>
      exact htrans _ _ _ (hstep s i hs his.1) (ih (hinv s i hs his.1) his.2)

/-! ### Moments

A run as the list of the states it takes its steps in, each with the step. -/

section Trace

/-- The moments of a run: each step with the state it is taken in. -/
def trace (step : σ → ι → σ) : σ → List ι → List (σ × ι)
  | _, [] => []
  | s, i :: is => (s, i) :: trace step (step s i) is

variable {step : σ → ι → σ} {P : σ → ι → Prop}

theorem along_iff_trace {s : σ} {is : List ι} :
    Along step P s is ↔ ∀ x ∈ trace step s is, P x.1 x.2 := by
  induction is generalizing s with
  | nil => simp [Along, trace]
  | cons i is ih => simp [Along, trace, ih]

/-- What a moment establishes about the state after it, and later steps keep, holds
at every later moment. -/
theorem later_of_keeps {J : σ → Prop} (hkeep : ∀ t j, J t → P t j → J (step t j)) {t : σ}
    {is : List ι} (ht : J t) (his : Along step P t is) :
    ∀ y ∈ trace step t is, J y.1 ∧ P y.1 y.2 := by
  induction is generalizing t with
  | nil => exact fun _ hy => nomatch hy
  | cons i is ih =>
      intro y hy
      obtain rfl | hy := List.mem_cons.mp hy
      · exact ⟨ht, his.1⟩
      · exact ih (hkeep t i ht his.1) his.2 y hy

/-- The rule for two moments of a run: `J x` holds after the moment `x`, is kept by
every later step, and implies the relation. -/
theorem pairwise_trace {R : σ × ι → σ × ι → Prop} {J : σ × ι → σ → Prop}
    (hstart : ∀ s i, P s i → J (s, i) (step s i))
    (hkeep : ∀ x t j, J x t → P t j → J x (step t j))
    (huse : ∀ x y, J x y.1 → P y.1 y.2 → R x y) {s : σ} {is : List ι}
    (his : Along step P s is) : (trace step s is).Pairwise R := by
  induction is generalizing s with
  | nil => exact .nil
  | cons i is ih =>
      refine .cons (fun y hy => ?_) (ih his.2)
      obtain ⟨hJ, hP⟩ := later_of_keeps (hkeep (s, i)) (hstart s i his.1) his.2 y hy
      exact huse (s, i) y hJ hP

end Trace

/-! ### Quantities that fall and are overtaken -/

section Overtaken

variable {α : Type} [Preorder α] {step : σ → ι → σ} {P falls : σ → ι → Prop} {I : σ → Prop}
  {μ : σ → α} {writes : σ → ι → Option α}

/-- At the end of the run the quantity is not below what it was at any earlier moment. -/
def EndsHigh (step : σ → ι → σ) (μ : σ → α) (s : σ) (is : List ι) : Prop :=
  ∀ x ∈ trace step s is, μ x.1 ≤ μ (run step s is)

/-- Wherever the quantity falls, a later step writes a value that is not below the one
before the fall. -/
def Overtaken (step : σ → ι → σ) (μ : σ → α) (falls : σ → ι → Prop)
    (writes : σ → ι → Option α) : σ → List ι → Prop
  | _, [] => True
  | s, i :: is =>
      (falls s i → ∃ x ∈ trace step (step s i) is, ∃ a, writes x.1 x.2 = some a ∧ μ s ≤ a) ∧
        Overtaken step μ falls writes (step s i) is

theorem EndsHigh.tail {s : σ} {i : ι} {is : List ι} (h : EndsHigh step μ s (i :: is)) :
    EndsHigh step μ (step s i) is := fun x hx => h x (List.mem_cons_of_mem _ hx)

theorem EndsHigh.le {s : σ} {is : List ι} (h : EndsHigh step μ s is) : μ s ≤ μ (run step s is) := by
  cases is with
  | nil => exact le_refl _
  | cons i is => exact h (s, i) List.mem_cons_self

theorem EndsHigh.le_of_prefix {s : σ} (is js : List ι) (h : EndsHigh step μ s (is ++ js)) :
    μ (run step s is) ≤ μ (run step s (is ++ js)) := by
  induction is generalizing s with
  | nil => exact h.le
  | cons i is ih => exact ih h.tail

theorem writes_of_le (hwrites : ∀ s i, μ (step s i) = (writes s i).getD (μ s)) {a : α} {s : σ}
    {is : List ι} (hlow : ¬a ≤ μ s) (hhigh : a ≤ μ (run step s is)) :
    ∃ x ∈ trace step s is, ∃ b, writes x.1 x.2 = some b ∧ a ≤ b := by
  induction is generalizing s with
  | nil => exact absurd hhigh hlow
  | cons i is ih =>
      by_cases hnext : a ≤ μ (step s i)
      · rw [hwrites] at hnext
        cases hw : writes s i with
        | none =>
            rw [hw] at hnext
            exact absurd hnext hlow
        | some b =>
            rw [hw] at hnext
            exact ⟨(s, i), List.mem_cons_self, b, hw, hnext⟩
      · obtain ⟨x, hx, hb⟩ := ih hnext hhigh
        exact ⟨x, List.mem_cons_of_mem _ hx, hb⟩

theorem EndsHigh.le_of_writes (hwrites : ∀ s i, μ (step s i) = (writes s i).getD (μ s)) {s : σ}
    {is : List ι} (h : EndsHigh step μ s is) {x : σ × ι} (hx : x ∈ trace step s is) {a : α}
    (ha : writes x.1 x.2 = some a) : a ≤ μ (run step s is) := by
  induction is generalizing s with
  | nil => cases hx
  | cons i is ih =>
      obtain rfl | hx := List.mem_cons.mp hx
      · have hnext := h.tail.le
        rw [hwrites, ha] at hnext
        exact hnext
      · exact ih h.tail hx

/-- If a quantity falls in certain steps and in no others, a run ends high exactly if
wherever it falls it is overtaken. -/
theorem endsHigh_iff (hwrites : ∀ s i, μ (step s i) = (writes s i).getD (μ s))
    (hinv : ∀ s i, I s → P s i → I (step s i))
    (hfalls : ∀ s i, I s → P s i → (falls s i ↔ ¬μ s ≤ μ (step s i))) {s : σ} {is : List ι}
    (hs : I s) (his : Along step P s is) :
    EndsHigh step μ s is ↔ Overtaken step μ falls writes s is := by
  induction is generalizing s with
  | nil => exact iff_of_true (fun x hx => nomatch hx) trivial
  | cons i is ih =>
      have hrest := ih (hinv s i hs his.1) his.2
      have hstep := hfalls s i hs his.1
      constructor
      · intro h
        refine ⟨fun hfall => writes_of_le hwrites (hstep.mp hfall) ?_, hrest.mp h.tail⟩
        exact h (s, i) List.mem_cons_self
      · rintro ⟨hover, htail⟩ x hx
        have hend := hrest.mpr htail
        obtain rfl | hx := List.mem_cons.mp hx
        · by_cases hfall : falls s i
          · obtain ⟨y, hy, a, ha, hle⟩ := hover hfall
            exact le_trans hle (hend.le_of_writes hwrites hy ha)
          · exact le_trans (not_not.mp fun hnot => hfall (hstep.mpr hnot)) hend.le
        · exact hend x hx

theorem endsHigh_of_le (hinv : ∀ s i, I s → P s i → I (step s i))
    (hle : ∀ s i, I s → P s i → μ s ≤ μ (step s i)) {s : σ} {is : List ι} (hs : I s)
    (his : Along step P s is) : EndsHigh step μ s is := by
  induction is generalizing s with
  | nil => exact fun x hx => nomatch hx
  | cons i is ih =>
      have hend := ih (hinv s i hs his.1) his.2
      intro x hx
      obtain rfl | hx := List.mem_cons.mp hx
      · exact le_trans (hle s i hs his.1) hend.le
      · exact hend x hx

end Overtaken

/-! ### Last writes -/

section Written

variable {α : Type} {step : σ → ι → σ} {value : σ → α} {writes : σ → ι → Option α}

/-- The run begins with some steps, then comes one that writes `a`, and the steps after
it write nothing. -/
def LastWrites (step : σ → ι → σ) (writes : σ → ι → Option α) (a : α) (s : σ) (is : List ι) :
    Prop :=
  ∃ pre i post, is = pre ++ i :: post ∧ writes (run step s pre) i = some a ∧
    Along step (fun t j => writes t j = none) (step (run step s pre) i) post

theorem lastWrites_cons {a : α} {s : σ} {i : ι} {is : List ι} :
    LastWrites step writes a s (i :: is) ↔
      LastWrites step writes a (step s i) is ∨
      writes s i = some a ∧ Along step (fun t j => writes t j = none) (step s i) is := by
  constructor
  · rintro ⟨pre, j, post, heq, hwrites, hpost⟩
    cases pre with
    | nil =>
        obtain ⟨rfl, rfl⟩ := List.cons.inj heq
        exact .inr ⟨hwrites, hpost⟩
    | cons k pre =>
        obtain ⟨rfl, rfl⟩ := List.cons.inj heq
        exact .inl ⟨pre, j, post, rfl, hwrites, hpost⟩
  · rintro (⟨pre, j, post, rfl, hwrites, hpost⟩ | ⟨hwrites, hpost⟩)
    · exact ⟨i :: pre, j, post, rfl, hwrites, hpost⟩
    · exact ⟨[], i, is, rfl, hwrites, hpost⟩

/-- A value that a step either writes or leaves alone is what was written last, or
what was there before if nothing was. -/
theorem value_run_iff (hstep : ∀ s i, value (step s i) = (writes s i).getD (value s)) {a : α}
    {s : σ} {is : List ι} :
    value (run step s is) = a ↔ LastWrites step writes a s is ∨
      Along step (fun t j => writes t j = none) s is ∧ value s = a := by
  induction is generalizing s with
  | nil =>
      refine ⟨fun h => .inr ⟨trivial, h⟩, ?_⟩
      rintro (⟨pre, i, post, heq, -⟩ | ⟨-, h⟩)
      · exact absurd heq (by simp)
      · exact h
  | cons i is ih =>
      rw [run_cons, ih, lastWrites_cons, hstep, or_assoc, Along]
      refine or_congr_right ?_
      cases hwrites : writes s i with
      | none => simp
      | some b => simp [and_comm]

end Written

/-! ### Loops -/

section Loops

variable {α : Type} {turn : σ → α ⊕ σ}

/-- The loop of the given turns, entered in the state, exits with the value. -/
inductive Exits (turn : σ → α ⊕ σ) : σ → α → Prop
  | stop {s : σ} {a : α} (h : turn s = .inl a) : Exits turn s a
  | again {s t : σ} {a : α} (h : turn s = .inr t) (ht : Exits turn t a) : Exits turn s a

theorem Exits.unique {s : σ} {a b : α} (ha : Exits turn s a) (hb : Exits turn s b) : a = b := by
  induction ha with
  | stop h =>
      cases hb with
      | stop h' => exact Sum.inl.inj (h.symm.trans h')
      | again h' => exact absurd (h.symm.trans h') nofun
  | again h _ ih =>
      cases hb with
      | stop h' => exact absurd (h.symm.trans h') nofun
      | again h' ht => exact ih (Sum.inr.inj (h'.symm.trans h) ▸ ht)

/-- The turn of a loop that goes on until a condition holds. -/
def untilTurn (stop : σ → Prop) [DecidablePred stop] (next : σ → σ) (s : σ) : σ ⊕ σ :=
  if stop s then .inl s else .inr (next s)

/-- A loop that goes on until a condition holds exits after as many turns as it takes to get there. -/
theorem exits_until {stop : σ → Prop} [DecidablePred stop] {next : σ → σ} {n : Nat} {s : σ}
    (hbefore : ∀ k < n, ¬stop (next^[k] s)) (hstop : stop (next^[n] s)) :
    Exits (untilTurn stop next) s (next^[n] s) := by
  induction n generalizing s with
  | zero => exact .stop (if_pos hstop)
  | succ n ih =>
      have hfirst : untilTurn stop next s = .inr (next s) := if_neg (hbefore 0 n.succ_pos)
      exact .again hfirst (ih (fun k hk => hbefore (k + 1) (Nat.succ_lt_succ hk)) hstop)

end Loops

end Runs
