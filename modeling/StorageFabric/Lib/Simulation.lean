import StorageFabric.Lib.Runs

/-!
Forward simulation of a deterministic system by one that may choose.

The specification is a relation that says, for a state and a label, which outputs
and which next states it allows. An implementation refines it when every step it
takes is matched by an allowed step with the same output; then every run is matched
by an allowed run (`simulation`), and what the allowed steps preserve is preserved
(`Follows.invariant`).
-/

namespace Runs

variable {σ τ ι ο : Type}

/-- The labels of a run, each with what the step puts out. -/
def observed (step : σ → ι → σ) (out : σ → ι → ο) (s : σ) (is : List ι) : List (ι × ο) :=
  (trace step s is).map fun x => (x.2, out x.1 x.2)

@[simp] theorem observed_nil (step : σ → ι → σ) (out : σ → ι → ο) (s : σ) :
    observed step out s [] = [] := rfl

@[simp] theorem observed_cons (step : σ → ι → σ) (out : σ → ι → ο) (s : σ) (i : ι)
    (is : List ι) :
    observed step out s (i :: is) = (i, out s i) :: observed step out (step s i) is := rfl

theorem mem_of_mem_observed {step : σ → ι → σ} {out : σ → ι → ο} {s : σ} {is : List ι}
    {x : ι × ο} (h : x ∈ observed step out s is) : x.1 ∈ is := by
  induction is generalizing s with
  | nil => exact nomatch h
  | cons i is ih =>
      obtain rfl | h := List.mem_cons.mp h
      · exact List.mem_cons_self
      · exact List.mem_cons_of_mem i (ih h)

/-- The specification allows these labels with these outputs, one after the other. -/
inductive Follows (spec : τ → ι → ο → τ → Prop) : τ → List (ι × ο) → τ → Prop
  | nil (t : τ) : Follows spec t [] t
  | cons {t u v : τ} {i : ι} {o : ο} {xs : List (ι × ο)} (hstep : spec t i o u)
      (hrest : Follows spec u xs v) : Follows spec t ((i, o) :: xs) v

theorem Follows.invariant {spec : τ → ι → ο → τ → Prop} {I : τ → Prop} {t u : τ}
    {xs : List (ι × ο)} (h : Follows spec t xs u)
    (hstep : ∀ t u, ∀ x ∈ xs, I t → spec t x.1 x.2 u → I u) (ht : I t) : I u := by
  induction h with
  | nil t => exact ht
  | cons hone hrest ih =>
      exact ih (fun t u x hx => hstep t u x (List.mem_cons_of_mem _ hx))
        (hstep _ _ _ List.mem_cons_self ht hone)

/-- The simulation rule: a relation that every step keeps, with a matching step of
the specification, is kept by every run. -/
theorem simulation {step : σ → ι → σ} {out : σ → ι → ο} {spec : τ → ι → ο → τ → Prop}
    {R : σ → τ → Prop} {P : σ → ι → Prop}
    (hstep : ∀ s i t, R s t → P s i → ∃ u, spec t i (out s i) u ∧ R (step s i) u) {s : σ} {t : τ}
    {is : List ι} (hs : R s t) (his : Along step P s is) :
    ∃ u, Follows spec t (observed step out s is) u ∧ R (run step s is) u := by
  induction is generalizing s t with
  | nil => exact ⟨t, .nil t, hs⟩
  | cons i is ih =>
      obtain ⟨u, hone, hu⟩ := hstep s i t hs his.1
      obtain ⟨v, hrest, hv⟩ := ih hu his.2
      exact ⟨v, .cons hone hrest, hv⟩

end Runs
