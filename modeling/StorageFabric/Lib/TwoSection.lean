import Mathlib.Data.List.Nodup
import Mathlib.Logic.Function.Basic
import StorageFabric.Lib.Runs

/-!
Operations in two critical sections, run by any number of callers at once.

The first section checks and either answers or hands something over; the second
commits what was handed over. Between the two the lock is free: other callers
take their sections there, and the caller itself does something that the
sections do not look at.

`linearized_run` is the rule for such operations. If what the first section
handed over stays good for as long as the check would allow the call, and every
second section is taken in a state in which the check would still allow it, then
the calls may as well have been made one after another, in the order of the
sections that answered them.
-/

/-- An operation in two sections: `check` answers with `δ` or hands over `κ`,
`between` is done without the lock, `commit` answers. -/
structure Sections (σ ι κ δ : Type) where
  check : σ → ι → δ ⊕ κ
  between : σ → κ → σ
  commit : σ → κ → δ × σ

namespace Sections

variable {σ ι κ δ τ : Type}

/-! ### One call after another -/

section Sequential

variable (S : Sections σ ι κ δ)

def call (s : σ) (i : ι) : δ × σ :=
  match S.check s i with
  | .inl d => (d, s)
  | .inr k => S.commit (S.between s k) k

def sequence (calls : τ → ι) : σ → List τ → List (τ × δ) × σ
  | s, [] => ([], s)
  | s, t :: ts =>
      let r := S.call s (calls t)
      let rest := sequence calls r.2 ts
      ((t, r.1) :: rest.1, rest.2)

theorem sequence_snoc (calls : τ → ι) (s : σ) (ts : List τ) (t : τ) :
    S.sequence calls s (ts ++ [t]) =
      ((S.sequence calls s ts).1 ++ [(t, (S.call (S.sequence calls s ts).2 (calls t)).1)],
        (S.call (S.sequence calls s ts).2 (calls t)).2) := by
  induction ts generalizing s with
  | nil => rfl
  | cons u us ih =>
      show ((u, _) :: (S.sequence calls _ (us ++ [t])).1, (S.sequence calls _ (us ++ [t])).2) = _
      rw [ih]
      rfl

theorem callers_sequence (calls : τ → ι) (s : σ) (ts : List τ) :
    (S.sequence calls s ts).1.map Prod.fst = ts := by
  induction ts generalizing s with
  | nil => rfl
  | cons t ts ih => exact congrArg (t :: ·) (ih _)

end Sequential

/-! ### Callers at once -/

inductive Phase (κ δ : Type)
  | pending
  | checked (k : κ)
  | ready (k : κ)
  | done (d : δ)

namespace Phase

def carried : Phase κ δ → Option κ
  | .checked k => some k
  | .ready k => some k
  | _ => none

def answer : Phase κ δ → Option δ
  | .done d => some d
  | _ => none

end Phase

inductive Event (τ : Type)
  | check (t : τ)
  | between (t : τ)
  | commit (t : τ)

structure Config (σ κ δ τ : Type) where
  state : σ
  phase : τ → Phase κ δ

namespace Config

def initial (s : σ) : Config σ κ δ τ := ⟨s, fun _ => .pending⟩

def advance [DecidableEq τ] (c : Config σ κ δ τ) (t : τ) (p : Phase κ δ) (s : σ) :
    Config σ κ δ τ :=
  ⟨s, Function.update c.phase t p⟩

@[simp] theorem state_advance [DecidableEq τ] (c : Config σ κ δ τ) (t : τ) (p : Phase κ δ)
    (s : σ) : (c.advance t p s).state = s := rfl

@[simp] theorem phase_advance_self [DecidableEq τ] (c : Config σ κ δ τ) (t : τ) (p : Phase κ δ)
    (s : σ) : (c.advance t p s).phase t = p := by
  simp [advance]

theorem phase_advance_of_ne [DecidableEq τ] (c : Config σ κ δ τ) {t u : τ} (h : u ≠ t)
    (p : Phase κ δ) (s : σ) : (c.advance t p s).phase u = c.phase u := by
  simp [advance, h]

end Config

section Concurrent

variable [DecidableEq τ] (S : Sections σ ι κ δ) (calls : τ → ι)

/-- One event. A caller takes its parts in their order; an event that is not
the next of its caller changes nothing. -/
def step (c : Config σ κ δ τ) : Event τ → Config σ κ δ τ
  | .check t =>
      match c.phase t with
      | .pending =>
          match S.check c.state (calls t) with
          | .inl d => c.advance t (.done d) c.state
          | .inr k => c.advance t (.checked k) c.state
      | _ => c
  | .between t =>
      match c.phase t with
      | .checked k => c.advance t (.ready k) (S.between c.state k)
      | _ => c
  | .commit t =>
      match c.phase t with
      | .ready k =>
          let r := S.commit c.state k
          c.advance t (.done r.1) r.2
      | _ => c

theorem step_cases (c : Config σ κ δ τ) (e : Event τ) :
    S.step calls c e = c ∨
    (∃ t d, c.phase t = .pending ∧ S.check c.state (calls t) = .inl d ∧
      S.step calls c e = c.advance t (.done d) c.state) ∨
    (∃ t k, c.phase t = .pending ∧ S.check c.state (calls t) = .inr k ∧
      S.step calls c e = c.advance t (.checked k) c.state) ∨
    (∃ t k, c.phase t = .checked k ∧
      S.step calls c e = c.advance t (.ready k) (S.between c.state k)) ∨
    (∃ t k, e = .commit t ∧ c.phase t = .ready k ∧
      S.step calls c e = c.advance t (.done (S.commit c.state k).1) (S.commit c.state k).2) := by
  cases e with
  | check t =>
      cases hphase : c.phase t with
      | pending =>
          cases hcheck : S.check c.state (calls t) with
          | inl d =>
              refine .inr (.inl ⟨t, d, hphase, hcheck, ?_⟩)
              simp only [step, hphase, hcheck]
          | inr k =>
              refine .inr (.inr (.inl ⟨t, k, hphase, hcheck, ?_⟩))
              simp only [step, hphase, hcheck]
      | _ => exact .inl (by simp only [step, hphase])
  | between t =>
      cases hphase : c.phase t with
      | checked k => exact .inr (.inr (.inr (.inl ⟨t, k, hphase, by simp only [step, hphase]⟩)))
      | _ => exact .inl (by simp only [step, hphase])
  | commit t =>
      cases hphase : c.phase t with
      | ready k =>
          exact .inr (.inr (.inr (.inr ⟨t, k, rfl, hphase, by simp only [step, hphase]⟩)))
      | _ => exact .inl (by simp only [step, hphase])

/-- The second section is taken in a state in which the check would still allow
the call. -/
def StillAllowed (c : Config σ κ δ τ) : Event τ → Prop
  | .commit t => (c.phase t).carried.isSome → ∃ k, S.check c.state (calls t) = .inr k
  | _ => True

/-- The answers given so far, and what is seen of the state, are those of some
sequence of the calls that were answered. -/
def Linearized {ν : Type} (view : σ → ν) (s : σ) (c : Config σ κ δ τ) : Prop :=
  ∃ order : List τ, order.Nodup ∧
    (∀ t d, (t, d) ∈ (S.sequence calls s order).1 ↔ (c.phase t).answer = some d) ∧
    view (S.sequence calls s order).2 = view c.state

end Concurrent

/-! ### Linearization -/

/-- The sections act on what is seen of the state. -/
structure Viewed {ν : Type} (S : Sections σ ι κ δ) (view : σ → ν) : Prop where
  check : ∀ s s' i, view s = view s' → S.check s i = S.check s' i
  between : ∀ s k, view (S.between s k) = view s
  commit : ∀ s s' k, view s = view s' →
    (S.commit s k).1 = (S.commit s' k).1 ∧ view (S.commit s k).2 = view (S.commit s' k).2

/-- What was handed over to a call stays good (`Good`) while others commit, and
is then what the check would hand over. -/
structure Lasting {ν : Type} (S : Sections σ ι κ δ) (view : σ → ν) (Good : ν → ι → κ → Prop) :
    Prop where
  of_check : ∀ s i k, S.check s i = .inr k → Good (view s) i k
  commit : ∀ s i j k l, Good (view s) i k → S.check s j = .inr l →
    Good (view (S.commit s l).2) i k
  determines : ∀ s i k l, Good (view s) i k → S.check s i = .inr l → l = k

section Rule

variable [DecidableEq τ] {ν : Type} {S : Sections σ ι κ δ} {calls : τ → ι} {view : σ → ν}
  {Good : ν → ι → κ → Prop}

omit [DecidableEq τ] in
theorem notMem_of_unanswered {s : σ} {order : List τ} {phase : τ → Phase κ δ}
    (h : ∀ t d, (t, d) ∈ (S.sequence calls s order).1 ↔ (phase t).answer = some d) {t : τ}
    (ht : (phase t).answer = none) : t ∉ order := by
  intro hmem
  rw [← callers_sequence S calls s order] at hmem
  obtain ⟨⟨u, d⟩, hud, rfl⟩ := List.mem_map.mp hmem
  have := (h u d).mp hud
  rw [ht] at this
  cases this

/-- A step that answers nobody and is not seen keeps a linearization. -/
theorem Linearized.advance {s : σ} {c : Config σ κ δ τ} (h : S.Linearized calls view s c) {t : τ}
    {p : Phase κ δ} {s' : σ} (hbefore : (c.phase t).answer = none) (hp : p.answer = none)
    (hs : view s' = view c.state) : S.Linearized calls view s (c.advance t p s') := by
  obtain ⟨order, hnodup, hanswers, hview⟩ := h
  refine ⟨order, hnodup, fun u d => ?_, hview.trans hs.symm⟩
  rw [hanswers]
  by_cases hu : u = t
  · subst hu
    rw [hbefore, Config.phase_advance_self, hp]
  · rw [Config.phase_advance_of_ne c hu]

/-- A step that answers a caller extends a linearization by the caller, if the
call made now gives that answer and is seen to lead to that state. -/
theorem Linearized.answer {s : σ} {c : Config σ κ δ τ} (h : S.Linearized calls view s c) {t : τ}
    {d : δ} {s' : σ} (hbefore : (c.phase t).answer = none)
    (hcall : ∀ u, view u = view c.state →
      (S.call u (calls t)).1 = d ∧ view (S.call u (calls t)).2 = view s') :
    S.Linearized calls view s (c.advance t (.done d) s') := by
  obtain ⟨order, hnodup, hanswers, hview⟩ := h
  have hnew := notMem_of_unanswered hanswers hbefore
  obtain ⟨hd, hs'⟩ := hcall _ hview
  refine ⟨order ++ [t], ?_, fun u e => ?_, ?_⟩
  · refine List.nodup_append.mpr ⟨hnodup, List.nodup_singleton t, fun a ha b hb => ?_⟩
    rw [List.mem_singleton] at hb
    subst hb
    exact fun hab => hnew (hab ▸ ha)
  · rw [sequence_snoc, List.mem_append, hanswers, hd]
    by_cases hu : u = t
    · subst hu
      rw [hbefore, Config.phase_advance_self, Phase.answer]
      simp [eq_comm]
    · simp [Config.phase_advance_of_ne c hu, hu]
  · rw [sequence_snoc]
    exact hs'

/-- What is kept along a run: what callers carry is good, and the run so far is
linearized. -/
structure Tracked (S : Sections σ ι κ δ) (calls : τ → ι) (view : σ → ν)
    (Good : ν → ι → κ → Prop) (s : σ) (c : Config σ κ δ τ) : Prop where
  good : ∀ t k, (c.phase t).carried = some k → Good (view c.state) (calls t) k
  linearized : S.Linearized calls view s c

theorem good_advance {c : Config σ κ δ τ} {t : τ} {p : Phase κ δ} {s' : σ}
    (hothers : ∀ u k, (c.phase u).carried = some k → Good (view s') (calls u) k)
    (hp : ∀ k, p.carried = some k → Good (view s') (calls t) k) :
    ∀ u k, ((c.advance t p s').phase u).carried = some k →
      Good (view (c.advance t p s').state) (calls u) k := by
  intro u k hk
  by_cases hu : u = t
  · subst hu
    rw [Config.phase_advance_self] at hk
    exact hp k hk
  · rw [Config.phase_advance_of_ne c hu] at hk
    exact hothers u k hk

theorem Tracked.step (hS : S.Viewed view) (hgood : S.Lasting view Good) {s : σ}
    {c : Config σ κ δ τ} (h : Tracked S calls view Good s c) {e : Event τ}
    (he : S.StillAllowed calls c e) : Tracked S calls view Good s (S.step calls c e) := by
  obtain heq | ⟨t, d, hphase, hcheck, heq⟩ | ⟨t, k, hphase, hcheck, heq⟩ | ⟨t, k, hphase, heq⟩ |
    ⟨t, k, rfl, hphase, heq⟩ := step_cases S calls c e
  · rw [heq]
    exact h
  · -- the check refuses: the call is answered where it is made
    rw [heq]
    refine ⟨good_advance h.good fun k hk => (by cases hk), ?_⟩
    refine h.linearized.answer (by rw [hphase]; rfl) fun u hu => ?_
    rw [call, hS.check u c.state (calls t) hu, hcheck]
    exact ⟨rfl, hu⟩
  · rw [heq]
    refine ⟨good_advance h.good fun l hl => ?_, ?_⟩
    · cases hl
      exact hgood.of_check _ _ _ hcheck
    · exact h.linearized.advance (by rw [hphase]; rfl) rfl rfl
  · rw [heq]
    have hcarried : (c.phase t).carried = some k := by rw [hphase]; rfl
    have hview : view (S.between c.state k) = view c.state := hS.between c.state k
    refine ⟨good_advance (fun u l hl => hview ▸ h.good u l hl) fun l hl => ?_, ?_⟩
    · cases hl
      exact hview ▸ h.good t k hcarried
    · exact h.linearized.advance (by rw [hphase]; rfl) rfl hview
  · -- the check would hand over what is committed, so the call may be made here
    have hcarried : (c.phase t).carried = some k := by rw [hphase]; rfl
    obtain ⟨l, hl⟩ := he (by rw [hcarried]; rfl)
    have hlk : l = k := hgood.determines _ _ _ _ (h.good t k hcarried) hl
    subst hlk
    rw [heq]
    refine ⟨good_advance (fun u m hm => ?_) fun m hm => (by cases hm), ?_⟩
    · exact hgood.commit _ _ _ _ _ (h.good u m hm) hl
    · refine h.linearized.answer (by rw [hphase]; rfl) fun u hu => ?_
      rw [call, hS.check u c.state (calls t) hu, hl]
      refine hS.commit _ _ l ?_
      rw [hS.between, hu]

omit [DecidableEq τ] in
theorem tracked_initial (s : σ) : Tracked S calls view Good s (Config.initial s) where
  good t k hk := by cases hk
  linearized := ⟨[], List.nodup_nil, fun t d => by simp [sequence, Config.initial, Phase.answer],
    rfl⟩

/-- Runs in which every second section is taken while the check would still
allow the call are linearized. -/
theorem linearized_run (hS : S.Viewed view) (hgood : S.Lasting view Good) (s : σ)
    {es : List (Event τ)}
    (hes : Runs.Along (S.step calls) (S.StillAllowed calls) (Config.initial s) es) :
    S.Linearized calls view s (Runs.run (S.step calls) (Config.initial s) es) :=
  (Runs.invariant (I := Tracked S calls view Good s) (fun _ _ h he => h.step hS hgood he)
    (tracked_initial s) hes).linearized

end Rule

end Sections
