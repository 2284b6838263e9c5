import Mathlib.Data.List.Basic

/-!
Writers and readers over a list of symbols.

A writer is the list of symbols that it puts out, or a failure. A reader takes a
value off the front of its input, or fails; the monad under it says what a failure
carries. `Reads w r a` says that `r` takes `a` off the front of whatever `w` puts
out, and exactly that; `ReadsIf P w r a` that it takes nothing else, and takes it
if `P` holds. The rules for them follow a reader bind by bind and a writer field
by field.
-/

namespace Codec

variable {S E α γ : Type} {m : Type → Type}

abbrev Writer (S : Type) := Option (List S)

/-- A reader that fails without a word. -/
abbrev Reader (S α : Type) := StateT (List S) Option α

/-! ### Readers -/

theorem run_bind_eq_some {r : Reader S α} {k : α → Reader S γ} {s t : List S} {c : γ} :
    (r >>= k).run s = some (c, t) ↔ ∃ a u, r.run s = some (a, u) ∧ (k a).run u = some (c, t) := by
  rw [StateT.run_bind]
  cases r.run s with
  | none => simp
  | some p =>
      obtain ⟨a, u⟩ := p
      simp

theorem run_pure_eq_some {a b : α} {s t : List S} :
    (pure a : Reader S α).run s = some (b, t) ↔ a = b ∧ s = t := by
  simp

theorem run_map_eq_some {f : α → γ} {r : Reader S α} {s t : List S} {c : γ} :
    (f <$> r).run s = some (c, t) ↔ ∃ a, r.run s = some (a, t) ∧ f a = c := by
  rw [StateT.run_map]
  cases r.run s with
  | none => simp
  | some p =>
      constructor
      · intro h
        obtain ⟨rfl, rfl⟩ := Prod.mk.inj (Option.some.inj h)
        exact ⟨p.1, rfl, rfl⟩
      · rintro ⟨a, h, rfl⟩
        rw [Option.some.inj h]
        rfl

def take (n : Nat) : Reader S (List S) := fun s =>
  if s.length < n then none else some (s.take n, s.drop n)

theorem run_take_eq_some {n : Nat} {s t u : List S} :
    (take n).run s = some (u, t) ↔ u.length = n ∧ s = u ++ t := by
  show (if s.length < n then none else some (s.take n, s.drop n)) = some (u, t) ↔ _
  by_cases hn : s.length < n
  · rw [if_pos hn]
    constructor
    · exact fun h => nomatch h
    · rintro ⟨hu, rfl⟩
      rw [List.length_append] at hn
      omega
  · rw [if_neg hn]
    constructor
    · intro h
      obtain ⟨rfl, rfl⟩ := Prod.mk.inj (Option.some.inj h)
      exact ⟨by rw [List.length_take]; omega, (List.take_append_drop n s).symm⟩
    · rintro ⟨rfl, rfl⟩
      rw [List.take_left, List.drop_left]

def many (r : Reader S α) : Nat → Reader S (List α)
  | 0 => pure []
  | n + 1 => do
      let a ← r
      let rest ← many r n
      return a :: rest

def label (e : E) (r : Reader S α) : StateT (List S) (Except E) α := fun s =>
  match r.run s with
  | none => .error e
  | some p => .ok p

theorem run_label_none {e : E} {r : Reader S α} {s : List S} (h : r.run s = none) :
    (label e r).run s = .error e := by
  show (match r.run s with
    | none => _
    | some p => _) = _
  rw [h]

theorem run_label_some {e : E} {r : Reader S α} {s : List S} {p : α × List S}
    (h : r.run s = some p) : (label e r).run s = .ok p := by
  show (match r.run s with
    | none => _
    | some p => _) = _
  rw [h]

/-! ### Writers -/

/-- The fields of a record, one after the other; it fails if one of them does. -/
def fields : List (Writer S) → Writer S
  | [] => some []
  | w :: ws => w.bind fun front => (fields ws).map fun rest => front ++ rest

theorem fields_cons_eq_some {w : Writer S} {ws : List (Writer S)} {bs : List S} :
    fields (w :: ws) = some bs ↔
      ∃ front rest, w = some front ∧ fields ws = some rest ∧ bs = front ++ rest := by
  cases w with
  | none => simp [fields]
  | some front =>
      cases hws : fields ws with
      | none => simp [fields, hws]
      | some rest => simp [fields, hws, eq_comm]

theorem fields_append_eq_some {ws vs : List (Writer S)} {bs : List S} :
    fields (ws ++ vs) = some bs ↔
      ∃ front rest, fields ws = some front ∧ fields vs = some rest ∧ bs = front ++ rest := by
  induction ws generalizing bs with
  | nil => simp [fields]
  | cons w ws ih =>
      rw [List.cons_append, fields_cons_eq_some]
      constructor
      · rintro ⟨front, rest, hfront, hrest, rfl⟩
        obtain ⟨middle, back, hmiddle, hback, rfl⟩ := ih.mp hrest
        exact ⟨front ++ middle, back, fields_cons_eq_some.mpr ⟨_, _, hfront, hmiddle, rfl⟩, hback,
          (List.append_assoc _ _ _).symm⟩
      · rintro ⟨front, rest, hfront, hrest, rfl⟩
        obtain ⟨first, middle, hfirst, hmiddle, rfl⟩ := fields_cons_eq_some.mp hfront
        exact ⟨first, middle ++ rest, hfirst, ih.mpr ⟨_, _, hmiddle, hrest, rfl⟩,
          List.append_assoc _ _ _⟩

theorem isSome_fields {ws : List (Writer S)} : (fields ws).isSome ↔ ∀ w ∈ ws, w.isSome := by
  induction ws with
  | nil => simp [fields]
  | cons w ws ih =>
      rw [List.forall_mem_cons, ← ih]
      cases w with
      | none => simp [fields]
      | some front => simp [fields]

def width (w : Writer S) : Option Nat := w.map List.length

theorem width_eq_some {w : Writer S} {n : Nat} :
    width w = some n ↔ ∃ bs, w = some bs ∧ bs.length = n := by
  simp [width]

theorem width_fields_cons (w : Writer S) (ws : List (Writer S)) :
    width (fields (w :: ws)) = (width w).bind fun n => (width (fields ws)).map fun k => n + k := by
  cases w with
  | none => rfl
  | some front => cases hws : fields ws <;> simp [fields, width, hws]

theorem width_fields_congr {ws vs : List (Writer S)} (h : ws.map width = vs.map width) :
    width (fields ws) = width (fields vs) := by
  induction ws generalizing vs with
  | nil =>
      rw [List.map_eq_nil_iff.mp h.symm]
  | cons w ws ih =>
      obtain ⟨v, vs, rfl⟩ := List.exists_cons_of_ne_nil fun hnil : vs = [] => by simp [hnil] at h
      rw [List.map_cons, List.map_cons, List.cons.injEq] at h
      rw [width_fields_cons, width_fields_cons, h.1, ih h.2]

theorem width_fields_perm {ws vs : List (Writer S)} (h : ws.Perm vs) :
    width (fields ws) = width (fields vs) := by
  induction h with
  | nil => rfl
  | cons w _ ih => rw [width_fields_cons, width_fields_cons, ih]
  | swap w v ws =>
      simp only [width_fields_cons]
      cases width w <;> cases width v <;> cases width (fields ws) <;> simp [Nat.add_left_comm]
  | trans _ _ ih₁ ih₂ => exact ih₁.trans ih₂

/-! ### What is written is read -/

section Reads

variable [Monad m] {w : Writer S} {ws : List (Writer S)} {r : StateT (List S) m α} {a : α}

/-- The reader takes the value off whatever the writer puts out. -/
def Reads (w : Writer S) (r : StateT (List S) m α) (a : α) : Prop :=
  ∀ bs, w = some bs → ∀ rest, r.run (bs ++ rest) = pure (a, rest)

theorem reads_some {bs : List S} (h : ∀ rest, r.run (bs ++ rest) = pure (a, rest)) :
    Reads (some bs) r a := by
  intro bs' hbs'
  obtain rfl := Option.some.inj hbs'
  exact h

namespace Reads

theorem done : Reads (fields ([] : List (Writer S))) (pure a : StateT (List S) m α) a :=
  reads_some fun _ => rfl

/-- The fields of a record inside another may be read one by one. -/
theorem nested {vs : List (Writer S)} (h : Reads (fields (ws ++ vs)) r a) :
    Reads (fields (fields ws :: vs)) r a := by
  intro bs hbs
  exact h bs (fields_append_eq_some.mpr (fields_cons_eq_some.mp hbs))

variable [LawfulMonad m]

theorem field {k : α → StateT (List S) m γ} {c : γ} (hfirst : Reads w r a)
    (hothers : Reads (fields ws) (k a) c) : Reads (fields (w :: ws)) (r >>= k) c := by
  intro bs hbs rest
  obtain ⟨front, back, hfront, hback, rfl⟩ := fields_cons_eq_some.mp hbs
  rw [List.append_assoc, StateT.run_bind, hfirst front hfront, pure_bind]
  exact hothers back hback rest

omit [LawfulMonad m] in
theorem last (h : Reads w r a) : Reads (fields [w]) r a := by
  intro bs hbs
  obtain ⟨front, rest, hfront, hrest, rfl⟩ := fields_cons_eq_some.mp hbs
  obtain rfl : rest = [] := (Option.some.inj hrest).symm
  rw [List.append_nil]
  exact h front hfront

/-- A reader that goes on from what it took without taking more. -/
theorem andThen {k : α → StateT (List S) m γ} {c : γ} (h : Reads w r a)
    (hk : ∀ rest, (k a).run rest = pure (c, rest)) : Reads w (r >>= k) c := by
  intro bs hbs rest
  rw [StateT.run_bind, h bs hbs, pure_bind]
  exact hk rest

theorem map {f : α → γ} (h : Reads w r a) : Reads w (f <$> r) (f a) := by
  rw [map_eq_pure_bind]
  exact h.andThen fun _ => rfl

end Reads

theorem reads_many_map {r : Reader S γ} {enc : α → Writer S} {f : α → γ} {l : List α}
    (h : ∀ a ∈ l, Reads (enc a) r (f a)) :
    Reads (fields (l.map enc)) (many r l.length) (l.map f) := by
  induction l with
  | nil => exact Reads.done
  | cons a l ih =>
      have htail := ih fun b hb => h b (List.mem_cons_of_mem a hb)
      exact (h a List.mem_cons_self).field (htail.andThen fun _ => rfl)

theorem Reads.label {r : Reader S α} (h : Reads w r a) (e : E) : Reads w (label e r) a :=
  fun bs hbs rest => run_label_some (h bs hbs rest)

end Reads

/-! ### What a reader can yield -/

/-- The monads under a reader that only adds failures: a sequence ends well exactly
through its parts. -/
class Failing (m : Type → Type) [Monad m] : Prop where
  pure_injective : ∀ {α : Type} {a b : α}, (pure a : m α) = pure b → a = b
  bind_eq_pure : ∀ {α γ : Type} {x : m α} {f : α → m γ} {c : γ}, x >>= f = pure c →
    ∃ a, x = pure a ∧ f a = pure c

instance : Failing Option where
  pure_injective := Option.some.inj
  bind_eq_pure {_ _ x f c} h := by
    cases x with
    | none => cases h
    | some a => exact ⟨a, rfl, h⟩

instance : Failing (Except E) where
  pure_injective := Except.ok.inj
  bind_eq_pure {_ _ x f c} h := by
    cases x with
    | error e => cases h
    | ok a => exact ⟨a, rfl, h⟩

section Yields

variable [Monad m] {P : α → Prop} {Q : γ → Prop} {r : StateT (List S) m α}

/-- Every value that the reader takes off an input satisfies `P`. -/
def Yields (r : StateT (List S) m α) (P : α → Prop) : Prop :=
  ∀ s a t, r.run s = pure (a, t) → P a

theorem yields_any : Yields r fun _ => True := fun _ _ _ _ => trivial

variable [Failing m]

theorem yields_pure {a : α} (h : P a) : Yields (pure a : StateT (List S) m α) P := by
  intro s b t heq
  have hpair : (a, s) = (b, t) := Failing.pure_injective heq
  rw [← (Prod.mk.inj hpair).1]
  exact h

/-- The rule that follows a reader bind by bind. -/
theorem Yields.bind {k : α → StateT (List S) m γ} (hr : Yields r P)
    (hk : ∀ a, P a → Yields (k a) Q) : Yields (r >>= k) Q := by
  intro s c u h
  rw [StateT.run_bind] at h
  obtain ⟨⟨a, t⟩, hfirst, hothers⟩ := Failing.bind_eq_pure h
  exact hk a (hr s a t hfirst) t c u hothers

theorem yields_map [LawfulMonad m] {f : α → γ} (hr : Yields r P) (hf : ∀ a, P a → Q (f a)) :
    Yields (f <$> r) Q := by
  rw [map_eq_pure_bind]
  exact hr.bind fun a ha => yields_pure (hf a ha)

end Yields

/-! ### What is written is read or refused -/

section ReadsIf

variable [Monad m] {P Q : Prop} {w : Writer S} {ws vs : List (Writer S)}
  {r : StateT (List S) m α} {a : α}

/-- The reader takes nothing but the value off whatever the writer puts out, and takes it
if `P` holds. -/
def ReadsIf (P : Prop) (w : Writer S) (r : StateT (List S) m α) (a : α) : Prop :=
  ∀ bs, w = some bs → ∀ rest, (P → r.run (bs ++ rest) = pure (a, rest)) ∧
    ∀ p, r.run (bs ++ rest) = pure p → p = (a, rest)

namespace ReadsIf

theorem reads (h : ReadsIf P w r a) (hP : P) : Reads w r a :=
  fun bs hbs rest => (h bs hbs rest).1 hP

theorem mono (h : ReadsIf P w r a) (hP : Q → P) : ReadsIf Q w r a := fun bs hbs rest =>
  ⟨fun hQ => (h bs hbs rest).1 (hP hQ), (h bs hbs rest).2⟩

theorem nested (h : ReadsIf P (fields (ws ++ vs)) r a) :
    ReadsIf P (fields (fields ws :: vs)) r a := by
  intro bs hbs
  exact h bs (fields_append_eq_some.mpr (fields_cons_eq_some.mp hbs))

end ReadsIf

variable [Failing m]

theorem Reads.readsIf (h : Reads w r a) : ReadsIf P w r a := by
  intro bs hbs rest
  refine ⟨fun _ => h bs hbs rest, fun p hp => ?_⟩
  rw [h bs hbs rest] at hp
  exact (Failing.pure_injective hp).symm

variable [LawfulMonad m]

namespace ReadsIf

theorem bind {k : α → StateT (List S) m γ} {c : γ} {front : List S}
    (hfirst : ReadsIf P w r a) (hfront : w = some front) (back : List S)
    (hothers : ∀ rest, (P → (k a).run (back ++ rest) = pure (c, rest)) ∧
      ∀ p, (k a).run (back ++ rest) = pure p → p = (c, rest)) (rest : List S) :
    (P → (r >>= k).run (front ++ back ++ rest) = pure (c, rest)) ∧
      ∀ p, (r >>= k).run (front ++ back ++ rest) = pure p → p = (c, rest) := by
  obtain ⟨hread, honly⟩ := hfirst front hfront (back ++ rest)
  rw [List.append_assoc, StateT.run_bind]
  constructor
  · intro hP
    rw [hread hP, pure_bind]
    exact (hothers rest).1 hP
  · intro p hp
    obtain ⟨q, hq, hp⟩ := Failing.bind_eq_pure hp
    obtain rfl := honly q hq
    exact (hothers rest).2 p hp

theorem field {k : α → StateT (List S) m γ} {c : γ} (hfirst : ReadsIf P w r a)
    (hothers : ReadsIf P (fields ws) (k a) c) : ReadsIf P (fields (w :: ws)) (r >>= k) c := by
  intro bs hbs rest
  obtain ⟨front, back, hfront, hback, rfl⟩ := fields_cons_eq_some.mp hbs
  exact hfirst.bind hfront back (fun rest => hothers back hback rest) rest

theorem append {k : α → StateT (List S) m γ} {c : γ} (hfirst : ReadsIf P (fields ws) r a)
    (hothers : ReadsIf P (fields vs) (k a) c) : ReadsIf P (fields (ws ++ vs)) (r >>= k) c := by
  intro bs hbs rest
  obtain ⟨front, back, hfront, hback, rfl⟩ := fields_append_eq_some.mp hbs
  exact hfirst.bind hfront back (fun rest => hothers back hback rest) rest

theorem andThen {k : α → StateT (List S) m γ} {c : γ} (h : ReadsIf P w r a)
    (hk : ∀ rest, (k a).run rest = pure (c, rest)) : ReadsIf P w (r >>= k) c := by
  intro bs hbs rest
  have hall := h.bind (k := k) (c := c) hbs [] (fun rest => ?_) rest
  · rwa [List.append_nil] at hall
  · rw [List.nil_append, hk rest]
    exact ⟨fun _ => rfl, fun p hp => (Failing.pure_injective hp).symm⟩

end ReadsIf

end ReadsIf

theorem readsIf_many {P : Prop} {r : Reader S α} {enc : α → Writer S} {l : List α}
    (h : ∀ a ∈ l, ReadsIf P (enc a) r a) : ReadsIf P (fields (l.map enc)) (many r l.length) l := by
  induction l with
  | nil => exact Reads.done.readsIf
  | cons a l ih =>
      have htail := ih fun b hb => h b (List.mem_cons_of_mem a hb)
      exact (h a List.mem_cons_self).field (htail.andThen fun _ => rfl)

theorem ReadsIf.label {P : Prop} {w : Writer S} {r : Reader S α} {a : α} (h : ReadsIf P w r a)
    (e : E) : ReadsIf P w (Codec.label e r) a := by
  intro bs hbs rest
  refine ⟨fun hP => run_label_some ((h bs hbs rest).1 hP), fun p hp => ?_⟩
  cases hrun : r.run (bs ++ rest) with
  | none =>
      rw [run_label_none hrun] at hp
      cases hp
  | some q =>
      rw [run_label_some hrun] at hp
      obtain rfl := Except.ok.inj hp
      exact (h bs hbs rest).2 q hrun

theorem yields_failure {P : α → Prop} : Yields (failure : Reader S α) P := fun _ _ _ h => nomatch h

theorem yields_many {r : Reader S α} {P : α → Prop} (h : Yields r P) (n : Nat) :
    Yields (many r n) fun l => l.length = n ∧ ∀ a ∈ l, P a := by
  induction n with
  | zero => exact yields_pure ⟨rfl, fun a ha => nomatch ha⟩
  | succ n ih =>
      refine h.bind fun a ha => ih.bind fun rest hrest => yields_pure ⟨?_, ?_⟩
      · rw [List.length_cons, hrest.1]
      · exact List.forall_mem_cons.mpr ⟨ha, hrest.2⟩

theorem Yields.label {r : Reader S α} {P : α → Prop} (h : Yields r P) (e : E) :
    Yields (Codec.label e r) P := by
  intro s a t heq
  cases hrun : r.run s with
  | none =>
      rw [run_label_none hrun] at heq
      cases heq
  | some p =>
      rw [run_label_some hrun] at heq
      obtain rfl := Except.ok.inj heq
      exact h s a t hrun

/-! ### What a reader takes off its input -/

section Consumes

variable [Monad m] {Q : α → List S → Prop} {R : γ → List S → Prop} {r : StateT (List S) m α}

/-- Every value that the reader takes off an input, and the symbols that it takes for
it, satisfy `Q`. -/
def Consumes (r : StateT (List S) m α) (Q : α → List S → Prop) : Prop :=
  ∀ s a t, r.run s = pure (a, t) → ∃ bs, s = bs ++ t ∧ Q a bs

theorem Consumes.mono {Q' : α → List S → Prop} (h : Consumes r Q)
    (hQ : ∀ a bs, Q a bs → Q' a bs) : Consumes r Q' := by
  intro s a t hrun
  obtain ⟨bs, hs, hbs⟩ := h s a t hrun
  exact ⟨bs, hs, hQ a bs hbs⟩

variable [Failing m]

theorem consumes_pure {a : α} (h : Q a []) : Consumes (pure a : StateT (List S) m α) Q := by
  intro s b t heq
  have hpair : (a, s) = (b, t) := Failing.pure_injective heq
  obtain ⟨rfl, rfl⟩ := Prod.mk.inj hpair
  exact ⟨[], rfl, h⟩

theorem Consumes.bind {k : α → StateT (List S) m γ} (hr : Consumes r Q)
    (hk : ∀ a bs, Q a bs → Consumes (k a) fun c cs => R c (bs ++ cs)) : Consumes (r >>= k) R := by
  intro s c u h
  rw [StateT.run_bind] at h
  obtain ⟨⟨a, t⟩, hfirst, hothers⟩ := Failing.bind_eq_pure h
  obtain ⟨bs, rfl, hbs⟩ := hr s a t hfirst
  obtain ⟨cs, rfl, hcs⟩ := hk a bs hbs t c u hothers
  exact ⟨bs ++ cs, (List.append_assoc bs cs u).symm, hcs⟩

theorem Consumes.map [LawfulMonad m] {f : α → γ} (hr : Consumes r Q)
    (hf : ∀ a bs, Q a bs → R (f a) bs) : Consumes (f <$> r) R := by
  rw [map_eq_pure_bind]
  exact hr.bind fun a bs ha => consumes_pure (by rw [List.append_nil]; exact hf a bs ha)

end Consumes

theorem consumes_failure {Q : α → List S → Prop} : Consumes (failure : Reader S α) Q :=
  fun _ _ _ h => nomatch h

/-- The symbols are those of the values, one after the other. -/
def Spelled (Q : α → List S → Prop) : List α → List S → Prop
  | [], bs => bs = []
  | a :: l, bs => ∃ front rest, bs = front ++ rest ∧ Q a front ∧ Spelled Q l rest

theorem consumes_many {r : Reader S α} {Q : α → List S → Prop} (h : Consumes r Q) (n : Nat) :
    Consumes (many r n) fun l bs => l.length = n ∧ Spelled Q l bs := by
  induction n with
  | zero => exact consumes_pure ⟨rfl, rfl⟩
  | succ n ih =>
      refine h.bind fun a bs ha => ih.bind fun rest cs hrest => consumes_pure ⟨?_, ?_⟩
      · rw [List.length_cons, hrest.1]
      · exact ⟨bs, cs, by rw [List.append_nil], ha, hrest.2⟩

theorem Spelled.exists_map {enc : γ → Writer S} {f : γ → α} {l : List α} {bs : List S}
    (h : Spelled (fun a bs => ∃ c, f c = a ∧ enc c = some bs) l bs) :
    ∃ l' : List γ, l'.map f = l ∧ fields (l'.map enc) = some bs := by
  induction l generalizing bs with
  | nil =>
      obtain rfl : bs = [] := h
      exact ⟨[], rfl, rfl⟩
  | cons a l ih =>
      obtain ⟨front, rest, rfl, ⟨c, rfl, hfront⟩, hrest⟩ := h
      obtain ⟨l', rfl, hback⟩ := ih hrest
      exact ⟨c :: l', rfl, fields_cons_eq_some.mpr ⟨front, rest, hfront, hback, rfl⟩⟩

theorem Consumes.label {r : Reader S α} {Q : α → List S → Prop} (h : Consumes r Q) (e : E) :
    Consumes (Codec.label e r) Q := by
  intro s a t heq
  cases hrun : r.run s with
  | none =>
      rw [run_label_none hrun] at heq
      cases heq
  | some p =>
      rw [run_label_some hrun] at heq
      obtain rfl := Except.ok.inj heq
      exact h s a t hrun

end Codec
