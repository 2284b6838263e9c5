import Mathlib.Logic.Function.Iterate

/-!
Linear feedback registers.

A register holds a word; a symbol is xored into it and then a map that is linear over
xor is applied. What a register makes of a message from one state differs from what it
makes of it from another by the iterated map of the difference of the states, and a
message that fits in a word acts as that word.
-/

namespace XorRegister

variable {W S : Type} [XorOp W]

def Linear (f : W → W) : Prop := ∀ a b, f (a ^^^ b) = f a ^^^ f b

def run (f : W → W) (word : S → W) (c : W) (bs : List S) : W :=
  bs.foldl (fun c b => f (c ^^^ word b)) c

section

variable {f : W → W} {word : S → W}

@[simp] theorem run_nil (c : W) : run f word c [] = c := rfl

@[simp] theorem run_cons (c : W) (b : S) (bs : List S) :
    run f word c (b :: bs) = run f word (f (c ^^^ word b)) bs := rfl

theorem run_append (c : W) (bs cs : List S) :
    run f word c (bs ++ cs) = run f word (run f word c bs) cs := List.foldl_append

theorem run_map {V : Type} [XorOp V] {g : W → V} {f' : V → V} {word' : S → V}
    (hxor : ∀ a b, g (a ^^^ b) = g a ^^^ g b) (hf : ∀ a, g (f a) = f' (g a))
    (hword : ∀ b, g (word b) = word' b) (c : W) (bs : List S) :
    g (run f word c bs) = run f' word' (g c) bs := by
  induction bs generalizing c with
  | nil => rfl
  | cons b bs ih => rw [run_cons, run_cons, ih, hf, hxor, hword]

namespace Linear

theorem map_zero {zero : W} (hf : Linear f) (hself : ∀ a : W, a ^^^ a = zero) : f zero = zero := by
  have h := hf zero zero
  rwa [hself, hself] at h

theorem comp {g : W → W} (hf : Linear f) (hg : Linear g) : Linear (f ∘ g) := fun a b => by
  rw [Function.comp_apply, hg, hf]
  rfl

theorem iterate (hf : Linear f) (n : Nat) : Linear f^[n] := by
  induction n with
  | zero => exact fun _ _ => rfl
  | succ n ih => exact ih.comp hf

end Linear

theorem run_xor [Std.Associative (· ^^^ · : W → W → W)] (hf : Linear f) (a c : W) (bs : List S) :
    run f word (a ^^^ c) bs = f^[bs.length] a ^^^ run f word c bs := by
  induction bs generalizing a c with
  | nil => rfl
  | cons b bs ih =>
      have hsplit : f (a ^^^ c ^^^ word b) = f a ^^^ f (c ^^^ word b) := by
        rw [@Std.Associative.assoc W (· ^^^ ·) _ a c (word b), hf]
      rw [run_cons, run_cons, hsplit, ih, List.length_cons, Function.iterate_succ_apply]

theorem run_injective (h : ∀ b : S, Function.Injective fun c => f (c ^^^ word b)) (bs : List S) :
    Function.Injective fun c => run f word c bs := by
  induction bs with
  | nil => exact fun _ _ h => h
  | cons b bs ih => exact ih.comp (h b)

/-- A message acts as a single word, if the word of a longer message is the first symbol
and, one turn ahead, the word of the others. -/
theorem run_eq_iterate [Std.Associative (· ^^^ · : W → W → W)] (hf : Linear f) {zero : W}
    (hzero : ∀ c : W, c ^^^ zero = c) {text : List S → W} (hnil : text [] = zero) {limit : Nat}
    (hcons : ∀ b bs, bs.length < limit → ∃ ahead, f ahead = text bs ∧
      text (b :: bs) = word b ^^^ ahead) (c : W) {bs : List S} (hbs : bs.length ≤ limit) :
    run f word c bs = f^[bs.length] (c ^^^ text bs) := by
  induction bs generalizing c with
  | nil => rw [run_nil, hnil, List.length_nil, Function.iterate_zero_apply, hzero]
  | cons b bs ih =>
      obtain ⟨ahead, hahead, htext⟩ := hcons b bs hbs
      have hfirst : f (c ^^^ text (b :: bs)) = f (c ^^^ word b) ^^^ text bs := by
        rw [htext, ← @Std.Associative.assoc W (· ^^^ ·) _ c (word b) ahead, hf, hahead]
      rw [run_cons, ih _ (Nat.le_of_lt hbs), List.length_cons, Function.iterate_succ_apply, hfirst]

end

end XorRegister
