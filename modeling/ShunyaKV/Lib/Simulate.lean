import Mathlib.Tactic.Common
import Mathlib.Tactic.Lemma

/-!
Programs on a concrete state that do what others do on an abstract one.
-/

namespace ShunyaKV.Lib.Simulate

variable {σ τ ε α β : Type} {I : σ → Prop} {abs : σ → τ}

variable (I abs) in
/-- From a state with `I`, `x` does what `y` does on what `abs` makes of the state: both throw the
same, or both return the same, and then `x` has kept `I`. -/
def Simulates (x : StateT σ (Except ε) α) (y : StateT τ (Except ε) α) : Prop :=
  ∀ s, I s → (∃ e, x s = .error e ∧ y (abs s) = .error e) ∨
    ∃ a t, x s = .ok (a, t) ∧ I t ∧ y (abs s) = .ok (a, abs t)

lemma simulates_pure (a : α) : Simulates (ε := ε) I abs (pure a) (pure a) :=
  fun s hs => .inr ⟨a, s, rfl, hs, rfl⟩

lemma simulates_throw (e : ε) : Simulates I abs (throw e : StateT σ (Except ε) α) (throw e) :=
  fun _ _ => .inl ⟨e, rfl, rfl⟩

/-- **One after the other.** -/
lemma Simulates.bind {x : StateT σ (Except ε) α} {y : StateT τ (Except ε) α}
    {f : α → StateT σ (Except ε) β} {g : α → StateT τ (Except ε) β} (h : Simulates I abs x y)
    (hf : ∀ a, Simulates I abs (f a) (g a)) : Simulates I abs (x >>= f) (y >>= g) := by
  intro s hs
  have hx : (x >>= f) s = (x s).bind fun p => f p.1 p.2 := rfl
  have hy : (y >>= g) (abs s) = (y (abs s)).bind fun p => g p.1 p.2 := rfl
  rw [hx, hy]
  rcases h s hs with ⟨e, he, he'⟩ | ⟨a, t, ha, ht, ha'⟩
  · rw [he, he']
    exact .inl ⟨e, rfl, rfl⟩
  · rw [ha, ha']
    exact hf a t ht

lemma Simulates.ite {x x' : StateT σ (Except ε) α} {y y' : StateT τ (Except ε) α} {c : Prop}
    [Decidable c] (h : Simulates I abs x y) (h' : Simulates I abs x' y') :
    Simulates I abs (if c then x else x') (if c then y else y') := by
  split
  · exact h
  · exact h'

lemma bind_eq_ok_iff {x : StateT σ (Except ε) α} {f : α → StateT σ (Except ε) β} {s t : σ} {b : β} :
    (x >>= f) s = .ok (b, t) ↔ ∃ a u, x s = .ok (a, u) ∧ f a u = .ok (b, t) := by
  have hx : (x >>= f) s = (x s).bind fun p => f p.1 p.2 := rfl
  rw [hx]
  cases x s with
  | error e => simp [Except.bind]
  | ok p =>
    obtain ⟨a, u⟩ := p
    simp [Except.bind]

end ShunyaKV.Lib.Simulate
