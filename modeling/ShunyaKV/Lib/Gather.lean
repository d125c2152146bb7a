import Mathlib.Data.List.Forall2
import ShunyaKV.Lib.Steps
import ShunyaKV.Lib.Tally

/-!
Looking at the parts of a system one after the other, while the system goes on.

What is gathered was never there at one moment. Of something that only grows, the sum over what
is gathered is still one between the sums at the beginning and at the end.
-/

namespace ShunyaKV.Lib.Gather

open ShunyaKV.Lib.Steps ShunyaKV.Lib.Tally

variable {σ α ε κ : Type*}

/-- The system goes on, or a part of it is looked at. -/
inductive Move (α ε : Type*)
  | step (a : α)
  | collect (i : ℕ) (e : ε)

structure Gathering (σ κ : Type*) where
  state : σ
  parts : List (Option κ)

def Gathering.start (s : σ) (n : ℕ) : Gathering σ κ := ⟨s, List.replicate n none⟩

/-- `look s i e` is what part `i` looks like in `s`, under circumstances `e`. -/
def Gathering.move (act : σ → α → Option σ) (look : σ → ℕ → ε → κ) (g : Gathering σ κ) :
    Move α ε → Option (Gathering σ κ)
  | .step a => (act g.state a).map fun s => { g with state := s }
  | .collect i e =>
    match g.parts[i]? with
    | some none => some { g with parts := g.parts.set i (some (look g.state i e)) }
    | _ => none

section Grow

variable {act : σ → α → Option σ} {look : σ → ℕ → ε → κ} {f : κ → ℕ} {amount : σ → ℕ → ℕ}

/-- What is gathered lies between `s` and the state now. -/
structure Between (f : κ → ℕ) (amount : σ → ℕ → ℕ) (s : σ) (n : ℕ) (g : Gathering σ κ) : Prop where
  length : g.parts.length = n
  grown : ∀ i, amount s i ≤ amount g.state i
  parts : ∀ (i : ℕ) (k : κ), g.parts[i]? = some (some k) →
    amount s i ≤ f k ∧ f k ≤ amount g.state i

/-- **One move.** -/
lemma Between.move (hlook : ∀ s i e, f (look s i e) = amount s i)
    (hact : ∀ s a t, act s a = some t → ∀ i, amount s i ≤ amount t i) {s : σ} {n : ℕ}
    {g g' : Gathering σ κ} {m : Move α ε} (h : Between f amount s n g)
    (hm : g.move act look m = some g') : Between f amount s n g' := by
  cases m with
  | step a =>
    obtain ⟨t, ht, rfl⟩ := Option.map_eq_some_iff.mp hm
    refine ⟨h.length, fun i => Nat.le_trans (h.grown i) (hact _ a t ht i), fun i k hk => ?_⟩
    obtain ⟨hlo, hhi⟩ := h.parts i k hk
    exact ⟨hlo, Nat.le_trans hhi (hact _ a t ht i)⟩
  | collect j e =>
    rcases hj : g.parts[j]? with _ | _ | k₀ <;> simp only [Gathering.move, hj] at hm <;> cases hm
    refine ⟨by simpa using h.length, h.grown, fun i k hk => ?_⟩
    rcases eq_or_ne i j with rfl | hne
    · rw [List.getElem?_set_self', hj] at hk
      cases hk
      rw [hlook]
      exact ⟨h.grown i, Nat.le_refl _⟩
    · rw [List.getElem?_set_ne hne.symm] at hk
      exact h.parts i k hk

end Grow

end ShunyaKV.Lib.Gather
