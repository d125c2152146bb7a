import Mathlib.Algebra.Order.Floor.Div
import Mathlib.Algebra.Order.Group.Nat
import Mathlib.Order.Monotone.Basic
import Mathlib.Tactic.Lemma
import Mathlib.Tactic.Common

/-!
Cutting `N` points into `D` parts of nearly equal size, in two ways: by the part a point
scales to, and by the first point of each part, rounded down. Rounded up, the first points mark
off the parts that points scale to.
-/

namespace ShunyaKV.Lib.Parts

/-- The part that the point `h` scales to. -/
def part (N D h : ℕ) : ℕ := h * D / N

/-- The first point of part `i`, rounded down. -/
def start (N D i : ℕ) : ℕ := N * i / D

variable {N D : ℕ}

lemma part_lt {h : ℕ} (hh : h < N) (hD : 0 < D) : part N D h < D := by
  rw [part, Nat.div_lt_iff_lt_mul (by omega), Nat.mul_comm D]
  exact Nat.mul_lt_mul_of_pos_right hh hD

lemma start_mono : Monotone (start N D) := fun _ _ h =>
  Nat.div_le_div_right (Nat.mul_le_mul_left N h)

lemma start_le {i : ℕ} (hi : i ≤ D) (hD : 0 < D) : start N D i ≤ N :=
  calc start N D i ≤ start N D D := start_mono hi
    _ = N := Nat.mul_div_cancel N hD

lemma start_lt {i : ℕ} (hi : i < D) (hN : 0 < N) : start N D i < N := by
  rw [start, Nat.div_lt_iff_lt_mul (by omega)]
  exact Nat.mul_lt_mul_of_pos_left hi hN

lemma start_succ_pos {i : ℕ} (hD : 0 < D) (hN : D ≤ N) : 0 < start N D (i + 1) := by
  rw [start, Nat.div_pos_iff]
  exact ⟨hD, Nat.le_trans hN (Nat.le_mul_of_pos_right N (Nat.succ_pos i))⟩

/-- No point lies in two of the parts that the rounded first points mark off. -/
lemma eq_of_start_le {h i j : ℕ} (hi : start N D i ≤ h) (hi' : h < start N D (i + 1))
    (hj : start N D j ≤ h) (hj' : h < start N D (j + 1)) : i = j := by
  rcases Nat.lt_trichotomy i j with hlt | rfl | hlt
  · have := start_mono (N := N) (D := D) (Nat.succ_le_of_lt hlt)
    simp only [Nat.succ_eq_add_one] at this
    omega
  · rfl
  · have := start_mono (N := N) (D := D) (Nat.succ_le_of_lt hlt)
    simp only [Nat.succ_eq_add_one] at this
    omega

lemma start_part_le (h : ℕ) (hD : 0 < D) : start N D (part N D h) ≤ h := by
  rw [start, part]
  calc N * (h * D / N) / D ≤ h * D / D := Nat.div_le_div_right (Nat.mul_div_le _ _)
    _ = h := Nat.mul_div_cancel h hD

/-- **The two ways agree on a point unless the next part starts, rounded down, at it.** -/
lemma lt_start_part_iff {h : ℕ} (hD : 0 < D) :
    h < start N D (part N D h + 1) ↔ h * D % N + D ≤ N := by
  have hdiv := Nat.div_add_mod (h * D) N
  rw [start, part, ← Nat.succ_le_iff, Nat.le_div_iff_mul_le hD, Nat.succ_mul, Nat.mul_succ]
  omega

lemma start_zero : start N D 0 = 0 := by rw [start, Nat.mul_zero, Nat.zero_div]

lemma start_all (hD : 0 < D) : start N D D = N := Nat.mul_div_cancel N hD

lemma start_lt_succ (hD : 0 < D) (hN : D ≤ N) (i : ℕ) : start N D i < start N D (i + 1) := by
  rw [start, start, ← Nat.succ_le_iff, Nat.le_div_iff_mul_le hD, Nat.succ_mul, Nat.mul_succ]
  have := Nat.div_mul_le_self (N * i) D
  omega

lemma part_mono : Monotone (part N D) := fun _ _ h =>
  Nat.div_le_div_right (Nat.mul_le_mul_right D h)

/-! ### First points, rounded up -/

/-- The first point of part `i`, rounded up. -/
def first (N D i : ℕ) : ℕ := (N * i) ⌈/⌉ D

lemma first_le_iff (hN : 0 < N) (hD : 0 < D) {h i : ℕ} : first N D i ≤ h ↔ i ≤ part N D h := by
  rw [first, ceilDiv_le_iff_le_mul hD, part, Nat.le_div_iff_mul_le hN, Nat.mul_comm N,
    Nat.mul_comm D]

/-- **A part is what lies between its first point and that of the next part.** -/
lemma part_eq_iff (hN : 0 < N) (hD : 0 < D) {h i : ℕ} :
    part N D h = i ↔ first N D i ≤ h ∧ h < first N D (i + 1) := by
  rw [first_le_iff hN hD, ← Nat.not_le, first_le_iff hN hD]
  omega

/-- A rounded first point is less than one point off. -/
lemma mul_first_bounds (hD : 0 < D) (i : ℕ) :
    N * i ≤ D * first N D i ∧ D * first N D i < N * i + D := by
  have hle (c : ℕ) : first N D i ≤ c ↔ N * i ≤ D * c := by rw [first, ceilDiv_le_iff_le_mul hD]
  refine ⟨(hle _).mp (Nat.le_refl _), ?_⟩
  rcases hfirst : first N D i with _ | c
  · omega
  · have hc : ¬ first N D i ≤ c := by omega
    rw [hle] at hc
    rw [Nat.mul_succ]
    omega

lemma first_le (hD : 0 < D) {i : ℕ} (hi : i ≤ D) : first N D i ≤ N := by
  rw [first, ceilDiv_le_iff_le_mul hD, Nat.mul_comm]
  exact Nat.mul_le_mul_right N hi

/-- No part is empty if there are as many points as parts. -/
lemma first_lt_succ (hD : 0 < D) (hN : D ≤ N) (i : ℕ) : first N D i < first N D (i + 1) := by
  obtain ⟨-, hhi⟩ := mul_first_bounds (N := N) hD i
  obtain ⟨hlo, -⟩ := mul_first_bounds (N := N) hD (i + 1)
  rw [Nat.mul_succ] at hlo
  exact Nat.lt_of_mul_lt_mul_left (a := D) (by omega)

/-- **The sizes of two parts differ by at most one.** -/
lemma size_le_succ (hD : 0 < D) (i j : ℕ) :
    first N D (i + 1) - first N D i ≤ first N D (j + 1) - first N D j + 1 := by
  obtain ⟨hi, -⟩ := mul_first_bounds (N := N) hD i
  obtain ⟨-, hi'⟩ := mul_first_bounds (N := N) hD (i + 1)
  obtain ⟨-, hj⟩ := mul_first_bounds (N := N) hD j
  obtain ⟨hj', -⟩ := mul_first_bounds (N := N) hD (j + 1)
  rw [Nat.mul_succ] at hi' hj'
  have hlt : D * (first N D (i + 1) - first N D i) <
      D * (first N D (j + 1) - first N D j + 2) := by
    rw [Nat.mul_sub, Nat.mul_add, Nat.mul_sub]
    omega
  have := Nat.lt_of_mul_lt_mul_left hlt
  omega

end ShunyaKV.Lib.Parts
