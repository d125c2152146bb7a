import Mathlib.Data.List.Basic
import Mathlib.Order.Monotone.Basic
import Mathlib.Tactic.Common
import Mathlib.Tactic.Lemma

/-!
Ranks and classes of a list of samples.

The samples of a list fall into numbered classes. If the list is in order of the classes, the
class of its `r`-th sample is the first one up to which there are more than `r` samples.
-/

namespace ShunyaKV.Lib.Ranks

variable {α : Type*}

section Counts

variable (f : α → ℕ)

/-- The samples in the classes before `k`. -/
def below (xs : List α) (k : ℕ) : ℕ := xs.countP fun x => f x < k

variable {f}

@[simp] lemma below_zero (xs : List α) : below f xs 0 = 0 := by simp [below]

lemma below_succ (xs : List α) (k : ℕ) :
    below f xs (k + 1) = below f xs k + xs.countP fun x => f x = k := by
  unfold below
  induction xs with
  | nil => rfl
  | cons x xs ih =>
    simp only [List.countP_cons, ih, decide_eq_true_eq]
    split_ifs <;> omega

lemma below_mono (xs : List α) : Monotone (below f xs) := by
  intro j k hjk
  refine List.countP_mono_left fun x _ hx => ?_
  simp only [decide_eq_true_eq] at hx ⊢
  omega

lemma below_perm {xs ys : List α} (h : xs.Perm ys) (k : ℕ) : below f xs k = below f ys k :=
  h.countP_eq _

end Counts

section Sorted

variable {f : α → ℕ} {ys : List α} {r : ℕ}

lemma le_of_sorted (hs : ys.Pairwise fun y y' => f y ≤ f y') {i j : ℕ} (hij : i ≤ j)
    (hj : j < ys.length) : f ys[i] ≤ f ys[j] := by
  rcases Nat.lt_or_ge i j with h | h
  · exact List.pairwise_iff_getElem.mp hs i j _ hj h
  · obtain rfl : i = j := by omega
    exact Nat.le_refl _

/-- The samples up to the `r`-th one are in its class or before. -/
lemma lt_below_of_sorted (hs : ys.Pairwise fun y y' => f y ≤ f y') (hr : r < ys.length) :
    r < below f ys (f ys[r] + 1) := by
  have hall : ∀ y ∈ ys.take (r + 1), f y < f ys[r] + 1 := by
    intro y hy
    obtain ⟨i, hi, rfl⟩ := List.getElem_of_mem hy
    rw [List.length_take] at hi
    rw [List.getElem_take]
    exact Nat.lt_succ_of_le (le_of_sorted hs (by omega) hr)
  calc r < (ys.take (r + 1)).length := by rw [List.length_take]; omega
    _ = (ys.take (r + 1)).countP fun y => f y < f ys[r] + 1 := by
        rw [eq_comm, List.countP_eq_length]
        simpa using hall
    _ ≤ below f ys (f ys[r] + 1) := (List.take_sublist _ _).countP_le

lemma below_le_of_sorted (hs : ys.Pairwise fun y y' => f y ≤ f y') (hr : r < ys.length) :
    below f ys (f ys[r]) ≤ r := by
  have hnone : ∀ y ∈ ys.drop r, ¬ f y < f ys[r] := by
    intro y hy
    obtain ⟨i, hi, rfl⟩ := List.getElem_of_mem hy
    rw [List.length_drop] at hi
    rw [List.getElem_drop]
    exact Nat.not_lt.mpr (le_of_sorted hs (Nat.le_add_right r i) (by omega))
  have hzero : (ys.drop r).countP (fun y => f y < f ys[r]) = 0 :=
    List.countP_eq_zero.mpr (by simpa using hnone)
  calc below f ys (f ys[r]) = (ys.take r ++ ys.drop r).countP fun y => f y < f ys[r] := by
        rw [List.take_append_drop, below]
    _ = (ys.take r).countP (fun y => f y < f ys[r]) + 0 := by
        rw [List.countP_append, hzero]
    _ ≤ (ys.take r).length := List.countP_le_length
    _ ≤ r := List.length_take_le _ _

end Sorted

end ShunyaKV.Lib.Ranks
