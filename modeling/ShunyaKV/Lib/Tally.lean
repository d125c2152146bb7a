import Mathlib.Data.List.Basic
import Mathlib.Tactic.Common
import Mathlib.Tactic.Lemma

/-!
What the members of a list amount to, when one of them changes at a time.
-/

namespace ShunyaKV.Lib.Tally

variable {α : Type*} {f : α → ℕ}

variable (f) in
def tally : List α → ℕ
  | [] => 0
  | a :: l => f a + tally l

@[simp] lemma tally_nil : tally f [] = 0 := rfl

@[simp] lemma tally_cons (a : α) (l : List α) : tally f (a :: l) = f a + tally f l := rfl

@[simp] lemma tally_append (l l' : List α) : tally f (l ++ l') = tally f l + tally f l' := by
  induction l with
  | nil => simp
  | cons a l ih =>
    rw [List.cons_append, tally_cons, tally_cons, ih]
    omega

/-- **One member changes.** -/
lemma tally_set {l : List α} {i : ℕ} {a : α} (h : l[i]? = some a) (b : α) :
    tally f (l.set i b) + f a = tally f l + f b := by
  induction l generalizing i with
  | nil => simp at h
  | cons c l ih =>
    cases i with
    | zero =>
      obtain rfl : c = a := by simpa using h
      rw [List.set_cons_zero, tally_cons, tally_cons]
      omega
    | succ i =>
      have hl := ih (by simpa using h)
      rw [List.set_cons_succ, tally_cons, tally_cons]
      omega

lemma tally_eq_zero_iff {l : List α} : tally f l = 0 ↔ ∀ a ∈ l, f a = 0 := by
  induction l with
  | nil => simp
  | cons a l ih => rw [tally_cons, Nat.add_eq_zero_iff, ih, List.forall_mem_cons]

lemma tally_map {g : α → α} (hg : ∀ a, f (g a) = f a) (l : List α) :
    tally f (l.map g) = tally f l := by
  induction l with
  | nil => rfl
  | cons a l ih => rw [List.map_cons, tally_cons, tally_cons, ih, hg]

lemma tally_map_add {g : α → α} {k : ℕ} {l : List α} (hg : ∀ a ∈ l, f (g a) = f a + k) :
    tally f (l.map g) = tally f l + k * l.length := by
  induction l with
  | nil => rfl
  | cons a l ih =>
    rw [List.map_cons, tally_cons, tally_cons, hg a List.mem_cons_self,
      ih fun b hb => hg b (List.mem_cons_of_mem a hb), List.length_cons, Nat.mul_succ]
    omega

lemma tally_ite (p : α → Bool) (l : List α) :
    tally (fun a => if p a then 1 else 0) l = l.countP p := by
  induction l with
  | nil => rfl
  | cons a l ih => rw [tally_cons, List.countP_cons, ih, Nat.add_comm]

end ShunyaKV.Lib.Tally
