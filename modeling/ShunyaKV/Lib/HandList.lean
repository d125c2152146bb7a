import Mathlib.Data.List.Nodup
import Mathlib.Data.List.TakeWhile
import Mathlib.Tactic.Lemma

/-!
Lists that a hand walks along.

A hand stands at an element of the list, or past the last one, which is written `none`.
A sweep looks at the elements of a list in order and takes those a predicate holds of,
until it has taken a given number of them: what it takes, what it passes over and what it
leaves unseen.
-/

namespace ShunyaKV.Lib.HandList

variable {α : Type*}

lemma not_mem_left {l r : List α} {x : α} (h : (l ++ x :: r).Nodup) : x ∉ l :=
  fun hx => List.disjoint_of_nodup_append h hx (by simp)

/-- The hand stands at an element of the list, or past the last one. -/
structure Stands (l : List α) (h : Option α) : Prop where
  nodup : l.Nodup
  mem : ∀ a, h = some a → a ∈ l

lemma Stands.eq_none {l : List α} {h : Option α} (hs : Stands l h) (hl : l = []) : h = none := by
  subst hl
  rcases h with _ | a
  · rfl
  · exact absurd (hs.mem a rfl) (by simp)

lemma Stands.append {l : List α} {h : Option α} {a : α} (hs : Stands l h) (ha : a ∉ l) :
    Stands (l ++ [a]) h := by
  refine ⟨List.nodup_append.mpr ⟨hs.nodup, by simp, ?_⟩, fun b hb => ?_⟩
  · intro x hx y hy e
    exact ha (by rwa [← List.mem_singleton.mp hy, ← e])
  · exact List.mem_append_left _ (hs.mem b hb)

lemma Stands.head {l : List α} (hl : l.Nodup) : Stands l l.head? :=
  ⟨hl, fun _ => List.mem_of_head?⟩

section After

variable [DecidableEq α]

/-- The element after `x`, or `none` past the last one. -/
def after (l : List α) (x : α) : Option α := (l.dropWhile (· ≠ x)).tail.head?

lemma dropWhile_ne_append {l r : List α} {x : α} (h : x ∉ l) :
    (l ++ x :: r).dropWhile (· ≠ x) = x :: r := by
  induction l with
  | nil => simp
  | cons a t ih =>
    have hne : a ≠ x := fun e => h (by simp [e])
    rw [List.cons_append, List.dropWhile_cons_of_pos (by simpa using hne)]
    exact ih fun hx => h (by simp [hx])

lemma after_append {l r : List α} {x : α} (h : x ∉ l) : after (l ++ x :: r) x = r.head? := by
  rw [after, dropWhile_ne_append h]; rfl

lemma erase_append {l r : List α} {x : α} (h : x ∉ l) : (l ++ x :: r).erase x = l ++ r := by
  rw [List.erase_append_right _ h, List.erase_cons_head]

lemma after_mem {l : List α} {a b : α} (hl : l.Nodup) (ha : a ∈ l) (h : after l a = some b) :
    b ∈ l.erase a := by
  obtain ⟨u, v, rfl⟩ := List.append_of_mem ha
  have hu := not_mem_left hl
  rw [after_append hu] at h
  rw [erase_append hu]
  exact List.mem_append_right _ (List.mem_of_head? h)

lemma head_mem_erase {l : List α} {a b : α} (hl : l.Nodup) (ha : a ∈ l)
    (h : after l a = none) (hne : l.erase a ≠ []) (hb : l.head? = some b) : b ∈ l.erase a := by
  obtain ⟨u, v, rfl⟩ := List.append_of_mem ha
  have hu := not_mem_left hl
  rw [after_append hu, List.head?_eq_none_iff] at h
  subst h
  rw [erase_append hu] at hne ⊢
  cases u with
  | nil => simp at hne
  | cons x u =>
    simp only [List.cons_append, List.head?_cons, Option.some.injEq] at hb
    simp [hb]

/-- Moving on from an element that goes, round the end of the list. -/
lemma next_mem_erase {l : List α} {a b : α} (hl : l.Nodup) (ha : a ∈ l)
    (hne : l.erase a ≠ []) (hb : (after l a).or l.head? = some b) : b ∈ l.erase a := by
  rcases hafter : after l a with _ | c
  · rw [hafter, Option.none_or] at hb
    exact head_mem_erase hl ha hafter hne hb
  · rw [hafter, Option.some_or, Option.some.injEq] at hb
    exact after_mem hl ha (hb ▸ hafter)

/-- Where the hand is after `a` has gone: it moves on if it stood there, round the end of the
list. -/
def moveOn (l : List α) (h : Option α) (a : α) : Option α :=
  if l.erase a = [] then none else if h = some a then (after l a).or l.head? else h

lemma Stands.erase {l : List α} {h : Option α} {a : α} (hs : Stands l h) (ha : a ∈ l) :
    Stands (l.erase a) (moveOn l h a) := by
  refine ⟨hs.nodup.erase a, fun b hb => ?_⟩
  unfold moveOn at hb
  split at hb
  · cases hb
  · next hne =>
    split at hb
    · exact next_mem_erase hs.nodup ha hne hb
    · next hh =>
      have hba : b ≠ a := fun e => hh (by rw [hb, e])
      exact (List.mem_erase_of_ne hba).mpr (hs.mem b hb)

end After

section Sweep

variable (p : α → Bool)

def taken : ℕ → List α → List α
  | 0, _ => []
  | _ + 1, [] => []
  | b + 1, x :: l => if p x then x :: taken b l else taken (b + 1) l

def passed : ℕ → List α → List α
  | 0, _ => []
  | _ + 1, [] => []
  | b + 1, x :: l => if p x then passed b l else x :: passed (b + 1) l

def seen : ℕ → List α → List α
  | 0, _ => []
  | _ + 1, [] => []
  | b + 1, x :: l => x :: if p x then seen b l else seen (b + 1) l

def unseen : ℕ → List α → List α
  | 0, l => l
  | _ + 1, [] => []
  | b + 1, x :: l => if p x then unseen b l else unseen (b + 1) l

/-- **A sweep takes the first `b` elements that the predicate holds of.** -/
lemma taken_eq (b : ℕ) (l : List α) : taken p b l = (l.filter p).take b := by
  induction l generalizing b with
  | nil => cases b <;> simp [taken]
  | cons x l ih =>
    cases b with
    | zero => simp [taken]
    | succ b => by_cases hx : p x <;> simp [taken, hx, ih]

variable {p} in
lemma taken_congr {q : α → Bool} (b : ℕ) {l : List α} (h : ∀ x ∈ l, p x = q x) :
    taken p b l = taken q b l := by
  rw [taken_eq, taken_eq, List.filter_congr h]

lemma mem_taken {b : ℕ} {l : List α} {x : α} (h : x ∈ taken p b l) : x ∈ l ∧ p x := by
  rw [taken_eq] at h
  simpa using List.mem_of_mem_take h

lemma left_sublist (b : ℕ) (l : List α) : (passed p b l ++ unseen p b l).Sublist l := by
  induction l generalizing b with
  | nil => cases b <;> simp [passed, unseen]
  | cons a l ih =>
    cases b with
    | zero => simp [passed, unseen]
    | succ b =>
      by_cases ha : p a
      · simpa [passed, unseen, ha] using (ih b).cons a
      · simpa [passed, unseen, ha] using ih (b + 1)

lemma mem_split (b : ℕ) (l : List α) (x : α) :
    x ∈ l ↔ x ∈ taken p b l ∨ x ∈ passed p b l ++ unseen p b l := by
  induction l generalizing b with
  | nil => cases b <;> simp [taken, passed, unseen]
  | cons a l ih =>
    cases b with
    | zero => simp [taken, passed, unseen]
    | succ b =>
      by_cases ha : p a
      · simp only [taken, passed, unseen, ha, if_true, List.mem_cons, ih b]
        tauto
      · simp only [taken, passed, unseen, ha, Bool.false_eq_true, if_false, List.mem_cons,
          List.cons_append, ih (b + 1)]
        tauto

lemma seen_append_unseen (b : ℕ) (l : List α) : seen p b l ++ unseen p b l = l := by
  induction l generalizing b with
  | nil => cases b <;> rfl
  | cons x l ih =>
    cases b with
    | zero => rfl
    | succ b => by_cases hx : p x <;> simp [seen, unseen, hx, ih]

lemma filter_seen (b : ℕ) (l : List α) : (seen p b l).filter p = taken p b l := by
  induction l generalizing b with
  | nil => cases b <;> rfl
  | cons x l ih =>
    cases b with
    | zero => rfl
    | succ b => by_cases hx : p x <;> simp [seen, taken, hx, ih]

lemma filter_not_seen (b : ℕ) (l : List α) :
    (seen p b l).filter (fun x => !p x) = passed p b l := by
  induction l generalizing b with
  | nil => cases b <;> rfl
  | cons x l ih =>
    cases b with
    | zero => rfl
    | succ b => by_cases hx : p x <;> simp [seen, passed, hx, ih]

/-- A sweep ends at the end of the list or with its budget used up. -/
lemma unseen_eq_nil_or (b : ℕ) (l : List α) : unseen p b l = [] ∨ (taken p b l).length = b := by
  induction l generalizing b with
  | nil => cases b <;> simp [unseen, taken]
  | cons x l ih =>
    cases b with
    | zero => simp [taken]
    | succ b => by_cases hx : p x <;> simp [unseen, taken, hx, ih]

/-- It does not look at anything past the last element it may take. -/
lemma length_filter_lt {b : ℕ} {l u v : List α} (h : seen p b l = u ++ v) (hv : v ≠ []) :
    (u.filter p).length < b := by
  induction l generalizing b u with
  | nil => cases b <;> simp_all [seen]
  | cons x l ih =>
    cases b with
    | zero => simp_all [seen]
    | succ b =>
      rcases u with _ | ⟨y, u⟩
      · simp
      · by_cases hx : p x
        · simp only [seen, hx, if_true, List.cons_append, List.cons.injEq] at h
          obtain ⟨rfl, h⟩ := h
          have := ih h
          simp [hx, this]
        · simp only [seen, hx, Bool.false_eq_true, if_false, List.cons_append,
            List.cons.injEq] at h
          obtain ⟨rfl, h⟩ := h
          have := ih h
          simpa [hx] using this

end Sweep

end ShunyaKV.Lib.HandList
