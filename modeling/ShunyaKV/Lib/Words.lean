import Mathlib.Data.List.TakeWhile
import Mathlib.Tactic.Lemma
import Mathlib.Tactic.Common

/-!
Words in longer lists: a list that ends inside a word, lines, words in their order, and codes
in which no word is the beginning of another.
-/

namespace ShunyaKV.Lib.Words

variable {α : Type*}

lemma append_eq_append_cases {a r u v : List α} (h : a ++ r = u ++ v) :
    (∃ a', a = u ++ a' ∧ a' ++ r = v) ∨ ∃ y, y ≠ [] ∧ u = a ++ y ∧ r = y ++ v := by
  rcases List.append_eq_append_iff.mp h with ⟨y, rfl, rfl⟩ | ⟨a', rfl, rfl⟩
  · by_cases hy : y = []
    · subst hy
      exact .inl ⟨[], by simp, by simp⟩
    · exact .inr ⟨y, hy, rfl, rfl⟩
  · exact .inl ⟨a', rfl, rfl⟩

lemma length_of_mapM {β : Type*} {f : α → Option β} {l : List α} {r : List β}
    (h : l.mapM f = some r) : r.length = l.length := by
  induction l generalizing r with
  | nil => simp_all
  | cons a l ih =>
    simp only [List.mapM_cons, Option.bind_eq_bind, Option.bind_eq_some_iff] at h
    obtain ⟨b, -, bs, hbs, h⟩ := h
    cases h
    simp [ih hbs]

lemma mapM_eq_map {β : Type*} {f : α → Option β} {g : α → β} {l : List α}
    (h : ∀ a ∈ l, f a = some (g a)) : l.mapM f = some (l.map g) := by
  induction l with
  | nil => rfl
  | cons a l ih =>
    rw [List.mapM_cons, h a (by simp), ih fun b hb => h b (by simp [hb])]
    rfl

lemma drop_length_takeWhile (p : α → Bool) (l : List α) :
    l.drop (l.takeWhile p).length = l.dropWhile p := by
  have h : (l.takeWhile p ++ l.dropWhile p).drop (l.takeWhile p).length = l.dropWhile p :=
    List.drop_left
  rwa [List.takeWhile_append_dropWhile] at h

section Lines

variable [DecidableEq α]

lemma takeWhile_ne_append {l : List α} {x : α} (h : x ∉ l) (r : List α) :
    (l ++ x :: r).takeWhile (· ≠ x) = l := by
  rw [List.takeWhile_append_of_pos]
  · simp
  · intro b hb
    simpa using fun e : b = x => h (e ▸ hb)

lemma takeWhile_ne_self {l : List α} {x : α} (h : x ∉ l) : l.takeWhile (· ≠ x) = l := by
  rw [List.takeWhile_eq_self_iff]
  intro b hb
  simpa using fun e : b = x => h (e ▸ hb)

/-- Up to a mark, what comes before it is dropped, and nothing after it. -/
lemma dropWhile_ne_append {l : List α} {x : α} (h : x ∉ l) (r : List α) :
    (l ++ r).dropWhile (· ≠ x) = r.dropWhile (· ≠ x) := by
  rw [List.dropWhile_append_of_pos]
  intro b hb
  simpa using fun e : b = x => h (e ▸ hb)

lemma dropWhile_ne_eq_nil {l : List α} {x : α} (h : x ∉ l) : l.dropWhile (· ≠ x) = [] := by
  simpa using dropWhile_ne_append h []

/-- A line is what comes before its first end mark. -/
lemma line_unique {u v x y : List α} {e : α} (hu : e ∉ u) (hv : e ∉ v)
    (h : u ++ e :: x = v ++ e :: y) : u = v := by
  have := congrArg (List.takeWhile (· ≠ e)) h
  rwa [takeWhile_ne_append hu, takeWhile_ne_append hv] at this

/-- **Lines are read back from the beginning of a text.** A text that begins with some lines and
consists of others and an unfinished one has the former as its first lines. -/
lemma lines_append {us vs : List (List α)} {r y : List α} {e : α} (hu : ∀ u ∈ us, e ∉ u)
    (hv : ∀ v ∈ vs, e ∉ v) (hy : e ∉ y)
    (h : us.flatMap (· ++ [e]) ++ r = vs.flatMap (· ++ [e]) ++ y) :
    ∃ ws, vs = us ++ ws ∧ r = ws.flatMap (· ++ [e]) ++ y := by
  induction us generalizing vs with
  | nil => exact ⟨vs, rfl, h⟩
  | cons u us ih =>
    rw [List.flatMap_cons, List.append_assoc, List.append_assoc, List.singleton_append] at h
    cases vs with
    | nil =>
      rw [List.flatMap_nil, List.nil_append] at h
      exact absurd (h ▸ by simp) hy
    | cons v vs =>
      rw [List.flatMap_cons, List.append_assoc, List.append_assoc, List.singleton_append] at h
      obtain rfl := line_unique (hu u (by simp)) (hv v (by simp)) h
      obtain ⟨ws, rfl, hr⟩ := ih (fun w hw => hu w (by simp [hw])) (fun w hw => hv w (by simp [hw]))
        (List.cons.inj (List.append_cancel_left h)).2
      exact ⟨ws, rfl, hr⟩

end Lines

/-- The words lie in a list one after the other, none of them over another. -/
inductive InOrder : List (List α) → List α → Prop
  | nil (w : List α) : InOrder [] w
  | cons {u w : List α} {us : List (List α)} (gap : List α) (h : InOrder us w) :
    InOrder (u :: us) (gap ++ u ++ w)

lemma InOrder.append {us : List (List α)} {w : List α} (h : InOrder us w) (v : List α) :
    InOrder us (w ++ v) := by
  induction h with
  | nil w => exact .nil _
  | cons gap _ ih =>
    rw [List.append_assoc]
    exact .cons gap ih

lemma InOrder.concat {us : List (List α)} {w : List α} (h : InOrder us w) (u : List α) :
    InOrder (us ++ [u]) (w ++ u) := by
  induction h with
  | nil w => simpa using InOrder.cons (u := u) w (.nil [])
  | cons gap _ ih =>
    rw [List.append_assoc]
    exact .cons gap ih

/-- No word is empty or the beginning of another one. -/
structure PrefixFree (P : List α → Prop) : Prop where
  ne_nil {u : List α} : P u → u ≠ []
  eq {u v x y : List α} : P u → P v → u ++ x = v ++ y → u = v

/-- **The words of a prefix-free code are read back from their concatenation.** -/
lemma PrefixFree.flatten_inj {P : List α → Prop} (hP : PrefixFree P) {us vs : List (List α)}
    (hus : ∀ u ∈ us, P u) (hvs : ∀ v ∈ vs, P v) (h : us.flatten = vs.flatten) : us = vs := by
  induction us generalizing vs with
  | nil =>
    cases vs with
    | nil => rfl
    | cons v vs => exact absurd h.symm (by simp [hP.ne_nil (hvs v (by simp))])
  | cons u us ih =>
    cases vs with
    | nil => exact absurd h (by simp [hP.ne_nil (hus u (by simp))])
    | cons v vs =>
      rw [List.flatten_cons, List.flatten_cons] at h
      obtain rfl := hP.eq (hus u (by simp)) (hvs v (by simp)) h
      rw [ih (fun w hw => hus w (by simp [hw])) (fun w hw => hvs w (by simp [hw]))
        (List.append_cancel_left h)]

end ShunyaKV.Lib.Words
