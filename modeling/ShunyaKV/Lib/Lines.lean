import Mathlib.Data.List.DropRight
import ShunyaKV.Lib.Words

/-!
Texts that are read line by line: words between blanks, and values of which the last one counts.
-/

namespace ShunyaKV.Lib.Lines

variable {α β σ : Type*}

section Strip

variable {blank : α → Bool}

variable (blank) in
/-- A list without the blanks at both ends. -/
def strip (s : List α) : List α := (s.dropWhile blank).rdropWhile blank

variable (blank) in
/-- `t` is what is left of `s` without the blanks at both ends. -/
structure Stripped (s t : List α) : Prop where
  around : ∃ l r, s = l ++ t ++ r ∧ (∀ a ∈ l, blank a) ∧ ∀ a ∈ r, blank a
  head : ∀ a ∈ t.head?, ¬ blank a
  last : ∀ a ∈ t.getLast?, ¬ blank a

lemma rdropWhile_append_blank (s : List α) {r : List α} (hr : ∀ a ∈ r, blank a) :
    (s ++ r).rdropWhile blank = s.rdropWhile blank := by
  rw [List.rdropWhile, List.reverse_append, List.dropWhile_append_of_pos]
  · rfl
  · simpa using hr

lemma rdropWhile_append_cons (x y : List α) {e : α} (he : ¬ blank e) :
    (x ++ e :: y).rdropWhile blank = x ++ e :: y.rdropWhile blank := by
  induction y using List.reverseRecOn with
  | nil => rw [List.rdropWhile_concat_neg _ _ _ he, List.rdropWhile_nil]
  | append_singleton y b ih =>
    have hassoc : x ++ e :: (y ++ [b]) = (x ++ e :: y) ++ [b] := by simp
    rw [hassoc]
    by_cases hb : blank b
    · rw [List.rdropWhile_concat_pos _ _ _ hb, ih, List.rdropWhile_concat_pos _ _ _ hb]
    · rw [List.rdropWhile_concat_neg _ _ _ hb, List.rdropWhile_concat_neg _ _ _ hb, hassoc]

lemma dropWhile_append_cons (x y : List α) {e : α} (he : ¬ blank e) :
    (x ++ e :: y).dropWhile blank = x.dropWhile blank ++ e :: y := by
  induction x with
  | nil => simp [he]
  | cons a x ih =>
    by_cases ha : blank a
    · simpa [ha] using ih
    · simp [ha]

lemma strip_append_cons (x y : List α) {e : α} (he : ¬ blank e) :
    strip blank (x ++ e :: y) = x.dropWhile blank ++ e :: y.rdropWhile blank := by
  rw [strip, dropWhile_append_cons x y he, rdropWhile_append_cons _ y he]

lemma head?_strip (s : List α) : (strip blank s).head? = (s.dropWhile blank).head? := by
  rcases hs : s.dropWhile blank with _ | ⟨e, t⟩
  · rw [strip, hs, List.rdropWhile_nil]
  · have he : ¬ blank e := by
      have := List.head?_dropWhile_not blank s
      simpa [hs] using this
    have hcons := rdropWhile_append_cons [] t he
    rw [List.nil_append] at hcons
    rw [strip, hs, hcons]
    rfl

lemma strip_sublist (s : List α) : (strip blank s).Sublist s :=
  (List.rdropWhile_prefix _ _).sublist.trans (List.dropWhile_sublist _)

/-- What is stripped has no blanks at its ends, and only blanks are cut off. -/
lemma stripped_strip (s : List α) : Stripped blank s (strip blank s) where
  around := by
    refine ⟨s.takeWhile blank, (s.dropWhile blank).rtakeWhile blank, ?_, fun a ha => ?_,
      fun a ha => ?_⟩
    · rw [List.append_assoc, strip, List.rdropWhile_append_rtakeWhile,
        List.takeWhile_append_dropWhile]
    · exact List.mem_takeWhile_imp ha
    · exact List.mem_rtakeWhile_imp ha
  head := by
    intro a ha
    rw [head?_strip, Option.mem_def] at ha
    have := List.head?_dropWhile_not blank s
    simpa [ha] using this
  last := by
    intro a ha
    obtain ⟨hne, rfl⟩ := List.mem_getLast?_eq_getLast ha
    exact List.rdropWhile_last_not blank _ hne

/-- There is only one way to strip a list. -/
lemma Stripped.eq_strip {s t : List α} (h : Stripped blank s t) : t = strip blank s := by
  obtain ⟨l, r, rfl, hl, hr⟩ := h.around
  rw [strip, List.append_assoc, List.dropWhile_append_of_pos hl]
  rcases t with _ | ⟨e, t⟩
  · rw [List.nil_append, List.dropWhile_eq_nil_iff.mpr hr, List.rdropWhile_nil]
  · have he : ¬ blank e := h.head e (by simp)
    have hstop : (e :: t ++ r).dropWhile blank = e :: t ++ r := by simp [he]
    have hlast : (e :: t).rdropWhile blank = e :: t :=
      List.rdropWhile_eq_self_iff.mpr fun hne => h.last _ (List.getLast?_eq_getLast_of_ne_nil hne)
    rw [hstop, rdropWhile_append_blank _ hr, hlast]

lemma stripped_iff {s t : List α} : Stripped blank s t ↔ strip blank s = t :=
  ⟨fun h => h.eq_strip.symm, fun h => h ▸ stripped_strip s⟩

lemma strip_dropWhile (s : List α) : strip blank (s.dropWhile blank) = strip blank s := by
  rw [strip, List.dropWhile_idempotent, strip]

lemma strip_rdropWhile (s : List α) : strip blank (s.rdropWhile blank) = strip blank s := by
  have h : Stripped blank (s.rdropWhile blank) _ := stripped_strip _
  obtain ⟨l, r, hs, hl, hr⟩ := h.around
  refine Stripped.eq_strip ⟨⟨l, r ++ s.rtakeWhile blank, ?_, hl, fun a ha => ?_⟩, h.head, h.last⟩
  · rw [← List.append_assoc, ← hs, List.rdropWhile_append_rtakeWhile]
  · rcases List.mem_append.mp ha with ha | ha
    · exact hr a ha
    · exact List.mem_rtakeWhile_imp ha

end Strip

lemma idxOf?_append_cons [DecidableEq α] {l : List α} {c : α} (h : c ∉ l) (r : List α) :
    (l ++ c :: r).idxOf? c = some l.length := by
  induction l with
  | nil => simp [List.idxOf?_cons]
  | cons a l ih =>
    rw [List.mem_cons, not_or] at h
    simp [List.idxOf?_cons, ih h.2, Ne.symm h.1]

/-! ### Last values -/

section Last

variable {f : β → Option α} {xs : List β} {v : α}

/-- `v` is the value of the last line that has one. -/
def IsLast (V : β → α → Prop) (xs : List β) (v : α) : Prop :=
  ∃ ys x zs, xs = ys ++ x :: zs ∧ V x v ∧ ∀ z ∈ zs, ∀ w, ¬ V z w

/-- `v` is the value of the last line that has one, and `init` if no line has. -/
def LastOr (V : β → α → Prop) (xs : List β) (init v : α) : Prop :=
  IsLast V xs v ∨ (∀ x ∈ xs, ∀ w, ¬ V x w) ∧ v = init

variable (f) in
def last (xs : List β) : Option α := (xs.filterMap f).getLast?

lemma last_concat (xs : List β) (x : β) :
    last f (xs ++ [x]) = (f x).orElse fun _ => last f xs := by
  cases hx : f x <;> simp [last, hx]

lemma last_eq_none_iff : last f xs = none ↔ ∀ x ∈ xs, f x = none := by
  rw [last, List.getLast?_eq_none_iff, List.filterMap_eq_nil_iff]

lemma last_map {γ : Type*} (g : α → γ) (xs : List β) :
    last (fun x => (f x).map g) xs = (last f xs).map g := by
  rw [last, last, ← List.map_filterMap, List.getLast?_map]

lemma isLast_iff {V : β → α → Prop} (hV : ∀ x v, V x v ↔ f x = some v) :
    IsLast V xs v ↔ last f xs = some v := by
  simp only [IsLast, hV, ← Option.eq_none_iff_forall_ne_some]
  constructor
  · rintro ⟨ys, x, zs, rfl, hx, hzs⟩
    have hnone : zs.filterMap f = [] := List.filterMap_eq_nil_iff.mpr hzs
    simp [last, hx, hnone]
  · intro h
    obtain ⟨ws, hws⟩ := List.getLast?_eq_some_iff.mp h
    obtain ⟨ys, zs, rfl, -, hzs⟩ := List.filterMap_eq_append_iff.mp hws
    obtain ⟨ys', x, zs, rfl, -, hx, hnone⟩ := List.filterMap_eq_cons_iff.mp hzs
    exact ⟨ys ++ ys', x, zs, by simp, hx, List.filterMap_eq_nil_iff.mp hnone⟩

lemma lastOr_iff {V : β → α → Prop} (hV : ∀ x v, V x v ↔ f x = some v) {init : α} :
    LastOr V xs init v ↔ v = (last f xs).getD init := by
  have hnone : (∀ x ∈ xs, ∀ w, ¬ V x w) ↔ last f xs = none := by
    simp only [hV, last_eq_none_iff, ← Option.eq_none_iff_forall_ne_some]
  rw [LastOr, isLast_iff hV, hnone]
  cases last f xs with
  | none => simp
  | some w => simp [eq_comm]

/-- **A run in which each line sets one part of the state to its value, if it has one, leaves the
last of these values there.** -/
lemma foldl_getD {step : σ → β → σ} (get : σ → α)
    (hstep : ∀ s x, get (step s x) = (f x).getD (get s)) (s : σ) (xs : List β) :
    get (xs.foldl step s) = (last f xs).getD (get s) := by
  induction xs using List.reverseRecOn with
  | nil => rfl
  | append_singleton xs x ih =>
    rw [List.foldl_append, List.foldl_cons, List.foldl_nil, hstep, ih, last_concat]
    cases f x <;> rfl

end Last

end ShunyaKV.Lib.Lines
