import Mathlib.Data.List.Monad
import Mathlib.Tactic.Common
import Mathlib.Tactic.Lemma

/-!
Runs of a system whose actions may be refused.
-/

namespace ShunyaKV.Lib.Steps

variable {σ α : Type*} {act : σ → α → Option σ}

/-- The state after some actions, if none of them is refused. -/
def runs (act : σ → α → Option σ) (s : σ) (acts : List α) : Option σ := acts.foldlM act s

@[simp] lemma runs_nil (s : σ) : runs act s [] = some s := rfl

lemma runs_cons (s : σ) (a : α) (acts : List α) :
    runs act s (a :: acts) = (act s a).bind fun t => runs act t acts := rfl

lemma runs_append (s : σ) (acts acts' : List α) :
    runs act s (acts ++ acts') = (runs act s acts).bind fun t => runs act t acts' := by
  simp [runs, List.foldlM_append]

lemma runs_step {s t : σ} {a : α} (h : act s a = some t) (acts : List α) :
    runs act s (a :: acts) = runs act t acts := by
  rw [runs_cons, h, Option.bind_some]

lemma runs_trans {s t : σ} {acts : List α} (h : runs act s acts = some t) (acts' : List α) :
    runs act s (acts ++ acts') = runs act t acts' := by
  rw [runs_append, h, Option.bind_some]

/-! ### Conditions on the actions -/

/-- Every action of a run meets a condition on the state it is taken in. -/
def Along (act : σ → α → Option σ) (P : σ → α → Prop) : σ → List α → Prop
  | _, [] => True
  | s, a :: acts => P s a ∧ ∀ t, act s a = some t → Along act P t acts

section Along

variable {P : σ → α → Prop} {s t : σ} {a : α} {acts acts' : List α}

lemma Along.cons_iff (ha : act s a = some t) :
    Along act P s (a :: acts) ↔ P s a ∧ Along act P t acts := by
  simp [Along, ha]

instance Along.decidable (act : σ → α → Option σ) (P : σ → α → Prop)
    [∀ s a, Decidable (P s a)] : (s : σ) → (acts : List α) → Decidable (Along act P s acts)
  | _, [] => inferInstanceAs (Decidable True)
  | s, a :: acts =>
    match h : act s a with
    | none => decidable_of_iff (P s a) (by simp [Along, h])
    | some t =>
      have := Along.decidable act P t acts
      decidable_of_iff (P s a ∧ Along act P t acts) (Along.cons_iff h).symm

lemma along_of_forall (h : ∀ s a, P s a) (s : σ) (acts : List α) : Along act P s acts := by
  induction acts generalizing s with
  | nil => trivial
  | cons a acts ih => exact ⟨h s a, fun t _ => ih t⟩

lemma Along.and {Q : σ → α → Prop} (h : Along act P s acts) (h' : Along act Q s acts) :
    Along act (fun s a => P s a ∧ Q s a) s acts := by
  induction acts generalizing s with
  | nil => trivial
  | cons a acts ih => exact ⟨⟨h.1, h'.1⟩, fun t ha => ih (h.2 t ha) (h'.2 t ha)⟩

lemma Along.front (h : Along act P s (acts ++ acts')) : Along act P s acts := by
  induction acts generalizing s with
  | nil => trivial
  | cons a acts ih => exact ⟨h.1, fun t ha => ih (h.2 t ha)⟩

lemma Along.next (h : Along act P s (acts ++ a :: acts')) (hruns : runs act s acts = some t) :
    P t a := by
  induction acts generalizing s with
  | nil =>
    cases hruns
    exact h.1
  | cons b acts ih =>
    rw [runs_cons, Option.bind_eq_some_iff] at hruns
    obtain ⟨u, hb, hruns⟩ := hruns
    exact ih (h.2 u hb) hruns

/-- **What every such action keeps holds after the run.** -/
lemma Along.runs_rule {I : σ → Prop} (hP : Along act P s acts)
    (hstep : ∀ s a t, I s → P s a → act s a = some t → I t) (hs : I s)
    (h : runs act s acts = some t) : I t := by
  induction acts generalizing s with
  | nil =>
    cases h
    exact hs
  | cons a acts ih =>
    rw [runs_cons, Option.bind_eq_some_iff] at h
    obtain ⟨u, ha, h⟩ := h
    exact ih (hP.2 u ha) (hstep s a u hs hP.1 ha) h

/-- **A condition on the actions that is exact**: it is met along a run if and only if
something holds of every state reached. -/
lemma Along.iff_reached {I Q : σ → Prop} (hI : ∀ s a t, I s → act s a = some t → I t)
    (hstep : ∀ s a t, I s → Q s → P s a → act s a = some t → Q t)
    (hback : ∀ s a, I s → Q s → ¬ P s a → ∃ t, act s a = some t ∧ ¬ Q t) (hs : I s) (hQ : Q s)
    (acts : List α) :
    Along act P s acts ↔ ∀ pre, pre <+: acts → ∀ t, runs act s pre = some t → Q t := by
  induction acts generalizing s with
  | nil =>
    refine iff_of_true trivial fun pre hpre t h => ?_
    obtain rfl := List.prefix_nil.mp hpre
    cases h
    exact hQ
  | cons a acts ih =>
    constructor
    · rintro ⟨hP, hrest⟩ pre hpre t h
      rcases List.prefix_cons_iff.mp hpre with rfl | ⟨pre, rfl, hpre'⟩
      · cases h
        exact hQ
      · rw [runs_cons, Option.bind_eq_some_iff] at h
        obtain ⟨u, ha, h⟩ := h
        exact (ih (hI s a u hs ha) (hstep s a u hs hQ hP ha)).mp (hrest u ha) pre hpre' t h
    · intro h
      have hone (u : σ) (ha : act s a = some u) : Q u :=
        h [a] (by simp) u (by rw [runs_step ha, runs_nil])
      refine ⟨?_, fun u ha => (ih (hI s a u hs ha) (hone u ha)).mpr ?_⟩
      · by_contra hP
        obtain ⟨u, ha, hn⟩ := hback s a hs hQ hP
        exact hn (hone u ha)
      · intro pre hpre t hr
        refine h (a :: pre) (List.cons_prefix_cons.mpr ⟨rfl, hpre⟩) t ?_
        rw [runs_step ha, hr]

end Along

/-! ### Invariants -/

/-- **What every action keeps holds after the run.** -/
lemma runs_rule {I : σ → Prop} (hstep : ∀ s a t, I s → act s a = some t → I t) {s t : σ}
    {acts : List α} (hs : I s) (h : runs act s acts = some t) : I t :=
  (along_of_forall (fun _ _ => trivial) s acts).runs_rule (P := fun _ _ => True)
    (fun s a t hs _ => hstep s a t hs) hs h

/-- **A run is not refused** if none of its actions is. -/
lemma runs_total {I : σ → Prop} (hstep : ∀ s a, I s → ∃ t, act s a = some t ∧ I t) {s : σ}
    (hs : I s) (acts : List α) : ∃ t, runs act s acts = some t ∧ I t := by
  induction acts generalizing s with
  | nil => exact ⟨s, rfl, hs⟩
  | cons a acts ih =>
    obtain ⟨u, ha, hu⟩ := hstep s a hs
    rw [runs_step ha]
    exact ih hu

/-- A run of a system that refuses more is one of a system that refuses less. -/
lemma runs_mono {act' : σ → α → Option σ} (hact : ∀ s a t, act s a = some t → act' s a = some t)
    {s t : σ} {acts : List α} (h : runs act s acts = some t) : runs act' s acts = some t := by
  induction acts generalizing s with
  | nil => exact h
  | cons a acts ih =>
    rw [runs_cons, Option.bind_eq_some_iff] at h
    obtain ⟨u, ha, h⟩ := h
    rw [runs_step (hact s a u ha)]
    exact ih h

/-- **What every action keeps, together with the actions so far.** -/
lemma runs_history {I : List α → σ → Prop}
    (hstep : ∀ l s a t, I l s → act s a = some t → I (l ++ [a]) t) {s t : σ} {acts : List α}
    (hs : I [] s) (h : runs act s acts = some t) : I acts t := by
  suffices hgen : ∀ l u, I l u → runs act u acts = some t → I (l ++ acts) t from hgen [] s hs h
  clear h hs
  induction acts with
  | nil =>
    intro l u hu h
    cases h
    simpa using hu
  | cons a acts ih =>
    intro l u hu h
    rw [runs_cons, Option.bind_eq_some_iff] at h
    obtain ⟨v, ha, h⟩ := h
    simpa using ih (l ++ [a]) v (hstep l u a v hu ha) h

end ShunyaKV.Lib.Steps
