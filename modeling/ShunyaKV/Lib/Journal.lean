import Mathlib.Data.List.Induction
import ShunyaKV.Lib.TtlMap

/-!
Journals of a map with deadlines.

A journal lists what has happened to the map: writes and reads, each by a client, and
removals. The map is replayed from its journal, and what a read returns is told by the
latest write of its key and by what has happened since.
-/

namespace ShunyaKV.Lib.Ttl

inductive Note (ι K V : Type*)
  | wrote (i : ι) (k : K) (v : V) (deadline : ℕ)
  | read (i : ι) (k : K) (now : ℕ) (answer : Option V)
  | removed (k : K)
  deriving DecidableEq

namespace Note

variable {ι K V : Type*} [DecidableEq K]

def key : Note ι K V → K
  | wrote _ k _ _ => k
  | read _ k _ _ => k
  | removed k => k

def client : Note ι K V → Option ι
  | wrote i _ _ _ => some i
  | read i _ _ _ => some i
  | removed _ => none

/-- The map afterwards. A read that removes an expired key is followed by the removal. -/
def apply (m : TtlMap K V) : Note ι K V → TtlMap K V
  | wrote _ k v d => write m k v d
  | read _ _ _ _ => m
  | removed k => without m [k]

def written : Note ι K V → Option K
  | wrote _ k _ _ => some k
  | _ => none

lemma apply_other (m : TtlMap K V) {e : Note ι K V} {k : K} (h : k ≠ e.key) :
    e.apply m k = m k := by
  cases e with
  | wrote i k' v d => exact write_other m v d h
  | read i k' now answer => rfl
  | removed k' =>
    have hk : k ≠ k' := h
    simp [apply, without, hk]

lemma apply_ne_none {m : TtlMap K V} {e : Note ι K V} {k : K} (h : e.apply m k ≠ none) :
    e.written = some k ∨ m k ≠ none := by
  cases e with
  | wrote i k' v d =>
    by_cases hk : k = k'
    · exact .inl (by rw [hk]; rfl)
    · exact .inr fun hm => h (by simp [apply, hk, hm])
  | read i k' now answer => exact .inr h
  | removed k' => exact .inr fun hm => h (by simp [apply, without, hm])

/-- A change of the map at `k` depends on the map at `k` only. -/
lemma apply_congr {m m' : TtlMap K V} (e : Note ι K V) {k : K} (h : m k = m' k) :
    e.apply m k = e.apply m' k := by
  by_cases hk : k = e.key
  · cases e with
    | wrote i k' v d =>
      obtain rfl : k = k' := hk
      simp [apply]
    | read i k' now answer => exact h
    | removed k' =>
      obtain rfl : k = k' := hk
      simp [apply, without]
  · rw [apply_other m hk, apply_other m' hk, h]

end Note

variable {ι K V : Type*} [DecidableEq K]

def replayFrom (m : TtlMap K V) (l : List (Note ι K V)) : TtlMap K V := l.foldl Note.apply m

def replay (l : List (Note ι K V)) : TtlMap K V := replayFrom empty l

@[simp] lemma replayFrom_nil (m : TtlMap K V) : replayFrom m ([] : List (Note ι K V)) = m := rfl

@[simp] lemma replayFrom_cons (m : TtlMap K V) (e : Note ι K V) (l : List (Note ι K V)) :
    replayFrom m (e :: l) = replayFrom (e.apply m) l := rfl

lemma replayFrom_append (m : TtlMap K V) (l l' : List (Note ι K V)) :
    replayFrom m (l ++ l') = replayFrom (replayFrom m l) l' := List.foldl_append

lemma replay_append (l l' : List (Note ι K V)) :
    replay (l ++ l') = replayFrom (replay l) l' := replayFrom_append empty l l'

lemma replayFrom_congr {m m' : TtlMap K V} {k : K} (h : m k = m' k) (l : List (Note ι K V)) :
    replayFrom m l k = replayFrom m' l k := by
  induction l generalizing m m' with
  | nil => exact h
  | cons e l ih => exact ih (e.apply_congr h)

lemma replayFrom_other (m : TtlMap K V) {k : K} {l : List (Note ι K V)}
    (h : ∀ e ∈ l, e.key ≠ k) : replayFrom m l k = m k := by
  induction l generalizing m with
  | nil => rfl
  | cons e l ih =>
    rw [replayFrom_cons, ih _ fun e' he' => h e' (List.mem_cons_of_mem e he'),
      e.apply_other m (h e List.mem_cons_self).symm]

lemma replayFrom_removed (m : TtlMap K V) (R : List K) :
    replayFrom m (R.map Note.removed : List (Note ι K V)) = without m R := by
  induction R generalizing m with
  | nil => exact (without_nil m).symm
  | cons k R ih =>
    rw [List.map_cons, replayFrom_cons, ih]
    exact (without_append m [k] R).symm

/-- The removals that have to be told: whatever is missing afterwards. -/
lemma without_eq_of_missing {m m' : TtlMap K V} {R S : List K} (h : m' = without m S)
    (hR : ∀ k ∈ R, m' k = none) (hS : ∀ k, m k ≠ none → m' k = none → k ∈ R) :
    m' = without m R := by
  funext k
  unfold without
  split
  · next hk => exact hR k hk
  · next hk =>
    by_cases hm : m k = none
    · rw [h, hm]
      unfold without
      rw [hm, ite_self]
    · have hk' : m' k ≠ none := fun e => hk (hS k hm e)
      rw [h] at hk' ⊢
      unfold without at hk' ⊢
      split
      · next hmem => exact absurd (if_pos hmem) hk'
      · rfl

/-! ### Reads -/

lemma fetch_eq_without (m : TtlMap K V) (t : ℕ) (k : K) : ∃ S, (fetch m t k).2 = without m S := by
  unfold fetch
  split
  · exact ⟨[], (without_nil m).symm⟩
  · split
    · exact ⟨[], (without_nil m).symm⟩
    · exact ⟨[k], rfl⟩

lemma fetch_congr {m m' : TtlMap K V} {k : K} (h : m k = m' k) (t : ℕ) :
    (fetch m t k).1 = (fetch m' t k).1 := by
  unfold fetch
  rw [h]
  split
  · rfl
  · split <;> rfl

/-- Every read is answered from the map at that time. -/
def Faithful (l : List (Note ι K V)) : Prop :=
  ∀ l₁ l₂ i k now answer, l = l₁ ++ .read i k now answer :: l₂ →
    answer = (fetch (replay l₁) now k).1

lemma faithful_nil : Faithful ([] : List (Note ι K V)) := by
  intro l₁ l₂ i k now answer h
  simp at h

lemma Faithful.append {l l' : List (Note ι K V)} (h : Faithful l)
    (h' : ∀ b c i k now answer, l' = b ++ .read i k now answer :: c →
      answer = (fetch (replay (l ++ b)) now k).1) : Faithful (l ++ l') := by
  intro l₁ l₂ i k now answer e
  rcases List.append_eq_append_iff.mp e with ⟨b, rfl, hl'⟩ | ⟨b, hl, hl'⟩
  · exact h' b l₂ i k now answer hl'
  · rcases b with _ | ⟨e, b⟩
    · rw [List.append_nil] at hl
      subst hl
      simpa using h' [] l₂ i k now answer hl'.symm
    · obtain ⟨rfl, -⟩ := List.cons.inj hl'
      exact h l₁ b i k now answer hl

lemma Faithful.read {l : List (Note ι K V)} (h : Faithful l) (i : ι) (k : K) (now : ℕ) :
    Faithful (l ++ [.read i k now (fetch (replay l) now k).1]) := by
  refine h.append fun b c i' k' now' answer' e => ?_
  obtain ⟨rfl, e, -⟩ | ⟨b', rfl, e⟩ := List.cons_eq_append_iff.mp e
  · cases e
    simp
  · simp at e

lemma Faithful.removed {l : List (Note ι K V)} (h : Faithful l) (R : List K) :
    Faithful (l ++ R.map .removed) := by
  refine h.append fun b c i k now answer e => ?_
  have hmem : Note.read i k now answer ∈ R.map (Note.removed : K → Note ι K V) := by simp [e]
  simp at hmem

lemma Faithful.wrote {l : List (Note ι K V)} (h : Faithful l) (i : ι) (k : K) (v : V) (d : ℕ) :
    Faithful (l ++ [.wrote i k v d]) := by
  refine h.append fun b c i' k' now' answer' e => ?_
  have hmem : Note.read i' k' now' answer' ∈ [Note.wrote i k v d] := by simp [e]
  simp at hmem

/-! ### The latest write -/

/-- The latest write of `k` has given it the value `v` and the deadline `d`, the write of
client `i` is not after it, and `since` is what has happened after it. -/
def Latest (l : List (Note ι K V)) (i : ι) (k : K) (v : V) (d : ℕ)
    (since : List (Note ι K V)) : Prop :=
  ∃ before j, l = before ++ .wrote j k v d :: since ∧ (∀ e ∈ since, e.written ≠ some k) ∧
    (j = i ∨ ∃ v' d', .wrote i k v' d' ∈ before)

omit [DecidableEq K] in
lemma exists_latest {l : List (Note ι K V)} {i : ι} {k : K} {v : V} {d : ℕ}
    (h : .wrote i k v d ∈ l) : ∃ v' d' since, Latest l i k v' d' since := by
  -- from the end of the journal: the first write of `k` met is the latest
  induction l using List.reverseRecOn with
  | nil => simp at h
  | append_singleton l e ih =>
    by_cases he : ∃ j v' d', e = .wrote j k v' d'
    · obtain ⟨j, v', d', rfl⟩ := he
      refine ⟨v', d', [], l, j, rfl, by simp, ?_⟩
      rcases List.mem_append.mp h with h | h
      · exact .inr ⟨v, d, h⟩
      · simp only [List.mem_singleton, Note.wrote.injEq] at h
        exact .inl h.1.symm
    · have hl : Note.wrote i k v d ∈ l := by
        refine (List.mem_append.mp h).resolve_right fun h' => he ?_
        rw [← List.mem_singleton.mp h']
        exact ⟨i, v, d, rfl⟩
      obtain ⟨v', d', since, before, j, rfl, hsince, hj⟩ := ih hl
      refine ⟨v', d', since ++ [e], before, j, by simp, fun e' he' => ?_, hj⟩
      rcases List.mem_append.mp he' with he' | he'
      · exact hsince e' he'
      · rw [List.mem_singleton.mp he']
        cases e with
        | wrote j k' v' d' => exact fun hk => he ⟨j, v', d', by rw [Option.some.inj hk]⟩
        | read => simp [Note.written]
        | removed => simp [Note.written]

/-- Without a write a key stays what it is, or is removed and stays so. -/
lemma replayFrom_of_not_written [DecidableEq ι] [DecidableEq V] {k : K} {l : List (Note ι K V)}
    (h : ∀ e ∈ l, e.written ≠ some k) (m : TtlMap K V) :
    replayFrom m l k = if .removed k ∈ l then none else m k := by
  induction l using List.reverseRecOn with
  | nil => simp
  | append_singleton l e ih =>
    have ih := ih fun e' he' => h e' (List.mem_append_left _ he')
    rw [replayFrom_append, replayFrom_cons, replayFrom_nil]
    by_cases hk : k = e.key
    · cases e with
      | wrote i k' v d =>
        obtain rfl : k = k' := hk
        exact absurd rfl (h (.wrote i k v d) (by simp))
      | read i k' now answer =>
        rw [show (Note.read i k' now answer).apply (replayFrom m l) k = replayFrom m l k from rfl,
          ih]
        simp
      | removed k' =>
        obtain rfl : k = k' := hk
        simp [Note.apply, without]
    · have hne : Note.removed k ≠ e := by
        rintro rfl
        exact hk rfl
      rw [e.apply_other _ hk, ih]
      simp [hne]

/-- **A read returns the value of the latest write** of its key, unless the key has been
removed since or its deadline has passed. -/
lemma fetch_latest [DecidableEq ι] [DecidableEq V] {l since : List (Note ι K V)} {i : ι} {k : K}
    {v : V} {d : ℕ} (h : Latest l i k v d since) (now : ℕ) :
    (fetch (replay l) now k).1 = if .removed k ∉ since ∧ Live now d then some v else none := by
  obtain ⟨before, j, rfl, hsince, -⟩ := h
  have hk : replay (before ++ .wrote j k v d :: since) k =
      if .removed k ∈ since then none else some (v, d) := by
    rw [replay_append, replayFrom_cons, replayFrom_of_not_written hsince]
    simp [Note.apply]
  unfold fetch
  rw [hk]
  by_cases hr : Note.removed k ∈ since
  · simp [hr]
  · by_cases hd : Live now d <;> simp [hr, hd]

/-- So the answers of a faithful journal are not older than a write before them. -/
lemma Faithful.latest [DecidableEq ι] [DecidableEq V] {l l₁ l₂ : List (Note ι K V)}
    (h : Faithful l) {i j : ι} {k : K} {v : V} {d now : ℕ} {answer : Option V}
    (hl : l = l₁ ++ .read j k now answer :: l₂) (hw : .wrote i k v d ∈ l₁) :
    ∃ v' d' since, Latest l₁ i k v' d' since ∧
      answer = if .removed k ∉ since ∧ Live now d' then some v' else none := by
  obtain ⟨v', d', since, hlatest⟩ := exists_latest hw
  exact ⟨v', d', since, hlatest, (h l₁ l₂ j k now answer hl).trans (fetch_latest hlatest now)⟩

/-! ### Removals of expired keys -/

/-- Keys are removed only by a read that finds them expired. -/
def Lapsing (l : List (Note ι K V)) : Prop :=
  ∀ l₁ l₂ k, l = l₁ ++ .removed k :: l₂ → ∃ l₀ i now v d, l₁ = l₀ ++ [.read i k now none] ∧
    replay l₀ k = some (v, d) ∧ ¬ Live now d

lemma lapsing_nil : Lapsing ([] : List (Note ι K V)) := by
  intro l₁ l₂ k h
  simp at h

lemma Lapsing.append {l l' : List (Note ι K V)} (h : Lapsing l)
    (h' : ∀ b c k, l' = b ++ .removed k :: c → ∃ l₀ i now v d,
      l ++ b = l₀ ++ [.read i k now none] ∧ replay l₀ k = some (v, d) ∧ ¬ Live now d) :
    Lapsing (l ++ l') := by
  intro l₁ l₂ k e
  rcases List.append_eq_append_iff.mp e with ⟨b, rfl, hl'⟩ | ⟨b, hl, hl'⟩
  · exact h' b l₂ k hl'
  · rcases b with _ | ⟨e, b⟩
    · rw [List.append_nil] at hl
      subst hl
      simpa using h' [] l₂ k hl'.symm
    · obtain ⟨rfl, -⟩ := List.cons.inj hl'
      exact h l₁ b k hl

lemma Lapsing.left {l l' : List (Note ι K V)} (h : Lapsing l') (hl : l <+: l') : Lapsing l := by
  obtain ⟨t, rfl⟩ := hl
  rintro l₁ l₂ k rfl
  exact h l₁ (l₂ ++ t) k (by simp)

lemma Lapsing.note {l : List (Note ι K V)} (h : Lapsing l) {e : Note ι K V}
    (he : ∀ k, e ≠ .removed k) : Lapsing (l ++ [e]) := by
  refine h.append fun b c k hb => ?_
  have hmem : Note.removed k ∈ [e] := by simp [hb]
  exact absurd (List.mem_singleton.mp hmem).symm (he k)

/-- A read finds its key expired, and removes it. -/
lemma Lapsing.lapse {l : List (Note ι K V)} (h : Lapsing l) (i : ι) {k : K} {now d : ℕ} {v : V}
    (hk : replay l k = some (v, d)) (hd : ¬ Live now d) :
    Lapsing (l ++ [.read i k now none, .removed k]) := by
  refine h.append fun b c k' hb => ?_
  have hsplit : b = [.read i k now none] ∧ k' = k := by
    rcases b with _ | ⟨e, _ | ⟨e', b⟩⟩
    · simp at hb
    · simp only [List.cons_append, List.nil_append, List.cons.injEq] at hb
      obtain ⟨rfl, hk', -⟩ := hb
      exact ⟨rfl, (Note.removed.inj hk').symm⟩
    · simp at hb
  obtain ⟨rfl, rfl⟩ := hsplit
  exact ⟨l, i, now, v, d, rfl, hk, hd⟩

/-- **What is removed after its latest write has expired**, and a read has found it so. -/
lemma Lapsing.latest [DecidableEq ι] [DecidableEq V] {l since : List (Note ι K V)}
    (h : Lapsing l) {i : ι} {k : K} {v : V} {d : ℕ} (hl : Latest l i k v d since)
    (hr : .removed k ∈ since) : ∃ j now, .read j k now none ∈ since ∧ ¬ Live now d := by
  obtain ⟨before, j, rfl, hsince, -⟩ := hl
  obtain ⟨s₁, s₂, rfl⟩ := List.append_of_mem hr
  obtain ⟨l₀, i', now, v', d', heq, hk, hd⟩ :=
    h (before ++ .wrote j k v d :: s₁) s₂ k (by simp)
  -- the read is the last of what comes after the write
  rcases List.eq_nil_or_concat s₁ with rfl | ⟨s₀, e, rfl⟩
  · have hlast := congrArg List.getLast? heq
    simp at hlast
  · have heq' : before ++ .wrote j k v d :: s₀ ++ [e] = l₀ ++ [.read i' k now none] := by
      simpa using heq
    obtain ⟨rfl, he⟩ := List.append_inj' heq' rfl
    obtain rfl := List.singleton_inj.mp he
    have hs₀ : ∀ e ∈ s₀, e.written ≠ some k := fun e he => hsince e (by simp [he])
    rw [replay_append, replayFrom_cons, replayFrom_of_not_written hs₀] at hk
    split at hk
    · cases hk
    · simp only [Note.apply, write_same, Option.some.injEq, Prod.mk.injEq] at hk
      obtain ⟨rfl, rfl⟩ := hk
      exact ⟨i', now, by simp, hd⟩

end ShunyaKV.Lib.Ttl
