import Mathlib.Logic.Function.Basic
import Mathlib.Tactic.Lemma
import Mathlib.Tactic.Common

/-!
Maps whose keys carry a deadline.

A deadline of `0` is none. Two disciplines of expiration are compared: the lazy one leaves
an expired key in place until it is read, the eager one never shows it. They give the same
answers as long as no write that keeps the old deadline meets an expired key.
-/

namespace ShunyaKV.Lib.Ttl

variable {K V : Type*} [DecidableEq K]

/-- A value and a deadline for each key present. -/
abbrev TtlMap (K V : Type*) := K → Option (V × ℕ)

/-- A deadline not reached at time `t`. -/
def Live (t d : ℕ) : Prop := d = 0 ∨ t < d

instance (t d : ℕ) : Decidable (Live t d) := inferInstanceAs (Decidable (_ ∨ _))

lemma Live.anti {t t' d : ℕ} (h : t ≤ t') (hd : Live t' d) : Live t d := by
  unfold Live at *; omega

def empty : TtlMap K V := fun _ => none

def write (m : TtlMap K V) (k : K) (v : V) (d : ℕ) : TtlMap K V := Function.update m k (some (v, d))

/-- The map with the keys of `R` gone, their values and deadlines with them. -/
def without (m : TtlMap K V) (R : List K) : TtlMap K V := fun k => if k ∈ R then none else m k

/-- The deadline of a key, `0` for an absent one. -/
def deadline (m : TtlMap K V) (k : K) : ℕ := (m k).elim 0 Prod.snd

/-- The read of a key at time `t`: an expired key is removed and missing. -/
def fetch (m : TtlMap K V) (t : ℕ) (k : K) : Option V × TtlMap K V :=
  match m k with
  | none => (none, m)
  | some (v, d) => if Live t d then (some v, m) else (none, without m [k])

@[simp] lemma write_same (m : TtlMap K V) (k : K) (v : V) (d : ℕ) :
    write m k v d k = some (v, d) := by simp [write]

@[simp] lemma write_other (m : TtlMap K V) {k k' : K} (v : V) (d : ℕ) (h : k' ≠ k) :
    write m k v d k' = m k' := by simp [write, h]

@[simp] lemma without_nil (m : TtlMap K V) : without m [] = m := by
  funext k; simp [without]

lemma without_append (m : TtlMap K V) (R S : List K) :
    without m (R ++ S) = without (without m R) S := by
  funext k
  by_cases hR : k ∈ R <;> by_cases hS : k ∈ S <;> simp [without, hR, hS]

/-! ### The life of a key -/

/-- The key is there with its value and deadline, or it has expired at time `t`. -/
def Lasts (m : TtlMap K V) (k : K) (v : V) (d t : ℕ) : Prop :=
  m k = some (v, d) ∨ m k = none ∧ ¬ Live t d

section Lasts

variable {m : TtlMap K V} {k : K} {v : V} {d t : ℕ}

/-- A read at an earlier time removes it only if it has expired then. -/
lemma Lasts.fetch {now : ℕ} (h : Lasts m k v d t) (hnow : now ≤ t) :
    Lasts (fetch m now k).2 k v d t := by
  unfold Ttl.fetch
  rcases h with h | ⟨h, hd⟩
  · rw [h]
    dsimp only
    split
    · exact .inl h
    · next hlive => exact .inr ⟨by simp [without], fun hl => hlive (hl.anti hnow)⟩
  · rw [h]
    exact .inr ⟨h, hd⟩

lemma Lasts.without {R : List K} (h : Lasts m k v d t)
    (hk : m k ≠ none → Ttl.without m R k ≠ none) : Lasts (Ttl.without m R) k v d t := by
  have hR : Ttl.without m R k = m k ∨ Ttl.without m R k = none := by
    unfold Ttl.without
    split
    · exact .inr rfl
    · exact .inl rfl
  rcases hR with hR | hR
  · unfold Lasts
    rw [hR]
    exact h
  · rcases h with h | ⟨-, hd⟩
    · exact absurd hR (hk (by simp [h]))
    · exact .inr ⟨hR, hd⟩

lemma Lasts.fetch_eq_some_iff (h : Lasts m k v d t) : (Ttl.fetch m t k).1 = some v ↔ Live t d := by
  unfold Ttl.fetch
  rcases h with h | ⟨h, hd⟩
  · by_cases hd : Live t d <;> simp [h, hd]
  · simp [h, hd]

end Lasts

inductive Op (K V : Type*)
  | set (k : K) (v : V)
  | setTtl (k : K) (v : V) (ttl : ℕ)
  | get (k : K)

def Op.key : Op K V → K
  | .set k _ => k
  | .setTtl k _ _ => k
  | .get k => k

section Lazy

-- `due t ttl` is the deadline of a write at time `t` that asks for `ttl`.
variable (due : ℕ → ℕ → ℕ)

/-- One operation at time `t`, its answer, and the keys evicted before (`R`) and after
(`S`) its write. -/
inductive Step (m : TtlMap K V) (t : ℕ) : Op K V → Option V → List K → TtlMap K V → Prop
  | set (k : K) (v : V) (R S : List K) :
      Step m t (.set k v) none (R ++ S)
        (without (write (without m R) k v (deadline (without m R) k)) S)
  | setTtl (k : K) (v : V) (ttl : ℕ) (R S : List K) :
      Step m t (.setTtl k v ttl) none (R ++ S)
        (without (write (without m R) k v (due t ttl)) S)
  | get (k : K) : Step m t (.get k) (fetch m t k).1 [] (fetch m t k).2

/-- After a write the key has the value written, or none. -/
lemma Step.set_value {m m' : TtlMap K V} {t : ℕ} {k : K} {v : V} {r : Option V} {E : List K}
    (h : Step due m t (.set k v) r E m') : m' k = none ∨ ∃ d, m' k = some (v, d) := by
  cases h with
  | set k v R S =>
    by_cases hk : k ∈ S
    · exact .inl (by simp [without, hk])
    · exact .inr ⟨_, by simp [without, hk]; rfl⟩

/-- A run of operations, each with its time, the answers, the keys evicted and the map after
each operation. -/
inductive Run : TtlMap K V → List (Op K V × ℕ) → List (Option V) → List K → List (TtlMap K V) → Prop
  | nil (m : TtlMap K V) : Run m [] [] [] []
  | cons {m m' : TtlMap K V} {op : Op K V} {t : ℕ} {r : Option V} {E E' : List K}
      {ops : List (Op K V × ℕ)} {rs : List (Option V)} {ms : List (TtlMap K V)} :
      Step due m t op r E m' → Run m' ops rs E' ms →
      Run m ((op, t) :: ops) (r :: rs) (E ++ E') (m' :: ms)

def apply (m : TtlMap K V) (t : ℕ) : Op K V → Option V × TtlMap K V
  | .set k v => (none, write m k v (deadline m k))
  | .setTtl k v ttl => (none, write m k v (due t ttl))
  | .get k => fetch m t k

lemma apply_congr {m m' : TtlMap K V} (op : Op K V) (t : ℕ) (h : m op.key = m' op.key) :
    (apply due m t op).1 = (apply due m' t op).1 ∧
      (apply due m t op).2 op.key = (apply due m' t op).2 op.key := by
  cases op with
  | set k v =>
    have hd : deadline m k = deadline m' k := by
      unfold deadline
      rw [show m k = m' k from h]
    simp [apply, Op.key, hd]
  | setTtl k v ttl => simp [apply, Op.key]
  | get k =>
    have hk : m k = m' k := h
    rcases hm : m' k with _ | ⟨v, d⟩
    · simp [apply, fetch, Op.key, hk, hm]
    · by_cases hd : Live t d <;> simp [apply, fetch, Op.key, hk, hm, hd, without]

lemma apply_other (m : TtlMap K V) {op : Op K V} {k : K} (t : ℕ) (h : k ≠ op.key) :
    (apply due m t op).2 k = m k := by
  cases op with
  | set k' v => exact write_other m v _ h
  | setTtl k' v ttl => exact write_other m v _ h
  | get k' =>
    have hk : k ≠ k' := h
    rcases hm : m k' with _ | ⟨v, d⟩
    · simp [apply, fetch, hm]
    · by_cases hd : Live t d <;> simp [apply, fetch, hm, hd, without, hk]

/-- Operations one after the other, each with its time and its answer, with evictions
anywhere between them. -/
inductive Trace (m : TtlMap K V) : List (Op K V × ℕ × Option V) → TtlMap K V → Prop
  | nil : Trace m [] m
  | op {l : List (Op K V × ℕ × Option V)} {m' : TtlMap K V} (h : Trace m l m') (op : Op K V)
      (t : ℕ) : Trace m (l ++ [(op, t, (apply due m' t op).1)]) (apply due m' t op).2
  | evict {l : List (Op K V × ℕ × Option V)} {m' : TtlMap K V} (h : Trace m l m')
      (R : List K) : Trace m l (without m' R)

variable {due} in
/-- After a write that comes last in the trace, the key has that value or none. -/
lemma Trace.last_set {m m' : TtlMap K V} {l l' : List (Op K V × ℕ × Option V)} {k : K} {v : V}
    {t : ℕ} {r : Option V} (h : Trace due m l m') (hl : l = l' ++ [(.set k v, t, r)]) :
    ∀ x ∈ m' k, x.1 = v := by
  induction h with
  | nil => simp at hl
  | op h op t' ih =>
    obtain ⟨-, e⟩ := List.append_inj' hl rfl
    obtain ⟨rfl, -⟩ := Prod.mk.inj (List.singleton_inj.mp e)
    simp [apply]
  | evict h R ih =>
    intro x hx
    unfold without at hx
    split at hx
    · cases hx
    · exact ih hl x hx

end Lazy

/-! ### Eager expiration -/

def expire (t : ℕ) (m : TtlMap K V) : TtlMap K V := fun k =>
  match m k with
  | none => none
  | some (v, d) => if Live t d then some (v, d) else none

omit [DecidableEq K] in
lemma expire_expire {t t' : ℕ} (h : t ≤ t') (m : TtlMap K V) :
    expire t' (expire t m) = expire t' m := by
  funext k
  rcases hk : m k with _ | ⟨v, d⟩
  · simp [expire, hk]
  · by_cases h1 : Live t' d
    · simp [expire, hk, h1, h1.anti h]
    · by_cases h2 : Live t d <;> simp [expire, hk, h1, h2]

variable (due : ℕ → ℕ → ℕ)

/-- An operation of the store that drops each key the instant its deadline is reached. -/
def eager (m : TtlMap K V) (t : ℕ) : Op K V → Option V × TtlMap K V
  | .set k v => (none, write (expire t m) k v (deadline (expire t m) k))
  | .setTtl k v ttl => (none, write (expire t m) k v (due t ttl))
  | .get k => ((expire t m k).map Prod.fst, expire t m)

def eagerRun : TtlMap K V → List (Op K V × ℕ) → List (Option V)
  | _, [] => []
  | m, (op, t) :: ops => (eager due m t op).1 :: eagerRun (eager due m t op).2 ops

/-- A write that keeps the deadline does not meet an expired key. -/
def Fresh (m : TtlMap K V) (t : ℕ) : Op K V → Prop
  | .set k _ => Live t (deadline m k)
  | _ => True

instance (m : TtlMap K V) (t : ℕ) : (op : Op K V) → Decidable (Fresh m t op)
  | .set k _ => inferInstanceAs (Decidable (Live t (deadline m k)))
  | .setTtl _ _ _ => isTrue trivial
  | .get _ => isTrue trivial

/-- Two maps that nobody can tell apart from time `t` on. -/
def Same (t : ℕ) (m m' : TtlMap K V) : Prop := expire t m = expire t m'

omit [DecidableEq K] in
lemma Same.trans {t : ℕ} {m m' m'' : TtlMap K V} (h : Same t m m') (h' : Same t m' m'') :
    Same t m m'' := Eq.trans h h'

omit [DecidableEq K] in
lemma Same.mono {t t' : ℕ} {m m' : TtlMap K V} (h : Same t m m') (ht : t ≤ t') : Same t' m m' := by
  unfold Same at *
  rw [← expire_expire ht m, h, expire_expire ht]

lemma expire_write (t : ℕ) (m : TtlMap K V) (k : K) (v : V) (d : ℕ) :
    expire t (write m k v d) = if Live t d then write (expire t m) k v d
      else without (expire t m) [k] := by
  funext k'
  by_cases hk : k' = k
  · subst hk
    by_cases hd : Live t d <;> simp [expire, hd, without]
  · by_cases hd : Live t d <;> simp [expire, hd, hk, without]

lemma same_write {t : ℕ} {m m' : TtlMap K V} (h : Same t m m') (k : K) (v : V) (d : ℕ) :
    Same t (write m k v d) (write m' k v d) := by
  unfold Same at *
  rw [expire_write, expire_write, h]

omit [DecidableEq K] in
lemma same_expire (t : ℕ) (m : TtlMap K V) : Same t m (expire t m) :=
  (expire_expire (Nat.le_refl t) m).symm

omit [DecidableEq K] in
lemma deadline_expire {t : ℕ} {m : TtlMap K V} {k : K} (h : Live t (deadline m k)) :
    deadline (expire t m) k = deadline m k := by
  unfold deadline at *
  rcases hk : m k with _ | ⟨v, d⟩
  · simp [expire, hk]
  · simp only [hk, Option.elim_some] at h
    simp [expire, hk, h]

lemma fetch_same {t : ℕ} {m m' : TtlMap K V} (h : Same t m m') (k : K) :
    (fetch m t k).1 = (expire t m' k).map Prod.fst ∧ Same t (fetch m t k).2 (expire t m') := by
  have hk' : expire t m k = expire t m' k := congrFun h k
  rcases hk : m k with _ | ⟨v, d⟩
  · refine ⟨?_, ?_⟩
    · rw [← hk']; simp [fetch, expire, hk]
    · simpa only [fetch, hk] using h.trans (same_expire t m')
  · by_cases hd : Live t d
    · refine ⟨?_, ?_⟩
      · rw [← hk']; simp [fetch, expire, hk, hd]
      · simpa only [fetch, hk, hd, if_true] using h.trans (same_expire t m')
    · refine ⟨?_, ?_⟩
      · rw [← hk']; simp [fetch, expire, hk, hd]
      · have hgone : expire t (without m [k]) = expire t m := by
          funext j
          by_cases hj : j = k
          · subst hj; simp [expire, without, hk, hd]
          · simp [expire, without, hj]
        simp only [fetch, hk, hd, if_false]
        exact Same.trans (hgone.trans h) (same_expire t m')

variable {due} in
/-- One lazy operation that evicts nothing agrees with the eager one. -/
lemma step_same {t : ℕ} {m m₁ m' : TtlMap K V} {op : Op K V} {r : Option V}
    (h : Same t m m') (hf : Fresh m t op) (hs : Step due m t op r [] m₁) :
    r = (eager due m' t op).1 ∧ Same t m₁ (eager due m' t op).2 := by
  have hd (k : K) (hk : Live t (deadline m k)) :
      deadline (expire t m') k = deadline m k := by
    rw [← h, deadline_expire hk]
  generalize hE : ([] : List K) = E at hs
  cases hs with
  | set k v R S =>
    obtain ⟨rfl, rfl⟩ := List.append_eq_nil_iff.mp hE.symm
    refine ⟨rfl, ?_⟩
    simp only [without_nil, eager, hd k hf]
    exact same_write (h.trans (same_expire t m')) k v _
  | setTtl k v ttl R S =>
    obtain ⟨rfl, rfl⟩ := List.append_eq_nil_iff.mp hE.symm
    refine ⟨rfl, ?_⟩
    simp only [without_nil, eager]
    exact same_write (h.trans (same_expire t m')) k v _
  | get k => exact fetch_same h k

end ShunyaKV.Lib.Ttl
