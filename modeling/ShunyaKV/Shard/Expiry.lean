import ShunyaKV.Shard.Refine

/-!
Lazy expiration against eager expiration.

An expired key stays in the map until it is read or swept. No read can tell, but a plain
`set` of such a key keeps the deadline that has passed, and the value is never seen.
-/

namespace ShunyaKV.Shard

open ShunyaKV.Lib.Ttl

/-- Evictions are only ever counted up. -/
lemma evictionCount_le_run (cfg : Config) {s : Store} (ho : Owned s []) (es : List Event)
    (hgrant : GrantedRun cfg s es) : s.evictionCount ≤ (run cfg s es).evictionCount := by
  obtain ⟨-, E, -, h⟩ := run_refines cfg ho es hgrant
  omega

/-- Every plain `set` of the run finds its key absent or unexpired. -/
def FreshRun (cfg : Config) (s : Store) (es : List Event) : Prop :=
  ∀ es' e k v, es' ++ [e] <+: es → e.call = .set k v →
    Live e.now (deadline (abs (run cfg s es')) k)

lemma FreshRun.head {cfg : Config} {s : Store} {e : Event} {es : List Event}
    (h : FreshRun cfg s (e :: es)) : Fresh (abs s) e.op.2 e.op.1 := by
  obtain ⟨call, now, later⟩ := e
  cases call with
  | set k v => exact h [] ⟨.set k v, now, later⟩ k v (by simp) rfl
  | setWithTtl k v ttl => trivial
  | get k => trivial

lemma FreshRun.tail {cfg : Config} {s : Store} {e : Event} {es : List Event}
    (h : FreshRun cfg s (e :: es)) : FreshRun cfg (step cfg s e).1 es := by
  intro es' e' k v hes he
  exact h (e :: es') e' k v (List.cons_prefix_cons.mpr ⟨rfl, hes⟩) he

lemma FreshRun.cons {cfg : Config} {s : Store} {e : Event} {es : List Event}
    (hhead : Fresh (abs s) e.op.2 e.op.1) (htail : FreshRun cfg (step cfg s e).1 es) :
    FreshRun cfg s (e :: es) := by
  rintro (_ | ⟨e₁, es'⟩) e' k v hes he
  · obtain ⟨rfl, -⟩ := List.cons_prefix_cons.mp hes
    obtain ⟨call, now, later⟩ := e'
    obtain rfl : call = .set k v := he
    exact hhead
  · obtain ⟨rfl, hes'⟩ := List.cons_prefix_cons.mp hes
    exact htail es' e' k v hes' he

lemma freshRun_nil (cfg : Config) (s : Store) : FreshRun cfg s [] := by
  intro es' e k v hes
  simp at hes

lemma op_clock (e : Event) : e.op.2 = e.now := by
  obtain ⟨_ | _ | _, _, _⟩ := e <;> rfl

/-- The run lemma: from two maps that nobody can tell apart at the time of the first call,
the store and the eager one give the same answers. -/
lemma replies_eq_eager {cfg : Config} {s : Store} {m : TtlMap Bytes Bytes} {t : ℕ}
    {es : List Event} (ho : Owned s []) (hm : Same t (abs s) m) (ht : ∀ e ∈ es, t ≤ e.now)
    (hclock : es.Pairwise fun e e' => e.now ≤ e'.now)
    (hev : (run cfg s es).evictionCount = s.evictionCount) (hgrant : GrantedRun cfg s es)
    (hf : FreshRun cfg s es) :
    (replies cfg s es).map Reply.value = eagerRun Store.due m (es.map Event.op) := by
  induction es generalizing s m t with
  | nil => rfl
  | cons e es ih =>
    have h1 := owned_step cfg ho e
    obtain ⟨-, E, h2, h3⟩ := step_refines cfg ho e hgrant.head
    obtain ⟨hle, hclock'⟩ := List.pairwise_cons.mp hclock
    rw [run_cons] at hev
    have hmono := evictionCount_le_run cfg h1 es hgrant.tail
    -- the step evicts nothing, since the run does not
    obtain rfl : E = [] := List.length_eq_zero_iff.mp (by omega)
    have hm' : Same e.op.2 (abs s) m := hm.mono (by rw [op_clock]; exact ht e (by simp))
    obtain ⟨h4, h5⟩ := step_same hm' hf.head h2
    rw [op_clock] at h5
    have h6 := ih h1 h5 hle hclock' (by simp at h3; omega) hgrant.tail hf.tail
    rw [op_clock] at h4
    obtain ⟨call, now, later⟩ := e
    cases call <;> exact congrArg₂ List.cons h4 h6

/-- **Lazy expiration is eager expiration** for a run without evictions, as long as every write
gets an entry and every plain `set` finds its key absent or unexpired. -/
theorem lazy_eq_eager (cfg : Config) (es : List Event)
    (hclock : es.Pairwise fun e e' => e.now ≤ e'.now)
    (hev : (run cfg (start cfg) es).evictionCount = 0)
    (hgrant : GrantedRun cfg (start cfg) es) (hf : FreshRun cfg (start cfg) es) :
    (replies cfg (start cfg) es).map Reply.value =
      eagerRun Store.due empty (es.map Event.op) := by
  have hm : Same 0 (abs (start cfg)) empty := by rw [abs_start]; rfl
  exact replies_eq_eager (owned_start cfg) hm (by simp) hclock hev hgrant hf

def fourPlaces : Config :=
  { maxSize := 4, probPoolMaxSize := 2, probThreshold := 2, reaperBudget := 1, softBudget := 1,
    softTriggered := fun used => 3 ≤ used }

/-- A key is written with a TTL, again without one before its deadline and again after it. -/
def expiredRead : List Event :=
  [⟨.setWithTtl [1] [1] 5, 0, 0⟩, ⟨.set [1] [2], 3, 3⟩, ⟨.get [1], 4, 4⟩, ⟨.get [1], 5, 5⟩,
    ⟨.set [1] [3], 6, 6⟩, ⟨.get [1], 9, 9⟩]

theorem lazy_eq_eager_expiredRead :
    (replies fourPlaces (start fourPlaces) expiredRead).map Reply.value =
        [none, none, some [2], none, none, some [3]] ∧
      (replies fourPlaces (start fourPlaces) expiredRead).map Reply.value =
        eagerRun Store.due empty (expiredRead.map Event.op) :=
  ⟨by decide, lazy_eq_eager fourPlaces expiredRead (by decide) (by decide)
    (grantedRun (by decide) rfl _ _)
    (.cons trivial (.cons (by decide) (.cons trivial (.cons trivial (.cons (by decide)
      (.cons trivial (freshRun_nil _ _)))))))⟩

/-- The key is written again before the read, without a TTL. -/
def expiredOverwrite : List Event :=
  [⟨.setWithTtl [1] [1] 1, 0, 0⟩, ⟨.set [1] [2], 5, 5⟩, ⟨.get [1], 5, 5⟩]

/-- The store does not find the key, the eager one finds the new value. -/
theorem expiredOverwrite_lost :
    (expiredOverwrite.Pairwise fun e e' => e.now ≤ e'.now) ∧
      (run fourPlaces (start fourPlaces) expiredOverwrite).evictionCount = 0 ∧
      (replies fourPlaces (start fourPlaces) expiredOverwrite).map Reply.value =
        [none, none, none] ∧
      eagerRun Store.due empty (expiredOverwrite.map Event.op) = [none, none, some [2]] := by
  decide

end ShunyaKV.Shard
