import Mathlib.Logic.Function.Iterate
import ShunyaKV.Shard.Sieve

/-!
The pool of entries: taking an entry out, giving it back, and the reaper that makes room
in probation.
-/

namespace ShunyaKV.Shard

open ShunyaKV.Lib.HandList

def decU64 (n : ℕ) : ℕ := if n = 0 then 2 ^ 64 - 1 else n - 1

lemma decU64_iterate {n p : ℕ} (h : n ≤ p) : decU64^[n] p = p - n := by
  induction n with
  | zero => rfl
  | succ n ih =>
    have hn := ih (by omega)
    rw [Function.iterate_succ_apply', hn, decU64, if_neg (by omega)]
    omega

namespace Store

def removeFromProbation (s : Store) (a : Addr) : Store :=
  if a ∈ s.probationList then
    let next := (after s.probationList a).or s.probationList.head?
    let l := s.probationList.erase a
    { s with
      probationList := l
      probCount := if 0 < s.probCount then s.probCount - 1 else s.probCount
      probationHand := if l = [] then none
        else if s.probationHand = some a then next else s.probationHand }
  else s

def promoteToSanctuary (s : Store) (a : Addr) : Store :=
  if (s.heap a).poolType = .sanctuary then s
  else
    let s := (s.removeFromProbation a).onInsert a
    { s with sancCount := s.sancCount + 1 }

def clear (e : Entry) : Entry :=
  { e with inUse := false, visited := false, value := [], key := [], expiresAt := 0, ver := 0,
           heat := 0, lastAccess := 0, poolType := .probation }

/-- Back to the pool, or destroyed when the pool is full. -/
def putBack (cfg : Config) (s : Store) (a : Addr) : Store :=
  if s.pool.length < cfg.maxSize then { s with pool := s.pool ++ [a] } else s

def dropSanctuary (s : Store) : Store :=
  { s with sancCount := if 0 < s.sancCount then s.sancCount - 1 else s.sancCount }

def doRelease (cfg : Config) (s : Store) (a : Addr) : Store :=
  putBack cfg ((s.modify a clear).onErase a).dropSanctuary a

def doProbRelease (cfg : Config) (s : Store) (a : Addr) : Store :=
  let s := if (s.heap a).poolType = .probation then s.removeFromProbation a
    else (s.onErase a).dropSanctuary
  putBack cfg (s.modify a clear) a

def release (cfg : Config) (s : Store) (a : Addr) : Store :=
  if cfg.probPoolMaxSize = 0 then doRelease cfg s a else doProbRelease cfg s a

/-- One victim of a batch, by its key: the body of the loop of the eviction callback and of
the loop in `check_memory_and_evict`. -/
def evictKey (cfg : Config) (s : Store) (key : Bytes) : Store :=
  match s.map.lookup key with
  | none => s
  | some a => (release cfg { s with map := s.map.erase key } a).recordEviction

def evictKeys (cfg : Config) (s : Store) (keys : List Bytes) : Store := keys.foldl (evictKey cfg) s

/-- One turn of the loop of the reaper, the hand at `a`, and the key of the victim. -/
def reapTurn (s : Store) (a : Addr) : Store × Bytes :=
  let next := (after s.probationList a).or s.probationList.head?
  let l := s.probationList.erase a
  ({ s with
      probationList := l
      probCount := decU64 s.probCount
      probationHand := if l = [] then none else next }, (s.heap a).key)

/-- The loop of the reaper, with the budget that is left. The hand is at an entry as long
as there is one; reading it at `end()` would be undefined. -/
def reapLoop : ℕ → Store → Store × List Bytes
  | 0, s => (s, [])
  | budget + 1, s =>
    if s.probationList = [] then (s, [])
    else
      match s.probationHand with
      | none => (s, [])
      | some a =>
        let t := s.reapTurn a
        let r := reapLoop budget t.1
        (r.1, t.2 :: r.2)

/-- Room for the victims is reserved once there is something to do. -/
def runSequentialReaper (cfg : Config) (s : Store) : Store × Except LengthError Unit :=
  if s.probationList = [] then (s, .ok ())
  else
    let s := { s with probationHand := s.probationList.head? }
    if vectorMaxSize < cfg.reaperBudget then (s, .error .vector)
    else
      let r := reapLoop cfg.reaperBudget s
      let s := { r.1 with probEvictionCount := r.1.probEvictionCount + r.2.length }
      (evictKeys cfg s r.2, .ok ())

/-- `co_await`: what is thrown is thrown on. -/
def await {α β : Type} (r : Store × Except LengthError α)
    (f : Store → α → Store × Except LengthError β) : Store × Except LengthError β :=
  match r.2 with
  | .ok x => f r.1 x
  | .error e => (r.1, .error e)

def returned {α : Type} (r : Store × α) : Store × Except LengthError α := (r.1, .ok r.2)

def linkSanctuary (s : Store) (a : Addr) : Store :=
  let s := s.modify a fun e => { e with inUse := true }
  { s with sancCount := s.sancCount + 1 }.onInsert a

def doAcquire (cfg : Config) (s : Store) : Store × Except LengthError (Option Addr) :=
  match s.pool with
  | [] =>
    if cfg.valueFits then (s.alloc.linkSanctuary s.next, .ok (some s.next))
    else (s, .error .string)
  | a :: pool => ({ s with pool := pool }.linkSanctuary a, .ok (some a))

def countProbation (s : Store) (a : Addr) : Store :=
  let s := s.modify a fun e => { e with inUse := true, poolType := .probation }
  { s with probCount := s.probCount + 1 }

/-- The tail of `do_prob_acquire`, after the reaper: the first entry of the pool, linked in
probation. Nothing is there to return if the pool is empty. -/
def takeFront (s : Store) : Store × Option Addr :=
  match s.pool with
  | [] => (s, none)
  | a :: pool =>
    let s := { s with pool := pool }.countProbation a
    ({ s with probationList := s.probationList ++ [a] }, some a)

/-- An entry that goes with the frame of its call. -/
def destroy (s : Store) (a : Addr) : Store := s.modify a clear

def doProbAcquire (cfg : Config) (s : Store) : Store × Except LengthError (Option Addr) :=
  if s.pool = [] then
    if cfg.valueFits then
      -- the entry made here is counted, but not linked
      let r := runSequentialReaper cfg (s.alloc.countProbation s.next)
      match r.2 with
      | .ok _ => (r.1, .ok (some s.next))
      | .error e => (r.1.destroy s.next, .error e)
    else (s, .error .string)
  else if cfg.probThreshold ≤ s.probCount then
    await (runSequentialReaper cfg s) fun s _ => returned s.takeFront
  else returned s.takeFront

def acquire (cfg : Config) (s : Store) : Store × Except LengthError (Option Addr) :=
  if cfg.probPoolMaxSize = 0 then doAcquire cfg s else doProbAcquire cfg s

/-! ### What the reaper does -/

lemma reapTurn_head {s : Store} {a : Addr} {l : List Addr} (hl : s.probationList = a :: l) :
    s.reapTurn a =
      ({ s with probationList := l, probationHand := l.head?, probCount := decU64 s.probCount },
        (s.heap a).key) := by
  have hafter : after (a :: l) a = l.head? := by simp [after]
  simp only [reapTurn, hl, hafter, List.erase_cons_head]
  cases l <;> simp

lemma reapLoop_eq {s : Store} {l : List Addr} (b : ℕ) (hl : s.probationList = l)
    (hh : s.probationHand = l.head?) :
    reapLoop b s = ({ s with probationList := l.drop b, probationHand := (l.drop b).head?,
                             probCount := decU64^[min b l.length] s.probCount },
      (l.take b).map fun a => (s.heap a).key) := by
  induction b generalizing s l with
  | zero =>
    subst hl
    simp [reapLoop, ← hh]
  | succ b ih =>
    cases l with
    | nil =>
      have hs : { s with probationList := [], probationHand := none } = s := by
        rw [← hl, ← show s.probationHand = none from hh]
      simp [reapLoop, hl, hs]
    | cons a l =>
      rw [reapLoop, if_neg (by simp [hl]), hh]
      simp only [List.head?_cons, reapTurn_head hl]
      rw [ih rfl rfl]
      simp [Nat.succ_min_succ]

end Store

/-- How many entries a reaper may take. One that throws takes none. -/
def Config.reach (cfg : Config) : ℕ :=
  if vectorMaxSize < cfg.reaperBudget then 0 else cfg.reaperBudget

namespace Store

/-- The reaper has something to do, and no room for its victims. -/
def ReaperThrows (cfg : Config) (s : Store) : Prop :=
  s.probationList ≠ [] ∧ vectorMaxSize < cfg.reaperBudget

instance (cfg : Config) (s : Store) : Decidable (s.ReaperThrows cfg) :=
  inferInstanceAs (Decidable (_ ∧ _))

lemma take_reach {cfg : Config} {s : Store} (h : ¬ s.ReaperThrows cfg) :
    s.probationList.take cfg.reach = s.probationList.take cfg.reaperBudget := by
  unfold Config.reach
  split
  · next hbig =>
    have hnil : s.probationList = [] := by
      by_contra hne
      exact h ⟨hne, hbig⟩
    simp [hnil]
  · rfl

/-- The store the reaper leaves to the eviction callback. -/
def reaped (cfg : Config) (s : Store) : Store :=
  if s.probationList = [] then s
  else
    { s with
      probationList := s.probationList.drop cfg.reach
      probationHand := (s.probationList.drop cfg.reach).head?
      probCount := decU64^[min cfg.reach s.probationList.length] s.probCount
      probEvictionCount := s.probEvictionCount + (s.probationList.take cfg.reach).length }

/-- **The reaper** takes entries from the front of the list, as many as its budget says, unless it
throws. -/
theorem runSequentialReaper_eq (cfg : Config) (s : Store) :
    s.runSequentialReaper cfg = ((s.reaped cfg).evictKeys cfg
      ((s.probationList.take cfg.reach).map fun a => (s.heap a).key),
      if s.ReaperThrows cfg then .error .vector else .ok ()) := by
  unfold runSequentialReaper ReaperThrows reaped Config.reach
  by_cases h : s.probationList = []
  · simp [h, evictKeys]
  · by_cases hbig : vectorMaxSize < cfg.reaperBudget
    · simp [h, hbig, evictKeys]
    · have hloop := reapLoop_eq (s := { s with probationHand := s.probationList.head? })
        cfg.reaperBudget rfl rfl
      rw [if_neg h, if_neg hbig]
      simp [h, hbig, hloop]

@[simp] lemma reaped_heap (cfg : Config) (s : Store) : (s.reaped cfg).heap = s.heap := by
  unfold reaped
  split <;> rfl

@[simp] lemma reaped_sieveList (cfg : Config) (s : Store) :
    (s.reaped cfg).sieveList = s.sieveList := by
  unfold reaped
  split <;> rfl

@[simp] lemma reaped_hand (cfg : Config) (s : Store) : (s.reaped cfg).hand = s.hand := by
  unfold reaped
  split <;> rfl

@[simp] lemma reaped_probationList (cfg : Config) (s : Store) :
    (s.reaped cfg).probationList = s.probationList.drop cfg.reach := by
  unfold reaped
  split
  · next hnil => simp [hnil]
  · rfl

lemma reaped_probCount (cfg : Config) (s : Store) :
    (s.reaped cfg).probCount =
      decU64^[(s.probationList.take cfg.reach).length] s.probCount := by
  rw [List.length_take]
  unfold reaped
  split
  · next hnil => simp [hnil]
  · rfl

/-! ### How an entry is acquired -/

lemma await_eq_ok_iff {α β : Type} {r : Store × Except LengthError α}
    {f : Store → α → Store × Except LengthError β} {t : Store} {y : β} :
    await r f = (t, .ok y) ↔ ∃ s x, r = (s, .ok x) ∧ f s x = (t, .ok y) := by
  obtain ⟨s, _ | x⟩ := r <;> simp [await]

lemma doAcquire_eq_some {cfg : Config} {s t : Store} {a : Addr}
    (h : s.doAcquire cfg = (t, .ok (some a))) :
    ∃ u, t = u.linkSanctuary a ∧ (s.pool = [] ∧ a = s.next ∧ u = s.alloc ∨
      ∃ pool, s.pool = a :: pool ∧ u = { s with pool := pool }) := by
  unfold doAcquire at h
  rcases hp : s.pool with _ | ⟨b, pool⟩ <;> rw [hp] at h <;> dsimp only at h
  · split at h <;> simp only [Prod.mk.injEq, Except.ok.injEq, Option.some.injEq, reduceCtorEq,
      and_false] at h
    obtain ⟨rfl, rfl⟩ := h
    exact ⟨_, rfl, .inl ⟨rfl, rfl, rfl⟩⟩
  · simp only [Prod.mk.injEq, Except.ok.injEq, Option.some.injEq] at h
    obtain ⟨rfl, rfl⟩ := h
    exact ⟨_, rfl, .inr ⟨pool, rfl, rfl⟩⟩

lemma takeFront_eq_some {s t : Store} {a : Addr} (h : s.takeFront = (t, some a)) :
    ∃ pool u, s.pool = a :: pool ∧ u = countProbation { s with pool := pool } a ∧
      t = { u with probationList := u.probationList ++ [a] } := by
  unfold takeFront at h
  rcases hp : s.pool with _ | ⟨b, pool⟩ <;> rw [hp] at h
  · simp at h
  · simp only [Prod.mk.injEq, Option.some.injEq] at h
    obtain ⟨rfl, rfl⟩ := h
    exact ⟨pool, _, rfl, rfl, rfl⟩

lemma countProbation_heap_other (s : Store) {a b : Addr} (hb : b ≠ a) :
    (s.countProbation a).heap b = s.heap b := by
  unfold countProbation
  exact modify_heap_other s a (fun e => { e with inUse := true, poolType := .probation }) hb

lemma takeFront_heap_other {s t : Store} {a b : Addr} (h : s.takeFront = (t, some a))
    (hb : b ≠ a) : t.heap b = s.heap b := by
  obtain ⟨pool, u, -, rfl, rfl⟩ := takeFront_eq_some h
  exact countProbation_heap_other _ hb

lemma returned_eq_ok_iff {α : Type} {r : Store × α} {t : Store} {x : α} :
    returned r = (t, .ok x) ↔ r = (t, x) := by
  obtain ⟨s, y⟩ := r
  simp [returned]

lemma runSequentialReaper_ok {cfg : Config} {s t : Store} {x : Unit}
    (h : s.runSequentialReaper cfg = (t, .ok x)) :
    t = (s.runSequentialReaper cfg).1 ∧ ¬ s.ReaperThrows cfg := by
  rw [h]
  refine ⟨rfl, fun hthrows => ?_⟩
  rw [runSequentialReaper_eq, if_pos hthrows] at h
  cases h

lemma runSequentialReaper_ok_iff {cfg : Config} {s : Store} :
    s.runSequentialReaper cfg = ((s.runSequentialReaper cfg).1, .ok ()) ↔
      ¬ s.ReaperThrows cfg := by
  refine ⟨fun h => (runSequentialReaper_ok h).2, fun h => ?_⟩
  rw [runSequentialReaper_eq, if_neg h]

/-- The hand of the reaper is set to the front before anything can be thrown. -/
def rewound (s : Store) : Store := { s with probationHand := s.probationList.head? }

lemma runSequentialReaper_throws {cfg : Config} {s : Store} (h : s.ReaperThrows cfg) :
    s.runSequentialReaper cfg = (s.rewound, .error .vector) := by
  rw [runSequentialReaper, if_neg h.1]
  exact if_pos h.2

/-- The ways of an acquisition: without probation; with an entry it makes, since the pool is
empty; and with one of the pool, after the reaper or not. -/
inductive Acquires (cfg : Config) (s : Store) : Store → Addr → Prop
  | sanctuary {t : Store} {a : Addr} (hc : cfg.probPoolMaxSize = 0)
    (h : s.doAcquire cfg = (t, .ok (some a))) : Acquires cfg s t a
  | made (hc : cfg.probPoolMaxSize ≠ 0) (hp : s.pool = []) (hfits : cfg.valueFits = true)
    (hr : ¬ s.ReaperThrows cfg) :
    Acquires cfg s (runSequentialReaper cfg (s.alloc.countProbation s.next)).1 s.next
  | reaped {t : Store} {a : Addr} (hc : cfg.probPoolMaxSize ≠ 0) (hp : s.pool ≠ [])
    (hq : cfg.probThreshold ≤ s.probCount) (hr : ¬ s.ReaperThrows cfg)
    (h : (s.runSequentialReaper cfg).1.takeFront = (t, some a)) : Acquires cfg s t a
  | front {t : Store} {a : Addr} (hc : cfg.probPoolMaxSize ≠ 0) (hp : s.pool ≠ [])
    (hq : ¬ cfg.probThreshold ≤ s.probCount) (h : s.takeFront = (t, some a)) : Acquires cfg s t a

lemma acquires_of_acquire {cfg : Config} {s t : Store} {a : Addr}
    (h : s.acquire cfg = (t, .ok (some a))) : Acquires cfg s t a := by
  unfold acquire at h
  split at h
  · next hc => exact .sanctuary hc h
  · next hc =>
    unfold doProbAcquire at h
    split at h
    · next hp =>
      split at h
      · next hfits =>
        by_cases hr : (s.alloc.countProbation s.next).ReaperThrows cfg
        · simp [runSequentialReaper_throws hr] at h
        · rw [runSequentialReaper_ok_iff.mpr hr] at h
          simp only [Prod.mk.injEq, Except.ok.injEq, Option.some.injEq] at h
          obtain ⟨rfl, rfl⟩ := h
          exact .made hc hp hfits hr
      · cases h
    · next hp =>
      split at h
      · next hq =>
        obtain ⟨u, _, hreap, hu⟩ := await_eq_ok_iff.mp h
        obtain ⟨rfl, hr⟩ := runSequentialReaper_ok hreap
        exact .reaped hc hp hq hr (returned_eq_ok_iff.mp hu)
      · next hq => exact .front hc hp hq (returned_eq_ok_iff.mp h)

/-! ### How none is acquired -/

/-- An entry is made and counted, and destroyed as the reaper throws. -/
def wasted (s : Store) : Store := (s.alloc.countProbation s.next).rewound.destroy s.next

lemma wasted_heap_other (s : Store) {b : Addr} (hb : b ≠ s.next) : s.wasted.heap b = s.heap b := by
  simp [wasted, destroy, rewound, countProbation, alloc, modify_heap, hb]

/-- An acquisition that throws: it needs an entry with a value that does not fit, or its reaper
throws. An entry it has made for itself stays counted. -/
inductive Refuses (cfg : Config) (s : Store) : Store → LengthError → Prop
  | value (hp : s.pool = []) (hfits : cfg.valueFits = false) : Refuses cfg s s .string
  | made (hc : cfg.probPoolMaxSize ≠ 0) (hp : s.pool = []) (hfits : cfg.valueFits = true)
    (hr : s.ReaperThrows cfg) :
    Refuses cfg s s.wasted .vector
  | reaper (hc : cfg.probPoolMaxSize ≠ 0) (hp : s.pool ≠ []) (hq : cfg.probThreshold ≤ s.probCount)
    (hr : s.ReaperThrows cfg) : Refuses cfg s s.rewound .vector

lemma refuses_of_acquire {cfg : Config} {s t : Store} {e : LengthError}
    (h : s.acquire cfg = (t, .error e)) : Refuses cfg s t e := by
  unfold acquire at h
  split at h
  · unfold doAcquire at h
    rcases hp : s.pool with _ | ⟨b, pool⟩ <;> rw [hp] at h <;> dsimp only at h
    · split at h
      · cases h
      · next hfits =>
        cases h
        exact .value hp (by simpa using hfits)
    · cases h
  · next hc =>
    unfold doProbAcquire at h
    split at h
    · next hp =>
      split at h
      · next hfits =>
        by_cases hr : (s.alloc.countProbation s.next).ReaperThrows cfg
        · rw [runSequentialReaper_throws hr] at h
          cases h
          exact .made hc hp hfits hr
        · rw [runSequentialReaper_ok_iff.mpr hr] at h
          cases h
      · next hfits =>
        cases h
        exact .value hp (by simpa using hfits)
    · next hp =>
      split at h
      · next hq =>
        by_cases hr : s.ReaperThrows cfg
        · rw [runSequentialReaper_throws hr] at h
          cases h
          exact .reaper hc hp hq hr
        · rw [runSequentialReaper_ok_iff.mpr hr] at h
          cases h
      · cases h

/-- A new value does not fit, or the reaper is run and throws. -/
def AcquireThrows (cfg : Config) (s : Store) : Prop :=
  s.pool = [] ∧ cfg.valueFits = false ∨
    cfg.probPoolMaxSize ≠ 0 ∧ (s.pool = [] ∨ cfg.probThreshold ≤ s.probCount) ∧ s.ReaperThrows cfg

instance (cfg : Config) (s : Store) : Decidable (s.AcquireThrows cfg) :=
  inferInstanceAs (Decidable (_ ∧ _ ∨ _ ∧ _ ∧ _))

lemma Refuses.throws {cfg : Config} {s t : Store} {e : LengthError} (h : Refuses cfg s t e) :
    s.AcquireThrows cfg := by
  cases h with
  | value hp hfits => exact .inl ⟨hp, hfits⟩
  | made hc hp _ hr => exact .inr ⟨hc, .inl hp, hr⟩
  | reaper hc _ hq hr => exact .inr ⟨hc, .inr hq, hr⟩

lemma Refuses.pool {cfg : Config} {s t : Store} {e : LengthError} (h : Refuses cfg s t e) :
    t.pool = s.pool := by
  cases h <;> rfl

lemma Refuses.map {cfg : Config} {s t : Store} {e : LengthError} (h : Refuses cfg s t e) :
    t.map = s.map := by
  cases h <;> rfl

lemma Refuses.probationList {cfg : Config} {s t : Store} {e : LengthError}
    (h : Refuses cfg s t e) : t.probationList = s.probationList := by
  cases h <;> rfl

lemma acquireThrows_iff {cfg : Config} {s : Store} :
    s.AcquireThrows cfg ↔ ∃ t e, s.acquire cfg = (t, .error e) := by
  constructor
  · intro h
    have hstring (hp : s.pool = []) (hfits : cfg.valueFits = false) :
        s.acquire cfg = (s, .error .string) := by
      unfold acquire doAcquire doProbAcquire
      simp [hp, hfits]
    rcases h with ⟨hp, hfits⟩ | ⟨hc, hq, hr⟩
    · exact ⟨_, _, hstring hp hfits⟩
    · by_cases hp : s.pool = []
      · by_cases hfits : cfg.valueFits = true
        · have hmade : (s.alloc.countProbation s.next).ReaperThrows cfg := hr
          exact ⟨_, _, by rw [acquire, if_neg hc, doProbAcquire, if_pos hp, if_pos hfits,
            runSequentialReaper_throws hmade]⟩
        · exact ⟨_, _, hstring hp (by simpa using hfits)⟩
      · exact ⟨_, _, by rw [acquire, if_neg hc, doProbAcquire, if_neg hp,
          if_pos (hq.resolve_left hp), runSequentialReaper_throws hr]; rfl⟩
  · rintro ⟨t, e, h⟩
    exact (refuses_of_acquire h).throws

lemma not_acquireThrows {cfg : Config} (hbudget : cfg.reaperBudget < 2 ^ 59)
    (hfits : cfg.valueFits = true) (s : Store) : ¬ s.AcquireThrows cfg := by
  rintro (⟨-, h⟩ | ⟨-, -, -, h⟩)
  · rw [hfits] at h
    cases h
  · unfold vectorMaxSize at h
    omega

end Store

end ShunyaKV.Shard
