import Mathlib.Logic.Relation
import ShunyaKV.Shard.Tasks

/-!
What a call does between two suspensions.

A segment of a call is a chain of turns, each of which looks at one victim or removes one,
or sets a hand or a counter. Apart from these it may acquire an entry, at its end, or write
one, at its start. What is kept by the turns and by the few steps around them is kept by
every action of a shard.
-/

namespace ShunyaKV.Shard

open Relation ShunyaKV.Lib.Steps

/-- The entries that a suspended call holds. -/
def Pc.held : Pc → List Addr
  | .reaping _ _ fresh => fresh.toList
  | .calling _ _ fresh => fresh.toList
  | .reaped fresh => fresh.toList
  | .acquired a => [a]
  | _ => []

/-- In `acquire`, with the entry `fresh` made outside the pool. -/
inductive Pc.Acquiring (fresh : Option Addr) : Pc → Prop
  | reaping (count : ℕ) (victims : List Bytes) : Acquiring fresh (.reaping count victims fresh)
  | calling (left : List Bytes) (count : ℕ) : Acquiring fresh (.calling left count fresh)
  | reaped : Acquiring fresh (.reaped fresh)

/-- In the eviction pass of a write, or after it. -/
inductive Pc.Evicting : Pc → Prop
  | sieving (now count : ℕ) (victims : List Bytes) : Evicting (.sieving now count victims)
  | chosen (victims : List Bytes) : Evicting (.chosen victims)
  | removing (left : List Bytes) (count : ℕ) : Evicting (.removing left count)
  | done : Evicting (.done (.stored true))
  | threw (e : LengthError) : Evicting (.done (.threw e))

def Pc.waiting : Pc → Bool
  | .reaping _ _ _ | .calling _ _ _ | .reaped _ | .acquired _ => true
  | _ => false

lemma Pc.Acquiring.waiting {fresh : Option Addr} {pc : Pc} (h : pc.Acquiring fresh) :
    pc.waiting := by cases h <;> rfl

lemma Pc.Acquiring.held {fresh : Option Addr} {pc : Pc} (h : pc.Acquiring fresh) :
    pc.held = fresh.toList := by cases h <;> rfl

lemma Pc.Evicting.held {pc : Pc} (h : pc.Evicting) : pc.held = [] := by cases h <;> rfl

lemma Pc.Evicting.waiting {pc : Pc} (h : pc.Evicting) : pc.waiting = false := by cases h <;> rfl

/-! ### Turns -/

/-- A turn takes no entry and puts none into the map. -/
inductive Turn (cfg : Config) (s : Store) : Store → Prop
  | note : Turn cfg s s.noteFallback
  | rewind : Turn cfg s { s with probationHand := s.probationList.head? }
  | reap {a : Addr} (ha : s.probationHand = some a) : Turn cfg s (s.reapTurn a).1
  | tally (n : ℕ) : Turn cfg s { s with probEvictionCount := s.probEvictionCount + n }
  | evict (key : Bytes) : Turn cfg s (s.evictKey cfg key)
  | look {a : Addr} (now : ℕ) (ha : s.hand = some a) : Turn cfg s (s.evictTurn now a).1
  | point (h : Option Addr) : Turn cfg s { s with hand := h }

/-- A segment between two suspensions. -/
abbrev Turns (cfg : Config) : Store → Store → Prop := ReflTransGen (Turn cfg)

lemma turns_evictKeys (cfg : Config) (s : Store) (keys : List Bytes) :
    Turns cfg s (s.evictKeys cfg keys) := by
  induction keys generalizing s with
  | nil => exact .refl
  | cons key keys ih => exact .head (.evict key) (ih (s.evictKey cfg key))

/-- The victims handled before the end or the yield of a removal loop, and those left. -/
lemma removeLoop_eq (cfg : Config) (keys : List Bytes) (count : ℕ) (s : Store) :
    ∃ gone left, keys = gone ++ left ∧ (removeLoop cfg keys count s).1 = s.evictKeys cfg gone ∧
      ((removeLoop cfg keys count s).2 = none ∧ left = [] ∨
        (removeLoop cfg keys count s).2 = some (left, count + gone.length) ∧
          (count + gone.length) % 1000 = 0 ∧ gone ≠ []) := by
  induction keys generalizing count s with
  | nil => exact ⟨[], [], rfl, rfl, .inl ⟨rfl, rfl⟩⟩
  | cons key keys ih =>
    unfold removeLoop
    by_cases hy : (count + 1) % 1000 = 0
    · refine ⟨[key], keys, rfl, ?_, .inr ⟨?_, by simpa using hy, by simp⟩⟩
      · simp [hy, Store.evictKeys]
      · simp [hy]
    · obtain ⟨gone, left, hkeys, hs, hend⟩ := ih (count + 1) (s.evictKey cfg key)
      have hcount : count + 1 + gone.length = count + (key :: gone).length := by
        rw [List.length_cons]; omega
      refine ⟨key :: gone, left, by rw [hkeys, List.cons_append], ?_, ?_⟩
      · simp only [hy, if_false]
        rw [hs]
        rfl
      · simp only [hy, if_false]
        rw [hcount] at hend
        rcases hend with hend | ⟨h1, h2, -⟩
        · exact .inl hend
        · exact .inr ⟨h1, h2, by simp⟩

lemma turns_removeLoop (cfg : Config) (keys : List Bytes) (count : ℕ) (s : Store) :
    Turns cfg s (removeLoop cfg keys count s).1 := by
  obtain ⟨gone, left, -, hs, -⟩ := removeLoop_eq cfg keys count s
  rw [hs]
  exact turns_evictKeys cfg s gone

lemma turns_callback (cfg : Config) (keys : List Bytes) (count : ℕ) (fresh : Option Addr)
    (s : Store) :
    Turns cfg s (callback cfg keys count fresh s).1 ∧
      (callback cfg keys count fresh s).2.Acquiring fresh := by
  have ht := turns_removeLoop cfg keys count s
  unfold callback
  split
  · next h =>
    rw [h] at ht
    exact ⟨ht, .reaped⟩
  · next h =>
    rw [h] at ht
    exact ⟨ht, .calling _ _⟩

lemma turns_removal (cfg : Config) (keys : List Bytes) (count : ℕ) (s : Store) :
    Turns cfg s (removal cfg keys count s).1 ∧ (removal cfg keys count s).2.Evicting := by
  have ht := turns_removeLoop cfg keys count s
  unfold removal
  split
  · next h =>
    rw [h] at ht
    exact ⟨ht, .done⟩
  · next h =>
    rw [h] at ht
    exact ⟨ht, .removing _ _⟩

lemma turns_finishReaper (cfg : Config) (count : ℕ) (victims : List Bytes) (fresh : Option Addr)
    (s : Store) :
    Turns cfg s (finishReaper cfg count victims fresh s).1 ∧
      (finishReaper cfg count victims fresh s).2.Acquiring fresh := by
  unfold finishReaper
  dsimp only
  split
  · exact ⟨.single (.tally count), .reaped⟩
  · obtain ⟨h1, h2⟩ := turns_callback cfg victims 0 fresh
      { s with probEvictionCount := s.probEvictionCount + count }
    exact ⟨.head (.tally count) h1, h2⟩

lemma turns_reapSegment {cfg : Config} {s : Store} {r : Store × Pc} {fresh : Option Addr}
    {budget count : ℕ} {victims : List Bytes}
    (h : reapSegment cfg fresh budget count victims s = some r) :
    Turns cfg s r.1 ∧ r.2.Acquiring fresh := by
  induction budget generalizing s count victims with
  | zero =>
    cases h
    exact turns_finishReaper cfg count victims fresh s
  | succ budget ih =>
    unfold reapSegment at h
    split at h
    · cases h
      exact turns_finishReaper cfg count victims fresh s
    · split at h
      · cases h
      · next a ha =>
        dsimp only at h
        split at h
        · cases h
          exact ⟨.single (.reap ha), .reaping _ _⟩
        · obtain ⟨h1, h2⟩ := ih h
          exact ⟨.head (.reap ha) h1, h2⟩

lemma turns_startReaper {cfg : Config} {s : Store} {r : Store × Pc} {fresh : Option Addr}
    (hthrows : ¬ s.ReaperThrows cfg) (h : startReaper cfg fresh s = some r) :
    Turns cfg s r.1 ∧ r.2.Acquiring fresh := by
  unfold startReaper at h
  split at h
  · cases h
    exact ⟨.refl, .reaped⟩
  · next hne =>
    dsimp only at h
    rw [if_neg fun hbig => hthrows ⟨hne, hbig⟩] at h
    obtain ⟨h1, h2⟩ := turns_reapSegment h
    exact ⟨.head .rewind h1, h2⟩

lemma startReaper_throws {cfg : Config} {s : Store} (fresh : Option Addr)
    (hthrows : s.ReaperThrows cfg) :
    startReaper cfg fresh s = some (unwind fresh .vector s.rewound) := by
  rw [startReaper, if_neg hthrows.1]
  exact if_pos hthrows.2

lemma turns_sieveSegment (cfg : Config) (now fuel count : ℕ) (victims : List Bytes) (s : Store) :
    Turns cfg s (sieveSegment cfg now fuel count victims s).1 ∧
      (sieveSegment cfg now fuel count victims s).2.Evicting := by
  induction fuel generalizing s count victims with
  | zero => exact ⟨.single (.point _), .chosen _⟩
  | succ fuel ih =>
    unfold sieveSegment
    split
    · split
      · exact ⟨.single (.point _), .chosen _⟩
      · next a ha =>
        have hlook : Turn cfg s (s.evictTurn now a).1 := .look now ha
        rcases ht : s.evictTurn now a with ⟨t, _ | key⟩ <;> rw [ht] at hlook <;> dsimp only
        · obtain ⟨h1, h2⟩ := ih count victims t
          exact ⟨.head hlook h1, h2⟩
        · split
          · exact ⟨.head hlook (.single (.point _)), .chosen _⟩
          · split
            · exact ⟨.single hlook, .sieving _ _ _⟩
            · obtain ⟨h1, h2⟩ := ih (count + 1) (victims ++ [key]) t
              exact ⟨.head hlook h1, h2⟩
    · exact ⟨.single (.point _), .chosen _⟩

lemma turns_startEvict (cfg : Config) (now : ℕ) (s : Store) :
    Turns cfg s (startEvict cfg now s).1 ∧ (startEvict cfg now s).2.Evicting := by
  unfold startEvict
  split
  · exact ⟨.refl, .done⟩
  split
  · split
    · exact ⟨.refl, .threw _⟩
    split
    · exact ⟨.refl, .chosen _⟩
    · obtain ⟨h1, h2⟩ := turns_sieveSegment cfg now s.sieveList.length 0 []
        { s with hand := if s.hand = none then s.sieveList.head? else s.hand }
      exact ⟨.head (.point _) h1, h2⟩
  · exact ⟨.refl, .done⟩

/-! ### What a call does up to a suspension -/

inductive Opening (cfg : Config) (s : Store) : Store → Pc → Prop
  /-- without probation -/
  | plain {s' : Store} {a : Addr} (hc : cfg.probPoolMaxSize = 0)
      (h : s.noteFallback.doAcquire cfg = (s', .ok (some a))) : Opening cfg s s' (.acquired a)
  /-- with an entry made outside the pool -/
  | made {s' : Store} {pc : Pc} (hc : cfg.probPoolMaxSize ≠ 0) (hp : s.pool = [])
      (hr : ¬ s.ReaperThrows cfg)
      (h : startReaper cfg (some s.next) (s.noteFallback.alloc.countProbation s.next) =
        some (s', pc)) : Opening cfg s s' pc
  /-- with the reaper before an entry of the pool -/
  | crowded {s' : Store} {pc : Pc} (hc : cfg.probPoolMaxSize ≠ 0) (hp : s.pool ≠ [])
      (hth : cfg.probThreshold ≤ s.probCount) (hr : ¬ s.ReaperThrows cfg)
      (h : startReaper cfg none s.noteFallback = some (s', pc)) : Opening cfg s s' pc
  /-- with an entry of the pool at once -/
  | front {s' : Store} {a : Addr} (hc : cfg.probPoolMaxSize ≠ 0) (hp : s.pool ≠ [])
      (hth : s.probCount < cfg.probThreshold)
      (h : s.noteFallback.takeFront = (s', some a)) : Opening cfg s s' (.acquired a)
  /-- and ends at once, with an exception -/
  | threw {s' : Store} {e : LengthError} (h : Store.Refuses cfg s.noteFallback s' e) :
      Opening cfg s s' (.done (.threw e))

/-- How a suspended call moves on. -/
inductive Moved (cfg : Config) (now later : ℕ) (s : Store) (call : Call) : Pc → Store → Pc → Prop
  | acquiring {fresh : Option Addr} {s' : Store} {pc pc' : Pc} (hpc : pc.Acquiring fresh)
      (ht : Turns cfg s s') (hpc' : pc'.Acquiring fresh) : Moved cfg now later s call pc s' pc'
  | made (a : Addr) : Moved cfg now later s call (.reaped (some a)) s (.acquired a)
  | front {s' : Store} {a : Addr} (h : s.takeFront = (s', some a)) :
      Moved cfg now later s call (.reaped none) s' (.acquired a)
  | write {a : Addr} {k v : Bytes} {d : Option ℕ} {s' : Store} {pc' : Pc}
      (hw : (⟨call, now, later⟩ : Event).Writes k v d) (ht : Turns cfg (update cfg s k v d a) s')
      (hpc' : pc'.Evicting) : Moved cfg now later s call (.acquired a) s' pc'
  | evicting {s' : Store} {pc pc' : Pc} (hpc : pc.Evicting) (ht : Turns cfg s s')
      (hpc' : pc'.Evicting) : Moved cfg now later s call pc s' pc'

lemma toAcquired_returned {p : Store × Option Addr} {r : Store × Pc}
    (h : toAcquired (Store.returned p) = some r) : ∃ a, p = (r.1, some a) ∧ r.2 = .acquired a := by
  obtain ⟨s, _ | a⟩ := p
  · cases h
  · cases h
    exact ⟨a, rfl, rfl⟩

lemma noteFallback_fields (s : Store) : s.noteFallback.pool = s.pool ∧
    s.noteFallback.probCount = s.probCount ∧ s.noteFallback.next = s.next ∧
    s.noteFallback.probationList = s.probationList := by
  unfold Store.noteFallback
  split <;> exact ⟨rfl, rfl, rfl, rfl⟩

lemma not_throws_noted {cfg : Config} {s : Store} (h : ¬ s.ReaperThrows cfg) :
    ¬ s.noteFallback.ReaperThrows cfg := by
  rwa [Store.ReaperThrows, (noteFallback_fields s).2.2.2]

lemma not_throws_made {cfg : Config} {s : Store} {a : Addr} (h : ¬ s.ReaperThrows cfg) :
    ¬ (s.noteFallback.alloc.countProbation a).ReaperThrows cfg := not_throws_noted h

/-- Without probation a write has its entry at once, or throws. -/
lemma startWrite_plain {cfg : Config} {s : Store} {r : Store × Pc}
    (hc : cfg.probPoolMaxSize = 0) (h : startWrite cfg s = some r) : Opening cfg s r.1 r.2 := by
  rw [startWrite, if_pos hc] at h
  rcases hacq : s.noteFallback.doAcquire cfg with ⟨t, e | _ | a⟩ <;> rw [hacq] at h <;> cases h
  · refine .threw (Store.refuses_of_acquire ?_)
    rw [Store.acquire, if_pos hc, hacq]
    rfl
  · exact .plain hc hacq

lemma startWrite_opening {cfg : Config} {s : Store} {r : Store × Pc}
    (h : startWrite cfg s = some r) : Opening cfg s r.1 r.2 := by
  by_cases hc : cfg.probPoolMaxSize = 0
  · exact startWrite_plain hc h
  obtain ⟨hpool, hcount, hnext, hlist⟩ := noteFallback_fields s
  have hthrows (hr : s.ReaperThrows cfg) : s.noteFallback.ReaperThrows cfg := by
    rwa [Store.ReaperThrows, hlist]
  obtain ⟨s', pc⟩ := r
  rw [startWrite, if_neg hc] at h
  split at h
  · next hp =>
    split at h
    · next hfits =>
      by_cases hr : s.ReaperThrows cfg
      · have hmade : (s.noteFallback.alloc.countProbation s.noteFallback.next).ReaperThrows cfg :=
          hthrows hr
        rw [startReaper_throws _ hmade] at h
        cases h
        exact .threw (.made hc hp hfits (hthrows hr))
      · rw [hnext] at h
        exact .made hc (hpool ▸ hp) hr h
    · next hfits =>
      cases h
      exact .threw (.value hp (by simpa using hfits))
  · next hp =>
    split at h
    · next hth =>
      by_cases hr : s.ReaperThrows cfg
      · rw [startReaper_throws _ (hthrows hr)] at h
        cases h
        exact .threw (.reaper hc hp hth (hthrows hr))
      · exact .crowded hc (hpool ▸ hp) (hcount ▸ hth) hr h
    · next hth =>
      obtain ⟨a, he, rfl⟩ := toAcquired_returned h
      exact .front hc (hpool ▸ hp) (by omega) he

lemma resume_moved {cfg : Config} {now later : ℕ} {s : Store} {call : Call} {pc : Pc}
    {r : Store × Pc} (h : resume cfg now later s call pc = some r) :
    Moved cfg now later s call pc r.1 r.2 := by
  cases pc with
  | reaping count victims fresh =>
    obtain ⟨h1, h2⟩ := turns_reapSegment h
    exact .acquiring (.reaping _ _) h1 h2
  | calling left count fresh =>
    cases h
    obtain ⟨h1, h2⟩ := turns_callback cfg left count fresh s
    exact .acquiring (.calling _ _) h1 h2
  | reaped fresh =>
    cases fresh with
    | some a =>
      cases h
      exact .made a
    | none =>
      obtain ⟨s', pc⟩ := r
      obtain ⟨a, he, rfl⟩ := toAcquired_returned h
      exact .front he
  | acquired a =>
    cases call with
    | set k v =>
      cases h
      obtain ⟨h1, h2⟩ := turns_startEvict cfg later (update cfg s k v none a)
      exact .write ⟨rfl, rfl, rfl⟩ h1 h2
    | setWithTtl k v ttl =>
      cases h
      obtain ⟨h1, h2⟩ := turns_startEvict cfg later (update cfg s k v (some (Store.due now ttl)) a)
      exact .write ⟨rfl, rfl, rfl⟩ h1 h2
    | get k => cases h
  | sieving t count victims =>
    cases h
    obtain ⟨h1, h2⟩ := turns_sieveSegment cfg t s.sieveList.length count victims s
    exact .evicting (.sieving _ _ _) h1 h2
  | chosen victims =>
    cases h
    obtain ⟨h1, h2⟩ := turns_removal cfg victims 0 s
    exact .evicting (.chosen _) h1 h2
  | removing left count =>
    cases h
    obtain ⟨h1, h2⟩ := turns_removal cfg left count s
    exact .evicting (.removing _ _) h1 h2
  | done reply => cases h

/-! ### A shard with its calls -/

lemma tasks_split {tasks : List Task} {i : ℕ} {t : Task} (h : tasks[i]? = some t) :
    ∃ l r, tasks = l ++ t :: r ∧ ∀ t', tasks.set i t' = l ++ t' :: r := by
  obtain ⟨hi, rfl⟩ := List.getElem?_eq_some_iff.mp h
  refine ⟨tasks.take i, tasks.drop (i + 1), ?_, fun t' => ?_⟩
  · rw [← List.drop_eq_getElem_cons hi, List.take_append_drop]
  · rw [List.set_eq_take_append_cons_drop, if_pos hi]

namespace Reactor

def held (σ : Reactor) : List Addr := σ.tasks.flatMap fun t => t.pc.held

def others (l r : List Task) : List Addr :=
  l.flatMap (fun t => t.pc.held) ++ r.flatMap fun t => t.pc.held

/-- A call is resumed: its task moves on and the others stay. -/
lemma resume_of_act {cfg : Config} {s : Store} {tasks : List Task} {i now later : ℕ} {σ' : Reactor}
    (h : act cfg ⟨s, tasks⟩ (.resume i now later) = some σ') :
    ∃ l t r q, tasks = l ++ t :: r ∧ tasks[i]? = some t ∧
      Shard.resume cfg now later s t.call t.pc = some q ∧ σ' = ⟨q.1, l ++ t.next now q.2 :: r⟩ := by
  obtain ⟨t, hi, h⟩ := Option.bind_eq_some_iff.mp h
  obtain ⟨q, hq, rfl⟩ := Option.map_eq_some_iff.mp h
  obtain ⟨l, r, htasks, hset⟩ := tasks_split hi
  exact ⟨l, t, r, q, htasks, hi, hq, by rw [← hset]⟩

lemma held_perm (s : Store) (l r : List Task) (t : Task) :
    (held ⟨s, l ++ t :: r⟩).Perm (t.pc.held ++ others l r) := by
  simp only [held, others, List.flatMap_append, List.flatMap_cons]
  exact List.perm_append_comm_assoc _ _ _

end Reactor

/-- Something about the store and the entries in the hands of the calls, which the turns and
the steps around them keep. -/
structure Kept (cfg : Config) (I : Store → List Addr → Prop) : Prop where
  perm {s : Store} {fl fl' : List Addr} : I s fl → fl.Perm fl' → I s fl'
  turn {s s' : Store} {fl : List Addr} : I s fl → Turn cfg s s' → I s' fl
  acquire {s s' : Store} {fl : List Addr} {a : Addr} : cfg.probPoolMaxSize = 0 → I s fl →
    s.doAcquire cfg = (s', .ok (some a)) → I s' (a :: fl)
  make {s : Store} {fl : List Addr} : cfg.probPoolMaxSize ≠ 0 → I s fl →
    I (s.alloc.countProbation s.next) (s.next :: fl)
  front {s s' : Store} {fl : List Addr} {a : Addr} : cfg.probPoolMaxSize ≠ 0 → I s fl →
    s.takeFront = (s', some a) → I s' (a :: fl)
  refuse {s s' : Store} {fl : List Addr} {e : LengthError} : I s fl →
    Store.Refuses cfg s s' e → I s' fl
  write {s : Store} {fl : List Addr} {a : Addr} (k v : Bytes) (d : Option ℕ) : I s (a :: fl) →
    I (update cfg s k v d a) fl
  get {s : Store} {fl : List Addr} (k : Bytes) (now : ℕ) : I s fl → I (s.get cfg k now).1 fl

section Kept

variable {cfg : Config} {I : Store → List Addr → Prop} {s s' : Store} {fl : List Addr}
  {call : Call} {pc pc' : Pc} {now later : ℕ}

lemma Kept.turns (hI : Kept cfg I) (hs : I s fl) (h : Turns cfg s s') : I s' fl := by
  induction h with
  | refl => exact hs
  | tail _ hturn ih => exact hI.turn ih hturn

/-- A call waits for the reaper only if there is one. -/
def Pc.Enabled (cfg : Config) (pc : Pc) : Prop :=
  ∀ fresh, pc.Acquiring fresh → cfg.probPoolMaxSize ≠ 0

lemma Kept.opening (hI : Kept cfg I) (hs : I s fl) (h : Opening cfg s s' pc) :
    I s' (pc.held ++ fl) ∧ pc.Enabled cfg := by
  have hnote := hI.turn hs .note
  cases h with
  | plain hc h => exact ⟨hI.acquire hc hnote h, fun _ hpc => by cases hpc⟩
  | made hc _ hr h =>
    obtain ⟨ht, hpc⟩ := turns_startReaper (not_throws_made hr) h
    have hmake := hI.make hc hnote
    rw [(noteFallback_fields s).2.2.1] at hmake
    rw [hpc.held]
    exact ⟨hI.turns hmake ht, fun _ _ => hc⟩
  | crowded hc _ _ hr h =>
    obtain ⟨ht, hpc⟩ := turns_startReaper (not_throws_noted hr) h
    rw [hpc.held]
    exact ⟨hI.turns hnote ht, fun _ _ => hc⟩
  | threw h => exact ⟨hI.refuse hnote h, fun _ hpc => by cases hpc⟩
  | front hc _ _ h => exact ⟨hI.front hc hnote h, fun _ hpc => by cases hpc⟩

lemma Kept.moved (hI : Kept cfg I) (hs : I s (pc.held ++ fl)) (he : pc.Enabled cfg)
    (h : Moved cfg now later s call pc s' pc') : I s' (pc'.held ++ fl) ∧ pc'.Enabled cfg := by
  cases h with
  | acquiring hpc ht hpc' =>
    rw [hpc.held] at hs
    rw [hpc'.held]
    exact ⟨hI.turns hs ht, fun _ _ => he _ hpc⟩
  | made a => exact ⟨hs, fun _ hpc => by cases hpc⟩
  | front h => exact ⟨hI.front (he none .reaped) hs h, fun _ hpc => by cases hpc⟩
  | write _ ht hpc' =>
    rw [hpc'.held]
    exact ⟨hI.turns (hI.write _ _ _ hs) ht, fun _ hpc => by cases hpc' <;> cases hpc⟩
  | evicting hpc ht hpc' =>
    rw [hpc.held] at hs
    rw [hpc'.held]
    exact ⟨hI.turns hs ht, fun _ hpc => by cases hpc' <;> cases hpc⟩

/-- Such a thing holds now, and the calls are where they can be. -/
structure Reactor.Keeps (cfg : Config) (I : Store → List Addr → Prop) (σ : Reactor) : Prop where
  inv : I σ.store σ.held
  enabled : ∀ t ∈ σ.tasks, t.pc.Enabled cfg

/-- **What the turns and the steps around them keep is kept by every action.** -/
lemma Reactor.Keeps.act (hI : Kept cfg I) {σ σ' : Reactor} {a : Action} (h : σ.Keeps cfg I)
    (ha : σ.act cfg a = some σ') : σ'.Keeps cfg I := by
  cases a with
  | arrive call now =>
    obtain ⟨⟨s', pc⟩, hr, rfl⟩ := Option.map_eq_some_iff.mp ha
    have hbegin : I s' (pc.held ++ σ.held) ∧ pc.Enabled cfg := by
      cases call with
      | set k v => exact hI.opening h.inv (startWrite_opening hr)
      | setWithTtl k v ttl => exact hI.opening h.inv (startWrite_opening hr)
      | get k =>
        cases hr
        exact ⟨hI.get k now h.inv, fun _ hpc => by cases hpc⟩
    refine ⟨hI.perm hbegin.1 ?_, fun t ht => ?_⟩
    · simpa [held] using List.perm_append_comm
    · rcases List.mem_append.mp ht with ht | ht
      · exact h.enabled t ht
      · obtain rfl := List.mem_singleton.mp ht
        exact hbegin.2
  | resume i now later =>
    obtain ⟨s, tasks⟩ := σ
    obtain ⟨lt, t, rt, r, rfl, -, hr, rfl⟩ := resume_of_act ha
    obtain ⟨h1, h2⟩ := hI.moved (hI.perm h.inv (held_perm s lt rt t)) (h.enabled t (by simp))
      (resume_moved hr)
    have hinv : I r.1 ((t.next now r.2).pc.held ++ others lt rt) := by
      rw [Task.next_pc]
      exact h1
    refine ⟨hI.perm hinv (held_perm r.1 lt rt _).symm, fun u hu => ?_⟩
    rcases List.mem_append.mp hu with hu | hu
    · exact h.enabled u (by simp [hu])
    · rcases List.mem_cons.mp hu with rfl | hu
      · rw [Task.next_pc]
        exact h2
      · exact h.enabled u (by simp [hu])

lemma Reactor.Keeps.runs (hI : Kept cfg I) {σ σ' : Reactor} {acts : List Action}
    (h : σ.Keeps cfg I) (hr : runs (Reactor.act cfg) σ acts = some σ') : σ'.Keeps cfg I :=
  runs_rule (fun _ _ _ h ha => Keeps.act hI h ha) h hr

end Kept

end ShunyaKV.Shard
