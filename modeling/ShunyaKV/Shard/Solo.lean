import Mathlib.Logic.Relation
import ShunyaKV.Shard.Growth
import ShunyaKV.Shard.Held

/-!
Calls that nothing comes between.

A call that is resumed until it is done, with no other call running meanwhile, leaves the
store and returns the reply of the operation run in one piece, wherever it was suspended.
-/

namespace ShunyaKV.Shard

open Relation (ReflTransGen)
open ShunyaKV.Lib.Steps

section Solo

variable {cfg : Config} {now later : ℕ} {call : Call}

def Resumes (cfg : Config) (now later : ℕ) (call : Call) (q q' : Store × Pc) : Prop :=
  resume cfg now later q.1 call q.2 = some q'

/-- A call alone, from a suspension to a later one. -/
def Solo (cfg : Config) (now later : ℕ) (call : Call) : Store × Pc → Store × Pc → Prop :=
  ReflTransGen (Resumes cfg now later call)

lemma Solo.refl (q : Store × Pc) : Solo cfg now later call q q := ReflTransGen.refl

lemma Solo.trans {q q' q'' : Store × Pc} (h : Solo cfg now later call q q')
    (h' : Solo cfg now later call q' q'') : Solo cfg now later call q q'' :=
  ReflTransGen.trans h h'

lemma Solo.head {q q' q'' : Store × Pc} (h : resume cfg now later q.1 call q.2 = some q')
    (h' : Solo cfg now later call q' q'') : Solo cfg now later call q q'' :=
  ReflTransGen.head h h'

/-! ### The loops over victims -/

lemma evictKeys_append (cfg : Config) (s : Store) (keys keys' : List Bytes) :
    s.evictKeys cfg (keys ++ keys') = (s.evictKeys cfg keys).evictKeys cfg keys' :=
  List.foldl_append

/-- A removal loop `loop` that yields at `yield` and ends at `finish`. -/
lemma solo_removeLoop (loop : List Bytes → ℕ → Store → Store × Pc) {finish : Pc}
    {yield : List Bytes → ℕ → Pc}
    (hloop : ∀ keys count s, loop keys count s = match removeLoop cfg keys count s with
      | (s, none) => (s, finish)
      | (s, some (left, count)) => (s, yield left count))
    (hyield : ∀ left count s, resume cfg now later s call (yield left count) =
      some (loop left count s)) (keys : List Bytes) (count : ℕ) (s : Store) :
    Solo cfg now later call (loop keys count s) (s.evictKeys cfg keys, finish) := by
  induction hn : keys.length using Nat.strongRecOn generalizing keys count s with
  | _ n ih =>
    subst hn
    obtain ⟨gone, left, hkeys, hs, hend⟩ := removeLoop_eq cfg keys count s
    rw [hloop]
    rcases hr : removeLoop cfg keys count s with ⟨s', o⟩
    rw [hr] at hs hend
    dsimp only at hs hend
    subst hs
    rcases hend with ⟨rfl, rfl⟩ | ⟨rfl, -, hgone⟩
    · rw [hkeys, List.append_nil]
      exact .refl _
    · have hlt : left.length < keys.length := by
        have := List.length_pos_iff.mpr hgone
        rw [hkeys, List.length_append]
        omega
      rw [hkeys, evictKeys_append]
      exact .head (hyield left _ _) (ih left.length hlt left _ _ rfl)

lemma solo_callback (keys : List Bytes) (count : ℕ) (fresh : Option Addr) (s : Store) :
    Solo cfg now later call (callback cfg keys count fresh s)
      (s.evictKeys cfg keys, .reaped fresh) :=
  solo_removeLoop (fun keys count s => callback cfg keys count fresh s)
    (fun _ _ _ => rfl) (fun _ _ _ => rfl) keys count s

lemma solo_removal (keys : List Bytes) (count : ℕ) (s : Store) :
    Solo cfg now later call (removal cfg keys count s)
      (s.evictKeys cfg keys, .done (.stored true)) :=
  solo_removeLoop (removal cfg) (fun _ _ _ => rfl) (fun _ _ _ => rfl) keys count s

/-! ### Acquiring -/

lemma solo_finishReaper (count : ℕ) (victims : List Bytes) (fresh : Option Addr) (s : Store) :
    Solo cfg now later call (finishReaper cfg count victims fresh s)
      (Store.evictKeys cfg { s with probEvictionCount := s.probEvictionCount + count } victims,
        .reaped fresh) := by
  unfold finishReaper
  dsimp only
  split
  · next h =>
    subst h
    exact .refl _
  · exact solo_callback victims 0 fresh _

variable (cfg now later call) in
lemma solo_reapSegment (s : Store) (fresh : Option Addr) (budget count : ℕ) (victims : List Bytes)
    (hh : s.probationHand = s.probationList.head?) (hb : budget + count = cfg.reaperBudget) :
    ∃ q, reapSegment cfg fresh budget count victims s = some q ∧
      Solo cfg now later call q (Store.evictKeys cfg { (s.reapLoop budget).1 with
        probEvictionCount := (s.reapLoop budget).1.probEvictionCount +
          (count + (s.reapLoop budget).2.length) } (victims ++ (s.reapLoop budget).2),
        .reaped fresh) := by
  induction budget generalizing s count victims with
  | zero =>
    refine ⟨_, rfl, ?_⟩
    simpa [Store.reapLoop] using solo_finishReaper count victims fresh s
  | succ budget ih =>
    rcases hl : s.probationList with _ | ⟨a, l⟩
    · refine ⟨_, by rw [reapSegment, if_pos hl], ?_⟩
      simpa [Store.reapLoop, hl] using solo_finishReaper count victims fresh s
    · rw [hl] at hh
      have hturn := Store.reapTurn_head hl
      set t : Store :=
        { s with probationList := l, probationHand := l.head?, probCount := decU64 s.probCount }
      obtain ⟨q, hq, hsolo⟩ := ih t (count + 1) (victims ++ [(s.heap a).key]) rfl (by omega)
      have hloop : s.reapLoop (budget + 1) =
          ((t.reapLoop budget).1, (s.heap a).key :: (t.reapLoop budget).2) := by
        rw [Store.reapLoop, if_neg (by simp [hl]), hh]
        simp only [List.head?_cons, hturn]
      have hcount : count + ((s.heap a).key :: (t.reapLoop budget).2).length =
          count + 1 + (t.reapLoop budget).2.length := by
        rw [List.length_cons]
        omega
      rw [reapSegment, if_neg (by simp [hl]), hh, hloop, hcount, List.append_cons]
      simp only [List.head?_cons, hturn]
      by_cases hy : (count + 1) % 1000 = 0
      · refine ⟨_, if_pos hy, Solo.head ?_ hsolo⟩
        have hleft : cfg.reaperBudget - (count + 1) = budget := by omega
        rw [← hq, ← hleft]
        rfl
      · exact ⟨q, by rw [if_neg hy, hq], hsolo⟩

variable (cfg now later call) in
lemma solo_startReaper (fresh : Option Addr) {s : Store} (hthrows : ¬ s.ReaperThrows cfg) :
    ∃ q, startReaper cfg fresh s = some q ∧
      Solo cfg now later call q ((s.runSequentialReaper cfg).1, .reaped fresh) := by
  unfold startReaper Store.runSequentialReaper
  split
  · exact ⟨_, rfl, .refl _⟩
  · next hne =>
    have hroom : ¬ vectorMaxSize < cfg.reaperBudget := fun hbig => hthrows ⟨hne, hbig⟩
    simp only [hroom, if_false]
    obtain ⟨q, hq, hsolo⟩ := solo_reapSegment cfg now later call
      { s with probationHand := s.probationList.head? } fresh cfg.reaperBudget 0 [] rfl rfl
    refine ⟨q, hq, ?_⟩
    simpa only [Nat.zero_add, List.nil_append] using hsolo

/-- **Acquiring** alone. -/
lemma solo_startWrite {s t : Store} {a : Addr}
    (h : s.noteFallback.acquire cfg = (t, .ok (some a))) :
    ∃ q, startWrite cfg s = some q ∧ Solo cfg now later call q (t, .acquired a) := by
  unfold startWrite
  dsimp only
  cases Store.acquires_of_acquire h with
  | sanctuary hc h => exact ⟨_, by rw [if_pos hc, h]; rfl, .refl _⟩
  | made hc hp hfits hr =>
    rw [if_neg hc, if_pos hp, if_pos hfits]
    obtain ⟨q, hq, hsolo⟩ := solo_startReaper cfg now later call (some s.noteFallback.next)
      (show ¬ (s.noteFallback.alloc.countProbation s.noteFallback.next).ReaperThrows cfg from hr)
    exact ⟨q, hq, hsolo.trans (.head rfl (.refl _))⟩
  | reaped hc hp hq hr h =>
    rw [if_neg hc, if_neg hp, if_pos hq]
    obtain ⟨q, hq, hsolo⟩ := solo_startReaper cfg now later call none hr
    refine ⟨q, hq, hsolo.trans (.head ?_ (.refl _))⟩
    show toAcquired (Store.returned (s.noteFallback.runSequentialReaper cfg).1.takeFront) = _
    rw [h]
    rfl
  | front hc hp hq h => exact ⟨_, by rw [if_neg hc, if_neg hp, if_neg hq, h]; rfl, .refl _⟩

lemma startWrite_refuses {s t : Store} {e : LengthError}
    (h : Store.Refuses cfg s.noteFallback t e) :
    startWrite cfg s = some (t, .done (.threw e)) := by
  unfold startWrite
  dsimp only
  cases h with
  | value hp hfits =>
    split
    · simp [Store.doAcquire, hp, hfits, toAcquired, unwind]
    · simp [hfits, unwind]
  | made hc hp hfits hr =>
    have hmade : (s.noteFallback.alloc.countProbation s.noteFallback.next).ReaperThrows cfg := hr
    rw [if_neg hc, if_pos hp, if_pos hfits, startReaper_throws _ hmade]
    rfl
  | reaper hc hp hq hr =>
    rw [if_neg hc, if_neg hp, if_pos hq, startReaper_throws _ hr]
    rfl

/-! ### The eviction pass -/

/-- The loop of `evict`, the hand at the first entry of `r`, with any fuel that is enough. -/
lemma solo_sieveSegment {s : Store} {l r : List Addr} (t fuel fuel' count : ℕ)
    (victims : List Bytes) (h : s.Split l r) (hf : r.length ≤ fuel) (hf' : r.length ≤ fuel') :
    Solo cfg now later call (sieveSegment cfg t fuel count victims s)
      (finishEvict (victims ++ (Store.evictLoop cfg.softBudget t fuel' count s).2)
        (Store.evictLoop cfg.softBudget t fuel' count s).1) := by
  induction r generalizing s l fuel fuel' count victims with
  | nil =>
    have hh : s.hand = none := h.hand
    cases fuel <;> cases fuel' <;> simp [sieveSegment, Store.evictLoop, hh, Solo.refl]
  | cons a r ih =>
    obtain ⟨fuel, rfl⟩ : ∃ n, fuel = n + 1 := ⟨fuel - 1, by simp at hf; omega⟩
    obtain ⟨fuel', rfl⟩ : ∃ n, fuel' = n + 1 := ⟨fuel' - 1, by simp at hf'; omega⟩
    have hh : s.hand = some a := h.hand
    rw [sieveSegment, Store.evictLoop]
    by_cases hc : count < cfg.softBudget
    · rw [if_pos hc, if_pos hc, hh]
      cases ht : s.takes t a with
      | true =>
        simp only [Store.evictTurn_take h ht]
        by_cases hemp : l ++ r = []
        · simp [hemp, Solo.refl]
        · simp only [hemp, if_false]
          rw [List.append_cons victims (s.heap a).key (Store.evictLoop cfg.softBudget t fuel'
            (count + 1) { s with sieveList := l ++ r, hand := r.head? }).2]
          by_cases hy : (count + 1) % 1000 = 0
          · rw [if_pos hy]
            refine .head rfl (ih _ fuel' (count + 1) _ h.take ?_ (by simpa using hf'))
            simp
          · rw [if_neg hy]
            exact ih fuel fuel' (count + 1) _ h.take (by simpa using hf) (by simpa using hf')
      | false =>
        simp only [Store.evictTurn_pass h ht]
        exact ih fuel fuel' count victims h.pass (by simpa using hf) (by simpa using hf')
    · rw [if_neg hc, if_neg hc, List.append_nil]
      exact .refl _

/-- **The eviction pass** alone. -/
lemma solo_startEvict {s : Store} {l r : List Addr} (t : ℕ) (h : s.Split l r)
    (hr : r = [] → l = []) :
    Solo cfg now later call (startEvict cfg t s) ((s.checkMemoryAndEvict cfg t).1,
      .done (.ofWrite ((s.checkMemoryAndEvict cfg t).2.map fun _ => true))) := by
  unfold startEvict Store.checkMemoryAndEvict Store.evict
  split
  · exact .refl _
  split
  · split
    · exact .refl _
    unfold Store.sweep
    split
    · exact .head rfl (.refl _)
    · next hne =>
      have hhand : s.hand ≠ none := by
        rw [h.hand]
        intro hnone
        have hr' := List.head?_eq_none_iff.mp hnone
        exact hne (by rw [h.list, hr', hr hr']; rfl)
      have hs : { s with hand := if s.hand = none then s.sieveList.head? else s.hand } = s := by
        simp [hhand]
      have hlen : r.length ≤ s.sieveList.length := by rw [h.list]; simp
      simp only [hs]
      refine (solo_sieveSegment t _ s.sieveList.length 0 [] h hlen hlen).trans (.head rfl ?_)
      exact solo_removal _ 0 _
  · exact .refl _

end Solo

/-- **A call alone is the operation in one piece**: it is suspended and resumed until it is
done, with the store and the reply of the sequential model. -/
theorem solo_eq_step {cfg : Config} {s : Store} (hs : Sound cfg s) (e : Event) :
    ∃ q, begin cfg e.now s e.call = some q ∧
      Solo cfg e.now e.later e.call q ((step cfg s e).1, .done (step cfg s e).2) := by
  obtain ⟨call, now, later⟩ := e
  have hwrite (k v : Bytes) (d : Option ℕ)
      (hresume : ∀ t a, resume cfg now later t call (.acquired a) =
        some (startEvict cfg later (update cfg t k v d a))) :
      ∃ q, startWrite cfg s = some q ∧ Solo cfg now later call q
        ((s.put cfg k v d later).1, .done (.ofWrite (s.put cfg k v d later).2)) := by
    by_cases hthrows : s.AcquireThrows cfg
    · obtain ⟨t, e, ht, hrefuses, -⟩ := refused_write hs.owned k v d hthrows
      rw [Store.put_throws ht]
      exact ⟨_, startWrite_refuses hrefuses, .refl _⟩
    obtain ⟨a, t, hacq, -⟩ := acquired_acquire hs.owned.noteFallback.1
      (Store.acquireThrows_noteFallback.not.mpr hthrows)
    obtain ⟨q, hq, hsolo⟩ : ∃ q, startWrite cfg s = some q ∧
        Solo cfg now later call q (t, .acquired a) := solo_startWrite hacq
    have hw : s.write cfg k v d = (update cfg t k v d a, .ok true) := by
      rw [Store.write, hacq]
      rfl
    obtain ⟨l, r, hsplit, hr⟩ := (linked_write hs.owned hs.linked hw).split
    have hpass : Solo cfg now later call (startEvict cfg later (update cfg t k v d a)) _ :=
      solo_startEvict later hsplit hr
    refine ⟨q, hq, hsolo.trans (.head (hresume t a) ?_)⟩
    rw [Store.put_eq hw]
    rcases hcheck : (update cfg t k v d a).checkMemoryAndEvict cfg later with ⟨u, x | x⟩ <;>
      rw [hcheck] at hpass <;> exact hpass
  cases call with
  | set k v => exact hwrite k v none fun _ _ => rfl
  | setWithTtl k v ttl => exact hwrite k v (some (Store.due now ttl)) fun _ _ => rfl
  | get k => exact ⟨_, rfl, .refl _⟩

/-! ### Runs -/

namespace Reactor

section Act

variable {cfg : Config} {s : Store} {l r : List Task} {call : Call} {pc : Pc} {effect : Option ℕ}
  {now later i : ℕ} {q : Store × Pc}

lemma act_resume (hi : l.length = i) (h : resume cfg now later s call pc = some q) :
    act cfg ⟨s, l ++ ⟨call, pc, effect⟩ :: r⟩ (.resume i now later) =
      some ⟨q.1, l ++ Task.next ⟨call, pc, effect⟩ now q.2 :: r⟩ := by
  subst hi
  simp [act, h]

lemma act_arrive (h : begin cfg now s call = some q) :
    act cfg ⟨s, l⟩ (.arrive call now) = some ⟨q.1, l ++ [⟨call, q.2, call.effect now⟩]⟩ := by
  simp [act, h]

lemma runs_resume (hi : l.length = i) (h : resume cfg now later s call pc = some q)
    (acts : List Action) :
    runs (act cfg) ⟨s, l ++ ⟨call, pc, effect⟩ :: r⟩ (.resume i now later :: acts) =
      runs (act cfg) ⟨q.1, l ++ Task.next ⟨call, pc, effect⟩ now q.2 :: r⟩ acts :=
  runs_step (act_resume hi h) acts

lemma runs_arrive (h : begin cfg now s call = some q) (acts : List Action) :
    runs (act cfg) ⟨s, l⟩ (.arrive call now :: acts) =
      runs (act cfg) ⟨q.1, l ++ [⟨call, q.2, call.effect now⟩]⟩ acts :=
  runs_step (act_arrive h) acts

end Act

/-- A call alone in the shard. -/
lemma runs_solo {cfg : Config} {now later : ℕ} {call : Call} {q q' : Store × Pc}
    (h : Solo cfg now later call q q') (tasks : List Task) (effect : Option ℕ) :
    ∃ acts effect', runs (act cfg) ⟨q.1, tasks ++ [⟨call, q.2, effect⟩]⟩ acts =
      some ⟨q'.1, tasks ++ [⟨call, q'.2, effect'⟩]⟩ := by
  induction h with
  | refl => exact ⟨[], effect, rfl⟩
  | @tail q' q'' _ hstep ih =>
    obtain ⟨acts, effect', hruns⟩ := ih
    obtain ⟨effect'', hnext⟩ : ∃ effect'',
        Task.next ⟨call, q'.2, effect'⟩ now q''.2 = ⟨call, q''.2, effect''⟩ := by
      unfold Task.next
      split <;> exact ⟨_, rfl⟩
    refine ⟨acts ++ [.resume tasks.length now later], effect'', ?_⟩
    rw [runs_append, hruns, Option.bind_some, runs_resume rfl hstep, hnext, runs_nil]

def outcomes (tasks : List Task) : List (Call × Pc) := tasks.map fun t => (t.call, t.pc)

lemma runs_run {cfg : Config} {s : Store} (hs : Sound cfg s) (tasks : List Task)
    (es : List Event) :
    ∃ acts tasks', runs (act cfg) ⟨s, tasks⟩ acts = some ⟨run cfg s es, tasks ++ tasks'⟩ ∧
      outcomes tasks' = (es.map Event.call).zip ((replies cfg s es).map Pc.done) := by
  induction es generalizing s tasks with
  | nil => exact ⟨[], [], by simp, rfl⟩
  | cons e es ih =>
    obtain ⟨q, hq, hsolo⟩ := solo_eq_step hs e
    obtain ⟨acts, effect, hacts⟩ := runs_solo hsolo tasks (e.call.effect e.now)
    obtain ⟨acts', tasks', hacts', hout⟩ := ih (sound_step hs e)
      (tasks ++ [⟨e.call, .done (step cfg s e).2, effect⟩])
    refine ⟨.arrive e.call e.now :: acts ++ acts',
      ⟨e.call, .done (step cfg s e).2, effect⟩ :: tasks', ?_, ?_⟩
    · rw [List.cons_append, runs_arrive hq, runs_append, hacts, Option.bind_some,
        hacts', List.append_assoc]
      rfl
    · rw [outcomes, List.map_cons]
      exact congrArg _ hout

/-- **Calls one after the other are one of the schedules.** -/
theorem runs_sequential (cfg : Config) (es : List Event) :
    ∃ acts tasks, runs (act cfg) (fresh cfg) acts = some ⟨run cfg (start cfg) es, tasks⟩ ∧
      outcomes tasks = (es.map Event.call).zip ((replies cfg (start cfg) es).map Pc.done) := by
  simpa [fresh] using runs_run (sound_start cfg) [] es

end Reactor

/-! ### Insertions

As long as no pass is triggered, new keys go through without a suspension. -/

section Insertions

variable {cfg : Config} (hc : cfg.probPoolMaxSize ≠ 0) (hsoft : ∀ n, cfg.softTriggered n = false)

include hsoft in
lemma resume_set (now later : ℕ) (s : Store) (k v : Bytes) (a : Addr) :
    resume cfg now later s (.set k v) (.acquired a) =
      some (update cfg s k v none a, .done (.stored true)) := by
  simp [resume, startEvict, hsoft]

include hc in
/-- Below the threshold a write takes the front of the pool. -/
lemma startWrite_front {s : Store} (hp : s.pool ≠ []) (hlt : s.probCount < cfg.probThreshold) :
    startWrite cfg s = toAcquired (Store.returned s.takeFront) := by
  have hnote : s.noteFallback = s := by
    simp [Store.noteFallback, Store.availableSlots, hp]
  rw [startWrite, hnote]
  simp [hc, hp, Nat.not_le.mpr hlt]

lemma takeFront_cons {s : Store} {a : Addr} {pool : List Addr} (hpool : s.pool = a :: pool) :
    s.takeFront = ({ { s with pool := pool }.countProbation a with
      probationList := s.probationList ++ [a] }, some a) := by
  simp only [Store.takeFront, hpool]
  rfl

lemma takeFront_some {s : Store} {fl : List Addr} (hh : Holds s fl) (hp : s.pool ≠ []) :
    ∃ t a, toAcquired (Store.returned s.takeFront) = some (t, .acquired a) ∧ Holds t (a :: fl) ∧
      t.map = s.map ∧ s.pool = a :: t.pool := by
  obtain ⟨a, pool, hpool⟩ := List.exists_cons_of_ne_nil hp
  have hfront : toAcquired (Store.returned s.takeFront) =
      some ({ { s with pool := pool }.countProbation a with
        probationList := s.probationList ++ [a] }, .acquired a) := by
    rw [takeFront_cons hpool]
    rfl
  exact ⟨_, a, hfront, (moves_takeFront hh (takeFront_cons hpool)).1, rfl, hpool⟩

lemma update_new {s : Store} {k : Bytes} (hk : s.map.lookup k = none) (v : Bytes) (a : Addr) :
    update cfg s k v none a =
      { s.modify a fun e => { e with key := k, value := v } with map := s.map.insert k a } := by
  simp [update, Store.emplace, hk]

/-- The shard holds the first `n` new keys, all of them in probation. -/
structure Filled (cfg : Config) (n : ℕ) (s : Store) : Prop where
  holds : Holds s []
  pool : s.pool.length + n = cfg.maxSize
  count : s.probCount = n
  unlisted : ∀ a ∈ s.pool, a ∉ s.probationList
  keys : s.probationList.map (fun a => (s.heap a).key) = (List.range n).map freshKey
  map : ∀ k, s.map.lookup k ≠ none → ∃ i < n, k = freshKey i

lemma filled_start (cfg : Config) : Filled cfg 0 (start cfg) :=
  ⟨holds_start cfg, by simp [start], rfl, by simp [start], rfl, by simp [start]⟩

lemma Filled.absent {n : ℕ} {s : Store} (h : Filled cfg n s) {k : Bytes}
    (hk : ∀ i < n, k ≠ freshKey i) : s.map.lookup k = none := by
  by_contra hne
  obtain ⟨i, hi, e⟩ := h.map k hne
  exact hk i hi e

lemma Filled.pool_ne_nil {n : ℕ} {s : Store} (h : Filled cfg n s) (hn : n < cfg.maxSize) :
    s.pool ≠ [] := by
  intro hp
  have := h.pool
  rw [hp, List.length_nil] at this
  omega

include hc hsoft in
lemma Filled.insert {n : ℕ} {s : Store} (h : Filled cfg n s) (hmax : n < cfg.maxSize)
    (hth : n < cfg.probThreshold) :
    ∃ t a s', startWrite cfg s = some (t, .acquired a) ∧
      resume cfg 0 0 t (.set (freshKey n) []) (.acquired a) = some (s', .done (.stored true)) ∧
      Filled cfg (n + 1) s' := by
  have hp := h.pool_ne_nil hmax
  have hstart := startWrite_front hc hp (by rw [h.count]; exact hth)
  obtain ⟨a, pool, hpool⟩ := List.exists_cons_of_ne_nil hp
  rw [takeFront_cons hpool] at hstart
  set t : Store := { { s with pool := pool }.countProbation a with
    probationList := s.probationList ++ [a] } with ht
  have hk : t.map.lookup (freshKey n) = none :=
    h.absent fun i hi e => hi.ne' (freshKey_injective e)
  have hholds := (holds_update cfg (moves_startWrite cfg h.holds hstart).1.1 (freshKey n) [] none).1
  refine ⟨t, a, _, hstart, resume_set hsoft 0 0 t _ _ a, ?_⟩
  rw [update_new hk] at hholds ⊢
  have hlist (b : Addr) (hb : b ∈ s.probationList) : b ≠ a := by
    rintro rfl
    exact h.unlisted b (by simp [hpool]) hb
  refine ⟨hholds, ?_, ?_, ?_, ?_, ?_⟩
  · have := h.pool
    rw [hpool, List.length_cons] at this
    show pool.length + (n + 1) = _
    omega
  · show s.probCount + 1 = n + 1
    rw [h.count]
  · intro b hb
    have hne : b ≠ a := by
      rintro rfl
      have := h.holds.poolNodup
      rw [hpool] at this
      exact (List.nodup_cons.mp this).1 hb
    have hb' := h.unlisted b (by rw [hpool]; exact List.mem_cons_of_mem a hb)
    show b ∉ s.probationList ++ [a]
    simp [hb', hne]
  · show (s.probationList ++ [a]).map _ = _
    rw [List.range_succ, List.map_append, List.map_append, ← h.keys]
    congr 1
    · refine List.map_congr_left fun b hb => ?_
      simp [ht, Store.modify_heap_other _ _ _ (hlist b hb), Store.countProbation]
    · simp
  · intro k hk'
    by_cases he : k = freshKey n
    · exact ⟨n, by omega, he⟩
    · have hs : s.map.lookup k ≠ none := by
        intro hn
        exact hk' ((AList.lookup_insert_ne he).trans hn)
      obtain ⟨i, hi, e⟩ := h.map k hs
      exact ⟨i, by omega, e⟩

def insertions (n : ℕ) : List Action :=
  (List.range n).flatMap fun i => [.arrive (.set (freshKey i) []) 0, .resume i 0 0]

def insertionsAt (m n : ℕ) : List Action :=
  (List.range n).flatMap fun i => [.arrive (.set (freshKey i) []) 0, .resume (m + i) 0 0]

def inserts (n : ℕ) : List Task :=
  (List.range n).map fun i => ⟨.set (freshKey i) [], .done (.stored true), some 0⟩

lemma inserts_length (n : ℕ) : (inserts n).length = n := by simp [inserts]

include hc hsoft in
/-- **Filling the shard** up to the threshold. -/
lemma runs_insertionsAt {n : ℕ} {s : Store} (hs : Filled cfg 0 s) (tasks : List Task)
    (hmax : n ≤ cfg.maxSize) (hth : n ≤ cfg.probThreshold) :
    ∃ s', runs (Reactor.act cfg) ⟨s, tasks⟩ (insertionsAt tasks.length n) =
      some ⟨s', tasks ++ inserts n⟩ ∧ Filled cfg n s' := by
  induction n with
  | zero => exact ⟨s, by simp [insertionsAt, inserts], hs⟩
  | succ n ih =>
    obtain ⟨s₁, hruns, hs₁⟩ := ih (by omega) (by omega)
    obtain ⟨t, a, s', h1, h2, h3⟩ := hs₁.insert hc hsoft (by omega) (by omega)
    refine ⟨s', ?_, h3⟩
    have hact : Reactor.act cfg
        ⟨t, tasks ++ inserts n ++ [⟨.set (freshKey n) [], .acquired a, none⟩]⟩
        (.resume (tasks.length + n) 0 0) = some ⟨s', tasks ++ inserts (n + 1)⟩ := by
      rw [Reactor.act_resume (by simp [inserts_length]) h2]
      simp [inserts, List.range_succ, Task.next]
    have hround : insertionsAt tasks.length (n + 1) = insertionsAt tasks.length n ++
        [.arrive (.set (freshKey n) []) 0, .resume (tasks.length + n) 0 0] := by
      simp [insertionsAt, List.range_succ]
    have harrive : Reactor.act cfg ⟨s₁, tasks ++ inserts n⟩
        (.arrive (.set (freshKey n) []) 0) = _ := Reactor.act_arrive h1
    rw [hround, runs_append, hruns, Option.bind_some, runs_step harrive]
    exact runs_step hact []

include hc hsoft in
lemma runs_insertions {n : ℕ} (hmax : n ≤ cfg.maxSize) (hth : n ≤ cfg.probThreshold) :
    ∃ s, runs (Reactor.act cfg) (Reactor.fresh cfg) (insertions n) = some ⟨s, inserts n⟩ ∧
      Filled cfg n s := by
  have h := runs_insertionsAt hc hsoft (filled_start cfg) [] hmax hth
  simpa [insertions, insertionsAt, Reactor.fresh] using h

/-! At the threshold the next new key meets the reaper, and a batch of a thousand victims is
where it first yields. -/

lemma reapSegment_yield {s : Store} {l : List Addr} {fresh : Option Addr} {budget count : ℕ}
    (victims : List Bytes) (hl : s.probationList = l) (hh : s.probationHand = l.head?)
    (hne : l ≠ []) (hb : l.length ≤ budget) (hcount : count + l.length = 1000) :
    reapSegment cfg fresh budget count victims s =
      some ({ s with probationList := [], probationHand := none,
                     probCount := decU64^[l.length] s.probCount },
        .reaping 1000 (victims ++ l.map fun a => (s.heap a).key) fresh) := by
  induction l generalizing s budget count victims with
  | nil => exact absurd rfl hne
  | cons a l ih =>
    obtain ⟨budget, rfl⟩ : ∃ b, budget = b + 1 := ⟨budget - 1, by simp at hb; omega⟩
    rw [List.length_cons] at hb hcount
    rw [reapSegment, if_neg (by simp [hl]), hh]
    simp only [List.head?_cons, Store.reapTurn_head hl]
    rcases l with _ | ⟨b, l⟩
    · have hlast : count + 1 = 1000 := hcount
      simp [hlast]
    · rw [List.length_cons] at hcount
      rw [if_neg (by omega), ih (victims ++ [(s.heap a).key]) rfl rfl (by simp) (by omega)
        (by rw [List.length_cons]; omega)]
      simp

lemma removeLoop_yield {keys : List Bytes} {count : ℕ} (s : Store) (hne : keys ≠ [])
    (hcount : count + keys.length = 1000) :
    removeLoop cfg keys count s = (s.evictKeys cfg keys, some ([], 1000)) := by
  induction keys generalizing s count with
  | nil => exact absurd rfl hne
  | cons key keys ih =>
    rw [List.length_cons] at hcount
    rw [removeLoop]
    rcases keys with _ | ⟨key', keys⟩
    · have hlast : count + 1 = 1000 := hcount
      simp [hlast, Store.evictKeys]
    · rw [List.length_cons] at hcount
      rw [if_neg (by omega), ih _ (by simp) (by rw [List.length_cons]; omega)]
      rfl

/-- The store with all that was in probation unlinked. -/
def Store.emptied (s : Store) : Store :=
  { s with probationList := [], probationHand := none, probCount := 0 }

lemma touch_emptied (s : Store) : Touch s s.emptied :=
  ⟨rfl, rfl, rfl, rfl, fun _ _ => rfl, fun _ => ⟨rfl, rfl, rfl⟩⟩

lemma Filled.length {n : ℕ} {s : Store} (h : Filled cfg n s) : s.probationList.length = n := by
  rw [← List.length_map (fun a => (s.heap a).key), h.keys, List.length_map, List.length_range]

include hc in
/-- The first write past the threshold is suspended in the reaper, all victims unlinked. -/
lemma Filled.suspend {n : ℕ} {s : Store} (h : Filled cfg n s) (hn : n = 1000)
    (hmax : n < cfg.maxSize) (hth : cfg.probThreshold = n) (hb : n ≤ cfg.reaperBudget)
    (hroom : ¬ vectorMaxSize < cfg.reaperBudget) :
    startWrite cfg s = some (s.emptied, .reaping 1000 ((List.range n).map freshKey) none) := by
  have hp := h.pool_ne_nil hmax
  have hnote : s.noteFallback = s := by
    simp [Store.noteFallback, Store.availableSlots, hp]
  have hlen := h.length
  have hne : s.probationList ≠ [] := List.ne_nil_of_length_pos (by omega)
  have hstart : startWrite cfg s = startReaper cfg none s := by
    rw [startWrite, hnote]
    simp [hc, hp, hth, h.count]
  have hcount : decU64^[s.probationList.length] s.probCount = 0 := by
    rw [hlen, h.count, decU64_iterate (Nat.le_refl n), Nat.sub_self]
  rw [hstart, startReaper, if_neg hne]
  simp only [hroom, if_false]
  rw [reapSegment_yield (s := { s with probationHand := s.probationList.head? }) [] rfl rfl hne
    (hlen.le.trans hb) ((Nat.zero_add _).trans (hlen.trans hn)), hcount, ← h.keys]
  rfl

/-- Its batch is removed in one go, up to the yield after the last victim. -/
lemma resume_reaping {s : Store} {call : Call} {victims : List Bytes} {fresh : Option Addr}
    (now later : ℕ) (hv : victims.length = 1000) (hb : cfg.reaperBudget = 1000) :
    resume cfg now later s call (.reaping 1000 victims fresh) =
      some (Store.evictKeys cfg { s with probEvictionCount := s.probEvictionCount + 1000 } victims,
        .calling [] 1000 fresh) := by
  have hne : victims ≠ [] := List.ne_nil_of_length_pos (by omega)
  rw [resume, hb, Nat.sub_self, reapSegment, finishReaper]
  simp only [hne, if_false]
  rw [callback, removeLoop_yield _ hne (by omega)]

lemma resume_calling (now later : ℕ) (s : Store) (call : Call) (count : ℕ)
    (fresh : Option Addr) :
    resume cfg now later s call (.calling [] count fresh) = some (s, .reaped fresh) := rfl

/-- The call suspended in the reaper with the first `n` keys as its victims. -/
def inReaper (n : ℕ) : Task :=
  ⟨.set [1] [1], .reaping 1000 ((List.range n).map freshKey) none, none⟩

include hc hsoft in
/-- After `n` new keys a write is suspended in the reaper, which has emptied its list. -/
lemma runs_inReaper {n : ℕ} (hn : n = 1000) (hmax : n < cfg.maxSize) (hth : cfg.probThreshold = n)
    (hb : n ≤ cfg.reaperBudget) (hroom : ¬ vectorMaxSize < cfg.reaperBudget) :
    ∃ s, Filled cfg n s ∧
      runs (Reactor.act cfg) (Reactor.fresh cfg) (insertions n ++ [.arrive (.set [1] [1]) 0]) =
        some ⟨s.emptied, inserts n ++ [inReaper n]⟩ := by
  obtain ⟨s, hruns, hfill⟩ := runs_insertions hc hsoft (n := n) (by omega) hth.ge
  have hbegin : begin cfg 0 s (.set [1] [1]) = _ := hfill.suspend hc hn hmax hth hb hroom
  refine ⟨s, hfill, ?_⟩
  rw [runs_append, hruns, Option.bind_some, Reactor.runs_arrive hbegin]
  rfl

/-- Another one takes its entry meanwhile. -/
def midBatch (n : ℕ) (k v : Bytes) : List Action :=
  insertions n ++ [.arrive (.set [1] [1]) 0, .arrive (.set k v) 0]

include hc hsoft in
lemma runs_midBatch {n : ℕ} (hn : n = 1000) (hmax : n < cfg.maxSize) (hth : cfg.probThreshold = n)
    (hb : n ≤ cfg.reaperBudget) (hroom : ¬ vectorMaxSize < cfg.reaperBudget) (k v : Bytes) :
    ∃ s t a, Filled cfg n s ∧ Holds t [a] ∧ t.map = s.map ∧ s.pool = a :: t.pool ∧
      runs (Reactor.act cfg) (Reactor.fresh cfg) (midBatch n k v) =
        some ⟨t, inserts n ++ [inReaper n, ⟨.set k v, .acquired a, none⟩]⟩ := by
  obtain ⟨s, hfill, hruns⟩ := runs_inReaper hc hsoft hn hmax hth hb hroom
  have hp : s.emptied.pool ≠ [] := hfill.pool_ne_nil hmax
  have hlt : s.emptied.probCount < cfg.probThreshold := by
    show 0 < cfg.probThreshold
    omega
  obtain ⟨t, a, h, hh, hmap, hpool⟩ := takeFront_some ((touch_emptied s).moves hfill.holds).1 hp
  rw [← startWrite_front hc hp hlt] at h
  have hbegin : begin cfg 0 s.emptied (.set k v) = _ := h
  refine ⟨s, t, a, hfill, hh, hmap, hpool, ?_⟩
  rw [midBatch, List.append_cons, runs_append, hruns, Option.bind_some,
    Reactor.runs_arrive hbegin, List.append_assoc]
  rfl

include hsoft in
lemma runs_midWrite {n : ℕ} {k v : Bytes} {t : Store} {a : Addr}
    (h : runs (Reactor.act cfg) (Reactor.fresh cfg) (midBatch n k v) =
      some ⟨t, inserts n ++ [inReaper n, ⟨.set k v, .acquired a, none⟩]⟩) (acts : List Action) :
    runs (Reactor.act cfg) (Reactor.fresh cfg) (midBatch n k v ++ .resume (n + 1) 0 0 :: acts) =
      runs (Reactor.act cfg) ⟨update cfg t k v none a,
        inserts n ++ [inReaper n, ⟨.set k v, .done (.stored true), some 0⟩]⟩ acts := by
  rw [runs_append, h, Option.bind_some, List.append_cons,
    Reactor.runs_resume (by simp [inserts_length]) (resume_set hsoft 0 0 t k v a),
    List.append_assoc]
  rfl

end Insertions

end ShunyaKV.Shard
