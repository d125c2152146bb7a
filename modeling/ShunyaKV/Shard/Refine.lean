import ShunyaKV.Shard.Owned

/-!
The store is a map with deadlines, apart from evictions.
-/

namespace ShunyaKV.Shard

open ShunyaKV.Lib.Ttl

/-! ### Frames of a release -/

lemma putBack_heap (cfg : Config) (s : Store) (a : Addr) : (s.putBack cfg a).heap = s.heap := by
  unfold Store.putBack; split <;> rfl

lemma putBack_pool (cfg : Config) (s : Store) (a : Addr) : s.pool <+: (s.putBack cfg a).pool := by
  unfold Store.putBack
  split
  · exact List.prefix_append _ _
  · exact List.prefix_rfl

lemma onErase_heap (s : Store) (a : Addr) : (s.onErase a).heap = s.heap := by
  unfold Store.onErase; split <;> rfl

lemma removeFromProbation_heap (s : Store) (a : Addr) :
    (s.removeFromProbation a).heap = s.heap := by
  unfold Store.removeFromProbation; split <;> rfl

lemma release_heap_other (cfg : Config) (s : Store) {a b : Addr} (h : b ≠ a) :
    (s.release cfg a).heap b = s.heap b := by
  unfold Store.release
  split
  · rw [Store.doRelease, putBack_heap]
    show ((s.modify a Store.clear).onErase a).heap b = _
    rw [onErase_heap, s.modify_heap_other a _ h]
  · rw [Store.doProbRelease, putBack_heap, Store.modify_heap_other _ _ _ h]
    split
    · rw [removeFromProbation_heap]
    · exact congrFun (onErase_heap s a) b

lemma release_pool (cfg : Config) (s : Store) (a : Addr) : s.pool <+: (s.release cfg a).pool := by
  unfold Store.release
  split
  · have h := putBack_pool cfg ((s.modify a Store.clear).onErase a).dropSanctuary a
    have e : ((s.modify a Store.clear).onErase a).dropSanctuary.pool = s.pool :=
      (touch_onErase _ a).pool
    rwa [e] at h
  · rw [Store.doProbRelease]
    refine List.IsPrefix.trans ?_ (putBack_pool cfg _ a)
    show s.pool <+: Store.pool (ite _ _ _)
    split
    · exact (touch_removeFromProbation s a).pool.symm ▸ List.prefix_rfl
    · exact ((touch_onErase s a).trans (touch_dropSanctuary _)).pool.symm ▸ List.prefix_rfl

lemma evictKeys_pool (cfg : Config) (s : Store) (keys : List Bytes) :
    s.pool <+: (s.evictKeys cfg keys).pool := by
  induction keys generalizing s with
  | nil => exact List.prefix_rfl
  | cons key keys ih =>
    refine List.IsPrefix.trans ?_ (ih (s.evictKey cfg key))
    unfold Store.evictKey
    split
    · exact List.prefix_rfl
    · exact release_pool cfg { s with map := s.map.erase key } _

lemma putBack_lists (cfg : Config) (s : Store) (a : Addr) :
    (s.putBack cfg a).sieveList = s.sieveList ∧ (s.putBack cfg a).hand = s.hand ∧
      (s.putBack cfg a).probationList = s.probationList ∧ (s.putBack cfg a).map = s.map := by
  unfold Store.putBack; split <;> exact ⟨rfl, rfl, rfl, rfl⟩

lemma release_map (cfg : Config) (s : Store) (a : Addr) : (s.release cfg a).map = s.map := by
  unfold Store.release
  split
  · rw [Store.doRelease, (putBack_lists cfg _ a).2.2.2]
    exact ((touch_onErase _ a).trans (touch_dropSanctuary _)).map
  · rw [Store.doProbRelease, (putBack_lists cfg _ a).2.2.2, Store.modify_map]
    split
    · exact (touch_removeFromProbation s a).map
    · exact ((touch_onErase s a).trans (touch_dropSanctuary _)).map

lemma evictKey_lookup (cfg : Config) (s : Store) (key k : Bytes) :
    (s.evictKey cfg key).map.lookup k = if k = key then none else s.map.lookup k := by
  unfold Store.evictKey
  rcases hl : s.map.lookup key with _ | a
  · dsimp only
    split
    · next h => subst h; exact hl
    · rfl
  · show (Store.release cfg { s with map := s.map.erase key } a).map.lookup k = _
    rw [release_map]
    split
    · next h => subst h; simp
    · next h => exact AList.lookup_erase_ne h

lemma evictKeys_lookup (cfg : Config) (s : Store) (keys : List Bytes) (k : Bytes) :
    (s.evictKeys cfg keys).map.lookup k = if k ∈ keys then none else s.map.lookup k := by
  induction keys generalizing s with
  | nil => simp [Store.evictKeys]
  | cons key keys ih =>
    show ((s.evictKey cfg key).evictKeys cfg keys).map.lookup k = _
    rw [ih, evictKey_lookup]
    by_cases h1 : k = key <;> by_cases h2 : k ∈ keys <;> simp [h1, h2]

/-- An eviction does not reach an entry that none of its keys leads to. -/
lemma evictKeys_heap {cfg : Config} {s : Store} {keys : List Bytes} {a : Addr}
    (ha : ∀ key ∈ keys, s.map.lookup key ≠ some a) :
    (s.evictKeys cfg keys).heap a = s.heap a := by
  induction keys generalizing s with
  | nil => rfl
  | cons key keys ih =>
    have h : (s.evictKey cfg key).heap a = s.heap a := by
      unfold Store.evictKey
      rcases hk : s.map.lookup key with _ | b
      · rfl
      · have hab : a ≠ b := by rintro rfl; exact ha key (by simp) hk
        exact release_heap_other cfg { s with map := s.map.erase key } hab
    refine (ih fun key' hkey' => ?_).trans h
    rw [evictKey_lookup]
    split
    · simp
    · exact ha key' (by simp [hkey'])

/-! ### Acquiring -/

lemma runSequentialReaper_pool (cfg : Config) (s : Store) :
    s.pool <+: (s.runSequentialReaper cfg).1.pool := by
  have hpool := evictKeys_pool cfg (s.reaped cfg)
    ((s.probationList.take cfg.reach).map fun a => (s.heap a).key)
  rw [(touch_reaped cfg s).pool] at hpool
  rwa [Store.runSequentialReaper_eq]

lemma owned_runSequentialReaper {s : Store} {fl : List Addr} (cfg : Config) (ho : Owned s fl) :
    Owned (s.runSequentialReaper cfg).1 fl ∧ ∃ R, Evicts s (s.runSequentialReaper cfg).1 R := by
  have h1 := touch_reaped cfg s
  rw [Store.runSequentialReaper_eq]
  set keys := (s.probationList.take cfg.reach).map fun a => (s.heap a).key
  obtain ⟨h2, R, h3⟩ := owned_evictKeys cfg (h1.owned ho) keys
  exact ⟨h2, [] ++ R, h1.evicts.trans h3⟩

/-- The reaper does not reach an entry in the hands of a call, nor one it leaves in the map. -/
lemma runSequentialReaper_heap {s : Store} {fl : List Addr} (cfg : Config) (ho : Owned s fl)
    {a : Addr} (ha : a ∈ fl ∨ ∃ k, (s.runSequentialReaper cfg).1.map.lookup k = some a) :
    (s.runSequentialReaper cfg).1.heap a = s.heap a := by
  have ht := touch_reaped cfg s
  rw [Store.runSequentialReaper_eq] at ha ⊢
  dsimp only at ha ⊢
  rw [evictKeys_heap, Store.reaped_heap]
  intro key hkey hl
  rcases ha with ha | ⟨k, hk⟩
  · exact ((ht.owned ho).mapOnly key a hl).2.2 ha
  · rw [evictKeys_lookup] at hk
    split at hk
    · cases hk
    · next hn => exact hn ((ht.owned ho).inj hl hk ▸ hkey)

lemma owned_alloc {s : Store} {fl : List Addr} (ho : Owned s fl) :
    Owned s.alloc (s.next :: fl) ∧ abs s.alloc = abs s ∧ s.alloc.heap s.next = {} := by
  have hmap (k : Bytes) (a : Addr) (hk : s.map.lookup k = some a) : a ≠ s.next :=
    (ho.mapOnly k a hk).1.ne
  refine ⟨⟨?_, ?_, ho.poolNodup, ?_, ?_, ?_⟩, ?_, by simp [Store.alloc]⟩
  · intro k a hk
    simp [Store.alloc, hmap k a hk, ho.keyed k a hk]
  · intro k a hk
    obtain ⟨h1, h2, h3⟩ := ho.mapOnly k a hk
    exact ⟨Nat.lt_succ_of_lt h1, h2, by simp [hmap k a hk, h3]⟩
  · intro a ha
    obtain ⟨h1, h2⟩ := ho.poolNew a ha
    exact ⟨Nat.lt_succ_of_lt h1, by simp [Store.alloc, h1.ne, h2]⟩
  · intro a ha
    rcases List.mem_cons.mp ha with rfl | ha
    · exact ⟨Nat.lt_succ_self _, fun hp => (ho.poolNew _ hp).1.ne rfl⟩
    · obtain ⟨h1, h2⟩ := ho.flOnly a ha
      exact ⟨Nat.lt_succ_of_lt h1, h2⟩
  · exact List.nodup_cons.mpr ⟨fun hp => (ho.flOnly _ hp).1.ne rfl, ho.flNodup⟩
  · funext k
    unfold abs
    show Option.map _ (s.map.lookup k) = _
    rcases hk : s.map.lookup k with _ | a
    · rfl
    · simp [Store.alloc, hmap k a hk]

lemma owned_pop {s : Store} {fl pool : List Addr} {a : Addr} (ho : Owned s fl)
    (hp : s.pool = a :: pool) : Owned { s with pool := pool } (a :: fl) := by
  have hnd := ho.poolNodup
  rw [hp] at hnd
  obtain ⟨hap, hnd⟩ := List.nodup_cons.mp hnd
  have hsub {b : Addr} (hb : b ∈ pool) : b ∈ s.pool := by rw [hp]; simp [hb]
  refine ⟨ho.keyed, ?_, hnd, fun b hb => ho.poolNew b (hsub hb), ?_, ?_⟩
  · intro k b hk
    obtain ⟨h1, h2, h3⟩ := ho.mapOnly k b hk
    rw [hp, List.mem_cons, not_or] at h2
    exact ⟨h1, h2.2, by simp [h2.1, h3]⟩
  · intro b hb
    rcases List.mem_cons.mp hb with rfl | hb
    · exact ⟨(ho.poolNew b (by rw [hp]; simp)).1, hap⟩
    · obtain ⟨h1, h2⟩ := ho.flOnly b hb
      exact ⟨h1, fun h => h2 (hsub h)⟩
  · refine List.nodup_cons.mpr ⟨fun h => ?_, ho.flNodup⟩
    exact (ho.flOnly a h).2 (by rw [hp]; simp)

/-- What a call gets from `acquire`: an entry of its own, with no deadline. -/
structure Acquired (s s' : Store) (a : Addr) (fl : List Addr) : Prop where
  owned : Owned s' (a :: fl)
  noDeadline : (s'.heap a).expiresAt = 0
  evicts : ∃ R, Evicts s s' R

lemma acquired_count {s : Store} {fl : List Addr} {a : Addr} (ho : Owned s (a :: fl))
    (ha : (s.heap a).expiresAt = 0) : Acquired s (s.countProbation a) a fl := by
  have h := ho.modify (by simp : a ∈ a :: fl) fun e =>
    { e with inUse := true, poolType := .probation }
  refine ⟨⟨h.keyed, h.mapOnly, h.poolNodup, h.poolNew, h.flOnly, h.flNodup⟩, ?_, [], ?_, rfl⟩
  · simp [Store.countProbation, ha]
  · rw [without_nil]
    exact abs_modify (a := a) ho (by simp) fun e => { e with inUse := true, poolType := .probation }

lemma acquired_link {s : Store} {fl : List Addr} {a : Addr} (ho : Owned s (a :: fl))
    (ha : (s.heap a).expiresAt = 0) : Acquired s (s.linkSanctuary a) a fl := by
  have h := ho.modify (by simp : a ∈ a :: fl) fun e => { e with inUse := true }
  set t := s.modify a fun e => { e with inUse := true } with ht
  have h1 : Touch t { t with sancCount := t.sancCount + 1 } :=
    ⟨rfl, rfl, rfl, rfl, fun _ _ => rfl, fun _ => ⟨rfl, rfl, rfl⟩⟩
  have h2 := h1.trans (touch_onInsert (h.flOnly a (by simp)).2)
  refine ⟨h2.owned h, ?_, [], ?_, ?_⟩
  · rw [Store.linkSanctuary, (h2.data a).2.2, ht, s.modify_heap_same]
    exact ha
  · rw [without_nil, Store.linkSanctuary, h2.abs_eq, ht, abs_modify ho (by simp)]
  · rw [Store.linkSanctuary, h2.evictions]; rfl

lemma acquired_takeFront {s : Store} {fl : List Addr} (ho : Owned s fl) (hp : s.pool ≠ []) :
    ∃ a s', s.takeFront = (s', some a) ∧ Acquired s s' a fl := by
  obtain ⟨a, pool, hp⟩ := List.exists_cons_of_ne_nil hp
  have hnew := (ho.poolNew a (by rw [hp]; simp)).2
  have h := acquired_count (owned_pop ho hp) (by simp [hnew])
  have ho' := h.owned
  refine ⟨a, { { s with pool := pool }.countProbation a with
    probationList := s.probationList ++ [a] }, by simp only [Store.takeFront, hp]; rfl, ?_, ?_, ?_⟩
  · exact ⟨ho'.keyed, ho'.mapOnly, ho'.poolNodup, ho'.poolNew, ho'.flOnly, ho'.flNodup⟩
  · exact h.noDeadline
  · exact h.evicts

lemma acquired_doAcquire {cfg : Config} {s : Store} {fl : List Addr} (ho : Owned s fl)
    (hfits : s.pool = [] → cfg.valueFits = true) :
    ∃ a s', s.doAcquire cfg = (s', .ok (some a)) ∧ Acquired s s' a fl := by
  unfold Store.doAcquire
  rcases hp : s.pool with _ | ⟨a, pool⟩
  · obtain ⟨h1, h2, h3⟩ := owned_alloc ho
    obtain ⟨h4, h5, R, h6, h7⟩ := acquired_link h1 (by simp [h3])
    exact ⟨s.next, _, if_pos (hfits hp), h4, h5, R, by rw [h6, h2], h7⟩
  · have hnew := (ho.poolNew a (by rw [hp]; simp)).2
    have h := acquired_link (owned_pop ho hp) (by simp [hnew])
    exact ⟨a, _, rfl, h.owned, h.noDeadline, h.evicts⟩

/-- **Acquire** has an entry to give unless it throws. -/
lemma acquired_acquire {s : Store} {fl : List Addr} {cfg : Config} (ho : Owned s fl)
    (hthrows : ¬ s.AcquireThrows cfg) :
    ∃ a s', s.acquire cfg = (s', .ok (some a)) ∧ Acquired s s' a fl := by
  obtain ⟨hvalue, hreaper⟩ := not_or.mp hthrows
  have hfits (hp : s.pool = []) : cfg.valueFits = true := by
    by_contra hfits
    exact hvalue ⟨hp, by simpa using hfits⟩
  unfold Store.acquire
  split
  · exact acquired_doAcquire ho hfits
  · next hc =>
    have hr (hq : s.pool = [] ∨ cfg.probThreshold ≤ s.probCount) : ¬ s.ReaperThrows cfg :=
      fun hr => hreaper ⟨hc, hq, hr⟩
    unfold Store.doProbAcquire
    split
    · next hp =>
      obtain ⟨h1, h2, h3⟩ := owned_alloc ho
      obtain ⟨h4, h5, R, h6⟩ := acquired_count h1 (by simp [h3])
      obtain ⟨h7, S, h8⟩ := owned_runSequentialReaper cfg h4
      have h9 := runSequentialReaper_heap cfg h4 (.inl (List.mem_cons_self (a := s.next)))
      have hok := Store.runSequentialReaper_ok_iff.mpr
        (show ¬ (s.alloc.countProbation s.next).ReaperThrows cfg from hr (.inl hp))
      refine ⟨s.next, _, by rw [if_pos (hfits hp), hok], h7, by rw [h9, h5], R ++ S, ?_⟩
      have h0 : Evicts s s.alloc [] := ⟨by rw [h2, without_nil], rfl⟩
      exact (h0.trans h6).trans h8
    · next hp =>
      split
      · next hq =>
        obtain ⟨h1, R, h2⟩ := owned_runSequentialReaper cfg ho
        obtain ⟨a, s', h4, h5, h6, S, h7⟩ :=
          acquired_takeFront h1 ((runSequentialReaper_pool cfg s).ne_nil hp)
        have hok := Store.runSequentialReaper_ok_iff.mpr (hr (.inr hq))
        exact ⟨a, s', by rw [hok]; exact Store.returned_eq_ok_iff.mpr h4, h5, h6, R ++ S,
          h2.trans h7⟩
      · obtain ⟨a, s', h4, h5⟩ := acquired_takeFront ho hp
        exact ⟨a, s', Store.returned_eq_ok_iff.mpr h4, h5⟩

lemma owned_refuses {cfg : Config} {s t : Store} {fl : List Addr} {e : LengthError}
    (ho : Owned s fl) (h : Store.Refuses cfg s t e) : Owned t fl ∧ Evicts s t [] := by
  have hrewind (u : Store) : Touch u u.rewound :=
    ⟨rfl, rfl, rfl, rfl, fun _ _ => rfl, fun _ => ⟨rfl, rfl, rfl⟩⟩
  cases h with
  | value => exact ⟨ho, (Touch.refl s).evicts⟩
  | made =>
    obtain ⟨h1, h2, h3⟩ := owned_alloc ho
    have hcount := acquired_count h1 (by simp [h3])
    have habs : abs (s.alloc.countProbation s.next) = abs s := by
      rw [← h2]
      exact abs_modify (a := s.next) h1 (by simp)
        fun e => { e with inUse := true, poolType := .probation }
    have hrew := hrewind (s.alloc.countProbation s.next)
    have ho' := hrew.owned hcount.owned
    refine ⟨(ho'.modify (by simp) Store.clear).tail, ?_, rfl⟩
    rw [Store.wasted, Store.destroy, abs_modify ho' (by simp), hrew.abs_eq, habs, without_nil]
  | reaper => exact ⟨(hrewind s).owned ho, (hrewind s).evicts⟩

section Entry

variable {cfg : Config} {s : Store}

lemma takeFront_isSome (h : s.pool ≠ []) : s.takeFront.2.isSome := by
  unfold Store.takeFront
  split
  · next hnil => exact absurd hnil h
  · rfl

/-- An acquisition throws or has an entry, in every state: the reaper only adds to the pool. -/
lemma acquire_ne_none (cfg : Config) (s : Store) : (s.acquire cfg).2 ≠ .ok none := by
  have hfront {u : Store} (hp : u.pool ≠ []) : (Store.returned u.takeFront).2 ≠ .ok none := by
    obtain ⟨a, ha⟩ := Option.isSome_iff_exists.mp (takeFront_isSome hp)
    simp [Store.returned, ha]
  intro hnone
  rcases hacq : s.acquire cfg with ⟨t, o⟩
  rw [hacq] at hnone
  subst hnone
  unfold Store.acquire at hacq
  split at hacq
  · unfold Store.doAcquire at hacq
    split at hacq
    · split at hacq <;> cases hacq
    · cases hacq
  · unfold Store.doProbAcquire at hacq
    split at hacq
    · split at hacq
      · dsimp only at hacq
        split at hacq <;> cases hacq
      · cases hacq
    · next hpool =>
      split at hacq
      · obtain ⟨u, _, hreap, hu⟩ := Store.await_eq_ok_iff.mp hacq
        obtain ⟨rfl, -⟩ := Store.runSequentialReaper_ok hreap
        exact hfront ((runSequentialReaper_pool cfg s).ne_nil hpool) (by rw [hu])
      · exact hfront hpool (by rw [hacq])

/-- **What `acquire` does**, in every state. -/
lemma acquires {t : Store} {o : Except LengthError (Option Addr)} (h : s.acquire cfg = (t, o)) :
    (∃ a, o = .ok (some a) ∧ Store.Acquires cfg s t a) ∨
      ∃ e, o = .error e ∧ Store.Refuses cfg s t e := by
  have hsome := acquire_ne_none cfg s
  rw [h] at hsome
  rcases o with e | _ | a
  · exact .inr ⟨e, rfl, Store.refuses_of_acquire h⟩
  · exact absurd rfl hsome
  · exact .inl ⟨a, rfl, Store.acquires_of_acquire h⟩

/-- So every write is stored or throws. -/
lemma put_ne_false (cfg : Config) (s : Store) (k v : Bytes) (d : Option ℕ) (later : ℕ) :
    (s.put cfg k v d later).2 ≠ .ok false := by
  rcases hacq : s.noteFallback.acquire cfg with ⟨t, o⟩
  rcases acquires hacq with ⟨a, rfl, -⟩ | ⟨e, rfl, -⟩
  · simp only [Store.put, Store.write, hacq, Store.await, if_true]
    split <;> simp
  · simp [Store.put, Store.write, hacq, Store.await]

end Entry

/-! ### Writing -/

lemma Owned.noteFallback {s : Store} {fl : List Addr} (ho : Owned s fl) :
    Owned s.noteFallback fl ∧ Evicts s s.noteFallback [] := by
  have h : Touch s s.noteFallback := by
    unfold Store.noteFallback
    split
    · exact ⟨rfl, rfl, rfl, rfl, fun _ _ => rfl, fun _ => ⟨rfl, rfl, rfl⟩⟩
    · exact Touch.refl s
  exact ⟨h.owned ho, h.evicts⟩

lemma owned_updateFrom {s : Store} {fl : List Addr} {k : Bytes} {old : Addr} (ho : Owned s fl)
    (hl : s.map.lookup k = some old) (e : Entry) (updateTtl : Bool) :
    Owned (s.modify old fun o => o.updateFrom e updateTtl) fl := by
  refine ⟨?_, ho.mapOnly, ho.poolNodup, ?_, ho.flOnly, ho.flNodup⟩
  · intro k' b hb
    have hkey := ho.keyed k' b hb
    rw [s.modify_heap]
    split
    · next h => subst h; unfold Entry.updateFrom; split <;> exact hkey
    · exact hkey
  · intro b hb
    have hbo : b ≠ old := by rintro rfl; exact (ho.mapOnly k b hl).2.1 hb
    rw [s.modify_heap_other old _ hbo]
    exact ho.poolNew b hb

lemma owned_insert {s : Store} {fl : List Addr} {a : Addr} {k : Bytes} (ho : Owned s (a :: fl))
    (hk : (s.heap a).key = k) :
    Owned { s with map := s.map.insert k a } fl ∧
      abs { s with map := s.map.insert k a } =
        write (abs s) k (s.heap a).value (s.heap a).expiresAt := by
  obtain ⟨hafl, hfl⟩ := List.nodup_cons.mp ho.flNodup
  refine ⟨⟨?_, ?_, ho.poolNodup, ho.poolNew, fun b hb => ho.flOnly b (by simp [hb]), hfl⟩, ?_⟩
  · intro k' b hb
    by_cases hk' : k' = k
    · subst hk'
      obtain rfl : a = b := by simpa using hb
      exact hk
    · exact ho.keyed k' b (by simpa [AList.lookup_insert_ne hk'] using hb)
  · intro k' b hb
    by_cases hk' : k' = k
    · subst hk'
      obtain rfl : a = b := by simpa using hb
      obtain ⟨h1, h2⟩ := ho.flOnly a (by simp)
      exact ⟨h1, h2, hafl⟩
    · obtain ⟨h1, h2, h3⟩ := ho.mapOnly k' b (by simpa [AList.lookup_insert_ne hk'] using hb)
      exact ⟨h1, h2, fun h => h3 (by simp [h])⟩
  · funext k'
    by_cases hk' : k' = k
    · subst hk'; simp [abs]
    · simp [abs, hk', AList.lookup_insert_ne hk']

/-- The map after the value is moved into the old entry. -/
lemma abs_updateFrom {s : Store} {fl : List Addr} {k : Bytes} {old : Addr} (ho : Owned s fl)
    (hl : s.map.lookup k = some old) (e : Entry) (updateTtl : Bool) :
    abs (s.modify old fun o => o.updateFrom e updateTtl) =
      write (abs s) k e.value (if updateTtl then e.expiresAt else deadline (abs s) k) := by
  have habs : abs s k = some ((s.heap old).value, (s.heap old).expiresAt) := by simp [abs, hl]
  funext k'
  by_cases hk' : k' = k
  · subst hk'
    rw [write_same, abs, s.modify_map, hl, Option.map_some, s.modify_heap_same]
    cases updateTtl <;> simp [Entry.updateFrom, deadline, habs]
  · rw [write_other _ _ _ hk', abs, abs, s.modify_map]
    rcases hb : s.map.lookup k' with _ | b
    · rfl
    · have hbo : b ≠ old := by rintro rfl; exact hk' (ho.inj hb hl)
      simp [s.modify_heap_other old _ hbo]

/-- What `try_emplace` and the overwrite make of an entry filled for the key `k`. -/
lemma owned_emplace {s : Store} {fl : List Addr} {a : Addr} {k : Bytes} (cfg : Config)
    (ho : Owned s (a :: fl)) (hk : (s.heap a).key = k) (updateTtl : Bool) :
    Owned (s.emplace cfg k a updateTtl) fl ∧
      abs (s.emplace cfg k a updateTtl) = write (abs s) k (s.heap a).value
        (if updateTtl ∨ abs s k = none then (s.heap a).expiresAt else deadline (abs s) k) ∧
      (s.emplace cfg k a updateTtl).evictionCount = s.evictionCount := by
  unfold Store.emplace
  rcases hl : s.map.lookup k with _ | old
  · have habs : abs s k = none := by simp [abs, hl]
    obtain ⟨howned, hwrite⟩ := owned_insert ho hk
    exact ⟨howned, by rw [hwrite, if_pos (.inr habs)], rfl⟩
  · have habs : abs s k ≠ none := by simp [abs, hl]
    have hto := owned_updateFrom ho hl (s.heap a) updateTtl
    have hwrite := abs_updateFrom ho hl (s.heap a) updateTtl
    set t := s.modify old fun e => e.updateFrom (s.heap a) updateTtl
    have hp := touch_promote (s := t) (a := old) (ho.mapOnly k old hl).2.1
    obtain ⟨hreleased, habs', hevictions⟩ := owned_release cfg (hp.owned hto)
    refine ⟨hreleased, ?_, hevictions.trans hp.evictions⟩
    rw [habs', hp.abs_eq, hwrite]
    simp only [habs, or_false]

lemma owned_checkMemoryAndEvict {s : Store} {fl : List Addr} (cfg : Config) (ho : Owned s fl)
    (now : ℕ) :
    Owned (s.checkMemoryAndEvict cfg now).1 fl ∧
      ∃ R, Evicts s (s.checkMemoryAndEvict cfg now).1 R := by
  rcases Store.checkMemoryAndEvict_fst cfg s now with h | h <;> rw [h]
  · exact ⟨ho, [], (Touch.refl s).evicts⟩
  · have h1 := touch_sweep ho cfg.softBudget now
    obtain ⟨h2, R, h3⟩ := owned_evictKeys cfg (h1.owned ho) (s.sweep cfg.softBudget now).2
    exact ⟨h2, [] ++ R, h1.evicts.trans h3⟩

/-- The state a write of `k` reaches before its eviction pass. -/
structure Written (s s' : Store) (k v : Bytes) (d : TtlMap Bytes Bytes → ℕ) : Prop where
  owned : Owned s' []
  wrote : ∃ R : List Bytes, abs s' = write (without (abs s) R) k v (d (without (abs s) R)) ∧
    s'.evictionCount = s.evictionCount + R.length

/-- **A write** that has an entry reaches its key only. -/
lemma written_write {cfg : Config} {s : Store} (ho : Owned s []) (k v : Bytes) (d : Option ℕ)
    (hthrows : ¬ s.AcquireThrows cfg) :
    ∃ s', s.write cfg k v d = (s', .ok true) ∧
      Written s s' k v fun m => d.getD (deadline m k) := by
  obtain ⟨h0, hn⟩ := ho.noteFallback
  obtain ⟨a, t, hacq, h1, hz, R, h2⟩ := acquired_acquire h0
    (by rwa [Store.acquireThrows_noteFallback])
  refine ⟨_, by rw [Store.write, hacq]; rfl, ?_⟩
  set f : Entry → Entry := fun e => { e with key := k, value := v, expiresAt := d.getD e.expiresAt }
  have hmem : a ∈ [a] := by simp
  have hheap : (t.modify a f).heap a = f (t.heap a) := t.modify_heap_same a f
  obtain ⟨h3, h4, h5⟩ := owned_emplace cfg (h1.modify hmem f) (by rw [hheap]) d.isSome
  have h6 := hn.trans h2
  refine ⟨h3, [] ++ R, ?_, h5.trans h6.2⟩
  rw [h4, abs_modify h1 hmem, h6.1, hheap]
  set m := without (abs s) ([] ++ R)
  -- an absent key has the deadline of the new entry, which is none
  have hd : (if d.isSome ∨ m k = none then (f (t.heap a)).expiresAt else deadline m k) =
      d.getD (deadline m k) := by
    cases d with
    | some d => simp [f]
    | none => rcases hk : m k with _ | ⟨_, _⟩ <;> simp [f, deadline, hk, hz]
  rw [hd]

lemma refused_write {cfg : Config} {s : Store} (ho : Owned s []) (k v : Bytes) (d : Option ℕ)
    (hthrows : s.AcquireThrows cfg) :
    ∃ s' e, s.write cfg k v d = (s', .error e) ∧ Store.Refuses cfg s.noteFallback s' e ∧
      Owned s' [] ∧ Evicts s s' [] := by
  obtain ⟨h0, hn⟩ := ho.noteFallback
  obtain ⟨t, e, hacq⟩ :=
    Store.acquireThrows_iff.mp (Store.acquireThrows_noteFallback.mpr hthrows)
  have hrefuses := Store.refuses_of_acquire hacq
  obtain ⟨h1, h2⟩ := owned_refuses h0 hrefuses
  exact ⟨t, e, by rw [Store.write, hacq]; rfl, hrefuses, h1, hn.trans h2⟩

/-! ### Runs -/

def Event.op (e : Event) : Op Bytes Bytes × ℕ :=
  match e.call with
  | .set k v => (.set k v, e.now)
  | .setWithTtl k v ttl => (.setTtl k v ttl, e.now)
  | .get k => (.get k, e.now)

def Reply.value : Reply → Option Bytes
  | .found v => v
  | _ => none

def Reply.Ok : Reply → Prop
  | .stored ok => ok = true
  | .found _ => True
  | .threw _ => False

lemma get_refines (cfg : Config) {s : Store} {fl : List Addr} (ho : Owned s fl) (k : Bytes)
    (now : ℕ) :
    Owned (s.get cfg k now).1 fl ∧ (s.get cfg k now).2 = (fetch (abs s) now k).1 ∧
      abs (s.get cfg k now).1 = (fetch (abs s) now k).2 ∧
      (s.get cfg k now).1.evictionCount = s.evictionCount := by
  unfold Store.get
  rcases hl : s.map.lookup k with _ | a
  · have habs : abs s k = none := by simp [abs, hl]
    simp [fetch, habs, ho]
  · have habs : abs s k = some ((s.heap a).value, (s.heap a).expiresAt) := by simp [abs, hl]
    have hlive : isExpired now (s.heap a).expiresAt = true ↔ ¬ Live now (s.heap a).expiresAt := by
      simp only [isExpired, Live, decide_eq_true_eq]; omega
    dsimp only
    split
    · next hx =>
      have hx' := hlive.mp hx
      have h1 := touch_onErase s a
      obtain ⟨h2, h3⟩ := owned_erase (h1.owned ho) (k := k) (a := a) (by rw [h1.map]; exact hl)
      obtain ⟨h4, h5, h6⟩ := owned_release cfg h2
      refine ⟨h4, ?_, ?_, ?_⟩
      · simp [fetch, habs, hx']
      · simp only [fetch, habs, hx', if_false]
        rw [h5, h3, h1.abs_eq]
      · exact h6.trans h1.evictions
    · next hx =>
      have hx' : Live now (s.heap a).expiresAt := by
        by_contra h
        exact hx (hlive.mpr h)
      have hpool := (ho.mapOnly k a hl).2.1
      have h1 := touch_promote hpool
      have h2 : Touch s ((s.promoteToSanctuary a).onHit a) :=
        h1.trans (touch_modify (by rw [h1.pool]; exact hpool) fun _ => ⟨rfl, rfl, rfl⟩)
      refine ⟨h2.owned ho, ?_, ?_, h2.evictions⟩
      · simp [fetch, habs, hx', (h2.data a).1]
      · simp only [fetch, habs, hx', if_true]
        exact h2.abs_eq

/-- What a write and its eviction pass do to the map. -/
lemma put_refines {cfg : Config} {s : Store} (ho : Owned s []) (k v : Bytes) (d : Option ℕ)
    (later : ℕ) (hthrows : ¬ s.AcquireThrows cfg) :
    (cfg.softBudget < 2 ^ 59 → (s.put cfg k v d later).2 = .ok true) ∧ ∃ R S : List Bytes,
      abs (s.put cfg k v d later).1 =
        without (write (without (abs s) R) k v (d.getD (deadline (without (abs s) R) k))) S ∧
      (s.put cfg k v d later).1.evictionCount = s.evictionCount + (R ++ S).length := by
  obtain ⟨t, ht, h1, R, h2, h3⟩ := written_write ho k v d hthrows
  obtain ⟨-, S, h5, h6⟩ := owned_checkMemoryAndEvict cfg h1 later
  rw [Store.put_fst ht]
  refine ⟨fun hsoft => Store.put_ok ht later hsoft, R, S, by rw [h5, h2], ?_⟩
  rw [h6, h3, List.length_append]
  omega

/-- A write without an entry changes nothing that a client sees. -/
lemma put_refused {cfg : Config} {s : Store} (ho : Owned s []) (k v : Bytes) (d : Option ℕ)
    (later : ℕ) (hthrows : s.AcquireThrows cfg) :
    (∃ e, (s.put cfg k v d later).2 = .error e) ∧ Evicts s (s.put cfg k v d later).1 [] := by
  obtain ⟨t, e, ht, -, -, h⟩ := refused_write ho k v d hthrows
  rw [Store.put_throws ht]
  exact ⟨⟨e, rfl⟩, h⟩

lemma owned_put {s : Store} (cfg : Config) (ho : Owned s []) (k v : Bytes) (d : Option ℕ)
    (later : ℕ) : Owned (s.put cfg k v d later).1 [] := by
  by_cases hthrows : s.AcquireThrows cfg
  · obtain ⟨t, e, ht, -, h, -⟩ := refused_write ho k v d hthrows
    rwa [Store.put_throws ht]
  · obtain ⟨t, ht, h, -⟩ := written_write ho k v d hthrows
    rw [Store.put_fst ht]
    exact (owned_checkMemoryAndEvict cfg h later).1

lemma owned_step (cfg : Config) {s : Store} (ho : Owned s []) (e : Event) :
    Owned (step cfg s e).1 [] := by
  rcases e.cases with ⟨k, v, d, hw⟩ | ⟨k, hk⟩
  · rw [step_write cfg s hw]
    exact owned_put cfg ho k v d e.later
  · rw [step_get cfg s hk]
    exact (get_refines cfg ho k e.now).1

/-- The write of the call, if it is one, gets an entry. -/
def Granted (cfg : Config) (s : Store) (e : Event) : Prop :=
  ∀ k v d, e.Writes k v d → ¬ s.AcquireThrows cfg

/-- **One call** is one step of the map with deadlines. -/
lemma step_refines (cfg : Config) {s : Store} (ho : Owned s []) (e : Event)
    (hgrant : Granted cfg s e) :
    (cfg.softBudget < 2 ^ 59 → (step cfg s e).2.Ok) ∧
      ∃ E, Step Store.due (abs s) e.op.2 e.op.1 (step cfg s e).2.value E (abs (step cfg s e).1) ∧
        (step cfg s e).1.evictionCount = s.evictionCount + E.length := by
  have hvalue (r : Except LengthError Bool) : (Reply.ofWrite r).value = none := by cases r <;> rfl
  have hok {r : Except LengthError Bool} (h : r = .ok true) : (Reply.ofWrite r).Ok := by
    subst h
    rfl
  obtain ⟨call, now, later⟩ := e
  cases call with
  | set k v =>
    obtain ⟨h2, R, S, h3, h4⟩ := put_refines ho k v none later (hgrant k v _ ⟨rfl, rfl, rfl⟩)
    refine ⟨fun hsoft => hok (h2 hsoft), R ++ S, ?_, h4⟩
    show Step Store.due (abs s) now (.set k v) (Reply.ofWrite _).value (R ++ S)
      (abs (s.put cfg k v none later).1)
    rw [h3, hvalue]
    exact .set k v R S
  | setWithTtl k v ttl =>
    obtain ⟨h2, R, S, h3, h4⟩ := put_refines ho k v (some (Store.due now ttl)) later
      (hgrant k v _ ⟨rfl, rfl, rfl⟩)
    refine ⟨fun hsoft => hok (h2 hsoft), R ++ S, ?_, h4⟩
    show Step Store.due (abs s) now (.setTtl k v ttl) (Reply.ofWrite _).value (R ++ S)
      (abs (s.put cfg k v (some (Store.due now ttl)) later).1)
    rw [h3, hvalue]
    exact .setTtl k v ttl R S
  | get k =>
    obtain ⟨-, h2, h3, h4⟩ := get_refines cfg ho k now
    refine ⟨fun _ => trivial, [], ?_, h4⟩
    show Step Store.due (abs s) now (.get k) (s.get cfg k now).2 [] (abs (s.get cfg k now).1)
    rw [h2, h3]
    exact .get k

/-- Every write of the run gets an entry. -/
def GrantedRun (cfg : Config) (s : Store) (es : List Event) : Prop :=
  ∀ es' e, es' ++ [e] <+: es → Granted cfg (run cfg s es') e

lemma GrantedRun.head {cfg : Config} {s : Store} {e : Event} {es : List Event}
    (h : GrantedRun cfg s (e :: es)) : Granted cfg s e := h [] e (by simp)

lemma GrantedRun.tail {cfg : Config} {s : Store} {e : Event} {es : List Event}
    (h : GrantedRun cfg s (e :: es)) : GrantedRun cfg (step cfg s e).1 es :=
  fun es' e' hes => h (e :: es') e' (List.cons_prefix_cons.mpr ⟨rfl, hes⟩)

/-- With a budget there is room for, and values that fit, every write gets an entry. -/
lemma grantedRun {cfg : Config} (hbudget : cfg.reaperBudget < 2 ^ 59)
    (hfits : cfg.valueFits = true) (s : Store) (es : List Event) : GrantedRun cfg s es :=
  fun _ _ _ _ _ _ _ => Store.not_acquireThrows hbudget hfits _

lemma run_refines (cfg : Config) {s : Store} (ho : Owned s []) (es : List Event)
    (hgrant : GrantedRun cfg s es) :
    (cfg.softBudget < 2 ^ 59 → ∀ r ∈ replies cfg s es, r.Ok) ∧
      ∃ E, Run Store.due (abs s) (es.map Event.op) ((replies cfg s es).map Reply.value) E
        ((states cfg s es).map abs) ∧
        (run cfg s es).evictionCount = s.evictionCount + E.length := by
  induction es generalizing s with
  | nil => exact ⟨by simp [replies], [], .nil _, rfl⟩
  | cons e es ih =>
    obtain ⟨h2, E, h3, h4⟩ := step_refines cfg ho e hgrant.head
    obtain ⟨h6, E', h7, h8⟩ := ih (owned_step cfg ho e) hgrant.tail
    refine ⟨fun hsoft r hr => ?_, E ++ E', .cons h3 h7, ?_⟩
    · rcases List.mem_cons.mp hr with rfl | hr
      · exact h2 hsoft
      · exact h6 hsoft r hr
    · rw [run_cons, h8, h4, List.length_append]; omega

lemma abs_start (cfg : Config) : abs (start cfg) = empty := by
  funext k; simp [abs, start, empty]

/-- **The store is a map with deadlines.** Whatever the configuration, a run of calls from
a fresh store answers, writes, expires and forgets as the map does, call by call, up to keys
that writes evict, and `eviction_count` says how many, as long as every write gets an entry. A
write that gets one reports success if its pass has room for its victims. -/
theorem store_refines_ttlMap (cfg : Config) (es : List Event)
    (hgrant : GrantedRun cfg (start cfg) es) :
    (cfg.softBudget < 2 ^ 59 → ∀ r ∈ replies cfg (start cfg) es, r.Ok) ∧
      ∃ E, Run Store.due empty (es.map Event.op) ((replies cfg (start cfg) es).map Reply.value) E
        ((states cfg (start cfg) es).map abs) ∧
        (run cfg (start cfg) es).evictionCount = E.length := by
  obtain ⟨h1, E, h2, h3⟩ := run_refines cfg (owned_start cfg) es hgrant
  rw [abs_start] at h2
  exact ⟨h1, E, h2, by simpa [start] using h3⟩

/-- One pool entry, all of it for probation, and a trigger of 1. -/
def onePlace : Config :=
  { maxSize := 1, probPoolMaxSize := 1, probThreshold := 1, reaperBudget := 1, softBudget := 1,
    softTriggered := fun used => 1 ≤ used }

/-- The second key takes the place of the first. -/
def replaced : List Event :=
  [⟨.set [1] [1], 0, 0⟩, ⟨.setWithTtl [2] [2] 5, 1, 1⟩, ⟨.get [1], 2, 2⟩, ⟨.get [2], 3, 3⟩]

theorem store_refines_ttlMap_replaced :
    (replies onePlace (start onePlace) replaced).map Reply.value = [none, none, none, some [2]] ∧
      (∀ r ∈ replies onePlace (start onePlace) replaced, r.Ok) ∧
      ∃ E, Run Store.due empty (replaced.map Event.op)
        ((replies onePlace (start onePlace) replaced).map Reply.value) E
        ((states onePlace (start onePlace) replaced).map abs) ∧
        (run onePlace (start onePlace) replaced).evictionCount = E.length := by
  obtain ⟨hok, hrun⟩ := store_refines_ttlMap onePlace replaced (grantedRun (by decide) rfl _ _)
  exact ⟨by decide, hok (by decide), hrun⟩

/-- A budget for which there is no room. -/
def vast : Config := { onePlace with reaperBudget := 2 ^ 59 }

def setAgain : List Event := [⟨.set [1] [1], 0, 0⟩, ⟨.set [1] [2], 0, 0⟩, ⟨.get [1], 0, 0⟩]

/-- The second write is lost, and the value of the first one is read. -/
theorem not_refines_vast :
    replies vast (start vast) setAgain = [.stored true, .threw .vector, .found (some [1])] ∧
      ¬ ∃ E, Run Store.due empty (setAgain.map Event.op)
        ((replies vast (start vast) setAgain).map Reply.value) E
        ((states vast (start vast) setAgain).map abs) := by
  refine ⟨by decide, ?_⟩
  rintro ⟨E, h⟩
  rcases h with _ | ⟨-, h⟩
  rcases h with _ | ⟨h, -⟩
  have habs : abs (run vast (start vast) (setAgain.take 2)) [1] = some ([1], 0) := by decide
  rcases h.set_value with hnone | ⟨d, hsome⟩
  · cases habs.symm.trans hnone
  · cases habs.symm.trans hsome

end ShunyaKV.Shard
