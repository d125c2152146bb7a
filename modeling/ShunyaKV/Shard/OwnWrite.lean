import ShunyaKV.Shard.Evictable

/-!
Which writes survive the eviction pass of their own call.

A key that is new, or comes out of probation, is in no danger: it is not in the sanctuary,
or it has its visited bit set. The overwrite of a sanctuary key leaves the bit as it is, so
the pass that follows takes the key if the hand reaches it unvisited.
-/

namespace ShunyaKV.Shard

open ShunyaKV.Lib.HandList ShunyaKV.Lib.Ttl

/-! ### Free slots -/

/-- The pool is never longer than it was at the start. -/
def Room (cfg : Config) (s : Store) : Prop := s.pool.length ≤ cfg.maxSize

section Room

variable {cfg : Config} {s : Store} {a : Addr}

lemma release_pool_length (cfg : Config) (s : Store) (a : Addr) :
    (s.release cfg a).pool.length =
      if s.pool.length < cfg.maxSize then s.pool.length + 1 else s.pool.length := by
  have hput (t : Store) (ht : t.pool = s.pool) : (t.putBack cfg a).pool.length =
      if s.pool.length < cfg.maxSize then s.pool.length + 1 else s.pool.length := by
    unfold Store.putBack
    rw [ht]
    split <;> simp [ht]
  unfold Store.release
  split
  · exact hput _ ((touch_onErase _ a).trans (touch_dropSanctuary _)).pool
  · refine hput _ ?_
    rw [Store.modify_pool]
    split
    · exact (touch_removeFromProbation s a).pool
    · exact ((touch_onErase s a).trans (touch_dropSanctuary _)).pool

lemma room_release (h : Room cfg s) : Room cfg (s.release cfg a) := by
  unfold Room at *
  rw [release_pool_length]
  split <;> omega

lemma Room.congr {t : Store} (h : Room cfg s) (ht : t.pool = s.pool) : Room cfg t := by
  unfold Room at *
  rwa [ht]

lemma room_evictKeys (h : Room cfg s) (keys : List Bytes) : Room cfg (s.evictKeys cfg keys) := by
  induction keys generalizing s with
  | nil => exact h
  | cons key keys ih =>
    refine ih ?_
    unfold Store.evictKey
    split
    · exact h
    · exact (room_release (s := { s with map := s.map.erase key }) h).congr rfl

lemma room_reaper (h : Room cfg s) : Room cfg (s.runSequentialReaper cfg).1 := by
  rw [Store.runSequentialReaper_eq]
  exact room_evictKeys (h.congr (touch_reaped cfg s).pool) _

lemma linkSanctuary_pool (s : Store) (a : Addr) : (s.linkSanctuary a).pool = s.pool := by
  unfold Store.linkSanctuary Store.onInsert
  dsimp only
  split <;> rfl

lemma promote_pool (s : Store) (a : Addr) : (s.promoteToSanctuary a).pool = s.pool := by
  have hinsert : ((s.removeFromProbation a).onInsert a).pool = (s.removeFromProbation a).pool := by
    unfold Store.onInsert
    split <;> rfl
  unfold Store.promoteToSanctuary
  split
  · rfl
  · exact hinsert.trans (touch_removeFromProbation s a).pool

lemma takeFront_pool {t : Store} {o : Option Addr} (ht : s.takeFront = (t, o)) :
    t.pool = s.pool.tail := by
  unfold Store.takeFront at ht
  rcases hp : s.pool with _ | ⟨b, pool⟩ <;> rw [hp] at ht <;> obtain ⟨rfl, -⟩ := Prod.mk.inj ht
  · exact hp
  · rfl

lemma doAcquire_pool {t : Store} {o : Except LengthError (Option Addr)}
    (ht : s.doAcquire cfg = (t, o)) : t.pool = s.pool.tail := by
  unfold Store.doAcquire at ht
  rcases hp : s.pool with _ | ⟨b, pool⟩ <;> rw [hp] at ht <;> dsimp only at ht
  · split at ht <;> obtain ⟨rfl, -⟩ := Prod.mk.inj ht
    · rw [linkSanctuary_pool]; exact hp
    · exact hp
  · obtain ⟨rfl, -⟩ := Prod.mk.inj ht
    rw [linkSanctuary_pool]; rfl

lemma room_acquire (h : Room cfg s) {t : Store} {o : Except LengthError (Option Addr)}
    (ht : s.acquire cfg = (t, o)) : Room cfg t := by
  have htail {s : Store} (h : Room cfg s) (ht : t.pool = s.pool.tail) : Room cfg t := by
    unfold Room at *
    rw [ht, List.length_tail]
    omega
  rcases acquires ht with ⟨a, -, hacq⟩ | ⟨e, -, hrefuses⟩
  · cases hacq with
    | sanctuary hc ht => exact htail h (doAcquire_pool ht)
    | made hc hp => exact room_reaper h
    | reaped hc hp hq hr ht => exact htail (room_reaper h) (takeFront_pool ht)
    | front hc hp hq ht => exact htail h (takeFront_pool ht)
  · exact h.congr hrefuses.pool

lemma room_emplace (h : Room cfg s) (k : Bytes) (a : Addr) (updateTtl : Bool) :
    Room cfg (s.emplace cfg k a updateTtl) := by
  unfold Store.emplace
  rcases s.map.lookup k with _ | old
  · exact h
  · exact room_release (h.congr (promote_pool _ old))

lemma room_step (h : Sound cfg s) (hr : Room cfg s) (e : Event) : Room cfg (step cfg s e).1 := by
  have hcheck {t : Store} (ho : Owned t []) (ht : Room cfg t) (now : ℕ) :
      Room cfg (t.checkMemoryAndEvict cfg now).1 := by
    rcases Store.checkMemoryAndEvict_fst cfg t now with hpass | hpass <;> rw [hpass]
    · exact ht
    · exact room_evictKeys (ht.congr (touch_sweep ho cfg.softBudget now).pool) _
  rcases e.cases with ⟨k, v, d, he⟩ | ⟨k, he⟩
  · rw [step_write cfg s he]
    obtain ⟨n, hn⟩ := noteFallback_frame s
    by_cases hthrows : s.AcquireThrows cfg
    · obtain ⟨t, e, ht, hrefuses, -⟩ := refused_write h.owned k v d hthrows
      rw [Store.put_throws ht]
      exact hr.congr (hrefuses.pool.trans (by rw [hn]))
    obtain ⟨t, ht, hw⟩ := written_write h.owned k v d hthrows
    rw [Store.put_fst ht]
    refine hcheck hw.owned ?_ e.later
    obtain ⟨a, u, hacq, -⟩ := acquired_acquire h.owned.noteFallback.1
      (Store.acquireThrows_noteFallback.not.mpr hthrows)
    rw [Store.write, hacq] at ht
    obtain ⟨rfl, -⟩ := Prod.mk.inj ht
    have hroom : Room cfg u := room_acquire (hr.congr (by rw [hn])) hacq
    exact room_emplace (s := u.modify a _) (hroom.congr rfl) k a d.isSome
  · rw [step_get cfg s he]
    unfold Store.get
    rcases hl : s.map.lookup k with _ | a
    · exact hr
    dsimp only
    split
    · exact room_release (s := { s.onErase a with map := (s.onErase a).map.erase k })
        (hr.congr (touch_onErase s a).pool)
    · exact hr.congr (promote_pool s a)

lemma room_run (cfg : Config) (es : List Event) : Room cfg (run cfg (start cfg) es) := by
  induction es using List.reverseRecOn with
  | nil => simp [Room, start]
  | append_singleton es e ih =>
    rw [run_append]
    exact room_step (sound_run (sound_start cfg) es) ih e

end Room

/-! ### The reaper, seen from the sanctuary -/

section Reaper

variable {cfg : Config} {s : Store} {fl : List Addr} {U : PoolType → Addr → Prop}

lemma release_probation (hc : cfg.probPoolMaxSize ≠ 0) {a : Addr}
    (ht : (s.heap a).poolType = .probation) :
    (s.release cfg a).sieveList = s.sieveList ∧ (s.release cfg a).hand = s.hand := by
  rw [Store.release, if_neg hc, Store.doProbRelease, if_pos ht]
  obtain ⟨h1, h2, -, -⟩ := putBack_lists cfg ((s.removeFromProbation a).modify a Store.clear) a
  rw [h1, h2]
  refine ⟨removeFromProbation_sieveList s a, ?_⟩
  show (s.removeFromProbation a).hand = s.hand
  unfold Store.removeFromProbation
  split <;> rfl

/-- What a batch of entries in probation that no list holds leaves behind: the map apart, the
pool has them, as far as there is room, and they are counted as evictions. -/
structure Discharged (cfg : Config) (s t : Store) (vs : List Addr) : Prop where
  sieve : t.sieveList = s.sieveList ∧ t.hand = s.hand
  probation : t.probationList = s.probationList
  counts : t.probCount = s.probCount ∧ t.sancCount = s.sancCount ∧
    t.probEvictionCount = s.probEvictionCount
  evictions : t.evictionCount = s.evictionCount + vs.length
  pool : t.pool.length = min cfg.maxSize (s.pool.length + vs.length)
  heap : ∀ b ∉ vs, t.heap b = s.heap b

/-- An entry in probation that no list holds goes straight to the pool. -/
lemma evictKey_unlinked (hc : cfg.probPoolMaxSize ≠ 0) {k : Bytes} {a : Addr}
    (hk : s.map.lookup k = some a) (hty : (s.heap a).poolType = .probation)
    (hp : a ∉ s.probationList) :
    s.evictKey cfg k = Store.recordEviction
      (Store.putBack cfg ({ s with map := s.map.erase k }.modify a Store.clear) a) := by
  rw [Store.evictKey, hk]
  simp only [Store.release, hc, if_false, Store.doProbRelease, hty, if_true,
    Store.removeFromProbation, hp]

lemma discharged_evictKey (hc : cfg.probPoolMaxSize ≠ 0) (hr : Room cfg s) {k : Bytes} {a : Addr}
    (hk : s.map.lookup k = some a) (hty : (s.heap a).poolType = .probation)
    (hp : a ∉ s.probationList) : Discharged cfg s (s.evictKey cfg k) [a] := by
  unfold Room at hr
  rw [evictKey_unlinked hc hk hty hp]
  unfold Store.putBack
  split
  · next hlt =>
    have hlt' : s.pool.length < cfg.maxSize := hlt
    refine ⟨⟨rfl, rfl⟩, rfl, ⟨rfl, rfl, rfl⟩, rfl, ?_, fun b hb => ?_⟩
    · show (s.pool ++ [a]).length = _
      rw [List.length_append, List.length_singleton]
      omega
    · exact Store.modify_heap_other _ a _ (by simpa using hb)
  · next hge =>
    have hge' : ¬ s.pool.length < cfg.maxSize := hge
    refine ⟨⟨rfl, rfl⟩, rfl, ⟨rfl, rfl, rfl⟩, rfl, ?_, fun b hb => ?_⟩
    · show s.pool.length = _
      rw [List.length_singleton]
      omega
    · exact Store.modify_heap_other _ a _ (by simpa using hb)

lemma Discharged.cons {t u : Store} {a : Addr} {vs : List Addr} (h : Discharged cfg s t [a])
    (h' : Discharged cfg t u vs) : Discharged cfg s u (a :: vs) where
  sieve := ⟨h'.sieve.1.trans h.sieve.1, h'.sieve.2.trans h.sieve.2⟩
  probation := h'.probation.trans h.probation
  counts := by
    obtain ⟨h1, h2, h3⟩ := h.counts
    obtain ⟨h1', h2', h3'⟩ := h'.counts
    exact ⟨h1'.trans h1, h2'.trans h2, h3'.trans h3⟩
  evictions := by
    rw [h'.evictions, h.evictions, List.length_singleton, List.length_cons]
    omega
  pool := by
    rw [h'.pool, h.pool, List.length_singleton, List.length_cons]
    omega
  heap b hb := by
    rw [List.mem_cons, not_or] at hb
    rw [h'.heap b hb.2, h.heap b (by simpa using hb.1)]

lemma discharged_evictKeys (hc : cfg.probPoolMaxSize ≠ 0) (vs : List Addr) (ho : Owned s fl)
    (hr : Room cfg s) (hnd : vs.Nodup) (hv : ∀ v ∈ vs, (∃ k, s.map.lookup k = some v) ∧
      (s.heap v).poolType = .probation ∧ v ∉ s.probationList) :
    Discharged cfg s (s.evictKeys cfg (vs.map fun a => (s.heap a).key)) vs := by
  induction vs generalizing s with
  | nil =>
    unfold Room at hr
    refine ⟨⟨rfl, rfl⟩, rfl, ⟨rfl, rfl, rfl⟩, rfl, ?_, fun _ _ => rfl⟩
    show s.pool.length = _
    rw [List.length_nil]
    omega
  | cons a vs ih =>
    obtain ⟨hav, hnd'⟩ := List.nodup_cons.mp hnd
    obtain ⟨⟨k, hk⟩, hty, hp⟩ := hv a (by simp)
    obtain ⟨hother, hstay, hlist⟩ := batch_cons cfg ho hk hav
    have hfirst := discharged_evictKey hc hr hk hty hp
    rw [hlist]
    refine hfirst.cons (ih (owned_evictKey cfg ho _).1 (room_evictKeys hr [k]) hnd' ?_)
    intro v hvs
    have hne : v ≠ a := by rintro rfl; exact hav hvs
    obtain ⟨⟨k', hk'⟩, hty', hp'⟩ := hv v (by simp [hvs])
    exact ⟨⟨k', hstay v hne k' hk'⟩, by rw [hother v hne]; exact hty', by
      rw [hfirst.probation]; exact hp'⟩

/-- **The reaper** discharges the entries it has unlinked. -/
lemma discharged_reaper (hc : cfg.probPoolMaxSize ≠ 0) (ho : Owned s fl) (h : Linked cfg s fl U)
    (hr : Room cfg s) (hfl : ∀ b ∈ s.probationList, b ∉ fl) :
    Discharged cfg (s.reaped cfg) (s.runSequentialReaper cfg).1
      (s.probationList.take cfg.reach) := by
  have ht := touch_reaped cfg s
  have h1 := discharged_evictKeys hc (s.probationList.take cfg.reach) (ht.owned ho)
    (hr.congr ht.pool) (h.probNodup.sublist (List.take_sublist _ _)) fun v hv => by
      have hv' := List.mem_of_mem_take hv
      rw [ht.map, Store.reaped_heap, Store.reaped_probationList]
      exact ⟨(h.prob v hv').2.resolve_right (hfl v hv'), (h.prob v hv').1,
        fun hd => List.disjoint_take_drop h.probNodup le_rfl hv hd⟩
  rw [Store.reaped_heap] at h1
  rwa [Store.runSequentialReaper_eq]

lemma reaper_frame (hc : cfg.probPoolMaxSize ≠ 0) (ho : Owned s fl) (h : Linked cfg s fl U)
    (hr : Room cfg s) (hfl : ∀ b ∈ s.probationList, b ∉ fl) :
    (s.runSequentialReaper cfg).1.sieveList = s.sieveList ∧
      (s.runSequentialReaper cfg).1.hand = s.hand ∧
      (s.runSequentialReaper cfg).1.pool.length =
        min cfg.maxSize (s.pool.length + (s.probationList.take cfg.reach).length) ∧
      ∀ b ∈ s.sieveList, (s.runSequentialReaper cfg).1.heap b = s.heap b := by
  have h1 := discharged_reaper hc ho h hr hfl
  have h2 := h1.sieve
  rw [Store.reaped_sieveList, Store.reaped_hand] at h2
  refine ⟨h2.1, h2.2, by rw [h1.pool, (touch_reaped cfg s).pool], fun b hb => ?_⟩
  rw [h1.heap b fun hm => h.disjoint hb (List.mem_of_mem_take hm), Store.reaped_heap]

end Reaper

/-! ### The overwrite of a sanctuary key -/

/-- The free slots after an overwrite: those before it, at least the one it borrows, and
those the reaper wins, as far as there is room. -/
def freeAfter (cfg : Config) (s : Store) : ℕ :=
  min cfg.maxSize (max 1 s.pool.length + (reaping cfg s).length)

structure SameSieve (s t : Store) : Prop where
  list : t.sieveList = s.sieveList
  hand : t.hand = s.hand
  heap : ∀ b ∈ s.sieveList, t.heap b = s.heap b

lemma SameSieve.trans {s t u : Store} (h : SameSieve s t) (h' : SameSieve t u) : SameSieve s u :=
  ⟨h'.list.trans h.list, h'.hand.trans h.hand,
    fun b hb => (h'.heap b (h.list ▸ hb)).trans (h.heap b hb)⟩

section Overwrite

variable {cfg : Config} {s : Store} {U : PoolType → Addr → Prop}

lemma sameSieve_countProbation {fl : List Addr} (h : Linked cfg s fl U) {a : Addr}
    (ha : ¬ Held s fl a) : SameSieve s (s.countProbation a) := by
  refine ⟨rfl, rfl, fun b hb => ?_⟩
  have hba : b ≠ a := by rintro rfl; exact ha (h.sieve b hb).2
  exact s.modify_heap_other a (fun e => { e with inUse := true, poolType := .probation }) hba

lemma takeFront_frame (ho : Owned s []) (h : Linked cfg s [] U) {t : Store} {a : Addr}
    (ht : s.takeFront = (t, some a)) :
    SameSieve s t ∧ (t.heap a).poolType = .probation ∧ t.pool.length + 1 = s.pool.length := by
  obtain ⟨pool, u, hp, rfl, rfl⟩ := Store.takeFront_eq_some ht
  have h0 : Linked cfg { s with pool := pool } [] U :=
    h.frame (fun _ => Iff.rfl) rfl rfl rfl fun _ _ => rfl
  have ha : ¬ Held s [] a := not_held_of_pool ho (by simp [hp])
  have h1 := sameSieve_countProbation (a := a) h0 ha
  refine ⟨⟨h1.list, h1.hand, h1.heap⟩, by simp [Store.countProbation], ?_⟩
  rw [hp]
  rfl

/-- With probation, acquiring an entry leaves the sanctuary alone. -/
lemma acquire_frame (hc : cfg.probPoolMaxSize ≠ 0) (ho : Owned s []) (h : Linked cfg s [] U)
    (hr : Room cfg s) {t : Store} {a : Addr} (ht : s.acquire cfg = (t, .ok (some a))) :
    SameSieve s t ∧ (t.heap a).poolType = .probation ∧
      min cfg.maxSize (t.pool.length + 1) = freeAfter cfg s := by
  unfold freeAfter reaping
  have hr' : s.pool.length ≤ cfg.maxSize := hr
  cases Store.acquires_of_acquire ht with
  | sanctuary hc' => exact absurd hc' hc
  | made hc hp =>
    have hn : ¬ Held s [] s.next := not_held_next ho
    have h1 := linked_alloc ho h
    obtain ⟨ho', h2, hfl⟩ := linked_made ho h
    obtain ⟨h4, h5, h6, h7⟩ := reaper_frame hc ho' h2 hr hfl
    have h0 : SameSieve s s.alloc := by
      refine ⟨rfl, rfl, fun b hb => ?_⟩
      have hne : b ≠ s.next := by rintro rfl; exact hn (h.sieve _ hb).2
      simp [Store.alloc, hne]
    refine ⟨(h0.trans (sameSieve_countProbation (a := s.next) h1 hn)).trans ⟨h4, h5, h7⟩, ?_, ?_⟩
    · rw [runSequentialReaper_heap cfg ho' (.inl List.mem_cons_self)]
      simp [Store.countProbation]
    · have h8 : (s.alloc.countProbation s.next).pool.length = 0 := by
        show s.pool.length = 0
        simp [hp]
      have h9 : (s.alloc.countProbation s.next).probationList = s.probationList := rfl
      rw [if_pos ⟨hc, .inl hp⟩, h6, h8, h9, hp]
      simp only [List.length_nil]
      omega
  | reaped hc hp hq _ ht =>
    have hpos : 1 ≤ s.pool.length := List.length_pos_of_ne_nil hp
    obtain ⟨h1, -⟩ := owned_runSequentialReaper cfg ho
    obtain ⟨h4, h5, h6, h7⟩ := reaper_frame hc ho h hr (by simp)
    obtain ⟨h8, h9, h10⟩ := takeFront_frame h1 (linked_runSequentialReaper ho h (by simp)) ht
    refine ⟨SameSieve.trans ⟨h4, h5, h7⟩ h8, h9, ?_⟩
    rw [if_pos ⟨hc, .inr hq⟩, h10, h6]
    omega
  | front hc hp hq ht =>
    have hpos : 1 ≤ s.pool.length := List.length_pos_of_ne_nil hp
    obtain ⟨h8, h9, h10⟩ := takeFront_frame ho h ht
    refine ⟨h8, h9, ?_⟩
    rw [if_neg (by simp [hp, hq]), h10, List.length_nil]
    omega

structure Overwritten (cfg : Config) (s t : Store) (e : Addr) : Prop where
  list : t.sieveList = s.sieveList
  hand : t.hand = s.hand
  free : t.pool.length = freeAfter cfg s
  other : ∀ b ∈ s.sieveList, b ≠ e → t.heap b = s.heap b
  visited : (t.heap e).visited = (s.heap e).visited

lemma onInsert_frame {a : Addr} (ha : a ∉ s.sieveList) :
    (s.onInsert a).sieveList = s.sieveList ++ [a] ∧
      (s.hand ≠ none → (s.onInsert a).hand = s.hand) ∧
      (∀ b, b ≠ a → (s.onInsert a).heap b = s.heap b) ∧
      (s.onInsert a).heap a = { s.heap a with visited := true, poolType := .sanctuary } := by
  simp only [Store.onInsert, ha, if_false]
  refine ⟨rfl, fun hh => ?_, fun b hb => s.modify_heap_other a _ hb, ?_⟩
  · rw [Store.modify_hand, if_neg hh]
  · rw [s.modify_heap_same]

/-- Without probation, the entry acquired is the last of the sanctuary list, and visited. -/
lemma linkSanctuary_frame {a : Addr} (ha : a ∉ s.sieveList) :
    (s.linkSanctuary a).sieveList = s.sieveList ++ [a] ∧
      (s.hand ≠ none → (s.linkSanctuary a).hand = s.hand) ∧
      (∀ b, b ≠ a → (s.linkSanctuary a).heap b = s.heap b) ∧
      ((s.linkSanctuary a).heap a).visited = true := by
  obtain ⟨h1, h2, h3, h4⟩ := onInsert_frame (a := a)
    (s := { s.modify a fun e => { e with inUse := true } with sancCount := s.sancCount + 1 }) ha
  refine ⟨h1, h2, fun b hb => ?_, congrArg Entry.visited h4⟩
  exact (h3 b hb).trans (s.modify_heap_other a (fun e => { e with inUse := true }) hb)

lemma doAcquire_frame (hc : cfg.probPoolMaxSize = 0) (ho : Owned s []) (h : Linked cfg s [] U)
    (hr : Room cfg s) {t : Store} {a : Addr} (ht : s.acquire cfg = (t, .ok (some a))) :
    t.sieveList = s.sieveList ++ [a] ∧ a ∉ s.sieveList ∧
      (s.hand ≠ none → t.hand = s.hand) ∧
      (∀ b, b ≠ a → t.heap b = s.heap b) ∧ (t.heap a).visited = true ∧
      min cfg.maxSize (t.pool.length + 1) = freeAfter cfg s := by
  rw [Store.acquire, if_pos hc] at ht
  have hpool := doAcquire_pool ht
  have hfree : min cfg.maxSize (t.pool.length + 1) = freeAfter cfg s := by
    have hr' : s.pool.length ≤ cfg.maxSize := hr
    have hz : (reaping cfg s).length = 0 := by rw [reaping, if_neg (by simp [hc])]; rfl
    rw [freeAfter, hpool, List.length_tail, hz]
    omega
  obtain ⟨u, rfl, ⟨-, rfl, rfl⟩ | ⟨pool, hp, rfl⟩⟩ := Store.doAcquire_eq_some ht
  · have ha : s.next ∉ s.sieveList := fun hm => not_held_next ho (h.sieve _ hm).2
    obtain ⟨h1, h2, h3, h4⟩ := linkSanctuary_frame (s := s.alloc) (a := s.next) ha
    refine ⟨h1, ha, h2, fun b hb => ?_, h4, hfree⟩
    rw [h3 b hb]
    simp [Store.alloc, hb]
  · have ha : a ∉ s.sieveList := fun hm => not_held_of_pool ho (by simp [hp]) (h.sieve _ hm).2
    obtain ⟨h1, h2, h3, h4⟩ := linkSanctuary_frame (s := { s with pool := pool }) (a := a) ha
    exact ⟨h1, ha, h2, h3, h4, hfree⟩

lemma release_last (hc : cfg.probPoolMaxSize = 0) {l : List Addr} {a : Addr} (ha : a ∉ l)
    (hl : s.sieveList = l ++ [a]) (hne : l ≠ []) (hh : s.hand ≠ some a) :
    (s.release cfg a).sieveList = l ∧ (s.release cfg a).hand = s.hand := by
  have her : s.sieveList.erase a = l := by rw [hl, erase_append ha, List.append_nil]
  rw [Store.release, if_pos hc, Store.doRelease, onErase_modify]
  obtain ⟨h1, h2, -, -⟩ := putBack_lists cfg ((s.onErase a).modify a Store.clear).dropSanctuary a
  rw [h1, h2]
  show (s.onErase a).sieveList = l ∧ (s.onErase a).hand = s.hand
  rw [Store.onErase, if_pos (by simp [hl])]
  simp only [her]
  refine ⟨trivial, ?_⟩
  rw [if_neg hne, if_neg hh]

/-- The overwrite of a sanctuary key does not promote it. -/
lemma emplace_sanctuary {k : Bytes} {a e : Addr} (hk : s.map.lookup k = some e)
    (hty : (s.heap e).poolType = .sanctuary) (updateTtl : Bool) :
    s.emplace cfg k a updateTtl =
      Store.release cfg (s.modify e fun o => o.updateFrom (s.heap a) updateTtl) a := by
  have hty' : ((s.modify e fun o => o.updateFrom (s.heap a) updateTtl).heap e).poolType =
      .sanctuary := by
    rw [s.modify_heap_same]
    unfold Entry.updateFrom
    split <;> exact hty
  simp only [Store.emplace, hk, Store.promoteToSanctuary, if_pos hty']

lemma Sound.mem_sieveList (hs : Sound cfg s) {k : Bytes} {e : Addr} (hk : s.map.lookup k = some e)
    (hty : (s.heap e).poolType = .sanctuary) : e ∈ s.sieveList ∧ e ∉ s.probationList := by
  have hp : e ∉ s.probationList := by
    intro hp
    rw [(hs.linked.prob e hp).1] at hty
    cases hty
  refine ⟨(hs.linked.covered e (.inl ⟨k, hk⟩)).resolve_right ?_, hp⟩
  rintro (h | h)
  · exact hp h
  · rw [h] at hty; cases hty

lemma reaping_subset (cfg : Config) (s : Store) : reaping cfg s ⊆ s.probationList := by
  unfold reaping
  split
  · exact List.take_subset _ _
  · simp

/-- The entry in the caller's hands is at the end of the sanctuary list, or in probation:
releasing it gives back the list and the hand from before it was acquired. -/
lemma acquire_release (hs : Sound cfg s) (hr : Room cfg s) (hne : s.sieveList ≠ []) {t : Store}
    {a : Addr} (ht : s.acquire cfg = (t, .ok (some a))) :
    (∀ b ∈ s.sieveList, b ≠ a ∧ t.heap b = s.heap b) ∧
      min cfg.maxSize (t.pool.length + 1) = freeAfter cfg s ∧
      ∀ u : Store, u.sieveList = t.sieveList → u.hand = t.hand →
        (u.heap a).poolType = (t.heap a).poolType →
        (u.release cfg a).sieveList = s.sieveList ∧ (u.release cfg a).hand = s.hand := by
  by_cases hc : cfg.probPoolMaxSize = 0
  · obtain ⟨h1, h2, h3, h4, -, h6⟩ := doAcquire_frame hc hs.owned hs.linked hr ht
    have hba (b : Addr) (hb : b ∈ s.sieveList) : b ≠ a := by rintro rfl; exact h2 hb
    refine ⟨fun b hb => ⟨hba b hb, h4 b (hba b hb)⟩, h6, fun u hu hh _ => ?_⟩
    have hh' : u.hand = s.hand := hh.trans (h3 fun hx => hne (hs.linked.handNone hx))
    obtain ⟨h7, h8⟩ := release_last hc h2 (hu.trans h1) hne fun hx =>
      h2 (hs.linked.handMem a (hh'.symm.trans hx))
    exact ⟨h7, h8.trans hh'⟩
  · obtain ⟨h1, h2, h3⟩ := acquire_frame hc hs.owned hs.linked hr ht
    refine ⟨fun b hb => ⟨?_, h1.heap b hb⟩, h3, fun u hu hh hty => ?_⟩
    · rintro rfl
      rw [h1.heap b hb, (hs.linked.sieve b hb).1] at h2
      cases h2
    · obtain ⟨h4, h5⟩ := release_probation hc (hty.trans h2)
      exact ⟨h4.trans (hu.trans h1.list), h5.trans (hh.trans h1.hand)⟩

lemma overwritten_emplace (hs : Sound cfg s) (hr : Room cfg s) {k : Bytes} {e a : Addr}
    (hk : s.map.lookup k = some e) (hty : (s.heap e).poolType = .sanctuary) {t : Store}
    (ht : s.acquire cfg = (t, .ok (some a))) (ho : Owned t [a]) (f : Entry → Entry)
    (hf : ∀ e, (f e).poolType = e.poolType) (updateTtl : Bool) :
    Overwritten cfg s ((t.modify a f).emplace cfg k a updateTtl) e ∧
      ((t.modify a f).emplace cfg k a updateTtl).map.lookup k = some e := by
  obtain ⟨hmem, hp⟩ := hs.mem_sieveList hk hty
  have hk' : t.map.lookup k = some e := by
    rw [acquire_lookup hs.owned hs.linked ht, hk]
    have he : e ∉ reaping cfg s := fun hm => hp (reaping_subset cfg s hm)
    simp [Option.filter, he]
  have hea : e ≠ a := by
    rintro rfl
    exact (ho.mapOnly k e hk').2.2 (by simp)
  obtain ⟨hheap, hfree, hrel⟩ := acquire_release hs hr (List.ne_nil_of_mem hmem) ht
  have hte : ((t.modify a f).heap e).poolType = .sanctuary := by
    rw [t.modify_heap_other a f hea, (hheap e hmem).2, hty]
  rw [emplace_sanctuary (s := t.modify a f) hk' hte]
  set u := (t.modify a f).modify e fun o => o.updateFrom ((t.modify a f).heap a) updateTtl with hu
  have hua : (u.heap a).poolType = (t.heap a).poolType := by
    rw [hu, Store.modify_heap_other _ _ _ hea.symm, t.modify_heap_same, hf]
  obtain ⟨h1, h2⟩ := hrel u rfl rfl hua
  refine ⟨⟨h1, h2, ?_, fun b hb hbe => ?_, ?_⟩, by rw [release_map]; exact hk'⟩
  · have h3 := release_pool_length cfg u a
    have h4 : u.pool = t.pool := rfl
    have h5 : Room cfg t := room_acquire hr ht
    unfold Room at h5
    rw [h3, h4, ← hfree]
    split <;> omega
  · obtain ⟨hba, hb'⟩ := hheap b hb
    rw [release_heap_other cfg u hba, hu, Store.modify_heap_other _ _ _ hbe,
      t.modify_heap_other a f hba, hb']
  · rw [release_heap_other cfg u hea, hu, Store.modify_heap_same, t.modify_heap_other a f hea,
      (hheap e hmem).2]
    unfold Entry.updateFrom
    split <;> rfl

lemma acquire_heap (hs : Sound cfg s) (hr : Room cfg s) {t : Store} {a : Addr}
    (ht : s.acquire cfg = (t, .ok (some a))) (ho : Owned t [a]) {k : Bytes} {e : Addr}
    (hk : t.map.lookup k = some e) : t.heap e = s.heap e := by
  have hea : e ≠ a := by rintro rfl; exact (ho.mapOnly k e hk).2.2 (by simp)
  cases Store.acquires_of_acquire ht with
  | sanctuary hc => exact (doAcquire_frame hc hs.owned hs.linked hr ht).2.2.2.1 e hea
  | made hc hp =>
    obtain ⟨ho', -⟩ := linked_made hs.owned hs.linked
    rw [runSequentialReaper_heap cfg ho' (.inr ⟨k, hk⟩), Store.countProbation_heap_other _ hea]
    simp [Store.alloc, hea]
  | reaped hc hp hq _ ht =>
    rw [Store.takeFront_heap_other ht hea,
      runSequentialReaper_heap cfg hs.owned (.inr ⟨k, by rwa [← takeFront_map ht]⟩)]
  | front hc hp hq ht => exact Store.takeFront_heap_other ht hea

/-- An overwrite of an entry in probation promotes it, and leaves it visited. -/
lemma visited_overwrite {t : Store} {k : Bytes} {a e : Addr} (hl : t.map.lookup k = some e)
    (hea : e ≠ a) (hpool : e ∉ t.pool) (hty : (t.heap e).poolType = .probation)
    (hsv : e ∉ t.sieveList) (updateTtl : Bool) {b : Addr}
    (hb : (t.emplace cfg k a updateTtl).map.lookup k = some b) :
    ((t.emplace cfg k a updateTtl).heap b).visited = true := by
  simp only [Store.emplace, hl] at hb ⊢
  set u := t.modify e fun o => o.updateFrom (t.heap a) updateTtl with hu
  have hue : (u.heap e).poolType ≠ .sanctuary := by
    rw [hu, Store.modify_heap_same]
    unfold Entry.updateFrom
    split <;> simp [hty]
  have hup : e ∉ u.pool := hpool
  rw [release_map, (touch_promote hup).map] at hb
  obtain rfl : e = b := by
    have : u.map.lookup k = some e := hl
    rw [this, Option.some.injEq] at hb
    exact hb
  rw [release_heap_other cfg _ hea]
  unfold Store.promoteToSanctuary
  rw [if_neg hue]
  have hsv' : e ∉ (u.removeFromProbation e).sieveList := by
    rw [removeFromProbation_sieveList]
    exact hsv
  show (((u.removeFromProbation e).onInsert e).heap e).visited = true
  rw [(onInsert_frame hsv').2.2.2]

lemma visited_emplace (hs : Sound cfg s) (hr : Room cfg s) {k : Bytes} {a : Addr}
    (hk : ∀ e, s.map.lookup k = some e → (s.heap e).poolType = .probation) {t : Store}
    (ht : s.acquire cfg = (t, .ok (some a))) (ho : Owned t [a]) (f : Entry → Entry)
    (hf : ∀ e, (f e).poolType = e.poolType ∧ (f e).visited = e.visited) (updateTtl : Bool)
    {b : Addr} (hb : ((t.modify a f).emplace cfg k a updateTtl).map.lookup k = some b) :
    (((t.modify a f).emplace cfg k a updateTtl).heap b).poolType = .probation ∨
      (((t.modify a f).emplace cfg k a updateTtl).heap b).visited = true := by
  have hlk := acquire_lookup hs.owned hs.linked ht k
  rcases hl : t.map.lookup k with _ | e
  · simp only [Store.emplace, Store.modify_map, hl] at hb ⊢
    obtain rfl : a = b := by simpa using hb
    rw [t.modify_heap_same, (hf _).1, (hf _).2]
    by_cases hc : cfg.probPoolMaxSize = 0
    · exact .inr (doAcquire_frame hc hs.owned hs.linked hr ht).2.2.2.2.1
    · exact .inl (acquire_frame hc hs.owned hs.linked hr ht).2.1
  · have hek : s.map.lookup k = some e := by
      rw [hl] at hlk
      exact (Option.filter_eq_some_iff.mp hlk.symm).1
    have hea : e ≠ a := by rintro rfl; exact (ho.mapOnly k e hl).2.2 (by simp)
    have hty : (t.heap e).poolType = .probation := by
      rw [acquire_heap hs hr ht ho hl]
      exact hk e hek
    have hsv : e ∉ t.sieveList := by
      intro hm
      rw [((linked_acquire hs.owned hs.linked ht).sieve e hm).1] at hty
      cases hty
    have hty' : ((t.modify a f).heap e).poolType = .probation := by
      rw [t.modify_heap_other a f hea]
      exact hty
    have hl' : (t.modify a f).map.lookup k = some e := hl
    exact .inr (visited_overwrite hl' hea (ho.mapOnly k e hl).2.1 hty' hsv updateTtl hb)

end Overwrite

/-! ### The eviction pass -/

/-- The eviction pass of a write of `k` takes the key: it is a sanctuary key, unvisited, the
free slots that the overwrite leaves are few enough for a pass, and from the hand on it is
among the first entries that are expired or unvisited, as many as the budget says. -/
def Overtaken (cfg : Config) (s : Store) (k : Bytes) (later : ℕ) : Prop :=
  ∃ e, s.map.lookup k = some e ∧ (s.heap e).poolType = .sanctuary ∧ (s.heap e).visited = false ∧
    cfg.maxSize ≠ 0 ∧ cfg.softTriggered ((cfg.maxSize + 2 ^ 64 - freeAfter cfg s) % 2 ^ 64) ∧
    e ∈ (s.ahead.filter (s.takes later)).take cfg.softBudget

section Pass

variable {cfg : Config} {s : Store} {later : ℕ}

lemma takes_of_live {a : Addr} (h : Live later (s.heap a).expiresAt) :
    s.takes later a = !(s.heap a).visited := by
  have hx : isExpired later (s.heap a).expiresAt = false := by
    unfold Live at h
    simp only [isExpired, decide_eq_false_iff_not]
    omega
  rw [Store.takes, hx, Bool.false_or]

lemma mem_victims (hpass : (s.checkMemoryAndEvict cfg later).2 = .ok ()) {a : Addr} :
    a ∈ victims cfg s later ↔ cfg.maxSize ≠ 0 ∧ cfg.softTriggered (s.usedSlots cfg) ∧
      a ∈ s.taking cfg.softBudget later := by
  unfold Store.checkMemoryAndEvict Store.evict at hpass
  unfold victims
  split_ifs at hpass ⊢ <;> simp_all

lemma victims_subset (cfg : Config) (s : Store) (later : ℕ) :
    victims cfg s later ⊆ s.taking cfg.softBudget later := by
  unfold victims
  split_ifs
  · exact List.nil_subset _
  · exact List.nil_subset _
  · exact List.Subset.refl _
  · exact List.nil_subset _

lemma taking_subset (s : Store) (budget now : ℕ) : s.taking budget now ⊆ s.sieveList := by
  intro a ha
  exact (List.dropWhile_suffix _).subset (mem_taken _ ha).1

/-- After the overwrite of an unvisited sanctuary key the pass is the one the store was due. -/
lemma Overwritten.mem_victims_iff {t : Store} {e : Addr} (h : Overwritten cfg s t e)
    (hpass : (t.checkMemoryAndEvict cfg later).2 = .ok ()) (hv : (s.heap e).visited = false) :
    e ∈ victims cfg t later ↔ cfg.maxSize ≠ 0 ∧
      cfg.softTriggered ((cfg.maxSize + 2 ^ 64 - freeAfter cfg s) % 2 ^ 64) ∧
      e ∈ (s.ahead.filter (s.takes later)).take cfg.softBudget := by
  have hahead : t.ahead = s.ahead := by rw [Store.ahead, h.list, h.hand]; rfl
  have htakes (a : Addr) (ha : a ∈ s.ahead) : t.takes later a = s.takes later a := by
    by_cases hae : a = e
    · subst hae
      simp [Store.takes, h.visited, hv]
    · have := h.other a ((List.dropWhile_suffix _).subset ha) hae
      rw [Store.takes, Store.takes, this]
  have htaking : t.taking cfg.softBudget later = s.taking cfg.softBudget later := by
    rw [Store.taking, Store.taking, hahead]
    exact taken_congr _ htakes
  rw [mem_victims hpass, htaking, Store.usedSlots, h.free, Store.taking, taken_eq]

lemma Overwritten.overtaken_iff {t : Store} {k : Bytes} {e : Addr} (h : Overwritten cfg s t e)
    (hpass : (t.checkMemoryAndEvict cfg later).2 = .ok ()) (hk : s.map.lookup k = some e)
    (hty : (s.heap e).poolType = .sanctuary) (hd : Live later (t.heap e).expiresAt) :
    e ∈ victims cfg t later ↔ Overtaken cfg s k later := by
  constructor
  · intro hm
    have htk := (mem_taken _ ((mem_victims hpass).mp hm).2.2).2
    rw [takes_of_live hd, h.visited] at htk
    have hv : (s.heap e).visited = false := by simpa using htk
    exact ⟨e, hk, hty, hv, (h.mem_victims_iff hpass hv).mp hm⟩
  · rintro ⟨e', hk', -, hv, h'⟩
    obtain rfl : e = e' := by
      rw [hk, Option.some.injEq] at hk'
      exact hk'
    exact (h.mem_victims_iff hpass hv).mpr h'

/-- An entry in probation, or visited, is no victim while it is live. -/
lemma not_mem_victims {t : Store} {fl : List Addr} {U : PoolType → Addr → Prop}
    (h : Linked cfg t fl U) {a : Addr} (hd : Live later (t.heap a).expiresAt)
    (ha : (t.heap a).poolType = .probation ∨ (t.heap a).visited = true) :
    a ∉ victims cfg t later := by
  intro hm
  have hm' := victims_subset cfg t later hm
  have htk := (mem_taken _ hm').2
  have hty := (h.sieve a (taking_subset t _ _ hm')).1
  rw [takes_of_live hd] at htk
  rcases ha with ha | ha
  · rw [ha] at hty; cases hty
  · rw [ha] at htk; simp at htk

/-- **The entry just written is a victim** exactly when the key is overtaken. -/
lemma mem_victims_iff_overtaken (hs : Sound cfg s) (hr : Room cfg s) {k v : Bytes} {d : Option ℕ}
    {t : Store} (hw : s.write cfg k v d = (t, .ok true))
    (hpass : (t.checkMemoryAndEvict cfg later).2 = .ok ()) {a : Addr}
    (ha : t.map.lookup k = some a) (hd : Live later (t.heap a).expiresAt) :
    a ∈ victims cfg t later ↔ Overtaken cfg s k later := by
  obtain ⟨n, hn⟩ := noteFallback_frame s
  have hover : Overtaken cfg s.noteFallback k later ↔ Overtaken cfg s k later := by rw [hn]; rfl
  have hs' : Sound cfg s.noteFallback := ⟨hs.owned.noteFallback.1, hs.linked.noteFallback⟩
  have hr' : Room cfg s.noteFallback := hr.congr (by rw [hn])
  rw [← hover]
  have hthrows : ¬ s.noteFallback.AcquireThrows cfg := by
    intro hthrows
    obtain ⟨t', x, ht, -⟩ :=
      refused_write hs.owned k v d (Store.acquireThrows_noteFallback.mp hthrows)
    rw [ht] at hw
    cases hw
  obtain ⟨b, u, hacq, hown⟩ := acquired_acquire hs'.owned hthrows
  obtain ⟨f, hf, ht⟩ : ∃ f : Entry → Entry,
      (∀ e, (f e).poolType = e.poolType ∧ (f e).visited = e.visited) ∧
      t = (u.modify b f).emplace cfg k b d.isSome := by
    rw [Store.write, hacq] at hw
    exact ⟨fun e => { e with key := k, value := v, expiresAt := d.getD e.expiresAt },
      fun _ => ⟨rfl, rfl⟩, (Prod.mk.inj hw).1.symm⟩
  by_cases hold : ∃ e, s.noteFallback.map.lookup k = some e ∧
      (s.noteFallback.heap e).poolType = .sanctuary
  · obtain ⟨e, hk, hty⟩ := hold
    obtain ⟨h1, h2⟩ := overwritten_emplace hs' hr' hk hty hacq hown.owned f (fun e => (hf e).1)
      d.isSome
    rw [← ht] at h1 h2
    obtain rfl : e = a := by
      rw [h2, Option.some.injEq] at ha
      exact ha
    exact h1.overtaken_iff hpass hk hty hd
  · have hk (e : Addr) (he : s.noteFallback.map.lookup k = some e) :
        (s.noteFallback.heap e).poolType = .probation := by
      cases hp : (s.noteFallback.heap e).poolType with
      | probation => rfl
      | sanctuary => exact absurd ⟨e, he, hp⟩ hold
    have hsafe : (t.heap a).poolType = .probation ∨ (t.heap a).visited = true := by
      rw [ht] at ha ⊢
      exact visited_emplace hs' hr' hk hacq hown.owned f hf d.isSome ha
    have hnot := not_mem_victims (linked_write hs.owned hs.linked hw) hd hsafe
    refine iff_of_false hnot ?_
    rintro ⟨e, hk', hty, -⟩
    exact hold ⟨e, hk', hty⟩

end Pass

/-- A write that returns true has an entry, and its pass does not throw. -/
lemma written_of_put {cfg : Config} {s : Store} (ho : Owned s []) {k v : Bytes} {d : Option ℕ}
    {later : ℕ} (h : (s.put cfg k v d later).2 = .ok true) :
    ¬ s.AcquireThrows cfg ∧ ∃ t, s.write cfg k v d = (t, .ok true) ∧
      (t.checkMemoryAndEvict cfg later).2 = .ok () := by
  have hthrows : ¬ s.AcquireThrows cfg := by
    intro hthrows
    obtain ⟨⟨e, he⟩, -⟩ := put_refused ho k v d later hthrows
    rw [he] at h
    cases h
  obtain ⟨t, ht, -⟩ := written_write ho k v d hthrows
  refine ⟨hthrows, t, ht, ?_⟩
  rw [Store.put, ht] at h
  rcases hpass : (t.checkMemoryAndEvict cfg later).2 with e | _
  · simp [Store.await, hpass] at h
  · rfl

/-- **A write that returns true survives its own eviction pass** exactly when it is not the
overwrite of an unvisited sanctuary key that the pass gets to. -/
theorem write_survives_iff (cfg : Config) (es : List Event) (e : Event) {k v : Bytes}
    {d : Option ℕ} (he : e.Writes k v d)
    (hret : (step cfg (run cfg (start cfg) es) e).2 = .stored true)
    (hd : Live e.later (deadline (abs ((run cfg (start cfg) es).write cfg k v d).1) k)) :
    (abs (step cfg (run cfg (start cfg) es) e).1 k).map Prod.fst = some v ↔
      ¬ Overtaken cfg (run cfg (start cfg) es) k e.later := by
  have hs := sound_run (sound_start cfg) es
  have hr := room_run cfg es
  set s := run cfg (start cfg) es
  rw [step_write cfg s he] at hret ⊢
  obtain ⟨hthrows, t, ht, hpass⟩ := written_of_put hs.owned (Reply.ofWrite_eq_stored.mp hret)
  obtain ⟨-, R, S, h2, -⟩ := put_refines hs.owned k v d e.later hthrows
  obtain ⟨t', ht', hw⟩ := written_write hs.owned k v d hthrows
  obtain rfl : t = t' := congrArg Prod.fst (ht.symm.trans ht')
  have hlinked := linked_write hs.owned hs.linked ht
  -- the key is in the map after the write, and the pass takes it or leaves its value
  obtain ⟨a, ha⟩ : ∃ a, t.map.lookup k = some a := by
    obtain ⟨R', hR', -⟩ := hw.wrote
    have hk := congrFun hR' k
    rw [write_same] at hk
    rcases hl : t.map.lookup k with _ | a
    · simp [abs, hl] at hk
    · exact ⟨a, rfl⟩
  have hd' : Live e.later (t.heap a).expiresAt := by
    rw [ht] at hd
    simpa [deadline, abs, ha] using hd
  rw [← mem_victims_iff_overtaken hs hr ht hpass ha hd']
  have hgone : abs (s.put cfg k v d e.later).1 k = none ↔ a ∈ victims cfg t e.later := by
    have hl : (s.put cfg k v d e.later).1.map.lookup k =
        (some a).filter fun a => a ∉ victims cfg t e.later := by
      rw [Store.put_fst ht, checkMemoryAndEvict_lookup hw.owned hlinked, ha]
    rw [abs, Option.map_eq_none_iff, hl]
    simp [Option.filter]
  have hval : abs (s.put cfg k v d e.later).1 k = none ∨
      (abs (s.put cfg k v d e.later).1 k).map Prod.fst = some v := by
    rw [h2, without]
    split
    · exact .inl rfl
    · exact .inr (by simp)
  rw [← hgone]
  constructor
  · intro hv hn
    rw [hn] at hv
    cases hv
  · intro hn
    exact hval.resolve_left hn

/-- Two pool entries, no probation, and a trigger of one half. -/
def halfFull : Config :=
  { maxSize := 2, probPoolMaxSize := 0, probThreshold := 0, reaperBudget := 0, softBudget := 1,
    softTriggered := fun used => 1 ≤ used }

def firstWrite : Event := ⟨.set [1] [1], 0, 0⟩

def overwrite : Event := ⟨.set [1] [2], 0, 0⟩

/-- Two more keys. The first of them stands before the second, both unvisited. -/
def keysAhead : List Event := [firstWrite, ⟨.set [2] [2], 0, 0⟩, ⟨.setWithTtl [3] [3] 9, 1, 1⟩]

/-- The pass of the overwrite takes the key ahead. -/
theorem write_survives_halfFull :
    (step halfFull (run halfFull (start halfFull) keysAhead) ⟨.set [3] [5], 2, 2⟩).2 =
        .stored true ∧
      abs (run halfFull (start halfFull) keysAhead) [2] = some ([2], 0) ∧
      abs (step halfFull (run halfFull (start halfFull) keysAhead) ⟨.set [3] [5], 2, 2⟩).1 [2] =
        none ∧
      ((abs (step halfFull (run halfFull (start halfFull) keysAhead)
          ⟨.set [3] [5], 2, 2⟩).1 [3]).map Prod.fst = some [5] ↔
        ¬ Overtaken halfFull (run halfFull (start halfFull) keysAhead) [3] 2) :=
  ⟨by decide, by decide, by decide, write_survives_iff halfFull keysAhead ⟨.set [3] [5], 2, 2⟩
    ⟨rfl, rfl, rfl⟩ (by decide) (by decide)⟩

/-- The overwrite reports success, the key has no deadline, and it is gone. -/
theorem overwrite_evicted :
    (step halfFull (run halfFull (start halfFull) [firstWrite]) overwrite).2 = .stored true ∧
      Live 0 (deadline
        (abs ((run halfFull (start halfFull) [firstWrite]).write halfFull [1] [2] none).1) [1]) ∧
      abs (step halfFull (run halfFull (start halfFull) [firstWrite]) overwrite).1 [1] = none := by
  decide

end ShunyaKV.Shard
