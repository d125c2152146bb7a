import Mathlib.Data.List.Induction
import ShunyaKV.Shard.Linked

/-!
Which calls leave every live entry within reach of an eviction.

An entry made when the pool has run dry is counted in probation and linked nowhere. It
stays out of reach if it goes into the map, and it does so exactly when the call has no
old entry to write to.
-/

namespace ShunyaKV.Shard

open ShunyaKV.Lib.HandList

section Acquire

variable {cfg : Config} {s : Store} {fl : List Addr} {U : PoolType → Addr → Prop} {a : Addr}

lemma linked_reaped (h : Linked cfg s fl U) :
    Linked cfg (s.reaped cfg) fl fun t b => U t b ∨ b ∈ s.probationList.take cfg.reach := by
  unfold Store.reaped
  split
  · exact h.weaken fun _ _ _ _ hU => .inl hU
  · refine ⟨h.sieveNodup, h.probNodup.sublist (List.drop_sublist _ _), h.sieve,
      fun b hb => h.prob b (List.mem_of_mem_drop hb), h.handMem, h.handNone, fun b hb => ?_,
      fun hd => by simp [h.disabled hd]⟩
    rcases h.covered b hb with h1 | h1 | h1
    · exact .inl h1
    · rw [← List.take_append_drop cfg.reach s.probationList, List.mem_append] at h1
      rcases h1 with h1 | h1
      · exact .inr (.inr (.inr h1))
      · exact .inr (.inl h1)
    · exact .inr (.inr (.inl h1))

/-- The reaper's batch is gone from the map as well. -/
lemma linked_runSequentialReaper (ho : Owned s fl) (h : Linked cfg s fl U)
    (hfl : ∀ b ∈ s.probationList, b ∉ fl) : Linked cfg (s.runSequentialReaper cfg).1 fl U := by
  have ht := touch_reaped cfg s
  have h1 := linked_batch (ht.owned ho) (linked_reaped h) fun v hv =>
    hfl v (List.mem_of_mem_take hv)
  have hkeys : (s.probationList.take cfg.reach).map (fun a => ((s.reaped cfg).heap a).key) =
      (s.probationList.take cfg.reach).map fun a => (s.heap a).key :=
    List.map_congr_left fun b _ => (ht.data b).2.1
  rw [hkeys] at h1
  rwa [Store.runSequentialReaper_eq]

lemma Linked.enter (h : Linked cfg s fl U) (ha : ¬ Held s fl a) :
    Linked cfg s (a :: fl) (fun t b => U t b ∨ b = a) ∧ a ∉ s.sieveList ∧ a ∉ s.probationList := by
  have hheld (b : Addr) : Held s fl b → Held s (a :: fl) b := Or.imp id (List.mem_cons_of_mem a)
  refine ⟨⟨h.sieveNodup, h.probNodup, fun b hb => ⟨(h.sieve b hb).1, hheld b (h.sieve b hb).2⟩,
    fun b hb => ⟨(h.prob b hb).1, hheld b (h.prob b hb).2⟩, h.handMem, h.handNone, ?_, h.disabled⟩,
    fun hs => ha (h.sieve a hs).2, fun hp => ha (h.prob a hp).2⟩
  intro b hb
  by_cases hba : b = a
  · exact .inr (.inr (.inr hba))
  · have hb' : Held s fl b := hb.imp id fun hm => (List.mem_cons.mp hm).resolve_left hba
    exact (h.covered b hb').imp id (Or.imp id Or.inl)

lemma Linked.modifyFree (h : Linked cfg s fl U) (ha : ¬ Held s fl a) (f : Entry → Entry) :
    Linked cfg (s.modify a f) fl U := by
  refine h.frame (fun _ => Iff.rfl) rfl rfl rfl fun b hb => ?_
  rw [s.modify_heap_other a f (by rintro rfl; exact ha hb)]

lemma not_held_of_pool (ho : Owned s fl) (ha : a ∈ s.pool) : ¬ Held s fl a := by
  rintro (⟨k, hk⟩ | hfl)
  · exact (ho.mapOnly k a hk).2.1 ha
  · exact (ho.flOnly a hfl).2 ha

lemma not_held_next (ho : Owned s fl) : ¬ Held s fl s.next := by
  rintro (⟨k, hk⟩ | hfl)
  · exact (ho.mapOnly k _ hk).1.ne rfl
  · exact (ho.flOnly _ hfl).1.ne rfl

lemma linked_alloc (ho : Owned s fl) (h : Linked cfg s fl U) : Linked cfg s.alloc fl U := by
  refine h.frame (fun _ => Iff.rfl) rfl rfl rfl fun b hb => ?_
  have hne : b ≠ s.next := by rintro rfl; exact not_held_next ho hb
  simp [Store.alloc, hne]

lemma linked_countProbation (h : Linked cfg s fl U) (ha : ¬ Held s fl a) :
    Linked cfg (s.countProbation a) (a :: fl) (fun t b => U t b ∨ b = a) ∧
      a ∉ s.sieveList ∧ a ∉ s.probationList := by
  have h1 : Linked cfg (s.countProbation a) fl U :=
    (h.modifyFree ha fun e => { e with inUse := true, poolType := .probation }).frame
      (fun _ => Iff.rfl) rfl rfl rfl fun _ _ => rfl
  exact h1.enter ha

/-- An entry made because the pool is empty is in no list. -/
lemma linked_made (ho : Owned s []) (h : Linked cfg s [] U) :
    Owned (s.alloc.countProbation s.next) [s.next] ∧
      Linked cfg (s.alloc.countProbation s.next) [s.next] (fun t b => U t b ∨ b = s.next) ∧
      ∀ b ∈ (s.alloc.countProbation s.next).probationList, b ∉ [s.next] := by
  obtain ⟨h1, -, h3⟩ := linked_countProbation (a := s.next) (linked_alloc ho h) (not_held_next ho)
  refine ⟨(acquired_count (owned_alloc ho).1 (by simp [Store.alloc])).owned, h1, fun b hb hb' => ?_⟩
  obtain rfl := List.mem_singleton.mp hb'
  exact h3 hb

lemma linked_takeFront (ho : Owned s fl) (h : Linked cfg s fl U) (hc : cfg.probPoolMaxSize ≠ 0)
    {t : Store} (ht : s.takeFront = (t, some a)) : Linked cfg t (a :: fl) U := by
  obtain ⟨pool, u, hp, rfl, rfl⟩ := Store.takeFront_eq_some ht
  have h0 : Linked cfg { s with pool := pool } fl U :=
    h.frame (fun _ => Iff.rfl) rfl rfl rfl fun _ _ => rfl
  have ha : ¬ Held s fl a := not_held_of_pool ho (by simp [hp])
  obtain ⟨h1, -, h3⟩ := linked_countProbation (a := a) h0 ha
  have htype :
      ((Store.countProbation { s with pool := pool } a).heap a).poolType = .probation := by
    simp [Store.countProbation]
  refine ⟨h1.sieveNodup, ?_, h1.sieve, ?_, h1.handMem, h1.handNone, ?_, fun hd => absurd hd hc⟩
  · exact List.nodup_append.mpr ⟨h1.probNodup, by simp, by
      rintro x hx y hy rfl
      exact h3 (List.mem_singleton.mp hy ▸ hx)⟩
  · intro c hc
    rcases List.mem_append.mp hc with hc | hc
    · exact h1.prob c hc
    · obtain rfl := List.mem_singleton.mp hc
      exact ⟨htype, .inr (by simp)⟩
  · intro c hc
    rcases h1.covered c hc with h4 | h4 | h4 | h4
    · exact .inl h4
    · exact .inr (.inl (by simp [h4]))
    · exact .inr (.inr h4)
    · exact .inr (.inl (by simp [h4]))

lemma linked_linkSanctuary (h : Linked cfg s fl U) (ha : ¬ Held s fl a) :
    Linked cfg (s.linkSanctuary a) (a :: fl) U := by
  obtain ⟨h1, -, h3⟩ := (h.modifyFree ha fun e => { e with inUse := true }).enter ha
  have h2 : Linked cfg { s.modify a fun e => { e with inUse := true } with
      sancCount := s.sancCount + 1 } (a :: fl) _ :=
    h1.frame (fun _ => Iff.rfl) rfl rfl rfl fun _ _ => rfl
  refine (linked_onInsert h2 (.inr (by simp)) h3).weaken fun b _ hb _ hU => hU.resolve_right ?_
  rintro rfl
  refine hb ?_
  unfold Store.onInsert
  split
  · assumption
  · simp

/-- **Acquire** links the entry it gives out, unless the pool has run dry. -/
lemma linked_acquire (ho : Owned s []) (h : Linked cfg s [] U) {t : Store}
    (ht : s.acquire cfg = (t, .ok (some a))) :
    Linked cfg t [a] fun ty b => U ty b ∨
      (cfg.probPoolMaxSize ≠ 0 ∧ s.pool = [] ∧ b = a ∧ ty = .probation) := by
  cases Store.acquires_of_acquire ht with
  | sanctuary hc ht =>
    refine Linked.weaken (U := U) ?_ fun _ _ _ _ hU => .inl hU
    obtain ⟨u, rfl, ⟨-, rfl, rfl⟩ | ⟨pool, hp, rfl⟩⟩ := Store.doAcquire_eq_some ht
    · exact linked_linkSanctuary (linked_alloc ho h) (not_held_next ho)
    · have ha : ¬ Held s [] a := not_held_of_pool ho (by simp [hp])
      exact linked_linkSanctuary (h.frame (fun _ => Iff.rfl) rfl rfl rfl fun _ _ => rfl) ha
  | made hc hp =>
    obtain ⟨ho', h1, hfl⟩ := linked_made ho h
    refine (linked_runSequentialReaper ho' h1 hfl).weaken fun b _ _ _ hU => hU.imp id ?_
    rintro rfl
    refine ⟨hc, hp, rfl, ?_⟩
    rw [runSequentialReaper_heap cfg ho' (.inl List.mem_cons_self)]
    simp [Store.countProbation]
  | reaped hc hp hq _ ht =>
    refine Linked.weaken (U := U) ?_ fun _ _ _ _ hU => .inl hU
    exact linked_takeFront (owned_runSequentialReaper cfg ho).1
      (linked_runSequentialReaper ho h (by simp)) hc ht
  | front hc hp hq ht =>
    refine Linked.weaken (U := U) ?_ fun _ _ _ _ hU => .inl hU
    exact linked_takeFront ho h hc ht

/-- An acquisition that throws leaves the lists alone. -/
lemma linked_refuses (ho : Owned s fl) (h : Linked cfg s fl U) {t : Store} {e : LengthError}
    (ht : Store.Refuses cfg s t e) : Linked cfg t fl U := by
  have hrewind {u : Store} (hu : Linked cfg u fl U) : Linked cfg u.rewound fl U :=
    hu.frame (fun _ => Iff.rfl) rfl rfl rfl fun _ _ => rfl
  cases ht with
  | value => exact h
  | made =>
    have hn : ¬ Held s fl s.next := not_held_next ho
    have hfree := (linked_alloc ho h).modifyFree (a := s.next) hn
      fun e => { e with inUse := true, poolType := .probation }
    have hcount : Linked cfg (s.alloc.countProbation s.next) fl U :=
      hfree.frame (fun _ => Iff.rfl) rfl rfl rfl fun _ _ => rfl
    exact (hrewind hcount).modifyFree (a := s.next) hn Store.clear
  | reaper => exact hrewind h

end Acquire

/-! ### Calls -/

section Calls

variable {cfg : Config} {s : Store} {U : PoolType → Addr → Prop} {k v : Bytes} {d : Option ℕ}

lemma linked_emplace {a : Addr} {fl : List Addr} (ho : Owned s (a :: fl))
    (h : Linked cfg s (a :: fl) U) (k : Bytes) (updateTtl : Bool) :
    Linked cfg (s.emplace cfg k a updateTtl) fl fun t b =>
      U t b ∧ (b = a → s.map.lookup k = none) := by
  unfold Store.emplace
  rcases hl : s.map.lookup k with _ | old
  · have h1 : Linked cfg { s with map := s.map.insert k a } fl U := by
      refine h.frame (fun b => ?_) rfl rfl rfl fun _ _ => rfl
      constructor
      · rintro (⟨k', hk'⟩ | hb)
        · by_cases hkk : k' = k
          · subst hkk
            exact .inr (by simp_all)
          · exact .inl ⟨k', by rwa [AList.lookup_insert_ne hkk] at hk'⟩
        · exact .inr (List.mem_cons_of_mem a hb)
      · rintro (⟨k', hk'⟩ | hb)
        · have hkk : k' ≠ k := by rintro rfl; simp [hl] at hk'
          exact .inl ⟨k', by rwa [AList.lookup_insert_ne hkk]⟩
        · rcases List.mem_cons.mp hb with rfl | hb
          · exact .inl ⟨k, by simp⟩
          · exact .inr hb
    exact h1.weaken fun _ _ _ _ hU => ⟨hU, fun _ => rfl⟩
  · -- the new entry is given back and is in use no more
    have ho' := owned_updateFrom ho hl (s.heap a) updateTtl
    have h1 := h.modify (a := old) (fun e => e.updateFrom (s.heap a) updateTtl) fun e => by
      unfold Entry.updateFrom; split <;> rfl
    have hp := touch_promote (a := old) (ho'.mapOnly k old hl).2.1
    have h2 := linked_release (hp.owned ho') (linked_promote h1 (.inl ⟨k, hl⟩))
    refine h2.weaken fun b hb _ _ hU => ⟨hU, ?_⟩
    rintro rfl
    rcases hb with ⟨k', hk'⟩ | hb
    · rw [release_map, hp.map] at hk'
      exact absurd List.mem_cons_self (ho.mapOnly k' b hk').2.2
    · exact absurd hb (List.nodup_cons.mp ho.flNodup).1

lemma reaper_sublist (cfg : Config) (s : Store) :
    (s.runSequentialReaper cfg).1.sieveList.Sublist s.sieveList ∧
      (s.runSequentialReaper cfg).1.probationList.Sublist s.probationList := by
  rw [Store.runSequentialReaper_eq]
  obtain ⟨h1, h2⟩ := evictKeys_sublist cfg (s.reaped cfg)
    ((s.probationList.take cfg.reach).map fun a => (s.heap a).key)
  rw [Store.reaped_sieveList] at h1
  rw [Store.reaped_probationList] at h2
  exact ⟨h1, h2.trans (List.drop_sublist _ _)⟩

lemma runSequentialReaper_lookup {fl : List Addr} (ho : Owned s fl) (h : Linked cfg s fl U)
    (hfl : ∀ b ∈ s.probationList, b ∉ fl) (k : Bytes) :
    (s.runSequentialReaper cfg).1.map.lookup k =
      (s.map.lookup k).filter fun a => a ∉ s.probationList.take cfg.reach := by
  have ht := touch_reaped cfg s
  have hkeys : (s.probationList.take cfg.reach).map (fun a => (s.heap a).key) =
      (s.probationList.take cfg.reach).map fun a => ((s.reaped cfg).heap a).key :=
    List.map_congr_left fun b _ => (ht.data b).2.1.symm
  rw [Store.runSequentialReaper_eq]
  dsimp only
  rw [hkeys, batch_lookup (ht.owned ho), ht.map]
  intro v hv
  rw [ht.map]
  have hv' := List.mem_of_mem_take hv
  exact (h.prob v hv').2.resolve_right (hfl v hv')

/-- The entries the reaper removes while a call acquires its own. -/
def reaping (cfg : Config) (s : Store) : List Addr :=
  if cfg.probPoolMaxSize ≠ 0 ∧ (s.pool = [] ∨ cfg.probThreshold ≤ s.probCount) then
    s.probationList.take cfg.reach
  else []

lemma takeFront_map {t : Store} {o : Option Addr} (ht : s.takeFront = (t, o)) : t.map = s.map := by
  unfold Store.takeFront at ht
  split at ht <;> (obtain ⟨rfl, -⟩ := Prod.mk.inj ht; rfl)

lemma doAcquire_map {t : Store} {o : Except LengthError (Option Addr)}
    (ht : s.doAcquire cfg = (t, o)) : t.map = s.map := by
  have hinsert (s : Store) (a : Addr) : (s.onInsert a).map = s.map := by
    unfold Store.onInsert; split <;> rfl
  have hlink (s : Store) (a : Addr) : (s.linkSanctuary a).map = s.map := hinsert _ a
  unfold Store.doAcquire at ht
  split at ht
  · split at ht <;> obtain ⟨rfl, -⟩ := Prod.mk.inj ht
    · exact hlink _ _
    · rfl
  · obtain ⟨rfl, -⟩ := Prod.mk.inj ht
    exact hlink _ _

lemma acquire_lookup (ho : Owned s []) (h : Linked cfg s [] U) {t : Store} {a : Addr}
    (ht : s.acquire cfg = (t, .ok (some a))) (k : Bytes) :
    t.map.lookup k = (s.map.lookup k).filter fun b => b ∉ reaping cfg s := by
  have hid (x : Option Addr) : x.filter (fun b => b ∉ ([] : List Addr)) = x := by
    cases x <;> simp [Option.filter]
  unfold reaping
  cases Store.acquires_of_acquire ht with
  | sanctuary hc ht => rw [if_neg (by simp [hc]), hid, doAcquire_map ht]
  | made hc hp =>
    rw [if_pos ⟨hc, .inl hp⟩]
    obtain ⟨ho', h1, hfl⟩ := linked_made ho h
    exact runSequentialReaper_lookup ho' h1 hfl k
  | reaped hc hp hq _ ht =>
    rw [if_pos ⟨hc, .inr hq⟩, takeFront_map ht, runSequentialReaper_lookup ho h (by simp)]
  | front hc hp hq ht => rw [if_neg (by simp [hp, hq]), hid, takeFront_map ht]

/-- A write of `k` that has no entry but one it makes itself: the pool is empty, and the key
is absent or among those the reaper is about to remove. -/
def Lost (cfg : Config) (s : Store) (k : Bytes) : Prop :=
  s.pool = [] ∧ ¬ s.AcquireThrows cfg ∧
    ∀ a, s.map.lookup k = some a → a ∈ s.probationList.take cfg.reaperBudget

lemma noteFallback_frame (s : Store) :
    ∃ n, s.noteFallback = { s with poolFallbackAllocs := n } := by
  unfold Store.noteFallback
  split
  · exact ⟨_, rfl⟩
  · exact ⟨s.poolFallbackAllocs, rfl⟩

lemma Linked.noteFallback (h : Linked cfg s [] U) : Linked cfg s.noteFallback [] U := by
  obtain ⟨n, hn⟩ := noteFallback_frame s
  rw [hn]
  exact h.frame (fun _ => Iff.rfl) rfl rfl rfl fun _ _ => rfl

/-- The key a write acquires its entry for is absent after the acquisition. -/
lemma lost_iff (ho : Owned s []) (h : Linked cfg s [] U) (hc : cfg.probPoolMaxSize ≠ 0)
    (hp : s.pool = []) (hthrows : ¬ s.AcquireThrows cfg) {t : Store} {a : Addr}
    (ht : s.noteFallback.acquire cfg = (t, .ok (some a))) :
    t.map.lookup k = none ↔ Lost cfg s k := by
  rw [acquire_lookup ho.noteFallback.1 h.noteFallback ht]
  obtain ⟨n, hn⟩ := noteFallback_frame s
  have hreaper : ¬ s.ReaperThrows cfg := fun hr => hthrows (.inr ⟨hc, .inl hp, hr⟩)
  have hr : reaping cfg s.noteFallback = s.probationList.take cfg.reaperBudget := by
    rw [hn, ← Store.take_reach hreaper]; exact if_pos ⟨hc, .inl hp⟩
  have hm : s.noteFallback.map = s.map := by rw [hn]
  rw [hr, hm, Lost]
  rcases s.map.lookup k with _ | e
  · simp [hp, hthrows]
  · simp [hp, hthrows, Option.filter]

lemma linked_write (ho : Owned s []) (h : Linked cfg s [] U) {t : Store}
    {r : Except LengthError Bool} (hw : s.write cfg k v d = (t, r)) :
    Linked cfg t [] fun ty c =>
      U ty c ∨ (cfg.probPoolMaxSize ≠ 0 ∧ Lost cfg s k ∧ ty = .probation) := by
  obtain ⟨n, hn⟩ := noteFallback_frame s
  have ho' := ho.noteFallback.1
  by_cases hthrows : s.AcquireThrows cfg
  · obtain ⟨t', e, ht, hrefuses, -⟩ := refused_write ho k v d hthrows
    rw [ht] at hw
    obtain ⟨rfl, -⟩ := Prod.mk.inj hw
    exact (linked_refuses ho' h.noteFallback hrefuses).weaken fun _ _ _ _ hU => .inl hU
  obtain ⟨a, t', hacq, hown⟩ := acquired_acquire ho'
    (by rwa [Store.acquireThrows_noteFallback])
  rw [Store.write, hacq] at hw
  obtain ⟨rfl, -⟩ := Prod.mk.inj hw
  have h1 := linked_acquire ho' h.noteFallback hacq
  set f : Entry → Entry := fun e => { e with key := k, value := v, expiresAt := d.getD e.expiresAt }
  have h2 := linked_emplace (hown.owned.modify (List.mem_singleton_self a) f)
    (h1.modify f fun _ => rfl) k d.isSome
  refine h2.weaken fun b _ _ _ hU => hU.1.imp id ?_
  rintro ⟨hc, hp, rfl, hty⟩
  have hp' : s.pool = [] := by rwa [hn] at hp
  exact ⟨hc, (lost_iff ho h hc hp' hthrows hacq).mp (hU.2 rfl), hty⟩

/-- The entry of a lost write is in the map and in no list. -/
lemma lost_write (ho : Owned s []) (h : Linked cfg s [] U) (hc : cfg.probPoolMaxSize ≠ 0)
    (hl : Lost cfg s k) {t : Store} {r : Except LengthError Bool}
    (hw : s.write cfg k v d = (t, r)) :
    ∃ a, t.map.lookup k = some a ∧ a ∉ t.sieveList ∧ a ∉ t.probationList := by
  obtain ⟨n, hn⟩ := noteFallback_frame s
  have ho' := ho.noteFallback.1
  have hp : s.noteFallback.pool = [] := by rw [hn]; exact hl.1
  obtain ⟨a, t', hacq, -⟩ := acquired_acquire ho' (Store.acquireThrows_noteFallback.not.mpr hl.2.1)
  have hnone := (lost_iff ho h hc hl.1 hl.2.1 hacq).mpr hl
  set u := s.noteFallback
  obtain ⟨rfl, rfl⟩ : t' = (Store.runSequentialReaper cfg (u.alloc.countProbation u.next)).1 ∧
      a = u.next := by
    cases Store.acquires_of_acquire hacq with
    | sanctuary hc' => exact absurd hc' hc
    | made => exact ⟨rfl, rfl⟩
    | reaped _ hp' => exact absurd hp hp'
    | front _ hp' => exact absurd hp hp'
  obtain ⟨-, h2, h3⟩ := linked_countProbation (a := u.next) (linked_alloc ho' h.noteFallback)
    (not_held_next ho')
  rw [Store.write, hacq] at hw
  obtain ⟨rfl, -⟩ := Prod.mk.inj hw
  simp only [Store.emplace, Store.modify_map, hnone]
  obtain ⟨h4, h5⟩ := reaper_sublist cfg (u.alloc.countProbation u.next)
  exact ⟨u.next, by simp, fun hm => h2 (h4.subset hm), fun hm => h3 (h5.subset hm)⟩

lemma linked_put (ho : Owned s []) (h : Linked cfg s [] U) (later : ℕ) :
    Linked cfg (s.put cfg k v d later).1 [] fun ty c =>
      U ty c ∨ (cfg.probPoolMaxSize ≠ 0 ∧ Lost cfg s k ∧ ty = .probation) := by
  by_cases hthrows : s.AcquireThrows cfg
  · obtain ⟨t, e, ht, -⟩ := refused_write ho k v d hthrows
    rw [Store.put_throws ht]
    exact linked_write ho h ht
  · obtain ⟨t, ht, hw⟩ := written_write ho k v d hthrows
    rw [Store.put_fst ht]
    exact linked_checkMemoryAndEvict hw.owned (linked_write ho h ht) later

lemma lost_put (ho : Owned s []) (h : Linked cfg s [] U) (hc : cfg.probPoolMaxSize ≠ 0)
    (hl : Lost cfg s k) (later : ℕ) :
    ∃ a, (s.put cfg k v d later).1.map.lookup k = some a ∧
      a ∉ (s.put cfg k v d later).1.sieveList ∧ a ∉ (s.put cfg k v d later).1.probationList := by
  obtain ⟨t, ht, hw⟩ := written_write ho k v d hl.2.1
  have h1 := linked_write ho h ht
  obtain ⟨a, h2, h3, h4⟩ := lost_write ho h hc hl ht
  rw [Store.put_fst ht]
  obtain ⟨t', h5, -, h6, h7, -, h8⟩ := checkMemoryAndEvict_eq hw.owned h1 later
  refine ⟨a, ?_, ?_⟩
  · -- a victim of the pass comes from the sanctuary list
    have ha : a ∉ victims cfg t later := fun hm => h3 (h8 a hm)
    rw [checkMemoryAndEvict_lookup hw.owned h1, h2]
    simp [Option.filter, ha]
  · rw [h5]
    obtain ⟨h9, h10⟩ := evictKeys_sublist cfg t'
      ((victims cfg t later).map fun a => (t'.heap a).key)
    exact ⟨fun hm => h3 ((h9.trans h6).subset hm), fun hm => h4 (h7 ▸ h10.subset hm)⟩

lemma linked_get {fl : List Addr} (ho : Owned s fl) (h : Linked cfg s fl U) (now : ℕ) :
    Linked cfg (s.get cfg k now).1 fl U := by
  unfold Store.get
  rcases hl : s.map.lookup k with _ | a
  · exact h
  dsimp only
  split
  · have ht := touch_onErase s a
    have hl' : (s.onErase a).map.lookup k = some a := by rw [ht.map]; exact hl
    have ho' := ht.owned ho
    have h1 := linked_release (owned_erase ho' hl').1 (linked_erase (linked_onErase h a) hl')
    refine h1.weaken fun b hb _ _ hU => hU.resolve_right ?_
    rintro rfl
    rcases hb with ⟨k', hk'⟩ | hb
    · rw [release_map] at hk'
      exact ((owned_erase ho' hl').1.mapOnly k' b hk').2.2 List.mem_cons_self
    · exact (List.nodup_cons.mp (owned_erase ho' hl').1.flNodup).1 hb
  · exact (linked_promote h (.inl ⟨k, hl⟩)).modify (a := a) (fun e => { e with visited := true })
      fun _ => rfl

end Calls

/-! ### Runs -/

lemma linked_step {cfg : Config} {s : Store} {U : PoolType → Addr → Prop} (ho : Owned s [])
    (h : Linked cfg s [] U) (e : Event) :
    Linked cfg (step cfg s e).1 [] fun ty a => U ty a ∨
      (cfg.probPoolMaxSize ≠ 0 ∧ (∃ k v d, e.Writes k v d ∧ Lost cfg s k) ∧ ty = .probation) := by
  rcases e.cases with ⟨k, v, d, he⟩ | ⟨k, he⟩
  · rw [step_write cfg s he]
    refine (linked_put ho h e.later).weaken fun a _ _ _ hU => hU.imp id ?_
    exact fun ⟨h1, h2, h3⟩ => ⟨h1, ⟨k, v, d, he, h2⟩, h3⟩
  · rw [step_get cfg s he]
    exact (linked_get ho h e.now).weaken fun _ _ _ _ hU => .inl hU

/-- What holds of the store between calls: only an entry in probation can be unlinked. -/
structure Sound (cfg : Config) (s : Store) : Prop where
  owned : Owned s []
  linked : Linked cfg s [] fun ty _ => ty = .probation

lemma sound_start (cfg : Config) : Sound cfg (start cfg) := ⟨owned_start cfg, linked_start cfg _⟩

lemma sound_step {cfg : Config} {s : Store} (h : Sound cfg s) (e : Event) :
    Sound cfg (step cfg s e).1 := by
  refine ⟨owned_step cfg h.owned e, (linked_step h.owned h.linked e).weaken ?_⟩
  rintro a - - - (hU | ⟨-, -, hU⟩) <;> exact hU

lemma sound_run {cfg : Config} {s : Store} (h : Sound cfg s) (es : List Event) :
    Sound cfg (run cfg s es) := by
  induction es generalizing s with
  | nil => exact h
  | cons e es ih => exact ih (sound_step h e)

/-- Every live entry is in the list of its pool type and in no other, the lists have no
other entry, and the free entries are in neither. -/
structure Evictable (s : Store) : Prop where
  probation : ∀ k a, s.map.lookup k = some a → (s.heap a).poolType = .probation →
    a ∈ s.probationList ∧ a ∉ s.sieveList
  sanctuary : ∀ k a, s.map.lookup k = some a → (s.heap a).poolType = .sanctuary →
    a ∈ s.sieveList ∧ a ∉ s.probationList
  probationLive : ∀ a ∈ s.probationList, ∃ k, s.map.lookup k = some a
  sieveLive : ∀ a ∈ s.sieveList, ∃ k, s.map.lookup k = some a
  probationNodup : s.probationList.Nodup
  sieveNodup : s.sieveList.Nodup
  poolFree : ∀ a ∈ s.pool, a ∉ s.probationList ∧ a ∉ s.sieveList

lemma evictable_of_linked {cfg : Config} {s : Store} (ho : Owned s [])
    (h : Linked cfg s [] fun _ _ => False) : Evictable s where
  probation k a hk ht := by
    have hs : a ∉ s.sieveList := by
      intro hs
      rw [(h.sieve a hs).1] at ht
      cases ht
    exact ⟨((h.covered a (.inl ⟨k, hk⟩)).resolve_left hs).resolve_right id, hs⟩
  sanctuary k a hk ht := by
    have hp : a ∉ s.probationList := by
      intro hp
      rw [(h.prob a hp).1] at ht
      cases ht
    exact ⟨(h.covered a (.inl ⟨k, hk⟩)).resolve_right (by simp [hp]), hp⟩
  probationLive a ha := (h.prob a ha).2.resolve_right (by simp)
  sieveLive a ha := (h.sieve a ha).2.resolve_right (by simp)
  probationNodup := h.probNodup
  sieveNodup := h.sieveNodup
  poolFree a ha := by
    have hn := not_held_of_pool ho ha
    exact ⟨fun hp => hn (h.prob a hp).2, fun hs => hn (h.sieve a hs).2⟩

lemma Evictable.linked {s : Store} (h : Evictable s) {k : Bytes} {a : Addr}
    (hk : s.map.lookup k = some a) : a ∈ s.sieveList ∨ a ∈ s.probationList := by
  cases ht : (s.heap a).poolType with
  | probation => exact .inr (h.probation k a hk ht).1
  | sanctuary => exact .inl (h.sanctuary k a hk ht).1

lemma linked_of_not_lost {cfg : Config} {es : List Event}
    (h : ∀ es' e, es' ++ [e] <+: es → ∀ k v d, e.Writes k v d →
      ¬ Lost cfg (run cfg (start cfg) es') k) (es' : List Event) (hes : es' <+: es) :
    Linked cfg (run cfg (start cfg) es') [] fun _ _ => False := by
  induction es' using List.reverseRecOn with
  | nil => exact linked_start cfg _
  | append_singleton es' e ih =>
    have h1 := ih ((List.prefix_append es' [e]).trans hes)
    rw [run_append]
    refine (linked_step (sound_run (sound_start cfg) es').owned h1 e).weaken ?_
    rintro a - - - (hU | ⟨-, ⟨k, v, d, he, hl⟩, -⟩)
    · exact hU
    · exact h es' e hes k v d he hl

/-- **Every live entry stays evictable** along a run exactly when no write of the run is
lost: each finds a free entry in the pool, or its key in the map and not among those that
the reaper is about to remove, or throws. -/
theorem evictable_iff_not_lost (cfg : Config) (hc : 1 ≤ cfg.probPoolMaxSize) (es : List Event) :
    (∀ es', es' <+: es → Evictable (run cfg (start cfg) es')) ↔
      ∀ es' e, es' ++ [e] <+: es → ∀ k v d, e.Writes k v d →
        ¬ Lost cfg (run cfg (start cfg) es') k := by
  constructor
  · intro h es' e hes k v d he hl
    have hs := sound_run (sound_start cfg) es'
    obtain ⟨a, h1, h2, h3⟩ := lost_put (v := v) (d := d) hs.owned hs.linked
      (Nat.one_le_iff_ne_zero.mp hc) hl e.later
    have h4 := h _ hes
    rw [run_append, run_cons, run_nil, step_write cfg _ he] at h4
    rcases h4.linked h1 with h5 | h5
    · exact h2 h5
    · exact h3 h5
  · intro h es' hes
    exact evictable_of_linked (sound_run (sound_start cfg) es').owned (linked_of_not_lost h es' hes)

def twoInserts : List Event := [⟨.set [1] [1], 0, 0⟩, ⟨.set [2] [2], 0, 0⟩]

theorem evictable_onePlace : 1 ≤ onePlace.probPoolMaxSize ∧
    ((∀ es', es' <+: twoInserts → Evictable (run onePlace (start onePlace) es')) ↔
      ∀ es' e, es' ++ [e] <+: twoInserts → ∀ k v d, e.Writes k v d →
        ¬ Lost onePlace (run onePlace (start onePlace) es') k) :=
  ⟨by decide, evictable_iff_not_lost onePlace (by decide) twoInserts⟩

/-- The second insert takes a place outside the pool and is in no list. -/
theorem not_evictable_twoInserts : ¬ Evictable (run onePlace (start onePlace) twoInserts) := by
  intro h
  have h1 : (run onePlace (start onePlace) twoInserts).map.lookup [2] = some 1 := by decide
  have h2 : ((run onePlace (start onePlace) twoInserts).heap 1).poolType = .probation := by decide
  have h3 := (h.probation [2] 1 h1 h2).1
  exact absurd h3 (by decide)

end ShunyaKV.Shard
