import Mathlib.Data.Finset.Card
import ShunyaKV.Shard.OwnWrite

/-!
Which writes throw.

A write throws if it gets no entry, or if the pass after it throws; by then it has changed the
map. Whether a pass is due depends on the slots in use after the write, and these can be told
from the state before it.
-/

namespace ShunyaKV.Shard

/-- The free slots after `n` entries are given back. -/
def refilled (cfg : Config) (free n : ℕ) : ℕ := max free (min cfg.maxSize (free + n))

lemma refilled_add (cfg : Config) (free n m : ℕ) :
    refilled cfg (refilled cfg free n) m = refilled cfg free (n + m) := by
  unfold refilled
  omega

namespace Store

/-- How many of the keys are in the map, each counted once. -/
def present (s : Store) (keys : List Bytes) : ℕ := (keys.toFinset.filter (· ∈ s.map)).card

/-- The keys that the reaper removes before a write has its entry. One made for an empty pool is
made before. -/
def reapedKeys (cfg : Config) (s : Store) : List Bytes :=
  if cfg.probPoolMaxSize ≠ 0 ∧ (s.pool = [] ∨ cfg.probThreshold ≤ s.probCount) then
    (s.probationList.take cfg.reach).map fun a =>
      (if s.pool = [] then s.alloc.heap a else s.heap a).key
  else []

def freeWith (cfg : Config) (s : Store) : ℕ :=
  let free := refilled cfg s.pool.length (s.present (s.reapedKeys cfg))
  if s.pool = [] then free else free - 1

/-- The free slots after a write of `k`, which gives its entry back if `k` has one. -/
def freeLeft (cfg : Config) (s : Store) (k : Bytes) : ℕ :=
  if k ∈ s.map ∧ ¬ (s.reapedKeys cfg).contains k then refilled cfg (s.freeWith cfg) 1
  else s.freeWith cfg

/-- The pass is due after the write of `k`, and has no room for its victims. -/
def PassThrows (cfg : Config) (s : Store) (k : Bytes) : Prop :=
  cfg.maxSize ≠ 0 ∧ vectorMaxSize < cfg.softBudget ∧
    cfg.softTriggered ((cfg.maxSize + 2 ^ 64 - s.freeLeft cfg k) % 2 ^ 64) = true

def PutThrows (cfg : Config) (s : Store) (k : Bytes) : Prop :=
  s.AcquireThrows cfg ∨ s.PassThrows cfg k

instance (cfg : Config) (s : Store) (k : Bytes) : Decidable (s.PutThrows cfg k) :=
  inferInstanceAs (Decidable (_ ∨ _ ∧ _ ∧ _))

end Store

section FreeSlots

variable {cfg : Config} {s t : Store} {a : Addr} {k v : Bytes} {d : Option ℕ}

lemma release_pool_refilled (cfg : Config) (s : Store) (a : Addr) :
    (s.release cfg a).pool.length = refilled cfg s.pool.length 1 := by
  rw [release_pool_length, refilled]
  split <;> omega

lemma present_congr (h : ∀ x, x ∈ t.map ↔ x ∈ s.map) (keys : List Bytes) :
    t.present keys = s.present keys := by
  simp only [Store.present, h]

lemma present_cons (s : Store) (key : Bytes) (keys : List Bytes) :
    s.present (key :: keys) = (if key ∈ s.map then 1 else 0) +
      Store.present { s with map := s.map.erase key } keys := by
  have herase : (keys.toFinset.filter (· ∈ s.map.erase key)) =
      (keys.toFinset.filter (· ∈ s.map)).erase key := by
    ext x
    simp only [Finset.mem_filter, Finset.mem_erase, AList.mem_erase]
    tauto
  unfold Store.present
  rw [List.toFinset_cons, Finset.filter_insert, herase]
  split
  · rw [← Finset.card_erase_add_one (Finset.mem_insert_self key _),
      Finset.erase_insert_eq_erase, Nat.add_comm]
  · next hkey => rw [Finset.erase_eq_of_notMem (by simp [hkey]), Nat.zero_add]

lemma evictKeys_pool_length (cfg : Config) (s : Store) (keys : List Bytes) :
    (s.evictKeys cfg keys).pool.length = refilled cfg s.pool.length (s.present keys) := by
  induction keys generalizing s with
  | nil => simp [Store.evictKeys, Store.present, refilled]
  | cons key keys ih =>
    rw [present_cons]
    show ((s.evictKey cfg key).evictKeys cfg keys).pool.length = _
    rw [ih]
    unfold Store.evictKey
    rcases hk : s.map.lookup key with _ | a
    · have hkey : key ∉ s.map := AList.lookup_eq_none.mp hk
      rw [if_neg hkey, Nat.zero_add, present_congr (s := { s with map := s.map.erase key })]
      intro x
      rw [AList.mem_erase, iff_and_self]
      rintro hx rfl
      exact hkey hx
    · have hkey : key ∈ s.map := AList.lookup_isSome.mp (by simp [hk])
      have hmap : (Store.release cfg { s with map := s.map.erase key } a).map = s.map.erase key :=
        release_map cfg _ a
      have hpool := release_pool_refilled cfg { s with map := s.map.erase key } a
      rw [if_pos hkey, ← refilled_add, ← hpool, present_congr
        (s := { s with map := s.map.erase key }) (by simp [Store.recordEviction, hmap])]
      rfl

lemma reaper_pool_length (cfg : Config) (s : Store) :
    (s.runSequentialReaper cfg).1.pool.length = refilled cfg s.pool.length
      (s.present ((s.probationList.take cfg.reach).map fun a => (s.heap a).key)) := by
  have ht := touch_reaped cfg s
  rw [Store.runSequentialReaper_eq, evictKeys_pool_length, ht.pool,
    present_congr (s := s) (by simp [ht.map])]

lemma mem_reaper (cfg : Config) (s : Store) (k : Bytes) :
    k ∈ (s.runSequentialReaper cfg).1.map ↔
      k ∈ s.map ∧ k ∉ (s.probationList.take cfg.reach).map fun a => (s.heap a).key := by
  rw [← AList.lookup_isSome, Store.runSequentialReaper_eq, evictKeys_lookup,
    (touch_reaped cfg s).map, ← AList.lookup_isSome]
  split <;> simp_all

/-- **An acquisition**: the slots it leaves free, and the keys. -/
lemma acquires_free (h : Store.Acquires cfg s t a) : t.pool.length = s.freeWith cfg ∧
    ∀ x, x ∈ t.map ↔ x ∈ s.map ∧ x ∉ s.reapedKeys cfg := by
  -- without the reaper, the front of the pool if there is one
  have hplain (hkeys : s.reapedKeys cfg = []) (hpool : t.pool = s.pool.tail)
      (hmap : t.map = s.map) : t.pool.length = s.freeWith cfg ∧
        ∀ x, x ∈ t.map ↔ x ∈ s.map ∧ x ∉ s.reapedKeys cfg := by
    refine ⟨?_, fun x => by simp [hkeys, hmap]⟩
    have hnone : s.present [] = 0 := rfl
    rw [hpool, Store.freeWith, hkeys, hnone, refilled, List.length_tail]
    split
    · next hp => simp [hp]
    · omega
  cases h with
  | sanctuary hc h =>
    exact hplain (by simp [Store.reapedKeys, hc]) (doAcquire_pool h) (doAcquire_map h)
  | made hc hp hfits hr =>
    have hkey (b : Addr) : ((s.alloc.countProbation s.next).heap b).key = (s.alloc.heap b).key := by
      unfold Store.countProbation
      rw [Store.modify_heap]
      split
      · next hb => rw [hb]
      · rfl
    have hkeys : s.reapedKeys cfg = (s.probationList.take cfg.reach).map
        fun b => ((s.alloc.countProbation s.next).heap b).key := by
      simp [Store.reapedKeys, hc, hp, hkey]
    refine ⟨?_, fun x => ?_⟩
    · rw [reaper_pool_length, Store.freeWith, if_pos hp, hkeys]
      rfl
    · rw [mem_reaper, hkeys]
      rfl
  | reaped hc hp hq hr h =>
    have hkeys : s.reapedKeys cfg =
        (s.probationList.take cfg.reach).map fun a => (s.heap a).key := by
      simp [Store.reapedKeys, hc, hp, hq]
    refine ⟨?_, fun x => ?_⟩
    · rw [takeFront_pool h, List.length_tail, reaper_pool_length, Store.freeWith, hkeys]
      exact (if_neg hp).symm
    · rw [takeFront_map h, mem_reaper, hkeys]
  | front hc hp hq h =>
    exact hplain (by simp [Store.reapedKeys, hp, hq]) (takeFront_pool h) (takeFront_map h)

lemma emplace_pool_length (cfg : Config) (s : Store) (k : Bytes) (a : Addr) (updateTtl : Bool) :
    (s.emplace cfg k a updateTtl).pool.length =
      if k ∈ s.map then refilled cfg s.pool.length 1 else s.pool.length := by
  unfold Store.emplace
  rcases hk : s.map.lookup k with _ | old
  · exact (if_neg (AList.lookup_eq_none.mp hk)).symm
  · have hmem : k ∈ s.map := AList.lookup_isSome.mp (by simp [hk])
    rw [if_pos hmem, release_pool_refilled, promote_pool]
    rfl

/-- **A write that has its entry**: the slots it leaves free. -/
lemma write_free (h : ¬ s.AcquireThrows cfg) :
    ∃ t, s.write cfg k v d = (t, .ok true) ∧ t.pool.length = s.freeLeft cfg k := by
  obtain ⟨n, hn⟩ := noteFallback_frame s
  rcases hacq : s.noteFallback.acquire cfg with ⟨u, o⟩
  rcases acquires hacq with ⟨a, rfl, hacquires⟩ | ⟨e, -, hrefuses⟩
  · obtain ⟨hpool, hmem⟩ := acquires_free hacquires
    refine ⟨_, by rw [Store.write, hacq]; rfl, ?_⟩
    have hfree : s.noteFallback.freeWith cfg = s.freeWith cfg := by rw [hn]; rfl
    have hkeys : s.noteFallback.reapedKeys cfg = s.reapedKeys cfg := by rw [hn]; rfl
    have hmap : s.noteFallback.map = s.map := by rw [hn]
    have hleft : k ∈ u.map ↔
        k ∈ s.noteFallback.map ∧ ¬ (s.noteFallback.reapedKeys cfg).contains k :=
      (hmem k).trans (and_congr_right' (not_congr List.contains_iff_mem.symm))
    rw [emplace_pool_length, Store.freeLeft, ← hfree, ← hpool, ← hkeys, ← hmap]
    exact if_congr hleft rfl rfl
  · exact absurd (Store.acquireThrows_noteFallback.mp hrefuses.throws) h

/-- **Which writes throw.** The others are stored. -/
lemma put_throws_iff (later : ℕ) :
    s.PutThrows cfg k ↔ ∃ e, (s.put cfg k v d later).2 = .error e := by
  by_cases hthrows : s.AcquireThrows cfg
  · obtain ⟨u, e, hacq⟩ := Store.acquireThrows_iff.mp (Store.acquireThrows_noteFallback.mpr hthrows)
    have hwrite : s.write cfg k v d = (u, .error e) := by
      rw [Store.write, hacq]
      rfl
    exact iff_of_true (.inl hthrows) ⟨e, by rw [Store.put_throws hwrite]⟩
  · obtain ⟨t, hwrite, hfree⟩ := write_free (k := k) (v := v) (d := d) hthrows
    have hpass : s.PutThrows cfg k ↔ cfg.maxSize ≠ 0 ∧ vectorMaxSize < cfg.softBudget ∧
        cfg.softTriggered (t.usedSlots cfg) = true := by
      rw [Store.usedSlots, hfree]
      exact or_iff_right hthrows
    rw [hpass, Store.put_eq hwrite, Store.await, Store.checkMemoryAndEvict, Store.evict]
    split_ifs <;> simp_all

end FreeSlots

end ShunyaKV.Shard
