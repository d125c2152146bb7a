import ShunyaKV.Lib.TtlMap
import ShunyaKV.Shard.Ops

/-!
Who owns which entry.

Every entry in use is owned by the map or by the call that has acquired it, every free one
by the pool, and none twice. The key stored in an entry is the one the map files it under,
and the entries of the pool are as new: so an eviction, which goes by the stored key, finds
the entry it chose, and a write to an acquired entry reaches nothing else.
-/

namespace ShunyaKV.Shard

open ShunyaKV.Lib.Ttl

/-- The map as the client sees it. -/
def abs (s : Store) : TtlMap Bytes Bytes := fun k =>
  (s.map.lookup k).map fun a => ((s.heap a).value, (s.heap a).expiresAt)

lemma mem_map_iff (s : Store) (k : Bytes) : k ∈ s.map ↔ abs s k ≠ none := by
  unfold abs
  rw [Ne, Option.map_eq_none_iff, AList.lookup_eq_none, not_not]

/-- Ownership, with `fl` the entries in the hands of a call. -/
structure Owned (s : Store) (fl : List Addr) : Prop where
  keyed : ∀ k a, s.map.lookup k = some a → (s.heap a).key = k
  mapOnly : ∀ k a, s.map.lookup k = some a → a < s.next ∧ a ∉ s.pool ∧ a ∉ fl
  poolNodup : s.pool.Nodup
  poolNew : ∀ a ∈ s.pool, a < s.next ∧ s.heap a = {}
  flOnly : ∀ a ∈ fl, a < s.next ∧ a ∉ s.pool
  flNodup : fl.Nodup

lemma Owned.inj {s : Store} {fl : List Addr} (h : Owned s fl) {k k' : Bytes} {a : Addr}
    (hk : s.map.lookup k = some a) (hk' : s.map.lookup k' = some a) : k = k' := by
  rw [← h.keyed k a hk, h.keyed k' a hk']

/-- A call that drops an entry of its own destroys it. -/
lemma Owned.tail {s : Store} {fl : List Addr} {a : Addr} (h : Owned s (a :: fl)) : Owned s fl where
  keyed := h.keyed
  mapOnly k b hk := by
    obtain ⟨h1, h2, h3⟩ := h.mapOnly k b hk
    exact ⟨h1, h2, fun hb => h3 (List.mem_cons_of_mem a hb)⟩
  poolNodup := h.poolNodup
  poolNew := h.poolNew
  flOnly b hb := h.flOnly b (List.mem_cons_of_mem a hb)
  flNodup := (List.nodup_cons.mp h.flNodup).2

lemma owned_start (cfg : Config) : Owned (start cfg) [] where
  keyed := by simp [start]
  mapOnly := by simp [start]
  poolNodup := List.nodup_range
  poolNew := by simp [start]
  flOnly := by simp
  flNodup := List.nodup_nil

/-! ### Steps that touch no data -/

/-- `s'` differs from `s` in list links, counters, visited bits and pool types of entries in
use. -/
structure Touch (s s' : Store) : Prop where
  map : s'.map = s.map
  pool : s'.pool = s.pool
  next : s'.next = s.next
  evictions : s'.evictionCount = s.evictionCount
  poolHeap : ∀ a ∈ s.pool, s'.heap a = s.heap a
  data : ∀ a, (s'.heap a).value = (s.heap a).value ∧ (s'.heap a).key = (s.heap a).key ∧
    (s'.heap a).expiresAt = (s.heap a).expiresAt

lemma Touch.refl (s : Store) : Touch s s :=
  ⟨rfl, rfl, rfl, rfl, fun _ _ => rfl, fun _ => ⟨rfl, rfl, rfl⟩⟩

lemma Touch.trans {s s' s'' : Store} (h : Touch s s') (h' : Touch s' s'') : Touch s s'' where
  map := h'.map.trans h.map
  pool := h'.pool.trans h.pool
  next := h'.next.trans h.next
  evictions := h'.evictions.trans h.evictions
  poolHeap a ha := (h'.poolHeap a (by rw [h.pool]; exact ha)).trans (h.poolHeap a ha)
  data a := by
    obtain ⟨h1, h2, h3⟩ := h.data a
    obtain ⟨h1', h2', h3'⟩ := h'.data a
    exact ⟨h1'.trans h1, h2'.trans h2, h3'.trans h3⟩

lemma Touch.owned {s s' : Store} {fl : List Addr} (h : Touch s s') (ho : Owned s fl) :
    Owned s' fl where
  keyed k a hk := by
    rw [h.map] at hk
    rw [(h.data a).2.1, ho.keyed k a hk]
  mapOnly k a hk := by
    rw [h.map] at hk
    rw [h.next, h.pool]
    exact ho.mapOnly k a hk
  poolNodup := by rw [h.pool]; exact ho.poolNodup
  poolNew a ha := by
    rw [h.pool] at ha
    rw [h.next, h.poolHeap a ha]
    exact ho.poolNew a ha
  flOnly a ha := by
    rw [h.next, h.pool]
    exact ho.flOnly a ha
  flNodup := ho.flNodup

lemma Touch.abs_eq {s s' : Store} (h : Touch s s') : abs s' = abs s := by
  funext k
  unfold abs
  rw [h.map]
  rcases s.map.lookup k with _ | a
  · rfl
  · simp [(h.data a).1, (h.data a).2.2]

lemma touch_modify {s : Store} {a : Addr} {f : Entry → Entry} (ha : a ∉ s.pool)
    (hf : ∀ e, (f e).value = e.value ∧ (f e).key = e.key ∧ (f e).expiresAt = e.expiresAt) :
    Touch s (s.modify a f) where
  map := rfl
  pool := rfl
  next := rfl
  evictions := rfl
  poolHeap b hb := s.modify_heap_other a f (by rintro rfl; exact ha hb)
  data b := by
    rw [s.modify_heap]
    split
    · next h => subst h; exact hf _
    · exact ⟨rfl, rfl, rfl⟩

lemma touch_onInsert {s : Store} {a : Addr} (ha : a ∉ s.pool) : Touch s (s.onInsert a) := by
  unfold Store.onInsert
  split
  · exact Touch.refl s
  · have h : Touch s (s.modify a fun e => { e with visited := true, poolType := .sanctuary }) :=
      touch_modify ha fun _ => ⟨rfl, rfl, rfl⟩
    exact ⟨h.map, h.pool, h.next, h.evictions, h.poolHeap, h.data⟩

lemma touch_onErase (s : Store) (a : Addr) : Touch s (s.onErase a) := by
  unfold Store.onErase
  split
  · exact ⟨rfl, rfl, rfl, rfl, fun _ _ => rfl, fun _ => ⟨rfl, rfl, rfl⟩⟩
  · exact Touch.refl s

lemma touch_removeFromProbation (s : Store) (a : Addr) : Touch s (s.removeFromProbation a) := by
  unfold Store.removeFromProbation
  split
  · exact ⟨rfl, rfl, rfl, rfl, fun _ _ => rfl, fun _ => ⟨rfl, rfl, rfl⟩⟩
  · exact Touch.refl s

lemma touch_dropSanctuary (s : Store) : Touch s s.dropSanctuary :=
  ⟨rfl, rfl, rfl, rfl, fun _ _ => rfl, fun _ => ⟨rfl, rfl, rfl⟩⟩

lemma touch_promote {s : Store} {a : Addr} (ha : a ∉ s.pool) :
    Touch s (s.promoteToSanctuary a) := by
  unfold Store.promoteToSanctuary
  split
  · exact Touch.refl s
  · have h1 := touch_removeFromProbation s a
    have h2 := h1.trans (touch_onInsert (by rw [h1.pool]; exact ha))
    exact ⟨h2.map, h2.pool, h2.next, h2.evictions, h2.poolHeap, h2.data⟩

lemma touch_evictTurn {s : Store} {fl : List Addr} (ho : Owned s fl) (now : ℕ) (a : Addr) :
    Touch s (s.evictTurn now a).1 := by
  unfold Store.evictTurn
  split
  · exact ⟨rfl, rfl, rfl, rfl, fun _ _ => rfl, fun _ => ⟨rfl, rfl, rfl⟩⟩
  · refine ⟨rfl, rfl, rfl, rfl, fun b hb => ?_, fun b => ?_⟩
    · -- an entry of the pool is not visited as it is
      have hnew := (ho.poolNew b hb).2
      simp only [s.modify_heap]
      split
      · next h => subst h; rw [hnew]
      · rfl
    · simp only [s.modify_heap]
      split
      · next h => subst h; exact ⟨rfl, rfl, rfl⟩
      · exact ⟨rfl, rfl, rfl⟩

lemma touch_evictLoop {s : Store} {fl : List Addr} (ho : Owned s fl) (budget now fuel count : ℕ) :
    Touch s (s.evictLoop budget now fuel count).1 := by
  induction fuel generalizing s count with
  | zero => exact Touch.refl s
  | succ fuel ih =>
    unfold Store.evictLoop
    split
    · rcases s.hand with _ | a
      · exact Touch.refl s
      · have h := touch_evictTurn ho now a
        rcases ht : s.evictTurn now a with ⟨t, _ | key⟩ <;> rw [ht] at h <;> simp only [ht]
        · exact h.trans (ih (h.owned ho) count)
        · split
          · exact h
          · exact h.trans (ih (h.owned ho) (count + 1))
    · exact Touch.refl s

lemma touch_sweep {s : Store} {fl : List Addr} (ho : Owned s fl) (budget now : ℕ) :
    Touch s (s.sweep budget now).1 := by
  unfold Store.sweep
  split
  · exact Touch.refl s
  · have h0 : Touch s { s with hand := if s.hand = none then s.sieveList.head? else s.hand } :=
      ⟨rfl, rfl, rfl, rfl, fun _ _ => rfl, fun _ => ⟨rfl, rfl, rfl⟩⟩
    have h := h0.trans (touch_evictLoop (h0.owned ho) budget now s.sieveList.length 0)
    exact ⟨h.map, h.pool, h.next, h.evictions, h.poolHeap, h.data⟩

lemma touch_reaped (cfg : Config) (s : Store) : Touch s (s.reaped cfg) := by
  unfold Store.reaped
  split
  · exact Touch.refl s
  · exact ⟨rfl, rfl, rfl, rfl, fun _ _ => rfl, fun _ => ⟨rfl, rfl, rfl⟩⟩

/-! ### Giving an entry back -/

lemma clear_eq (e : Entry) : Store.clear e = {} := rfl

/-- The map does not see an entry that a call holds. -/
lemma abs_modify {s : Store} {fl : List Addr} (ho : Owned s fl) {a : Addr} (ha : a ∈ fl)
    (f : Entry → Entry) : abs (s.modify a f) = abs s := by
  funext k
  unfold abs
  rw [s.modify_map]
  rcases hk : s.map.lookup k with _ | b
  · rfl
  · have hb : b ≠ a := by rintro rfl; exact (ho.mapOnly k b hk).2.2 ha
    simp [s.modify_heap_other a f hb]

lemma Owned.modify {s : Store} {fl : List Addr} (ho : Owned s fl) {a : Addr} (ha : a ∈ fl)
    (f : Entry → Entry) : Owned (s.modify a f) fl where
  keyed k b hk := by
    have hb : b ≠ a := by rintro rfl; exact (ho.mapOnly k b hk).2.2 ha
    rw [s.modify_heap_other a f hb]
    exact ho.keyed k b hk
  mapOnly := ho.mapOnly
  poolNodup := ho.poolNodup
  poolNew b hb := by
    have hba : b ≠ a := by rintro rfl; exact (ho.flOnly b ha).2 hb
    rw [s.modify_heap_other a f hba]
    exact ho.poolNew b hb
  flOnly := ho.flOnly
  flNodup := ho.flNodup

lemma owned_putBack {s : Store} {fl : List Addr} {a : Addr} (cfg : Config)
    (ho : Owned s (a :: fl)) (ha : s.heap a = {}) :
    Owned (s.putBack cfg a) fl ∧ abs (s.putBack cfg a) = abs s ∧
      (s.putBack cfg a).evictionCount = s.evictionCount := by
  obtain ⟨hlt, hpool⟩ := ho.flOnly a (by simp)
  obtain ⟨hafl, hfl⟩ := List.nodup_cons.mp ho.flNodup
  unfold Store.putBack
  split
  · refine ⟨⟨ho.keyed, ?_, ?_, ?_, ?_, hfl⟩, rfl, rfl⟩
    · intro k b hk
      obtain ⟨h1, h2, h3⟩ := ho.mapOnly k b hk
      simp only [List.mem_cons, not_or] at h3
      exact ⟨h1, by simp [h2, h3.1], h3.2⟩
    · exact List.nodup_append.mpr ⟨ho.poolNodup, by simp, by
        intro x hx y hy
        simp only [List.mem_singleton] at hy
        subst hy
        rintro rfl
        exact hpool hx⟩
    · intro b hb
      rcases List.mem_append.mp hb with hb | hb
      · exact ho.poolNew b hb
      · obtain rfl := List.mem_singleton.mp hb
        exact ⟨hlt, ha⟩
    · intro b hb
      obtain ⟨h1, h2⟩ := ho.flOnly b (by simp [hb])
      have hba : b ≠ a := by rintro rfl; exact hafl hb
      exact ⟨h1, by simp [h2, hba]⟩
  · refine ⟨⟨ho.keyed, ?_, ho.poolNodup, ho.poolNew, ?_, hfl⟩, rfl, rfl⟩
    · intro k b hk
      obtain ⟨h1, h2, h3⟩ := ho.mapOnly k b hk
      simp only [List.mem_cons, not_or] at h3
      exact ⟨h1, h2, h3.2⟩
    · intro b hb
      exact ho.flOnly b (by simp [hb])

/-- **Release** passes an entry from the call to the pool, and the map does not notice. -/
lemma owned_release {s : Store} {fl : List Addr} {a : Addr} (cfg : Config)
    (ho : Owned s (a :: fl)) :
    Owned (s.release cfg a) fl ∧ abs (s.release cfg a) = abs s ∧
      (s.release cfg a).evictionCount = s.evictionCount := by
  have hmem : a ∈ a :: fl := by simp
  unfold Store.release
  split
  · have h1 := ho.modify hmem Store.clear
    have h2 := (touch_onErase (s.modify a Store.clear) a).trans (touch_dropSanctuary _)
    have hnew : ((s.modify a Store.clear).onErase a).dropSanctuary.heap a = {} := by
      unfold Store.onErase Store.dropSanctuary
      split <;> simp [clear_eq]
    obtain ⟨h3, h4, h5⟩ := owned_putBack cfg (h2.owned h1) hnew
    exact ⟨h3, by rw [Store.doRelease, h4, h2.abs_eq, abs_modify ho hmem],
      by rw [Store.doRelease, h5, h2.evictions]; rfl⟩
  · set t := if (s.heap a).poolType = .probation then s.removeFromProbation a
      else (s.onErase a).dropSanctuary with ht
    have h1 : Touch s t := by
      rw [ht]
      split
      · exact touch_removeFromProbation s a
      · exact (touch_onErase s a).trans (touch_dropSanctuary _)
    have h2 := h1.owned ho
    obtain ⟨h3, h4, h5⟩ := owned_putBack cfg (h2.modify hmem Store.clear) (by simp [clear_eq])
    exact ⟨h3, by rw [Store.doProbRelease, h4, abs_modify h2 hmem, h1.abs_eq],
      by rw [Store.doProbRelease, h5, ← h1.evictions]; rfl⟩

lemma owned_erase {s : Store} {fl : List Addr} {k : Bytes} {a : Addr} (ho : Owned s fl)
    (hk : s.map.lookup k = some a) :
    Owned { s with map := s.map.erase k } (a :: fl) ∧
      abs { s with map := s.map.erase k } = without (abs s) [k] := by
  obtain ⟨hlt, hpool, hfl⟩ := ho.mapOnly k a hk
  have hne {k' : Bytes} {b : Addr} (h : (s.map.erase k).lookup k' = some b) :
      k' ≠ k ∧ s.map.lookup k' = some b := by
    by_cases hk' : k' = k
    · subst hk'; simp at h
    · exact ⟨hk', by rwa [AList.lookup_erase_ne hk'] at h⟩
  refine ⟨⟨fun k' b h => ho.keyed k' b (hne h).2, ?_, ho.poolNodup, ho.poolNew, ?_, ?_⟩, ?_⟩
  · intro k' b h
    obtain ⟨hk', hb⟩ := hne h
    obtain ⟨h1, h2, h3⟩ := ho.mapOnly k' b hb
    refine ⟨h1, h2, ?_⟩
    rw [List.mem_cons, not_or]
    exact ⟨by rintro rfl; exact hk' (ho.inj hb hk), h3⟩
  · intro b hb
    rcases List.mem_cons.mp hb with rfl | hb
    · exact ⟨hlt, hpool⟩
    · exact ho.flOnly b hb
  · exact List.nodup_cons.mpr ⟨hfl, ho.flNodup⟩
  · funext k'
    by_cases hk' : k' = k
    · subst hk'; simp [abs, without]
    · simp [abs, without, hk', AList.lookup_erase_ne hk']

/-- A step that removes the keys of `R`, all of them counted, and nothing else. -/
def Evicts (s s' : Store) (R : List Bytes) : Prop :=
  abs s' = without (abs s) R ∧ s'.evictionCount = s.evictionCount + R.length

lemma Evicts.trans {s s' s'' : Store} {R S : List Bytes} (h : Evicts s s' R)
    (h' : Evicts s' s'' S) :
    Evicts s s'' (R ++ S) := by
  obtain ⟨h1, h2⟩ := h
  obtain ⟨h1', h2'⟩ := h'
  exact ⟨by rw [h1', h1, without_append], by rw [h2', h2, List.length_append]; omega⟩

lemma Touch.evicts {s s' : Store} (h : Touch s s') : Evicts s s' [] :=
  ⟨by rw [h.abs_eq, without_nil], by simp [h.evictions]⟩

lemma owned_evictKey {s : Store} {fl : List Addr} (cfg : Config) (ho : Owned s fl) (key : Bytes) :
    Owned (s.evictKey cfg key) fl ∧ ∃ R, Evicts s (s.evictKey cfg key) R := by
  unfold Store.evictKey
  rcases hk : s.map.lookup key with _ | a
  · exact ⟨ho, [], (Touch.refl s).evicts⟩
  · obtain ⟨h1, h2⟩ := owned_erase ho hk
    obtain ⟨h3, h4, h5⟩ := owned_release cfg h1
    refine ⟨⟨h3.keyed, h3.mapOnly, h3.poolNodup, h3.poolNew, h3.flOnly, h3.flNodup⟩, [key], ?_, ?_⟩
    · exact h4.trans h2
    · simp [Store.recordEviction, h5]

lemma owned_evictKeys {s : Store} {fl : List Addr} (cfg : Config) (ho : Owned s fl)
    (keys : List Bytes) :
    Owned (s.evictKeys cfg keys) fl ∧ ∃ R, Evicts s (s.evictKeys cfg keys) R := by
  induction keys generalizing s with
  | nil => exact ⟨ho, [], (Touch.refl s).evicts⟩
  | cons key keys ih =>
    obtain ⟨h1, R, h2⟩ := owned_evictKey cfg ho key
    obtain ⟨h3, S, h4⟩ := ih h1
    exact ⟨h3, R ++ S, h2.trans h4⟩

end ShunyaKV.Shard
