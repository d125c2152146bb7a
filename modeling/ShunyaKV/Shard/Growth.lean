import ShunyaKV.Shard.OwnWrite

/-!
The number of live entries has no bound.

A pass clears visited bits and takes the unvisited. A client that reads every key it has
written before it writes a new one keeps all bits set, so that no pass and no reaper finds
a victim, while a write with an empty pool makes an entry of its own.
-/

namespace ShunyaKV.Shard

open ShunyaKV.Lib.HandList ShunyaKV.Lib.Ttl

def Store.size (s : Store) : ℕ := s.map.entries.length

/-! ### A write that finds no victim -/

section Quiet

variable {cfg : Config} {s : Store}

/-- The entry of `k` is in the sanctuary, visited and without a deadline. -/
def WarmAt (s : Store) (k : Bytes) : Prop :=
  ∀ a, s.map.lookup k = some a →
    (s.heap a).poolType = .sanctuary ∧ (s.heap a).visited = true ∧ (s.heap a).expiresAt = 0

def Warm (s : Store) : Prop := ∀ k, WarmAt s k

lemma Warm.probationList (hw : Warm s) (hs : Sound cfg s) : s.probationList = [] := by
  refine List.eq_nil_iff_forall_not_mem.mpr fun a ha => ?_
  obtain ⟨h1, h2 | h2⟩ := hs.linked.prob a ha
  · obtain ⟨k, hk⟩ := h2
    rw [(hw k a hk).1] at h1
    cases h1
  · simp at h2

lemma Warm.sieveList (hw : Warm s) (hs : Sound cfg s) {a : Addr} (ha : a ∈ s.sieveList) :
    (s.heap a).visited = true ∧ (s.heap a).expiresAt = 0 := by
  obtain ⟨-, h2 | h2⟩ := hs.linked.sieve a ha
  · obtain ⟨k, hk⟩ := h2
    exact (hw k a hk).2
  · simp at h2

/-- With nobody in probation the reaper has nothing to do. -/
lemma acquire_quiet (hp : s.probationList = []) {t : Store} {a : Addr}
    (ht : s.acquire cfg = (t, .ok (some a))) : t.evictionCount = s.evictionCount := by
  have hreap (u : Store) (hu : u.probationList = []) : (u.runSequentialReaper cfg).1 = u := by
    rw [Store.runSequentialReaper, if_pos hu]
  have htake {u : Store} {a : Addr} (hu : u.takeFront = (t, some a)) :
      t.evictionCount = u.evictionCount := by
    obtain ⟨pool, u', -, rfl, rfl⟩ := Store.takeFront_eq_some hu
    rfl
  have hlink (u : Store) (a : Addr) : (u.linkSanctuary a).evictionCount = u.evictionCount := by
    unfold Store.linkSanctuary Store.onInsert
    dsimp only
    split <;> rfl
  cases Store.acquires_of_acquire ht with
  | sanctuary hc ht =>
    obtain ⟨u, rfl, ⟨-, rfl, rfl⟩ | ⟨pool, -, rfl⟩⟩ := Store.doAcquire_eq_some ht
    · exact hlink _ _
    · exact hlink _ _
  | made hc hpool =>
    rw [hreap (s.alloc.countProbation s.next) hp]
    rfl
  | reaped hc hpool hq _ ht =>
    rw [hreap s hp] at ht
    exact htake ht
  | front hc hpool hq ht => exact htake ht

/-- After the insert of a new key the sanctuary is as warm as it was. -/
lemma insert_warm (hs : Sound cfg s) (hr : Room cfg s) (hw : Warm s) {k v : Bytes}
    (hk : s.map.lookup k = none) (hthrows : ¬ s.AcquireThrows cfg) {t : Store}
    (ht : s.write cfg k v none = (t, .ok true)) :
    t.evictionCount = s.evictionCount ∧
      ∀ a ∈ t.sieveList, (t.heap a).visited = true ∧ (t.heap a).expiresAt = 0 := by
  obtain ⟨n, hn⟩ := noteFallback_frame s
  have hs' : Sound cfg s.noteFallback := ⟨hs.owned.noteFallback.1, hs.linked.noteFallback⟩
  have hr' : Room cfg s.noteFallback := hr.congr (by rw [hn])
  have hw' : Warm s.noteFallback := by rw [hn]; exact hw
  have hk' : s.noteFallback.map.lookup k = none := by rw [hn]; exact hk
  have hcount : s.noteFallback.evictionCount = s.evictionCount := by rw [hn]
  obtain ⟨a, u, hacq, hown⟩ :=
    acquired_acquire hs'.owned (Store.acquireThrows_noteFallback.not.mpr hthrows)
  have hlk : u.map.lookup k = none := by
    rw [acquire_lookup hs'.owned hs'.linked hacq, hk']; rfl
  rw [Store.write, hacq] at ht
  obtain ⟨rfl, -⟩ := Prod.mk.inj ht
  simp only [Store.emplace, Store.modify_map, hlk]
  refine ⟨(acquire_quiet (hw'.probationList hs') hacq).trans hcount, fun b hb => ?_⟩
  rw [Store.modify_sieveList] at hb
  rw [u.modify_heap]
  by_cases hc : cfg.probPoolMaxSize = 0
  · obtain ⟨h1, h2, -, h4, h5, -⟩ := doAcquire_frame hc hs'.owned hs'.linked hr' hacq
    split
    · next hba => subst hba; exact ⟨h5, hown.noDeadline⟩
    · next hba =>
      rw [h1, List.mem_append, List.mem_singleton] at hb
      rw [h4 b hba]
      exact hw'.sieveList hs' (hb.resolve_right hba)
  · obtain ⟨h1, h2, -⟩ := acquire_frame hc hs'.owned hs'.linked hr' hacq
    rw [h1.list] at hb
    have hba : b ≠ a := by
      rintro rfl
      rw [h1.heap b hb, (hs'.linked.sieve b hb).1] at h2
      cases h2
    rw [if_neg hba, h1.heap b hb]
    exact hw'.sieveList hs' hb

/-- **A new key is added and none is lost** when the store is warm. -/
lemma put_warm (hfits : cfg.valueFits = true) (hs : Sound cfg s) (hr : Room cfg s) (hw : Warm s)
    {k v : Bytes} (hk : s.map.lookup k = none) (later : ℕ) :
    abs (s.put cfg k v none later).1 = write (abs s) k v 0 := by
  have hthrows : ¬ s.AcquireThrows cfg := by
    rintro (⟨-, hvalue⟩ | ⟨-, -, hne, -⟩)
    · rw [hfits] at hvalue
      cases hvalue
    · exact hne (hw.probationList hs)
  obtain ⟨t, ht, hwr⟩ := written_write hs.owned k v none hthrows
  obtain ⟨-, R, S, h1, h2⟩ := put_refines hs.owned k v none later hthrows
  obtain ⟨h3, h4⟩ := insert_warm hs hr hw hk hthrows ht
  obtain ⟨t', h5, h6, -⟩ :=
    checkMemoryAndEvict_eq hwr.owned (linked_write hs.owned hs.linked ht) later
  have hvict : victims cfg t later = [] := by
    refine List.eq_nil_iff_forall_not_mem.mpr fun a ha => ?_
    have hm := victims_subset cfg t later ha
    obtain ⟨h7, h8⟩ := h4 a (taking_subset t _ _ hm)
    have htk := (mem_taken _ hm).2
    rw [takes_of_live (.inl h8), h7] at htk
    simp at htk
  have hcount : (s.put cfg k v none later).1.evictionCount = s.evictionCount := by
    rw [Store.put_fst ht, h5, hvict]
    exact h6.evictions.trans h3
  rw [hcount] at h2
  obtain ⟨rfl, rfl⟩ : R = [] ∧ S = [] := by
    rw [← List.append_eq_nil_iff]
    exact List.length_eq_zero_iff.mp (by omega)
  have hdl : deadline (abs s) k = 0 := by simp [deadline, abs, hk]
  rw [h1, without_nil, without_nil, Option.getD_none, hdl]

end Quiet

/-! ### Reading all keys -/

section Reads

variable {cfg : Config} {s : Store}

lemma get_warms (hs : Sound cfg s) (hz : ∀ k v d, abs s k = some (v, d) → d = 0) (k : Bytes)
    (now : ℕ) :
    abs (s.get cfg k now).1 = abs s ∧ WarmAt (s.get cfg k now).1 k ∧
      ∀ k', WarmAt s k' → WarmAt (s.get cfg k now).1 k' := by
  unfold Store.get
  rcases hl : s.map.lookup k with _ | a
  · exact ⟨rfl, fun a ha => by simp [hl] at ha, fun _ h => h⟩
  have hx : (s.heap a).expiresAt = 0 := hz k (s.heap a).value _ (by simp [abs, hl])
  have hpool := (hs.owned.mapOnly k a hl).2.1
  have ht := touch_promote hpool
  have ht' : Touch s ((s.promoteToSanctuary a).onHit a) :=
    ht.trans (touch_modify (by rw [ht.pool]; exact hpool) fun _ => ⟨rfl, rfl, rfl⟩)
  have hpro : ((s.promoteToSanctuary a).heap a).poolType = .sanctuary ∧
      ∀ b, b ≠ a → (s.promoteToSanctuary a).heap b = s.heap b := by
    unfold Store.promoteToSanctuary
    split
    · next h => exact ⟨h, fun _ _ => rfl⟩
    · next h =>
      have hsv : a ∉ (s.removeFromProbation a).sieveList := by
        rw [removeFromProbation_sieveList]
        exact fun hm => h (hs.linked.sieve a hm).1
      obtain ⟨-, -, h1, h2⟩ := onInsert_frame hsv
      refine ⟨?_, fun b hb => (h1 b hb).trans (by rw [removeFromProbation_heap])⟩
      show (((s.removeFromProbation a).onInsert a).heap a).poolType = _
      rw [h2]
  have hwarm : (((s.promoteToSanctuary a).onHit a).heap a).poolType = .sanctuary ∧
      (((s.promoteToSanctuary a).onHit a).heap a).visited = true ∧
      (((s.promoteToSanctuary a).onHit a).heap a).expiresAt = 0 := by
    refine ⟨?_, by simp [Store.onHit], by rw [(ht'.data a).2.2, hx]⟩
    rw [Store.onHit, Store.modify_heap_same]
    exact hpro.1
  have hexp : isExpired now (s.heap a).expiresAt = false := by simp [isExpired, hx]
  simp only [hexp, Bool.false_eq_true, if_false]
  refine ⟨ht'.abs_eq, fun b hb => ?_, fun k' hk' b hb => ?_⟩
  · rw [ht'.map, hl, Option.some.injEq] at hb
    exact hb ▸ hwarm
  · rw [ht'.map] at hb
    by_cases hba : b = a
    · exact hba ▸ hwarm
    · rw [Store.onHit, Store.modify_heap_other _ _ _ hba, hpro.2 b hba]
      exact hk' b hb

def reads (ks : List Bytes) : List Event := ks.map fun k => ⟨.get k, 0, 0⟩

/-- Reading all keys makes the store warm and changes no value. -/
lemma reads_warm (hs : Sound cfg s) (hz : ∀ k v d, abs s k = some (v, d) → d = 0)
    (ks : List Bytes) :
    abs (run cfg s (reads ks)) = abs s ∧
      ∀ k, k ∈ ks ∨ WarmAt s k → WarmAt (run cfg s (reads ks)) k := by
  induction ks generalizing s with
  | nil => exact ⟨rfl, fun k hk => hk.resolve_left (by simp)⟩
  | cons k ks ih =>
    obtain ⟨h1, h2, h3⟩ := get_warms hs hz k 0
    obtain ⟨h4, h5⟩ := ih (sound_step hs ⟨.get k, 0, 0⟩) (by rw [← h1] at hz; exact hz)
    refine ⟨h4.trans h1, fun k' hk' => h5 k' ?_⟩
    rcases hk' with hk' | hk'
    · rcases List.mem_cons.mp hk' with rfl | hk'
      · exact .inr h2
      · exact .inl hk'
    · exact .inr (h3 k' hk')

end Reads

/-! ### Growth -/

def freshKey (n : ℕ) : Bytes := List.replicate n 0

lemma freshKey_injective : Function.Injective freshKey := fun m n h => by
  simpa [freshKey] using congrArg List.length h

/-- All keys so far are read, and a new one is written. -/
def round (n : ℕ) : List Event :=
  reads ((List.range n).map freshKey) ++ [⟨.set (freshKey n) [], 0, 0⟩]

def rounds (n : ℕ) : List Event := (List.range n).flatMap round

def grown (n : ℕ) : TtlMap Bytes Bytes := fun k =>
  if k ∈ (List.range n).map freshKey then some ([], 0) else none

lemma write_grown (n : ℕ) : write (grown n) (freshKey n) [] 0 = grown (n + 1) := by
  funext k
  by_cases hk : k = freshKey n
  · subst hk
    have hmem : freshKey n ∈ (List.range (n + 1)).map freshKey :=
      List.mem_map_of_mem (by simp)
    rw [write_same, grown, if_pos hmem]
  · have hmem : k ∈ (List.range (n + 1)).map freshKey ↔ k ∈ (List.range n).map freshKey := by
      rw [List.range_succ, List.map_append, List.mem_append]
      simp [hk]
    rw [write_other _ _ _ hk, grown, grown]
    simp only [hmem]

lemma rounds_succ (n : ℕ) : rounds (n + 1) = rounds n ++ round n := by
  simp [rounds, List.range_succ]

/-- Every round adds a key and removes none. -/
lemma abs_rounds {cfg : Config} (hfits : cfg.valueFits = true) (n : ℕ) :
    abs (run cfg (start cfg) (rounds n)) = grown n := by
  induction n with
  | zero => rw [show rounds 0 = [] from rfl, run_nil, abs_start]; rfl
  | succ n ih =>
    have hs := sound_run (sound_start cfg) (rounds n)
    have hz : ∀ k v d, abs (run cfg (start cfg) (rounds n)) k = some (v, d) → d = 0 := by
      intro k v d hk
      rw [ih, grown] at hk
      split at hk
      · simpa using (congrArg (Option.map Prod.snd) hk).symm
      · cases hk
    obtain ⟨h1, h2⟩ := reads_warm hs hz ((List.range n).map freshKey)
    set es := rounds n ++ reads ((List.range n).map freshKey) with hes
    have hrun : run cfg (start cfg) es =
        run cfg (run cfg (start cfg) (rounds n)) (reads ((List.range n).map freshKey)) :=
      run_append cfg _ _ _
    rw [← hrun, ih] at h1
    have habsent (k : Bytes) (hk : k ∉ (List.range n).map freshKey) :
        (run cfg (start cfg) es).map.lookup k = none := by
      have := congrFun h1 k
      rw [grown, if_neg hk] at this
      simpa [abs] using this
    have hw : Warm (run cfg (start cfg) es) := by
      intro k
      by_cases hk : k ∈ (List.range n).map freshKey
      · rw [hrun]; exact h2 k (.inl hk)
      · intro a ha
        rw [habsent k hk] at ha
        cases ha
    have hnew : freshKey n ∉ (List.range n).map freshKey := by
      intro hm
      obtain ⟨i, hi, he⟩ := List.mem_map.mp hm
      have := freshKey_injective he
      simp at hi
      omega
    have hlast := put_warm (v := []) hfits (sound_run (sound_start cfg) es) (room_run cfg es) hw
      (habsent _ hnew) 0
    have e : rounds (n + 1) = es ++ [⟨.set (freshKey n) [], 0, 0⟩] := by
      rw [rounds_succ, round, hes, List.append_assoc]
    rw [e, run_append]
    rw [h1, write_grown] at hlast
    exact hlast

lemma le_size_rounds {cfg : Config} (hfits : cfg.valueFits = true) (n : ℕ) :
    n ≤ (run cfg (start cfg) (rounds n)).size := by
  have hsub : (List.range n).map freshKey ⊆ (run cfg (start cfg) (rounds n)).map.keys := by
    intro k hk
    have habs := congrFun (abs_rounds hfits n) k
    rw [grown, if_pos hk, abs] at habs
    obtain ⟨a, ha, -⟩ := Option.map_eq_some_iff.mp habs
    exact AList.lookup_isSome.mp (by simp [ha])
  have hnd : ((List.range n).map freshKey).Nodup := List.nodup_range.map freshKey_injective
  have hlen := (List.subperm_of_subset hnd hsub).length_le
  simpa [Store.size, AList.keys, List.keys] using hlen

/-- **There is no bound on the number of live entries**, whatever the configuration: the value of
a new entry fits if the pool was filled with such entries. -/
theorem size_unbounded (cfg : Config) (hcfg : 1 ≤ cfg.maxSize ∨ cfg.valueFits = true) :
    ¬ ∃ B, ∀ es, (run cfg (start cfg) es).size ≤ B := by
  have hfits : cfg.valueFits = true := hcfg.elim (fun hmax => cfg.fits (by omega)) id
  rintro ⟨B, hB⟩
  have h1 := le_size_rounds hfits (B + 1)
  have h2 := hB (rounds (B + 1))
  omega

/-- Two pool entries, one of them for probation, and a trigger of one half. -/
def twoPlaces : Config :=
  { maxSize := 2, probPoolMaxSize := 1, probThreshold := 1, reaperBudget := 1, softBudget := 1,
    softTriggered := fun used => 1 ≤ used }

theorem size_unbounded_twoPlaces : 1 ≤ twoPlaces.maxSize ∧
    ¬ ∃ B, ∀ es, (run twoPlaces (start twoPlaces) es).size ≤ B :=
  ⟨by decide, size_unbounded twoPlaces (.inl (by decide))⟩

/-- Five live entries with a pool of two, and no bound. -/
theorem size_twoPlaces : (run twoPlaces (start twoPlaces) (rounds 5)).size = 5 ∧
    ¬ ∃ B, ∀ n, (run twoPlaces (start twoPlaces) (rounds n)).size ≤ B := by
  refine ⟨by decide, ?_⟩
  rintro ⟨B, hB⟩
  have h1 := le_size_rounds (show twoPlaces.valueFits = true from rfl) (B + 1)
  have h2 := hB (B + 1)
  omega

end ShunyaKV.Shard
