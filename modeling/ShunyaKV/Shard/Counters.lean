import ShunyaKV.Shard.Balance

/-!
When the counters of the pool are right.

The sanctuary counter always is. The probation counter is ahead from the first call on that
counts out an entry made outside the pool, which is in probation and in no list, or throws after
it has made and counted one; and it passes its limit when an insert finds probation full and the
reaper leaves it so.
-/

namespace ShunyaKV.Shard

namespace Store

def number (s : Store) (ty : PoolType) : ℕ := s.live.countP fun a => (s.heap a).poolType = ty

def availableProbSlots (cfg : Config) (s : Store) : ℕ :=
  (cfg.probPoolMaxSize + 2 ^ 64 - s.probCount) % 2 ^ 64

end Store

/-- The counters are exact, and the free slots of probation do not wrap. -/
structure Counted (cfg : Config) (s : Store) : Prop where
  probation : s.probCount = s.number .probation
  sanctuary : s.sancCount = s.number .sanctuary
  fits : s.probCount ≤ cfg.probPoolMaxSize

lemma Counted.availableProbSlots {cfg : Config} {s : Store} (h : Counted cfg s) :
    s.availableProbSlots cfg = (cfg.probPoolMaxSize - s.number .probation) % 2 ^ 64 := by
  rw [← h.probation, Store.availableProbSlots, Nat.add_comm, Nat.add_sub_assoc h.fits,
    Nat.add_mod_left]

lemma tally_nil (s : Store) (ty : PoolType) : s.tally [] ty = s.number ty := by
  rw [Store.tally, List.append_nil, Store.number]

lemma Books.counted_iff {cfg : Config} {s : Store} {x : ℤ} {d m : ℕ} (h : Books cfg s x d m) :
    Counted cfg s ↔ x = 0 ∧ s.probCount ≤ cfg.probPoolMaxSize := by
  have hp := h.ledger.probation
  have hs := h.ledger.sanctuary
  rw [tally_nil] at hp hs
  constructor
  · intro hc
    have := hc.probation
    exact ⟨by omega, hc.fits⟩
  · rintro ⟨hx, hf⟩
    exact ⟨by omega, hs, hf⟩

/-! ### The probation counter over a call -/

section Count

variable {cfg : Config} {s : Store} {a : Addr}

lemma putBack_probCount (cfg : Config) (s : Store) (a : Addr) :
    (s.putBack cfg a).probCount = s.probCount := by
  unfold Store.putBack; split <;> rfl

lemma removeFromProbation_probCount_le (s : Store) (a : Addr) :
    (s.removeFromProbation a).probCount ≤ s.probCount := by
  unfold Store.removeFromProbation
  split
  · dsimp only
    split <;> omega
  · exact le_rfl

/-- A release counts down if the entry is in probation and in its list. -/
lemma release_probCount (cfg : Config) (s : Store) (a : Addr) :
    (s.release cfg a).probCount =
      if cfg.probPoolMaxSize ≠ 0 ∧ (s.heap a).poolType = .probation then
        (s.removeFromProbation a).probCount
      else s.probCount := by
  have herase (s : Store) : (s.onErase a).dropSanctuary.probCount = s.probCount :=
    (onErase_counts s a).1
  unfold Store.release
  by_cases hc : cfg.probPoolMaxSize = 0
  · rw [if_pos hc, if_neg (by simp [hc]), Store.doRelease, putBack_probCount, herase]
    rfl
  · rw [if_neg hc, Store.doProbRelease, putBack_probCount, Store.modify_probCount]
    by_cases ht : (s.heap a).poolType = .probation
    · rw [if_pos ht, if_pos ⟨hc, ht⟩]
    · rw [if_neg ht, if_neg (by simp [ht]), herase]

lemma release_probCount_le (cfg : Config) (s : Store) (a : Addr) :
    (s.release cfg a).probCount ≤ s.probCount := by
  rw [release_probCount]
  split
  · exact removeFromProbation_probCount_le s a
  · exact le_rfl

lemma promote_probCount_le (s : Store) (a : Addr) :
    (s.promoteToSanctuary a).probCount ≤ s.probCount := by
  have hinsert (s : Store) : (s.onInsert a).probCount = s.probCount := by
    unfold Store.onInsert; split <;> rfl
  unfold Store.promoteToSanctuary
  split
  · exact le_rfl
  · exact (hinsert _).trans_le (removeFromProbation_probCount_le s a)

/-- A batch of unlinked entries is not counted down. -/
lemma evictKeys_probCount {keys : List Bytes}
    (h : ∀ key ∈ keys, ∀ a, s.map.lookup key = some a → a ∉ s.probationList) :
    (s.evictKeys cfg keys).probCount = s.probCount := by
  induction keys generalizing s with
  | nil => rfl
  | cons key keys ih =>
    have h1 : (s.evictKey cfg key).probCount = s.probCount := by
      unfold Store.evictKey
      rcases hk : s.map.lookup key with _ | a
      · rfl
      · have ha := h key (by simp) a hk
        refine (release_probCount cfg { s with map := s.map.erase key } a).trans ?_
        split
        · simp [Store.removeFromProbation, ha]
        · rfl
    refine (ih fun key' hkey' a ha hm => ?_).trans h1
    rw [evictKey_lookup] at ha
    split at ha
    · cases ha
    · exact h key' (by simp [hkey']) a ha ((evictKeys_sublist cfg s [key]).2.subset hm)

/-- The reaper counts down once for each of its victims. -/
lemma reaper_probCount {fl : List Addr} {U : PoolType → Addr → Prop} (ho : Owned s fl)
    (hL : Linked cfg s fl U) (hfl : ∀ b ∈ s.probationList, b ∉ fl)
    (hle : (s.probationList.take cfg.reach).length ≤ s.probCount) :
    (s.runSequentialReaper cfg).1.probCount =
      s.probCount - (s.probationList.take cfg.reach).length := by
  have hT := touch_reaped cfg s
  have hlist := Store.reaped_probationList cfg s
  rw [Store.runSequentialReaper_eq]
  dsimp only
  rw [evictKeys_probCount]
  · rw [Store.reaped_probCount]
    exact decU64_iterate hle
  · intro key hkey a ha hm
    obtain ⟨v, hv, rfl⟩ := List.mem_map.mp hkey
    have hv' := List.mem_of_mem_take hv
    obtain ⟨k, hk⟩ := (hL.prob v hv').2.resolve_right (hfl v hv')
    rw [hT.map, ho.keyed k v hk, hk, Option.some.injEq] at ha
    rw [hlist, ← ha] at hm
    exact List.disjoint_take_drop hL.probNodup le_rfl hv hm

lemma acquire_probCount {x : ℤ} {d m : ℕ} (hc : cfg.probPoolMaxSize ≠ 0) (hs : Sound cfg s)
    (h : Ledger cfg s [] x d m) (hx : 0 ≤ x) {t : Store}
    (ht : s.acquire cfg = (t, .ok (some a))) :
    t.probCount = s.probCount - (reaping cfg s).length + 1 ∧
      (reaping cfg s).length ≤ s.probCount := by
  have hle : (s.probationList.take cfg.reach).length ≤ s.probCount := by
    have h1 := hs.linked.length_le_tally cfg.reach
    have h2 := h.probation
    omega
  have htake {u : Store} (hu : u.takeFront = (t, some a)) : t.probCount = u.probCount + 1 := by
    obtain ⟨pool, u', -, rfl, rfl⟩ := Store.takeFront_eq_some hu
    rfl
  unfold reaping
  cases Store.acquires_of_acquire ht with
  | sanctuary hc' => exact absurd hc' hc
  | made hc hp =>
    rw [if_pos ⟨hc, .inl hp⟩]
    obtain ⟨ho', h1, hfl⟩ := linked_made hs.owned hs.linked
    have hcount : (s.alloc.countProbation s.next).probCount = s.probCount + 1 := rfl
    have hlist : (s.alloc.countProbation s.next).probationList = s.probationList := rfl
    have h4 := reaper_probCount ho' h1 hfl (by rw [hcount, hlist]; omega)
    rw [h4, hcount, hlist]
    omega
  | reaped hc hp hq _ ht =>
    rw [if_pos ⟨hc, .inr hq⟩, htake ht, reaper_probCount hs.owned hs.linked (by simp) hle]
    exact ⟨rfl, hle⟩
  | front hc hp hq ht =>
    rw [if_neg (by simp [hp, hq]), htake ht]
    simp

lemma checkMemoryAndEvict_probCount {U : PoolType → Addr → Prop} (ho : Owned s [])
    (hL : Linked cfg s [] U) (now : ℕ) :
    (s.checkMemoryAndEvict cfg now).1.probCount = s.probCount := by
  rcases Store.checkMemoryAndEvict_fst cfg s now with h | h <;> rw [h]
  · obtain ⟨h1, h2, -, h4⟩ := linked_sweep hL cfg.softBudget now
    have hT := touch_sweep ho cfg.softBudget now
    rw [evictKeys_probCount, sweep_probCount hL]
    intro key hkey a ha hm
    rw [h1] at hkey
    obtain ⟨v, hv, rfl⟩ := List.mem_map.mp hkey
    obtain ⟨k, hk⟩ := (hL.sieve v (h2 v hv)).2.resolve_right (by simp)
    rw [hT.map, ho.keyed k v hk, hk, Option.some.injEq] at ha
    have hty := (sweep_types hL cfg.softBudget now v).1.trans (hL.sieve v (h2 v hv)).1
    rw [ha, (h4.prob a hm).1] at hty
    cases hty

/-- An overwrite counts out the entry it was given, if that is in the probation list. -/
lemma emplace_probCount_le (hc : cfg.probPoolMaxSize ≠ 0) {k : Bytes} {old : Addr}
    (hk : s.map.lookup k = some old) (hne : a ≠ old) (ha : a ∈ s.probationList)
    (hty : (s.heap a).poolType = .probation) (updateTtl : Bool) :
    (s.emplace cfg k a updateTtl).probCount ≤ s.probCount - 1 := by
  unfold Store.emplace
  rw [hk]
  dsimp only
  set u := s.modify old fun e => e.updateFrom (s.heap a) updateTtl with hu
  obtain ⟨h1, h2⟩ := promote_other (s := u) hne
  have hmem : a ∈ (u.promoteToSanctuary old).probationList := h2.mpr ha
  have hty' : ((u.promoteToSanctuary old).heap a).poolType = .probation := by
    rw [h1, hu, s.modify_heap_other old _ hne, hty]
  have hle : (u.promoteToSanctuary old).probCount ≤ s.probCount := promote_probCount_le u old
  rw [release_probCount, if_pos ⟨hc, hty'⟩, Store.removeFromProbation, if_pos hmem]
  dsimp only
  split <;> omega

end Count

/-! ### Which calls miscount -/

/-- The write overwrites an entry that the reaper leaves in the map. -/
def Overwrites (cfg : Config) (s : Store) (k : Bytes) (old : Addr) : Prop :=
  s.map.lookup k = some old ∧ old ∉ reaping cfg s

/-- The write of `k` throws with an entry of its own in hand; or it overwrites a stray, or
overwrites while the pool is empty; or it inserts while what the reaper leaves in probation is no
less than the limit. -/
def WriteMiscounts (cfg : Config) (s : Store) (k : Bytes) : Prop :=
  cfg.probPoolMaxSize ≠ 0 ∧
    if s.AcquireThrows cfg then s.pool = [] ∧ cfg.valueFits = true
    else (∃ old, Overwrites cfg s k old ∧ (s.pool = [] ∨ s.Stray old)) ∨
      (∀ old, ¬ Overwrites cfg s k old) ∧
        cfg.probPoolMaxSize ≤ s.probCount - (reaping cfg s).length

def ReadMiscounts (s : Store) (k : Bytes) : Prop := ∃ a, s.map.lookup k = some a ∧ s.Stray a

/-- The call puts the counters out of step with the map, or past their limit. -/
def Miscounts (cfg : Config) (s : Store) (e : Event) : Prop :=
  match e.call with
  | .set k _ => WriteMiscounts cfg s k
  | .setWithTtl k _ _ => WriteMiscounts cfg s k
  | .get k => ReadMiscounts s k

section Calls

variable {cfg : Config} {s : Store} {x : ℤ} {d m : ℕ} {k v : Bytes} {dl : Option ℕ}

lemma miscounts_write {e : Event} (h : e.Writes k v dl) :
    Miscounts cfg s e ↔ WriteMiscounts cfg s k := by
  obtain ⟨_ | _ | _, _, _⟩ := e
  · obtain ⟨rfl, rfl, rfl⟩ := h; rfl
  · obtain ⟨rfl, rfl, rfl⟩ := h; rfl
  · exact h.elim

lemma miscounts_get {e : Event} (h : e.call = .get k) :
    Miscounts cfg s e ↔ ReadMiscounts s k := by
  unfold Miscounts; rw [h]

lemma drift_eq_zero_iff {a : Addr} : s.drift a = 0 ↔ ¬ s.Stray a := by
  unfold Store.drift
  split <;> simp_all

lemma write_probCount (h : Books cfg s x d m) (hc : cfg.probPoolMaxSize ≠ 0)
    (hthrows : ¬ s.AcquireThrows cfg) {t : Store} {r : Except LengthError Bool}
    (hw : s.write cfg k v dl = (t, r)) :
    ((∀ old, ¬ Overwrites cfg s k old) →
        t.probCount = s.probCount - (reaping cfg s).length + 1) ∧
      ∀ old, Overwrites cfg s k old → s.pool ≠ [] → t.probCount ≤ s.probCount := by
  obtain ⟨hs, hr, hL⟩ := h.noteFallback
  obtain ⟨a, u, hacq, hown⟩ :=
    acquired_acquire hs.owned (Store.acquireThrows_noteFallback.not.mpr hthrows)
  obtain ⟨n, hn⟩ := noteFallback_frame s
  have hreap : reaping cfg s.noteFallback = reaping cfg s := by rw [hn]; rfl
  have hmap : s.noteFallback.map = s.map := by rw [hn]
  have hcount : s.noteFallback.probCount = s.probCount := by rw [hn]
  obtain ⟨h1, h2⟩ := acquire_probCount hc hs h.ledger.noteFallback h.ahead hacq
  have hlook := acquire_lookup hs.owned hs.linked hacq k
  rw [hreap, hcount] at h1 h2
  rw [hreap, hmap] at hlook
  rw [Store.write, hacq] at hw
  obtain ⟨rfl, -⟩ := Prod.mk.inj hw
  set f : Entry → Entry := fun e =>
    { e with key := k, value := v, expiresAt := dl.getD e.expiresAt }
  constructor
  · intro hno
    have hnone : u.map.lookup k = none := by
      rw [hlook, Option.filter_eq_none_iff]
      intro old hold
      simpa [Overwrites, hold] using hno old
    simp only [Store.emplace, Store.modify_map, hnone]
    exact h1
  · rintro old ⟨hold, hnr⟩ hp
    have hsome : u.map.lookup k = some old := by
      rw [hlook, hold]
      simp [Option.filter, hnr]
    have hne : a ≠ old := by
      rintro rfl
      exact (hown.owned.mapOnly k a hsome).2.2 (by simp)
    obtain ⟨l, -, hl⟩ := (acquire_list hc hacq).2 (by rw [hn]; exact hp)
    have hmem : a ∈ (u.modify a f).probationList := by rw [Store.modify_probationList, hl]; simp
    have hty : ((u.modify a f).heap a).poolType = .probation := by
      rw [u.modify_heap_same]
      exact (acquire_frame hc hs.owned hs.linked hr hacq).2.1
    have h3 := emplace_probCount_le hc (s := u.modify a f) hsome hne hmem hty dl.isSome
    rw [Store.modify_probCount, h1] at h3
    dsimp only
    omega

lemma writeDrift_overwrite (hthrows : ¬ s.AcquireThrows cfg) {old : Addr}
    (h : Overwrites cfg s k old) :
    s.writeDrift cfg k =
      s.drift old + if cfg.probPoolMaxSize ≠ 0 ∧ s.pool = [] then 1 else 0 := by
  have hf : (s.map.lookup k).filter (fun b => b ∉ reaping cfg s) = some old := by
    rw [h.1]
    simp [Option.filter, h.2]
  rw [Store.writeDrift, if_neg hthrows, hf]
  rfl

lemma writeDrift_insert (hthrows : ¬ s.AcquireThrows cfg) (h : ∀ old, ¬ Overwrites cfg s k old) :
    s.writeDrift cfg k = 0 := by
  have hf : (s.map.lookup k).filter (fun b => b ∉ reaping cfg s) = none := by
    rw [Option.filter_eq_none_iff]
    intro old hold
    simpa [Overwrites, hold] using h old
  rw [Store.writeDrift, if_neg hthrows, hf]
  rfl

lemma Books.probCount_disabled (h : Books cfg s 0 d m) (hc : cfg.probPoolMaxSize = 0) :
    s.probCount = 0 := by
  have hz : s.tally [] .probation = 0 := by
    refine List.countP_eq_zero.mpr fun a ha => ?_
    simp [h.linked.sanctuary_of_disabled hc (mem_held.mp ha)]
  have := h.ledger.probation
  omega

lemma writeDrift_disabled (h : Books cfg s x d m) (hc : cfg.probPoolMaxSize = 0) (k : Bytes) :
    s.writeDrift cfg k = 0 := by
  by_cases hthrows : s.AcquireThrows cfg
  · rcases id hthrows with ⟨-, hfits⟩ | ⟨hc', -⟩
    · simp [Store.writeDrift, hthrows, hfits]
    · exact absurd hc hc'
  by_cases hex : ∃ old, Overwrites cfg s k old
  · obtain ⟨old, hold⟩ := hex
    have hty := h.linked.sanctuary_of_disabled hc (.inl ⟨k, hold.1⟩)
    rw [writeDrift_overwrite hthrows hold, drift_of_sanctuary hty, if_neg (by simp [hc]),
      add_zero]
  · exact writeDrift_insert hthrows (not_exists.mp hex)

/-- A write that throws leaves the counter alone, or one ahead. -/
lemma throw_miscounts (h : Books cfg s 0 d m) (hf : s.probCount ≤ cfg.probPoolMaxSize)
    (hc : cfg.probPoolMaxSize ≠ 0) (hthrows : s.AcquireThrows cfg) (later : ℕ) :
    (s.writeDrift cfg k = 0 ∧
        (s.put cfg k v dl later).1.probCount ≤ cfg.probPoolMaxSize) ↔
      ¬ WriteMiscounts cfg s k := by
  obtain ⟨n, hn⟩ := noteFallback_frame s
  have hpool : s.noteFallback.pool = s.pool := by rw [hn]
  obtain ⟨t, e, ht, hrefuses, -⟩ := refused_write h.owned k v dl hthrows
  rw [WriteMiscounts, if_pos hthrows, Store.put_throws ht, Store.writeDrift, if_pos hthrows]
  cases hrefuses with
  | value hp hfits =>
    have hcount : s.noteFallback.probCount = s.probCount := by rw [hn]
    simp [hfits, hcount, hf]
  | made _ hp hfits =>
    rw [hpool] at hp
    simp [hc, hp, hfits]
  | reaper _ hp =>
    have hcount : s.noteFallback.rewound.probCount = s.probCount := by rw [hn]; rfl
    rw [hpool] at hp
    simp [hp, hcount, hf]

lemma put_miscounts (h : Books cfg s 0 d m) (hf : s.probCount ≤ cfg.probPoolMaxSize)
    (hc : cfg.probPoolMaxSize ≠ 0) (later : ℕ) :
    (s.writeDrift cfg k = 0 ∧
        (s.put cfg k v dl later).1.probCount ≤ cfg.probPoolMaxSize) ↔
      ¬ WriteMiscounts cfg s k := by
  by_cases hthrows : s.AcquireThrows cfg
  · exact throw_miscounts h hf hc hthrows later
  obtain ⟨t, ht, hw⟩ := written_write h.owned k v dl hthrows
  have hput : (s.put cfg k v dl later).1.probCount = t.probCount := by
    rw [Store.put_fst ht]
    exact checkMemoryAndEvict_probCount hw.owned (linked_write h.owned h.linked ht) later
  obtain ⟨h1, h2⟩ := write_probCount h hc hthrows ht
  rw [hput, WriteMiscounts, if_neg hthrows]
  by_cases hex : ∃ old, Overwrites cfg s k old
  · obtain ⟨old, hold⟩ := hex
    have huniq (b : Addr) (hb : Overwrites cfg s k b) : b = old :=
      Option.some.inj (hb.1.symm.trans hold.1)
    have hn := drift_nonneg s old
    rw [writeDrift_overwrite hthrows hold]
    constructor
    · rintro ⟨hz, -⟩ ⟨-, ⟨b, hb, hbad⟩ | ⟨hno, -⟩⟩
      · obtain rfl := huniq b hb
        rcases hbad with hp | hst
        · rw [if_pos ⟨hc, hp⟩] at hz
          omega
        · rw [Store.drift, if_pos hst] at hz
          split at hz <;> omega
      · exact hno old hold
    · intro hok
      have hp : s.pool ≠ [] := fun hp => hok ⟨hc, .inl ⟨old, hold, .inl hp⟩⟩
      have hst : ¬ s.Stray old := fun hst => hok ⟨hc, .inl ⟨old, hold, .inr hst⟩⟩
      rw [drift_eq_zero_iff.mpr hst, if_neg (by simp [hp])]
      exact ⟨rfl, (h2 old hold hp).trans hf⟩
  · have hno := not_exists.mp hex
    rw [writeDrift_insert hthrows hno, h1 hno]
    constructor
    · rintro ⟨-, hle⟩ ⟨-, ⟨b, hb, -⟩ | ⟨-, hfull⟩⟩
      · exact hno b hb
      · omega
    · intro hok
      have hroom : ¬ cfg.probPoolMaxSize ≤ s.probCount - (reaping cfg s).length :=
        fun hfull => hok ⟨hc, .inr ⟨hno, hfull⟩⟩
      exact ⟨rfl, by omega⟩

lemma get_probCount_le (cfg : Config) (s : Store) (k : Bytes) (now : ℕ) :
    (s.get cfg k now).1.probCount ≤ s.probCount := by
  unfold Store.get
  rcases s.map.lookup k with _ | a
  · exact le_rfl
  dsimp only
  split
  · refine (release_probCount_le cfg _ a).trans ?_
    exact (onErase_counts s a).1.le
  · exact promote_probCount_le s a

lemma get_miscounts : s.getDrift k = 0 ↔ ¬ ReadMiscounts s k := by
  unfold Store.getDrift ReadMiscounts
  rcases s.map.lookup k with _ | a
  · simp
  · simp [drift_eq_zero_iff]

/-- **One call**: from exact counters it leads to exact counters unless it miscounts. -/
lemma counted_step (h : Books cfg s 0 d m) (hf : s.probCount ≤ cfg.probPoolMaxSize) (e : Event) :
    Counted cfg (step cfg s e).1 ↔ ¬ Miscounts cfg s e := by
  obtain ⟨d', m', hb, -⟩ := books_step h e
  rw [hb.counted_iff, zero_add]
  rw [zero_add] at hb
  rcases e.cases with ⟨k, v, dl, he⟩ | ⟨k, he⟩
  · rw [miscounts_write he]
    by_cases hc : cfg.probPoolMaxSize = 0
    · have hz : stepDrift cfg s e = 0 := by
        rw [(stepDrift_write he).1, writeDrift_disabled h hc]
      rw [hz] at hb
      exact iff_of_true ⟨hz, by rw [hb.probCount_disabled hc]; exact Nat.zero_le _⟩
        fun hw => hw.1 hc
    · rw [(stepDrift_write he).1, step_write cfg s he]
      exact put_miscounts h hf hc e.later
  · have hle := get_probCount_le cfg s k e.now
    rw [miscounts_get he, (stepDrift_get he).1, step_get cfg s he, get_miscounts]
    exact and_iff_left (hle.trans hf)

end Calls

/-! ### Runs -/

lemma books_of_counted {cfg : Config} {es : List Event}
    (h : Counted cfg (run cfg (start cfg) es)) :
    ∃ d m, Books cfg (run cfg (start cfg) es) 0 d m := by
  obtain ⟨y, d, m, hb, -⟩ := books_run (books_start cfg) es
  obtain rfl := (hb.counted_iff.mp h).1
  exact ⟨d, m, hb⟩

/-- **The counters are exact** along a run exactly when no call of it miscounts. -/
theorem counted_iff_not_miscounts (cfg : Config) (es : List Event) :
    (∀ es', es' <+: es → Counted cfg (run cfg (start cfg) es')) ↔
      ∀ es' e, es' ++ [e] <+: es → ¬ Miscounts cfg (run cfg (start cfg) es') e := by
  have hstep {es' : List Event} {e : Event} (h : Counted cfg (run cfg (start cfg) es')) :
      Counted cfg (run cfg (start cfg) (es' ++ [e])) ↔
        ¬ Miscounts cfg (run cfg (start cfg) es') e := by
    obtain ⟨d, m, hb⟩ := books_of_counted h
    rw [run_append, run_cons, run_nil]
    exact counted_step hb h.fits e
  constructor
  · intro h es' e hes
    exact (hstep (h es' ((List.prefix_append es' [e]).trans hes))).mp (h _ hes)
  · intro h es' hes
    induction es' using List.reverseRecOn with
    | nil => exact (books_start cfg).counted_iff.mpr ⟨rfl, Nat.zero_le _⟩
    | append_singleton es' e ih =>
      exact (hstep (ih ((List.prefix_append es' [e]).trans hes))).mpr (h es' e hes)

def rewrite : List Event := [⟨.set [1] [1], 0, 0⟩, ⟨.get [1], 0, 0⟩, ⟨.set [1] [2], 0, 0⟩]

/-- A pool of one: the second write borrows an entry from outside the pool, counts it in
probation and gives it back without counting it out. -/
theorem not_counted_rewrite : (run onePlace (start onePlace) rewrite).probCount = 1 ∧
    (run onePlace (start onePlace) rewrite).number .probation = 0 ∧
    ¬ Counted onePlace (run onePlace (start onePlace) rewrite) := by
  have h1 : (run onePlace (start onePlace) rewrite).probCount = 1 := by decide
  have h2 : (run onePlace (start onePlace) rewrite).number .probation = 0 := by decide
  refine ⟨h1, h2, fun h => ?_⟩
  have h3 := h.probation
  rw [h1, h2] at h3
  cases h3

/-! ### Without probation -/

/-- **Without probation the sanctuary list is the live set**: it holds every entry of the map
once and nothing else, the hand stands in it unless it is empty, every entry carries its key,
and the counter is the number of them. -/
theorem sieveList_live (cfg : Config) (hc : cfg.probPoolMaxSize = 0) (es : List Event) :
    (run cfg (start cfg) es).sieveList.Nodup ∧
      (∀ a, a ∈ (run cfg (start cfg) es).sieveList ↔
        ∃ k, (run cfg (start cfg) es).map.lookup k = some a) ∧
      ((run cfg (start cfg) es).hand = none ↔ (run cfg (start cfg) es).sieveList = []) ∧
      (∀ a, (run cfg (start cfg) es).hand = some a → a ∈ (run cfg (start cfg) es).sieveList) ∧
      (∀ k a, (run cfg (start cfg) es).map.lookup k = some a →
        ((run cfg (start cfg) es).heap a).key = k) ∧
      (run cfg (start cfg) es).sancCount = (run cfg (start cfg) es).sieveList.length ∧
      (run cfg (start cfg) es).sieveList.length = (run cfg (start cfg) es).size := by
  obtain ⟨y, d, m, h, -⟩ := books_run (books_start cfg) es
  set s := run cfg (start cfg) es
  have hmem (a : Addr) : a ∈ s.sieveList ↔ ∃ k, s.map.lookup k = some a := by
    constructor
    · exact fun ha => (h.linked.sieve a ha).2.resolve_right (by simp)
    · intro ha
      rcases h.linked.covered a (.inl ha) with h1 | h1 | h1
      · exact h1
      · simp [h.linked.disabled hc] at h1
      · exact absurd hc h1.1
  have hlive := h.owned.held_nodup
  rw [List.append_nil] at hlive
  have hperm : s.sieveList.Perm s.live :=
    (List.perm_ext_iff_of_nodup h.linked.sieveNodup hlive).mpr fun a => by rw [hmem, mem_live]
  have hall : s.tally [] .sanctuary = (s.live ++ []).length :=
    List.countP_eq_length.mpr fun a ha => by
      simp [h.linked.sanctuary_of_disabled hc (mem_held.mp ha)]
  have hsize : s.sieveList.length = s.size := by
    rw [hperm.length_eq, Store.live, List.length_map, Store.size]
  refine ⟨h.linked.sieveNodup, hmem, ⟨h.linked.handNone, fun hnil => ?_⟩, h.linked.handMem,
    h.owned.keyed, ?_, hsize⟩
  · by_contra hh
    obtain ⟨a, ha⟩ := Option.ne_none_iff_exists'.mp hh
    simpa [hnil] using h.linked.handMem a ha
  · rw [h.ledger.sanctuary, hall, List.append_nil, hperm.length_eq]

def noPlace : Config :=
  { maxSize := 0, probPoolMaxSize := 0, probThreshold := 0, reaperBudget := 0, softBudget := 1,
    softTriggered := fun _ => true }

theorem sieveList_live_noPlace : noPlace.probPoolMaxSize = 0 ∧
    (run noPlace (start noPlace) rewrite).sieveList = [0] ∧
    (run noPlace (start noPlace) rewrite).sancCount = 1 ∧
    (run noPlace (start noPlace) rewrite).sieveList.length =
      (run noPlace (start noPlace) rewrite).size :=
  ⟨rfl, by decide, by decide, (sieveList_live noPlace rfl rewrite).2.2.2.2.2.2⟩

end ShunyaKV.Shard
