import ShunyaKV.Shard.Growth
import ShunyaKV.Shard.Ledger

/-!
The books along a run.

Each call says by how much it puts the probation counter ahead and how many entries it makes
the pool destroy. The pool, the map and the destroyed entries account for every entry that
was ever made.
-/

namespace ShunyaKV.Shard

open ShunyaKV.Lib.HandList

/-- The entries in use that may be in no list: those in probation, if there is one. -/
def Unlinked (cfg : Config) (ty : PoolType) (_ : Addr) : Prop :=
  cfg.probPoolMaxSize ≠ 0 ∧ ty = .probation

/-- Without probation every entry in use is in the sanctuary. -/
lemma Linked.sanctuary_of_disabled {cfg : Config} {s : Store} {fl : List Addr} {a : Addr}
    (hL : Linked cfg s fl (Unlinked cfg)) (hc : cfg.probPoolMaxSize = 0) (ha : Held s fl a) :
    (s.heap a).poolType = .sanctuary := by
  rcases hL.covered a ha with h | h | h
  · exact (hL.sieve a h).1
  · simp [hL.disabled hc] at h
  · exact absurd hc h.1

/-! ### Writing to the map -/

section Emplace

variable {cfg : Config} {s : Store} {x : ℤ} {d m : ℕ} {a b : Addr}

lemma Ledger.noteFallback {fl : List Addr} (h : Ledger cfg s fl x d m) :
    Ledger cfg s.noteFallback fl x d (m + if s.noteFallback.pool = [] then 1 else 0) := by
  obtain ⟨n, hn⟩ := noteFallback_frame s
  have hpool : s.noteFallback.pool = s.pool := by rw [hn]
  rw [hpool]
  unfold Store.noteFallback Store.availableSlots
  split
  · next hp =>
    rw [if_pos (List.length_eq_zero_iff.mp hp)]
    exact ⟨h.probation, h.sanctuary, h.slots, congrArg (· + 1) h.made, h.floor, h.used⟩
  · next hp =>
    rw [if_neg (by simpa using hp)]
    exact h

lemma promote_other (hb : b ≠ a) : (s.promoteToSanctuary a).heap b = s.heap b ∧
    (b ∈ (s.promoteToSanctuary a).probationList ↔ b ∈ s.probationList) := by
  have hrem : b ∈ (s.removeFromProbation a).probationList ↔ b ∈ s.probationList := by
    unfold Store.removeFromProbation
    split
    · exact List.mem_erase_of_ne hb
    · rfl
  have hheap := congrFun (removeFromProbation_heap s a) b
  unfold Store.promoteToSanctuary Store.onInsert
  split
  · exact ⟨rfl, Iff.rfl⟩
  · split
    · exact ⟨hheap, hrem⟩
    · exact ⟨by simp [Store.modify_heap, hb, hheap], hrem⟩

lemma promote_drift (hb : b ≠ a) : (s.promoteToSanctuary a).drift b = s.drift b :=
  drift_congr (by rw [(promote_other hb).1]) (promote_other hb).2

/-- By how much writing the entry at `a` under `k` puts the probation counter ahead. -/
def Store.emplaceDrift (s : Store) (k : Bytes) (a : Addr) : ℤ :=
  (s.map.lookup k).elim 0 fun old => s.drift old + s.drift a

/-- An overwrite counts out the entry it was given, and the old one when that is promoted. -/
lemma ledger_emplace (ho : Owned s [a]) (hL : Linked cfg s [a] (Unlinked cfg))
    (h : Ledger cfg s [a] x d m) (hx : 0 ≤ x) (k : Bytes) (updateTtl : Bool) :
    Ledger cfg (s.emplace cfg k a updateTtl) [] (x + s.emplaceDrift k a)
      (d + s.keyDrops cfg k) m := by
  unfold Store.emplace Store.emplaceDrift Store.keyDrops
  rcases hl : s.map.lookup k with _ | old
  · simpa using h.insert hl
  · have hne : a ≠ old := by rintro rfl; exact (ho.mapOnly k a hl).2.2 (by simp)
    have hf (e : Entry) : (e.updateFrom (s.heap a) updateTtl).poolType = e.poolType ∧
        (e.updateFrom (s.heap a) updateTtl).inUse = e.inUse := by
      unfold Entry.updateFrom; split <;> exact ⟨rfl, rfl⟩
    set u := s.modify old fun e => e.updateFrom (s.heap a) updateTtl with hu
    have hdrift (c : Addr) : u.drift c = s.drift c := by
      have hty : (u.heap c).poolType = (s.heap c).poolType := by
        rw [hu, s.modify_heap]
        split
        · next hc => rw [hc]; exact (hf _).1
        · rfl
      exact drift_congr hty Iff.rfl
    have ho1 : Owned u [a] := owned_updateFrom ho hl (s.heap a) updateTtl
    have hL1 : Linked cfg u [a] (Unlinked cfg) := hL.modify _ fun e => (hf e).1
    have hheld : Held u [a] old := .inl ⟨k, hl⟩
    have h1 := ledger_promote ho1.held_nodup (h.modify (a := old) _ hf) (mem_held.mpr hheld)
      (fun hm => (hL1.sieve old hm).1) fun _ => hx
    have hT := touch_promote (s := u) (ho1.mapOnly k old hl).2.1
    have hL2 := linked_promote hL1 hheld
    have h2 := ledger_release (hT.owned ho1) h1
      (fun hc => hL2.sanctuary_of_disabled hc (.inr (by simp)))
      fun _ => by have := drift_nonneg u old; omega
    have hfull : (u.promoteToSanctuary old).full cfg = s.full cfg := by
      simp only [Store.full, hT.pool]; rfl
    rw [promote_drift hne, hdrift, hdrift, hfull, add_assoc] at h2
    exact h2

end Emplace

/-! ### The eviction pass -/

section Pass

variable {cfg : Config} {s : Store} {U : PoolType → Addr → Prop} {x : ℤ} {d m : ℕ}

lemma taking_nodup (hL : Linked cfg s [] U) (budget now : ℕ) : (s.taking budget now).Nodup := by
  rw [Store.taking, taken_eq, Store.ahead]
  refine hL.sieveNodup.sublist ((List.take_sublist _ _).trans (List.filter_sublist.trans ?_))
  exact List.dropWhile_sublist _

lemma sweep_types (hL : Linked cfg s [] U) (budget now : ℕ) (a : Addr) :
    ((s.sweep budget now).1.heap a).poolType = (s.heap a).poolType ∧
      ((s.sweep budget now).1.heap a).inUse = (s.heap a).inUse := by
  obtain ⟨l, r, hsp, hr⟩ := hL.split
  rw [Store.sweep_eq hsp hr]
  simp only [Store.swept, Store.unvisit]
  split <;> exact ⟨rfl, rfl⟩

lemma sweep_probCount (hL : Linked cfg s [] U) (budget now : ℕ) :
    (s.sweep budget now).1.probCount = s.probCount := by
  obtain ⟨l, r, hsp, hr⟩ := hL.split
  rw [Store.sweep_eq hsp hr]
  rfl

lemma ledger_sweep (hL : Linked cfg s [] U) (h : Ledger cfg s [] x d m) (budget now : ℕ) :
    Ledger cfg (s.sweep budget now).1 [] x d m := by
  have hty := sweep_types hL budget now
  obtain ⟨l, r, hsp, hr⟩ := hL.split
  rw [Store.sweep_eq hsp hr] at hty ⊢
  exact h.congr (List.Perm.refl _) rfl rfl rfl rfl rfl hty

def Store.passDrops (cfg : Config) (s : Store) (now : ℕ) : ℕ :=
  if cfg.maxSize = 0 then 0
  else if cfg.softTriggered (s.usedSlots cfg) then
    match s.evict cfg.softBudget now with
    | .ok r => r.1.keysDrops cfg r.2
    | .error _ => 0
  else 0

/-- **The eviction pass** takes from the sanctuary only, and keeps the books balanced. -/
lemma ledger_checkMemoryAndEvict (ho : Owned s []) (hL : Linked cfg s [] U)
    (h : Ledger cfg s [] x d m) (now : ℕ) :
    Ledger cfg (s.checkMemoryAndEvict cfg now).1 [] x (d + s.passDrops cfg now) m := by
  unfold Store.checkMemoryAndEvict Store.passDrops Store.evict
  split_ifs
  · exact h
  · exact h
  · obtain ⟨h1, h2, -, h4⟩ := linked_sweep hL cfg.softBudget now
    have hT := touch_sweep ho cfg.softBudget now
    have hty (v : Addr) (hv : v ∈ s.taking cfg.softBudget now) :
        ((s.sweep cfg.softBudget now).1.heap v).poolType = .sanctuary :=
      (sweep_types hL cfg.softBudget now v).1.trans (hL.sieve v (h2 v hv)).1
    have h5 := ledger_batch (y := 0) (s.taking cfg.softBudget now) (hT.owned ho)
      (ledger_sweep hL h cfg.softBudget now) (taking_nodup hL _ _)
      (fun v hv => by rw [hT.map]; exact (hL.sieve v (h2 v hv)).2.resolve_right (by simp))
      (fun _ v hv => hty v hv)
      (fun v hv hp => by have := hty v hv; rw [(h4.prob v hp).1] at this; cases this)
      fun v hv => drift_of_sanctuary (hty v hv)
    have hkeys : (s.taking cfg.softBudget now).map
        (fun a => ((s.sweep cfg.softBudget now).1.heap a).key) =
          (s.sweep cfg.softBudget now).2 := by
      rw [h1]
      exact List.map_congr_left fun a _ => (hT.data a).2.1
    rw [hkeys, mul_zero, add_zero] at h5
    exact h5
  · exact h

end Pass

/-! ### Calls -/

structure Books (cfg : Config) (s : Store) (x : ℤ) (d m : ℕ) : Prop where
  owned : Owned s []
  linked : Linked cfg s [] (Unlinked cfg)
  room : Room cfg s
  ledger : Ledger cfg s [] x d m
  ahead : 0 ≤ x

lemma Books.sound {cfg : Config} {s : Store} {x : ℤ} {d m : ℕ} (h : Books cfg s x d m) :
    Sound cfg s :=
  ⟨h.owned, h.linked.weaken fun _ _ _ _ hU => hU.2⟩

lemma books_start (cfg : Config) : Books cfg (start cfg) 0 0 0 :=
  ⟨owned_start cfg, linked_start cfg _, room_run cfg [], ledger_start cfg, le_rfl⟩

section Calls

variable {cfg : Config} {s : Store} {x : ℤ} {d m : ℕ} {a e : Addr} {k v : Bytes} {dl : Option ℕ}

/-- The probation list after an acquisition: the new entry is at its end if it comes from the
pool, and not in it if it was made. -/
lemma acquire_list (hc : cfg.probPoolMaxSize ≠ 0) {t : Store}
    (ht : s.acquire cfg = (t, .ok (some a))) :
    (s.pool = [] → t.probationList.Sublist s.probationList ∧ a = s.next) ∧
      (s.pool ≠ [] → ∃ l, l.Sublist s.probationList ∧ t.probationList = l ++ [a]) := by
  have htake {u : Store} (hu : u.takeFront = (t, some a)) :
      t.probationList = u.probationList ++ [a] := by
    obtain ⟨pool, u', -, rfl, rfl⟩ := Store.takeFront_eq_some hu
    rfl
  cases Store.acquires_of_acquire ht with
  | sanctuary hc' => exact absurd hc' hc
  | made hc hp => exact ⟨fun _ => ⟨(reaper_sublist cfg _).2, rfl⟩, fun h => absurd hp h⟩
  | reaped hc hp hq _ ht =>
    exact ⟨fun h => absurd h hp, fun _ => ⟨_, (reaper_sublist cfg s).2, htake ht⟩⟩
  | front hc hp hq ht =>
    exact ⟨fun h => absurd h hp, fun _ => ⟨_, List.Sublist.refl _, htake ht⟩⟩

/-- An entry that stays in the map through an acquisition is a stray after it if it was
one before. -/
lemma acquire_drift (hs : Sound cfg s) (hr : Room cfg s) {t : Store}
    (ht : s.acquire cfg = (t, .ok (some a))) (ho : Owned t [a]) (hk : t.map.lookup k = some e) :
    t.drift e = s.drift e := by
  have hheap := acquire_heap hs hr ht ho hk
  have hea : e ≠ a := by rintro rfl; exact (ho.mapOnly k e hk).2.2 (by simp)
  have hk' : s.map.lookup k = some e := by
    rw [acquire_lookup hs.owned hs.linked ht, Option.filter_eq_some_iff] at hk
    exact hk.1
  -- before, what is in no list is not in the probation list
  have hL : Linked cfg s [] fun _ b => b ∉ s.probationList :=
    hs.linked.weaken fun _ _ _ hp _ => hp
  have hL' := linked_acquire hs.owned hL ht
  by_cases hty : (s.heap e).poolType = .probation
  · refine drift_congr (by rw [hheap]) ⟨fun hp => ?_, fun hp => ?_⟩
    · have hc : cfg.probPoolMaxSize ≠ 0 := fun hc => by simp [hL'.disabled hc] at hp
      obtain ⟨h1, h2⟩ := acquire_list hc ht
      by_cases hpool : s.pool = []
      · exact (h1 hpool).1.subset hp
      · obtain ⟨l, hl, hl'⟩ := h2 hpool
        rw [hl', List.mem_append, List.mem_singleton] at hp
        exact hl.subset (hp.resolve_right hea)
    · rcases hL'.covered e (.inl ⟨k, hk⟩) with h1 | h1 | h1 | ⟨-, -, h1, -⟩
      · have := (hL'.sieve e h1).1
        rw [hheap, hty] at this
        cases this
      · exact h1
      · exact absurd hp h1
      · exact absurd h1 hea
  · have hsanc : (s.heap e).poolType = .sanctuary := by
      cases h : (s.heap e).poolType with
      | probation => exact absurd h hty
      | sanctuary => rfl
    rw [drift_of_sanctuary hsanc, drift_of_sanctuary (by rw [hheap, hsanc])]

lemma acquire_drift_new (hs : Sound cfg s) (hr : Room cfg s) {t : Store}
    (ht : s.acquire cfg = (t, .ok (some a))) :
    t.drift a = if cfg.probPoolMaxSize ≠ 0 ∧ s.pool = [] then 1 else 0 := by
  by_cases hc : cfg.probPoolMaxSize = 0
  · rw [if_neg (by simp [hc])]
    obtain ⟨h1, -⟩ := doAcquire_frame hc hs.owned hs.linked hr ht
    have hL : Linked cfg s [] fun _ _ => True := hs.linked.weaken fun _ _ _ _ _ => trivial
    exact drift_of_sanctuary ((linked_acquire hs.owned hL ht).sieve a (by simp [h1])).1
  · obtain ⟨h1, h2⟩ := acquire_list hc ht
    by_cases hp : s.pool = []
    · rw [if_pos ⟨hc, hp⟩]
      obtain ⟨h3, rfl⟩ := h1 hp
      refine if_pos ⟨(acquire_frame hc hs.owned hs.linked hr ht).2.1, fun hm => ?_⟩
      exact not_held_next hs.owned (hs.linked.prob _ (h3.subset hm)).2
    · rw [if_neg (by simp [hp])]
      obtain ⟨l, -, hl⟩ := h2 hp
      exact drift_of_mem (by simp [hl])

/-- By how much a write of `k` puts the probation counter ahead. It overwrites an entry that
the reaper leaves, and gives back the one it has acquired. One that throws has counted an entry
that is destroyed, if it has made one. -/
def Store.writeDrift (cfg : Config) (s : Store) (k : Bytes) : ℤ :=
  if s.AcquireThrows cfg then if s.pool = [] ∧ cfg.valueFits = true then 1 else 0
  else ((s.map.lookup k).filter fun b => b ∉ reaping cfg s).elim 0 fun old =>
    s.drift old + if cfg.probPoolMaxSize ≠ 0 ∧ s.pool = [] then 1 else 0

def Store.writeDrops (cfg : Config) (s : Store) (k : Bytes) : ℕ :=
  s.noteFallback.acquireDrops cfg + (s.noteFallback.acquire cfg).1.keyDrops cfg k

lemma Books.noteFallback (h : Books cfg s x d m) :
    Sound cfg s.noteFallback ∧ Room cfg s.noteFallback ∧
      Linked cfg s.noteFallback [] (Unlinked cfg) := by
  obtain ⟨n, hn⟩ := noteFallback_frame s
  exact ⟨⟨h.owned.noteFallback.1, h.sound.linked.noteFallback⟩, h.room.congr (by rw [hn]),
    h.linked.noteFallback⟩

/-- **A write**, up to its eviction pass. -/
lemma books_write (h : Books cfg s x d m) (hthrows : ¬ s.AcquireThrows cfg) {t : Store}
    {r : Except LengthError Bool} (hw : s.write cfg k v dl = (t, r)) :
    Ledger cfg t [] (x + s.writeDrift cfg k) (d + s.writeDrops cfg k) m := by
  obtain ⟨hs, hr, hL⟩ := h.noteFallback
  obtain ⟨a, u, hacq, hown⟩ :=
    acquired_acquire hs.owned (Store.acquireThrows_noteFallback.not.mpr hthrows)
  obtain ⟨n, hn⟩ := noteFallback_frame s
  set f : Entry → Entry := fun e =>
    { e with key := k, value := v, expiresAt := dl.getD e.expiresAt } with hf
  rw [Store.write, hacq] at hw
  obtain ⟨rfl, -⟩ := Prod.mk.inj hw
  have h1 := ledger_acquire hs.owned hL h.ledger.noteFallback h.ahead hacq
  have hL1 : Linked cfg u [a] (Unlinked cfg) := by
    refine (linked_acquire hs.owned hL hacq).weaken fun b _ _ _ hU => ?_
    rcases hU with hU | ⟨h1, -, -, h2⟩
    · exact hU
    · exact ⟨h1, h2⟩
  have h2 := ledger_emplace (hown.owned.modify (by simp) f) (hL1.modify f fun _ => rfl)
    (h1.modify (a := a) f fun _ => ⟨rfl, rfl⟩) h.ahead k dl.isSome
  have hdrift : (u.modify a f).emplaceDrift k a = s.writeDrift cfg k := by
    have hmod (c : Addr) : (u.modify a f).drift c = u.drift c := by
      refine drift_congr ?_ Iff.rfl
      rw [u.modify_heap]
      split
      · next hc => rw [hc]
      · rfl
    have hreap : reaping cfg s.noteFallback = reaping cfg s := by rw [hn]; rfl
    have hmap : s.noteFallback.map = s.map := by rw [hn]
    have hlook := acquire_lookup hs.owned hs.linked hacq k
    rw [hreap, hmap] at hlook
    rw [Store.emplaceDrift, Store.writeDrift, if_neg hthrows, Store.modify_map, ← hlook]
    rcases hk : u.map.lookup k with _ | old
    · rfl
    · have h3 : s.noteFallback.drift old = s.drift old := by rw [hn]; rfl
      have h4 : s.noteFallback.pool = s.pool := by rw [hn]
      simp only [Option.elim_some]
      rw [hmod, hmod, acquire_drift hs hr hacq hown.owned hk, acquire_drift_new hs hr hacq, h3, h4]
  have hdrops : s.noteFallback.acquireDrops cfg + (u.modify a f).keyDrops cfg k =
      s.writeDrops cfg k := by
    rw [Store.writeDrops, hacq]
    rfl
  rwa [hdrift, add_assoc, hdrops] at h2

def Store.putDrops (cfg : Config) (s : Store) (k v : Bytes) (dl : Option ℕ) (later : ℕ) : ℕ :=
  if s.AcquireThrows cfg then 0
  else s.writeDrops cfg k + (s.write cfg k v dl).1.passDrops cfg later

/-- The entries that a write records as made and then throws away, or throws before it has made
them. -/
def Store.putLosses (cfg : Config) (s : Store) : ℕ :=
  if s.pool = [] ∧ s.AcquireThrows cfg then 1 else 0

lemma ledger_put (h : Books cfg s x d m) (later : ℕ) :
    ∃ d' m', Ledger cfg (s.put cfg k v dl later).1 [] (x + s.writeDrift cfg k) d' m' ∧
      d' + m' = d + m + s.putDrops cfg k v dl later + s.putLosses cfg ∧
      m' ≤ m + s.putLosses cfg := by
  unfold Store.putDrops Store.putLosses
  by_cases hthrows : s.AcquireThrows cfg
  · obtain ⟨n, hn⟩ := noteFallback_frame s
    obtain ⟨t, e, ht, hrefuses, -⟩ := refused_write h.owned k v dl hthrows
    have h1 := ledger_refuses h.owned.noteFallback.1 h.ledger.noteFallback hrefuses
    have hpool : s.noteFallback.pool = s.pool := by rw [hn]
    rw [hpool] at h1
    rw [Store.put_throws ht, Store.writeDrift]
    simpa only [hthrows, if_true, and_true, add_zero] using h1
  · obtain ⟨t, ht, hw⟩ := written_write h.owned k v dl hthrows
    have h1 := books_write h hthrows ht
    have h2 := ledger_checkMemoryAndEvict hw.owned (linked_write h.owned h.linked ht) h1 later
    rw [Store.put_fst ht, ht]
    refine ⟨_, m, h2, ?_, Nat.le_add_right _ _⟩
    simp only [hthrows, if_false, and_false]
    omega

/-- By how much a read of `k` puts the probation counter ahead. -/
def Store.getDrift (s : Store) (k : Bytes) : ℤ := (s.map.lookup k).elim 0 s.drift

def Store.getDrops (cfg : Config) (s : Store) (k : Bytes) (now : ℕ) : ℕ :=
  (s.map.lookup k).elim 0 fun a => if isExpired now (s.heap a).expiresAt then s.full cfg else 0

lemma ledger_get (h : Books cfg s x d m) (now : ℕ) :
    Ledger cfg (s.get cfg k now).1 [] (x + s.getDrift k) (d + s.getDrops cfg k now) m := by
  have hl := h.ledger
  unfold Store.get Store.getDrift Store.getDrops
  rcases hk : s.map.lookup k with _ | a
  · simpa using hl
  dsimp only [Option.elim_some]
  have hheld : Held s [] a := .inl ⟨k, hk⟩
  split
  · have hT := touch_onErase s a
    have hk' : (s.onErase a).map.lookup k = some a := by rw [hT.map]; exact hk
    have hheap := onErase_heap s a
    obtain ⟨h1, h2, h3⟩ := onErase_counts s a
    have h4 : Ledger cfg (s.onErase a) [] x d m :=
      hl.congr (by rw [Store.live, hT.map, Store.live]) (by rw [hT.pool]) hT.next h3 h1 h2
        fun b => by rw [hheap]; exact ⟨rfl, rfl⟩
    have h5 := ledger_release (owned_erase (hT.owned h.owned) hk').1 (h4.erase hk')
      (fun hc => by rw [show Store.heap _ a = s.heap a from congrFun hheap a]
                    exact h.linked.sanctuary_of_disabled hc hheld) fun _ => h.ahead
    have hdrift : Store.drift { s.onErase a with map := (s.onErase a).map.erase k } a =
        s.drift a :=
      drift_congr (congrArg Entry.poolType (congrFun hheap a)) (by
        rw [show Store.probationList _ = s.probationList from onErase_probationList s a])
    have hfull : Store.full cfg { s.onErase a with map := (s.onErase a).map.erase k } =
        s.full cfg := by
      simp only [Store.full, hT.pool]
    rwa [hdrift, hfull] at h5
  · have h1 := ledger_promote h.owned.held_nodup hl (mem_held.mpr hheld)
      (fun hm => (h.linked.sieve a hm).1) fun _ => h.ahead
    exact h1.modify (a := a) (fun e => { e with visited := true }) fun _ => ⟨rfl, rfl⟩

end Calls

/-! ### Runs -/

/-- By how much a call puts the probation counter ahead. -/
def stepDrift (cfg : Config) (s : Store) (e : Event) : ℤ :=
  match e.call with
  | .set k _ => s.writeDrift cfg k
  | .setWithTtl k _ _ => s.writeDrift cfg k
  | .get k => s.getDrift k

def stepDrops (cfg : Config) (s : Store) (e : Event) : ℕ :=
  match e.call with
  | .set k v => s.putDrops cfg k v none e.later
  | .setWithTtl k v ttl => s.putDrops cfg k v (some (Store.due e.now ttl)) e.later
  | .get k => s.getDrops cfg k e.now

def runDrops (cfg : Config) : Store → List Event → ℕ
  | _, [] => 0
  | s, e :: es => stepDrops cfg s e + runDrops cfg (step cfg s e).1 es

def stepLosses (cfg : Config) (s : Store) (e : Event) : ℕ :=
  match e.call with
  | .set _ _ => s.putLosses cfg
  | .setWithTtl _ _ _ => s.putLosses cfg
  | .get _ => 0

def runLosses (cfg : Config) : Store → List Event → ℕ
  | _, [] => 0
  | s, e :: es => stepLosses cfg s e + runLosses cfg (step cfg s e).1 es

section Runs

variable {cfg : Config} {s : Store} {x : ℤ} {d m : ℕ} {e : Event}

lemma stepDrift_write {k v : Bytes} {dl : Option ℕ} (h : e.Writes k v dl) :
    stepDrift cfg s e = s.writeDrift cfg k ∧
      stepDrops cfg s e = s.putDrops cfg k v dl e.later ∧ stepLosses cfg s e = s.putLosses cfg := by
  obtain ⟨_ | _ | _, _, _⟩ := e
  · obtain ⟨rfl, rfl, rfl⟩ := h; exact ⟨rfl, rfl, rfl⟩
  · obtain ⟨rfl, rfl, rfl⟩ := h; exact ⟨rfl, rfl, rfl⟩
  · exact h.elim

lemma stepDrift_get {k : Bytes} (h : e.call = .get k) :
    stepDrift cfg s e = s.getDrift k ∧ stepDrops cfg s e = s.getDrops cfg k e.now ∧
      stepLosses cfg s e = 0 := by
  unfold stepDrift stepDrops stepLosses
  rw [h]
  exact ⟨rfl, rfl, rfl⟩

lemma stepDrift_nonneg (cfg : Config) (s : Store) (e : Event) : 0 ≤ stepDrift cfg s e := by
  have hwrite (k : Bytes) : 0 ≤ s.writeDrift cfg k := by
    unfold Store.writeDrift
    split
    · split <;> decide
    · rcases (s.map.lookup k).filter _ with _ | old
      · exact le_rfl
      · have := drift_nonneg s old
        simp only [Option.elim_some]
        split <;> omega
  unfold stepDrift
  split
  · exact hwrite _
  · exact hwrite _
  · next k _ =>
    unfold Store.getDrift
    rcases s.map.lookup k with _ | a
    · exact le_rfl
    · exact drift_nonneg s a

lemma ledger_step (h : Books cfg s x d m) (e : Event) :
    ∃ d' m', Ledger cfg (step cfg s e).1 [] (x + stepDrift cfg s e) d' m' ∧
      d' + m' = d + m + stepDrops cfg s e + stepLosses cfg s e ∧
      m' ≤ m + stepLosses cfg s e := by
  rcases e.cases with ⟨k, v, dl, he⟩ | ⟨k, he⟩
  · obtain ⟨h1, h2, h3⟩ := stepDrift_write (s := s) he
    rw [step_write cfg s he, h1, h2, h3]
    exact ledger_put h e.later
  · obtain ⟨h1, h2, h3⟩ := stepDrift_get (s := s) he
    rw [step_get cfg s he, h1, h2, h3]
    exact ⟨_, m, ledger_get h e.now, by omega, le_rfl⟩

/-- **The books stay balanced** over a call. -/
lemma books_step (h : Books cfg s x d m) (e : Event) :
    ∃ d' m', Books cfg (step cfg s e).1 (x + stepDrift cfg s e) d' m' ∧
      d' + m' = d + m + stepDrops cfg s e + stepLosses cfg s e ∧
      m' ≤ m + stepLosses cfg s e := by
  obtain ⟨d', m', hledger, hcount⟩ := ledger_step h e
  refine ⟨d', m', ⟨owned_step cfg h.owned e, ?_, room_step h.sound h.room e, hledger, ?_⟩, hcount⟩
  · refine (linked_step h.owned h.linked e).weaken ?_
    rintro a - - - (hU | ⟨hc, -, hU⟩)
    · exact hU
    · exact ⟨hc, hU⟩
  · have := stepDrift_nonneg cfg s e
    have := h.ahead
    omega

/-- **The books stay balanced** over a run. -/
lemma books_run (h : Books cfg s x d m) (es : List Event) :
    ∃ y d' m', Books cfg (run cfg s es) y d' m' ∧
      d' + m' = d + m + runDrops cfg s es + runLosses cfg s es ∧
      m' ≤ m + runLosses cfg s es := by
  induction es generalizing s x d m with
  | nil => exact ⟨x, d, m, h, rfl, le_rfl⟩
  | cons e es ih =>
    obtain ⟨d₁, m₁, h₁, hcount₁, hle₁⟩ := books_step h e
    obtain ⟨y, d₂, m₂, h₂, hcount₂, hle₂⟩ := ih h₁
    refine ⟨y, d₂, m₂, h₂, ?_, ?_⟩
    · rw [runDrops, runLosses]
      omega
    · rw [runLosses]
      omega

/-- An entry is thrown away in a run if a write of it throws and has found the pool empty. -/
lemma runLosses_eq_zero_iff (cfg : Config) (s : Store) (es : List Event) :
    runLosses cfg s es = 0 ↔ ∀ es' e, es' ++ [e] <+: es → ∀ k v dl, e.Writes k v dl →
      ¬ ((run cfg s es').pool = [] ∧ (run cfg s es').AcquireThrows cfg) := by
  have hstep (s : Store) (e : Event) : stepLosses cfg s e = 0 ↔ ∀ k v dl, e.Writes k v dl →
      ¬ (s.pool = [] ∧ s.AcquireThrows cfg) := by
    rcases e.cases with ⟨k, v, dl, he⟩ | ⟨k, he⟩
    · rw [(stepDrift_write he).2.2, Store.putLosses]
      exact ⟨fun h _ _ _ _ hloss => by simp [hloss] at h, fun h => if_neg (h k v dl he)⟩
    · rw [(stepDrift_get he).2.2]
      refine ⟨fun _ k' v dl hw => ?_, fun _ => rfl⟩
      rw [Event.Writes, he] at hw
      exact hw.elim
  induction es generalizing s with
  | nil => exact ⟨fun _ es' e hes => by simp at hes, fun _ => rfl⟩
  | cons e es ih =>
    rw [runLosses, Nat.add_eq_zero_iff]
    refine (and_congr (hstep s e) (ih _)).trans ?_
    constructor
    · rintro ⟨hhead, htail⟩ (_ | ⟨e₁, es'⟩) e' hes
      · obtain ⟨rfl, -⟩ := List.cons_prefix_cons.mp hes
        exact hhead
      · obtain ⟨rfl, htl⟩ := List.cons_prefix_cons.mp hes
        exact htail es' e' htl
    · intro h
      exact ⟨h [] e (by simp), fun es' e' hes =>
        h (e :: es') e' (List.cons_prefix_cons.mpr ⟨rfl, hes⟩)⟩

end Runs

/-- The pool and the map own every entry that was ever made and not destroyed by a release to a
full pool, and between them at least as many as the pool started with. None is owned twice, those
in the map and no others are in use, and those in the pool are as new. -/
structure Conserved (cfg : Config) (s : Store) (drops : ℕ) : Prop where
  room : s.pool.length ≤ cfg.maxSize
  usedSlots : s.usedSlots cfg = (cfg.maxSize - s.pool.length) % 2 ^ 64
  slots : s.pool.length + s.size + drops = cfg.maxSize + s.poolFallbackAllocs
  made : s.next = cfg.maxSize + s.poolFallbackAllocs
  floor : cfg.maxSize ≤ s.pool.length + s.size
  once : (s.pool ++ s.live).Nodup
  inUse : ∀ a, (s.heap a).inUse = true ↔ ∃ k, s.map.lookup k = some a
  fresh : ∀ a ∈ s.pool, s.heap a = {}

/-- Only the count of the entries can go wrong. -/
lemma conserved_iff (cfg : Config) (es : List Event) :
    Conserved cfg (run cfg (start cfg) es) (runDrops cfg (start cfg) es) ↔
      runLosses cfg (start cfg) es = 0 := by
  obtain ⟨y, d, m, h, hcount, hle⟩ := books_run (books_start cfg) es
  set s := run cfg (start cfg) es
  have hsize : (s.live ++ []).length = s.size := by simp [Store.live, Store.size]
  have hslots := h.ledger.slots
  have hfloor := h.ledger.floor
  have hmade : cfg.maxSize + s.poolFallbackAllocs = s.next + m := h.ledger.made.symm
  rw [hsize] at hslots hfloor
  rw [zero_add] at hcount hle
  constructor
  · intro hc
    have := hc.slots
    omega
  · intro hz
    have hnext : cfg.maxSize + s.poolFallbackAllocs = s.next := by omega
    refine ⟨h.room, ?_, by omega, hnext.symm, hfloor, ?_, fun a => ?_,
      fun a ha => (h.owned.poolNew a ha).2⟩
    · have hroom : s.pool.length ≤ cfg.maxSize := h.room
      rw [Store.usedSlots, Nat.add_comm, Nat.add_sub_assoc hroom, Nat.add_mod_left]
    · have hlive := h.owned.held_nodup
      rw [List.append_nil] at hlive
      refine List.nodup_append'.mpr ⟨h.owned.poolNodup, hlive, fun a ha hm => ?_⟩
      obtain ⟨k, hk⟩ := mem_live.mp hm
      exact (h.owned.mapOnly k a hk).2.1 ha
    · rw [h.ledger.used, List.append_nil, mem_live]

/-- **No slot is lost and none is doubled** along a run exactly when no write that finds the pool
empty throws. -/
theorem slots_conserved_iff (cfg : Config) (es : List Event) :
    (∀ es', es' <+: es →
        Conserved cfg (run cfg (start cfg) es') (runDrops cfg (start cfg) es')) ↔
      ∀ es' e, es' ++ [e] <+: es → ∀ k v dl, e.Writes k v dl →
        ¬ ((run cfg (start cfg) es').pool = [] ∧ (run cfg (start cfg) es').AcquireThrows cfg) := by
  constructor
  · intro h
    exact (runLosses_eq_zero_iff cfg _ es).mp ((conserved_iff cfg es).mp (h es List.prefix_rfl))
  · intro h es' hes
    refine (conserved_iff cfg es').mpr ((runLosses_eq_zero_iff cfg _ es').mpr fun es₁ e h₁ => ?_)
    exact h es₁ e (h₁.trans hes)

/-- The entry that the second write makes is gone, and neither the pool nor the map has it. -/
theorem not_conserved_vast :
    (run vast (start vast) setAgain).pool.length = 0 ∧ (run vast (start vast) setAgain).size = 1 ∧
      (run vast (start vast) setAgain).poolFallbackAllocs = 1 ∧
      runDrops vast (start vast) setAgain = 0 ∧
      ¬ Conserved vast (run vast (start vast) setAgain) (runDrops vast (start vast) setAgain) := by
  have h1 : (run vast (start vast) setAgain).pool.length = 0 := by decide
  have h2 : (run vast (start vast) setAgain).size = 1 := by decide
  have h3 : (run vast (start vast) setAgain).poolFallbackAllocs = 1 := by decide
  have h4 : runDrops vast (start vast) setAgain = 0 := by decide
  refine ⟨h1, h2, h3, h4, fun h => ?_⟩
  have hslots := h.slots
  rw [h1, h2, h3, h4] at hslots
  cases hslots

end ShunyaKV.Shard
