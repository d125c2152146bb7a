import ShunyaKV.Shard.Balance

/-!
The reaper between two calls.

Entries join the probation list at its end and leave it from anywhere, so that it is always
in the order in which its entries have come. The reaper takes them from the front.
-/

namespace ShunyaKV.Shard

section Order

variable {cfg : Config} {s : Store} {k v : Bytes} {d : Option ℕ}

/-- At most one entry joins the list, at its end. -/
def Joins (s t : Store) : Prop :=
  ∃ new : List Addr, new.length ≤ 1 ∧ t.probationList.Sublist (s.probationList ++ new)

lemma Joins.of_sublist {t : Store} (h : t.probationList.Sublist s.probationList) : Joins s t :=
  ⟨[], by simp, by simpa using h⟩

lemma Joins.trans_sublist {t u : Store} (h : Joins s t)
    (h' : u.probationList.Sublist t.probationList) : Joins s u := by
  obtain ⟨new, hlen, hsub⟩ := h
  exact ⟨new, hlen, h'.trans hsub⟩

lemma promote_sublist (s : Store) (a : Addr) :
    (s.promoteToSanctuary a).probationList.Sublist s.probationList := by
  have hinsert (t : Store) : (t.onInsert a).probationList = t.probationList := by
    unfold Store.onInsert
    split <;> rfl
  unfold Store.promoteToSanctuary
  split
  · exact List.Sublist.refl _
  · show ((s.removeFromProbation a).onInsert a).probationList.Sublist _
    rw [hinsert]
    exact removeFromProbation_sublist s a

lemma doAcquire_probationList {t : Store} {a : Addr} (h : s.doAcquire cfg = (t, .ok (some a))) :
    t.probationList = s.probationList := by
  have hlink (u : Store) : (u.linkSanctuary a).probationList = u.probationList := by
    unfold Store.linkSanctuary Store.onInsert
    dsimp only
    split <;> rfl
  obtain ⟨u, rfl, ⟨-, rfl, rfl⟩ | ⟨pool, -, rfl⟩⟩ := Store.doAcquire_eq_some h <;> rw [hlink]
  rfl

lemma joins_acquire {t : Store} {a : Addr} (h : s.acquire cfg = (t, .ok (some a))) :
    Joins s t := by
  by_cases hc : cfg.probPoolMaxSize = 0
  · rw [Store.acquire, if_pos hc] at h
    exact .of_sublist (by rw [doAcquire_probationList h])
  · obtain ⟨h1, h2⟩ := acquire_list hc h
    by_cases hp : s.pool = []
    · exact .of_sublist (h1 hp).1
    · obtain ⟨l, hl, hl'⟩ := h2 hp
      exact ⟨[a], by simp, by rw [hl']; exact hl.append_right [a]⟩

lemma emplace_sublist (cfg : Config) (s : Store) (k : Bytes) (a : Addr) (updateTtl : Bool) :
    (s.emplace cfg k a updateTtl).probationList.Sublist s.probationList := by
  unfold Store.emplace
  rcases s.map.lookup k with _ | old
  · exact List.Sublist.refl _
  · exact (release_sublist cfg _ a).2.trans (promote_sublist _ old)

lemma joins_put (hs : Sound cfg s) (later : ℕ) : Joins s (s.put cfg k v d later).1 := by
  obtain ⟨n, hn⟩ := noteFallback_frame s
  by_cases hthrows : s.AcquireThrows cfg
  · obtain ⟨t, e, ht, hrefuses, -⟩ := refused_write hs.owned k v d hthrows
    rw [Store.put_throws ht]
    refine .of_sublist ?_
    rw [hrefuses.probationList, hn]
  obtain ⟨a, t, hacq, -⟩ := acquired_acquire hs.owned.noteFallback.1
    (Store.acquireThrows_noteFallback.not.mpr hthrows)
  obtain ⟨u, hu, hw⟩ := written_write hs.owned k v d hthrows
  have hjoins : Joins s t := by
    have := joins_acquire hacq
    rwa [hn] at this
  have hu' : u.probationList.Sublist t.probationList := by
    have h := hu
    rw [Store.write, hacq] at h
    rw [← (Prod.mk.inj h).1]
    exact emplace_sublist cfg _ k a d.isSome
  obtain ⟨w, h1, -, -, h2, -, -⟩ :=
    checkMemoryAndEvict_eq hw.owned (linked_write hs.owned hs.linked hu) later
  rw [Store.put_fst hu, h1]
  refine hjoins.trans_sublist (((evictKeys_sublist cfg w _).2).trans ?_)
  rwa [h2]

lemma get_sublist (cfg : Config) (s : Store) (k : Bytes) (now : ℕ) :
    (s.get cfg k now).1.probationList.Sublist s.probationList := by
  unfold Store.get
  rcases s.map.lookup k with _ | a
  · exact List.Sublist.refl _
  · dsimp only
    split
    · refine (release_sublist cfg _ a).2.trans ?_
      show (s.onErase a).probationList.Sublist _
      rw [onErase_probationList]
    · exact promote_sublist s a

/-- **The probation list is in the order of its insertions.** -/
lemma joins_step (hs : Sound cfg s) (e : Event) : Joins s (step cfg s e).1 := by
  rcases e.cases with ⟨k, v, d, he⟩ | ⟨k, he⟩
  · rw [step_write cfg s he]
    exact joins_put hs e.later
  · rw [step_get cfg s he]
    exact .of_sublist (get_sublist cfg s k e.now)

end Order

/-- A run of the reaper on the store `s`, with the entries `vs` as its victims. -/
structure Reaps (cfg : Config) (s t : Store) (vs : List Addr) : Prop where
  /-- The first entries of the list, and the rest stays. -/
  list : s.probationList = vs ++ t.probationList
  /-- Their keys are in the map, and no others are removed. -/
  present : ∀ a ∈ vs, s.map.lookup (s.heap a).key = some a
  map : ∀ k, t.map.lookup k =
    if k ∈ vs.map (fun a => (s.heap a).key) then none else s.map.lookup k
  sanctuary : t.sieveList = s.sieveList ∧ t.hand = s.hand ∧ t.sancCount = s.sancCount
  others : ∀ b ∉ vs, t.heap b = s.heap b
  /-- The count does not wrap. -/
  counted : t.probCount + vs.length = s.probCount
  evictions : t.evictionCount = s.evictionCount + vs.length ∧
    t.probEvictionCount = s.probEvictionCount + vs.length
  pool : t.pool.length = min cfg.maxSize (s.pool.length + vs.length)

lemma reaped_probEvictionCount (cfg : Config) (s : Store) :
    (s.reaped cfg).probEvictionCount =
      s.probEvictionCount + (s.probationList.take cfg.reach).length := by
  unfold Store.reaped
  split
  · next hnil => simp [hnil]
  · rfl

lemma reaped_sancCount (cfg : Config) (s : Store) : (s.reaped cfg).sancCount = s.sancCount := by
  unfold Store.reaped
  split <;> rfl

lemma reaps_nil {cfg : Config} {s : Store} (hr : Room cfg s) (h : s.probationList = []) :
    Reaps cfg s (s.runSequentialReaper cfg).1 [] := by
  unfold Room at hr
  rw [Store.runSequentialReaper, if_pos h]
  refine ⟨rfl, by simp, by simp, ⟨rfl, rfl, rfl⟩, fun _ _ => rfl, rfl, ⟨rfl, rfl⟩, ?_⟩
  show s.pool.length = _
  rw [List.length_nil]
  omega

lemma reaps_of_linked {cfg : Config} {s : Store} {U : PoolType → Addr → Prop}
    (hc : cfg.probPoolMaxSize ≠ 0) (ho : Owned s []) (hL : Linked cfg s [] U) (hr : Room cfg s)
    (hle : (s.probationList.take cfg.reach).length ≤ s.probCount) :
    Reaps cfg s (s.runSequentialReaper cfg).1 (s.probationList.take cfg.reach) := by
  set vs := s.probationList.take cfg.reach with hvs
  have h := discharged_reaper hc ho hL hr (by simp)
  have ht := touch_reaped cfg s
  have hpresent (a : Addr) (ha : a ∈ vs) : s.map.lookup (s.heap a).key = some a := by
    obtain ⟨k, hk⟩ := (hL.prob a (List.mem_of_mem_take ha)).2.resolve_right (by simp)
    rw [ho.keyed k a hk, hk]
  have hcount : (s.reaped cfg).probCount = s.probCount - vs.length := by
    rw [Store.reaped_probCount]
    exact decU64_iterate hle
  refine ⟨?_, hpresent, fun k => ?_, ?_, fun b hb => ?_, ?_, ⟨?_, ?_⟩, ?_⟩
  · rw [h.probation, Store.reaped_probationList, hvs, List.take_append_drop]
  · rw [Store.runSequentialReaper_eq, evictKeys_lookup, ht.map]
  · rw [h.sieve.1, h.sieve.2, h.counts.2.1, Store.reaped_sieveList, Store.reaped_hand,
      reaped_sancCount]
    exact ⟨rfl, rfl, rfl⟩
  · rw [h.heap b hb, Store.reaped_heap]
  · rw [h.counts.1, hcount]
    omega
  · rw [h.evictions, ht.evictions]
  · rw [h.counts.2.2, reaped_probEvictionCount]
  · rw [h.pool, ht.pool]

/-- The reaper with a budget, on the store `s`: it returns, and its victims are as many entries as
the budget and the list allow. -/
def ReapsFifo (cfg : Config) (s : Store) (budget : ℕ) : Prop :=
  (s.runSequentialReaper { cfg with reaperBudget := budget }).2 = .ok () ∧
    ∃ vs : List Addr, vs.length = min budget s.probationList.length ∧
      Reaps cfg s (s.runSequentialReaper { cfg with reaperBudget := budget }).1 vs

lemma Linked.withBudget {cfg : Config} {s : Store} {fl : List Addr} {U : PoolType → Addr → Prop}
    (h : Linked cfg s fl U) (budget : ℕ) : Linked { cfg with reaperBudget := budget } s fl U :=
  ⟨h.sieveNodup, h.probNodup, h.sieve, h.prob, h.handMem, h.handNone, h.covered, h.disabled⟩

lemma Reaps.anyBudget {cfg : Config} {s t : Store} {vs : List Addr} (budget : ℕ)
    (h : Reaps { cfg with reaperBudget := budget } s t vs) : Reaps cfg s t vs :=
  ⟨h.list, h.present, h.map, h.sanctuary, h.others, h.counted, h.evictions, h.pool⟩

/-- The counter is not behind the list, so that it does not wrap. -/
lemma Books.take_le_probCount {cfg : Config} {s : Store} {x : ℤ} {d m : ℕ}
    (h : Books cfg s x d m) (n : ℕ) : (s.probationList.take n).length ≤ s.probCount := by
  have hle := h.linked.length_le_tally n
  have hcount := h.ledger.probation
  have hahead := h.ahead
  omega

lemma Books.reapsFifo {cfg : Config} {s : Store} {x : ℤ} {d m budget : ℕ} (h : Books cfg s x d m)
    (hroom : budget < 2 ^ 59 ∨ s.probationList = []) : ReapsFifo cfg s budget := by
  have hthrows : ¬ s.ReaperThrows { cfg with reaperBudget := budget } := by
    rintro ⟨hne, hbig⟩
    unfold vectorMaxSize at hbig
    exact hroom.elim (by dsimp only at hbig; omega) hne
  refine ⟨by rw [Store.runSequentialReaper_eq, if_neg hthrows], s.probationList.take budget,
    List.length_take, Reaps.anyBudget budget ?_⟩
  by_cases hnil : s.probationList = []
  · rw [hnil, List.take_nil]
    exact reaps_nil h.room hnil
  · have hlinked := h.linked.withBudget budget
    have hreaps := reaps_of_linked (fun hc => hnil (hlinked.disabled hc)) h.owned hlinked h.room
      (h.take_le_probCount _)
    rwa [Store.take_reach hthrows] at hreaps

/-- A reaper that throws has no victims. -/
lemma not_reapsFifo {cfg : Config} {s : Store} {budget : ℕ} (hne : s.probationList ≠ [])
    (hbig : vectorMaxSize < budget) : ¬ ReapsFifo cfg s budget := by
  rintro ⟨hok, -⟩
  rw [Store.runSequentialReaper_throws ⟨hne, hbig⟩] at hok
  cases hok

/-- **The reaper is first-in first-out and exact** after any calls, as long as there is room for
its victims or it has nothing to do. It takes as many entries from the front of its list as the
budget and the list allow, removes their keys, which are all there, and nothing else, counts each
of them once and gives it to the pool. The list is in the order of its insertions, since every
call adds at most one entry to it, at the end. -/
theorem reaper_fifo_iff (cfg : Config) (es : List Event) (budget : ℕ) :
    (ReapsFifo cfg (run cfg (start cfg) es) budget ∧
      ∀ e, ∃ new : List Addr, new.length ≤ 1 ∧
        (run cfg (start cfg) (es ++ [e])).probationList.Sublist
          ((run cfg (start cfg) es).probationList ++ new)) ↔
      budget < 2 ^ 59 ∨ (run cfg (start cfg) es).probationList = [] := by
  obtain ⟨x, d, m, hb, -⟩ := books_run (books_start cfg) es
  set s := run cfg (start cfg) es with hs
  have hjoins (e : Event) : Joins s (run cfg (start cfg) (es ++ [e])) := by
    rw [run_append]
    exact joins_step hb.sound e
  constructor
  · rintro ⟨hreaps, -⟩
    by_contra hcon
    obtain ⟨hbig, hne⟩ := not_or.mp hcon
    exact not_reapsFifo hne (by unfold vectorMaxSize; omega) hreaps
  · exact fun hroom => ⟨hb.reapsFifo hroom, hjoins⟩

/-- With one entry in probation a budget of `2 ^ 59` removes none. -/
theorem not_reapsFifo_vast :
    (run onePlace (start onePlace) (replaced.take 1)).probationList = [0] ∧
      ((run onePlace (start onePlace) (replaced.take 1)).runSequentialReaper vast).1.probationList =
        [0] ∧
      ¬ ReapsFifo onePlace (run onePlace (start onePlace) (replaced.take 1)) (2 ^ 59) :=
  ⟨by decide, by decide, not_reapsFifo (by decide) (by decide)⟩

end ShunyaKV.Shard
