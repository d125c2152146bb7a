import Mathlib.Tactic.Ring
import ShunyaKV.Shard.OwnWrite

/-!
The books of the pool.

The two counters are held against the entries in use, and the addresses given out against
those that the pool, the map and the calls own. Two amounts keep the books balanced: by how
much the probation counter is ahead, and how many entries have been destroyed. Each function
of the pool says what it adds to them.
-/

namespace ShunyaKV.Shard

def Store.live (s : Store) : List Addr := s.map.entries.map Sigma.snd

def Store.tally (s : Store) (fl : List Addr) (ty : PoolType) : ℕ :=
  (s.live ++ fl).countP fun a => (s.heap a).poolType = ty

def Store.full (cfg : Config) (s : Store) : ℕ := if s.pool.length < cfg.maxSize then 0 else 1

/-- The entry is in probation and in no list. -/
def Store.Stray (s : Store) (a : Addr) : Prop :=
  (s.heap a).poolType = .probation ∧ a ∉ s.probationList

instance (s : Store) (a : Addr) : Decidable (s.Stray a) := inferInstanceAs (Decidable (_ ∧ _))

/-- By how much the probation counter gets ahead when the entry goes out of probation. -/
def Store.drift (s : Store) (a : Addr) : ℤ := if s.Stray a then 1 else 0

/-- The books: the probation counter is `x` ahead, `d` entries have been destroyed, and `m`
have been recorded as made outside the pool and are not made yet. -/
structure Ledger (cfg : Config) (s : Store) (fl : List Addr) (x : ℤ) (d m : ℕ) : Prop where
  probation : (s.probCount : ℤ) = s.tally fl .probation + x
  sanctuary : s.sancCount = s.tally fl .sanctuary
  slots : s.pool.length + (s.live ++ fl).length + d = s.next
  made : s.next + m = cfg.maxSize + s.poolFallbackAllocs
  floor : cfg.maxSize ≤ s.pool.length + (s.live ++ fl).length
  used : ∀ a, (s.heap a).inUse = true ↔ a ∈ s.live ++ fl

lemma ledger_start (cfg : Config) : Ledger cfg (start cfg) [] 0 0 0 := by
  constructor <;> simp [start, Store.live, Store.tally]

/-! ### The entries of the map -/

section Live

variable {s : Store} {fl : List Addr} {k : Bytes} {a : Addr}

lemma mem_live : a ∈ s.live ↔ ∃ k, s.map.lookup k = some a := by
  simp only [Store.live, List.mem_map, Sigma.exists, exists_eq_right]
  exact exists_congr fun k => (AList.mem_lookup_iff (s := s.map)).symm

lemma mem_held : a ∈ s.live ++ fl ↔ Held s fl a := by
  rw [List.mem_append, mem_live, Held]

lemma live_insert (h : s.map.lookup k = none) :
    Store.live { s with map := s.map.insert k a } = a :: s.live := by
  simp only [Store.live, AList.entries_insert_of_notMem (AList.lookup_eq_none.mp h), List.map_cons]

lemma live_erase (h : s.map.lookup k = some a) :
    s.live.Perm (a :: Store.live { s with map := s.map.erase k }) := by
  have hk : k ∈ s.map.entries.keys := AList.lookup_isSome.mp (by simp [h])
  obtain ⟨b, l₁, l₂, -, h1, h2⟩ := List.exists_of_kerase hk
  have hb : s.map.lookup k = some b := AList.mem_lookup_iff.mpr (by rw [h1]; simp)
  obtain rfl : b = a := Option.some.inj (hb.symm.trans h)
  have h3 : (s.map.erase k).entries = l₁ ++ l₂ := h2
  simp only [Store.live, h1, h3, List.map_append, List.map_cons]
  exact List.perm_middle

lemma Owned.held_nodup (ho : Owned s fl) : (s.live ++ fl).Nodup := by
  refine List.nodup_append'.mpr ⟨?_, ho.flNodup, ?_⟩
  · refine List.Nodup.map_on ?_ (List.nodupKeys_iff_pairwise.mp s.map.nodupKeys |>.imp ?_)
    · rintro ⟨k, b⟩ hk ⟨k', b'⟩ hk' rfl
      obtain rfl := ho.inj (AList.mem_lookup_iff.mpr hk) (AList.mem_lookup_iff.mpr hk')
      rfl
    · rintro x y hxy rfl
      exact hxy rfl
  · intro b hb hfl
    obtain ⟨k, hk⟩ := mem_live.mp hb
    exact (ho.mapOnly k b hk).2.2 hfl

end Live

/-! ### Entries that come and go -/

section Moves

variable {cfg : Config} {s t : Store} {fl fl' : List Addr} {x : ℤ} {d m : ℕ} {a : Addr}

/-- Entries pass between the map and the calls, and nothing the books go by changes. -/
lemma Ledger.congr (h : Ledger cfg s fl x d m) (hheld : (t.live ++ fl').Perm (s.live ++ fl))
    (hpool : t.pool.length = s.pool.length) (hnext : t.next = s.next)
    (hmade : t.poolFallbackAllocs = s.poolFallbackAllocs) (hprob : t.probCount = s.probCount)
    (hsanc : t.sancCount = s.sancCount)
    (hheap : ∀ a, (t.heap a).poolType = (s.heap a).poolType ∧
      (t.heap a).inUse = (s.heap a).inUse) : Ledger cfg t fl' x d m := by
  have htally (ty : PoolType) : t.tally fl' ty = s.tally fl ty := by
    simp only [Store.tally, hheld.countP_eq, (hheap _).1]
  refine ⟨?_, ?_, ?_, ?_, ?_, fun a => ?_⟩
  · rw [hprob, htally, h.probation]
  · rw [hsanc, htally, h.sanctuary]
  · rw [hpool, hheld.length_eq, hnext, h.slots]
  · rw [hnext, hmade, h.made]
  · rw [hpool, hheld.length_eq]; exact h.floor
  · rw [(hheap a).2, hheld.mem_iff, h.used]

lemma Ledger.modify (h : Ledger cfg s fl x d m) (f : Entry → Entry)
    (hf : ∀ e, (f e).poolType = e.poolType ∧ (f e).inUse = e.inUse) :
    Ledger cfg (s.modify a f) fl x d m := by
  refine h.congr (List.Perm.refl _) rfl rfl rfl rfl rfl fun b => ?_
  rw [s.modify_heap]
  split
  · next hb => subst hb; exact hf _
  · exact ⟨rfl, rfl⟩

lemma Ledger.erase {k : Bytes} (h : Ledger cfg s fl x d m) (hk : s.map.lookup k = some a) :
    Ledger cfg { s with map := s.map.erase k } (a :: fl) x d m := by
  refine h.congr ?_ rfl rfl rfl rfl rfl fun _ => ⟨rfl, rfl⟩
  refine List.perm_middle.trans ?_
  rw [← List.cons_append]
  exact (live_erase hk).symm.append_right fl

lemma Ledger.insert {k : Bytes} (h : Ledger cfg s (a :: fl) x d m) (hk : s.map.lookup k = none) :
    Ledger cfg { s with map := s.map.insert k a } fl x d m := by
  refine h.congr ?_ rfl rfl rfl rfl rfl fun _ => ⟨rfl, rfl⟩
  rw [live_insert hk]
  exact List.perm_middle.symm

lemma tally_cons (ha : a ∉ s.live ++ fl) (hmap : t.map = s.map)
    (hheap : ∀ b ≠ a, (t.heap b).poolType = (s.heap b).poolType) (ty : PoolType) :
    t.tally (a :: fl) ty = s.tally fl ty + if (t.heap a).poolType = ty then 1 else 0 := by
  have hlive : t.live = s.live := by rw [Store.live, hmap, Store.live]
  have hcount : (s.live ++ fl).countP (fun b => (t.heap b).poolType = ty) = s.tally fl ty := by
    refine List.countP_congr fun b hb => ?_
    rw [hheap b (by rintro rfl; exact ha hb)]
  rw [Store.tally, hlive, List.perm_middle.countP_eq, List.countP_cons, hcount]
  simp

/-- **An entry comes into use**, from the pool or newly made, and is counted. -/
lemma Ledger.enter {m' : ℕ} (h : Ledger cfg s fl x d m) (ha : a ∉ s.live ++ fl)
    (hmap : t.map = s.map) (hslot : t.pool.length + 1 + s.next = s.pool.length + t.next)
    (hpool : s.pool.length ≤ t.pool.length + 1)
    (hmade : t.next + m' = cfg.maxSize + t.poolFallbackAllocs)
    (hheap : ∀ b ≠ a, t.heap b = s.heap b) (hused : (t.heap a).inUse = true)
    (hprob : t.probCount = s.probCount + if (t.heap a).poolType = .probation then 1 else 0)
    (hsanc : t.sancCount = s.sancCount + if (t.heap a).poolType = .sanctuary then 1 else 0) :
    Ledger cfg t (a :: fl) x d m' := by
  have hlive : t.live = s.live := by rw [Store.live, hmap, Store.live]
  have htally := tally_cons ha hmap fun b hb => by rw [hheap b hb]
  refine ⟨?_, ?_, ?_, hmade, ?_, fun b => ?_⟩
  · have := h.probation
    rw [htally, hprob]
    push_cast
    omega
  · rw [htally, hsanc, h.sanctuary]
  · have := h.slots
    simp only [hlive, List.length_append, List.length_cons] at this ⊢
    omega
  · have := h.floor
    simp only [hlive, List.length_append, List.length_cons] at this ⊢
    omega
  · rw [hlive, List.mem_append, List.mem_cons, or_left_comm, ← List.mem_append]
    by_cases hb : b = a
    · simp [hb, hused]
    · rw [hheap b hb, h.used b]
      simp [hb]

/-- **An entry goes out of use**, `t` having its counters and links settled, and back to the
pool if there is a place for it. -/
lemma Ledger.leave {y : ℤ} (h : Ledger cfg s (a :: fl) x d m) (ha : a ∉ s.live ++ fl)
    (hmap : t.map = s.map) (hpool : t.pool = s.pool) (hnext : t.next = s.next)
    (hmade : t.poolFallbackAllocs = s.poolFallbackAllocs) (hheap : t.heap = s.heap)
    (hprob : (t.probCount : ℤ) = s.probCount + y -
      if (s.heap a).poolType = .probation then 1 else 0)
    (hsanc : t.sancCount + (if (s.heap a).poolType = .sanctuary then 1 else 0) = s.sancCount) :
    Ledger cfg ((t.modify a Store.clear).putBack cfg a) fl (x + y) (d + s.full cfg) m := by
  set u := (t.modify a Store.clear).putBack cfg a with hu
  have humap : u.map = s.map := by rw [hu, (putBack_lists cfg _ a).2.2.2]; exact hmap
  have hlive : u.live = s.live := by rw [Store.live, humap, Store.live]
  have huheap (b : Addr) : u.heap b = if b = a then {} else s.heap b := by
    rw [hu, putBack_heap, t.modify_heap, hheap, clear_eq]
  have hau : a ∉ u.live ++ fl := by rwa [hlive]
  have htally := tally_cons hau humap.symm fun b hb => by rw [huheap, if_neg hb]
  have hcounts : u.probCount = t.probCount ∧ u.sancCount = t.sancCount ∧ u.next = t.next ∧
      u.poolFallbackAllocs = t.poolFallbackAllocs := by
    rw [hu, Store.putBack]; split <;> exact ⟨rfl, rfl, rfl, rfl⟩
  have hlen : u.pool.length + s.full cfg = s.pool.length + 1 := by
    rw [hu, Store.putBack, Store.full, Store.modify_pool, hpool]
    split <;> simp [hpool]
  have hfull : s.full cfg = 0 ∨ cfg.maxSize ≤ s.pool.length := by
    unfold Store.full
    split
    · exact .inl rfl
    · next hp => exact .inr (Nat.le_of_not_lt hp)
  have hfull' : s.full cfg ≤ 1 := by unfold Store.full; split <;> decide
  obtain ⟨h1, h2, h3, h4⟩ := hcounts
  refine ⟨?_, ?_, ?_, ?_, ?_, fun b => ?_⟩
  · have := h.probation
    rw [htally] at this
    rw [h1, hprob, this]
    push_cast
    ring
  · have := h.sanctuary
    rw [htally] at this
    omega
  · have := h.slots
    rw [h3, hnext]
    simp only [hlive, List.length_append, List.length_cons] at this ⊢
    omega
  · rw [h3, h4, hnext, hmade, h.made]
  · have := h.floor
    simp only [hlive, List.length_append, List.length_cons] at this ⊢
    omega
  · rw [huheap, hlive]
    by_cases hb : b = a
    · simp [hb, ha]
    · rw [if_neg hb, h.used b]
      simp [hb]

end Moves

/-! ### Counting down -/

section Drift

variable {s : Store} {a : Addr}

lemma drift_nonneg (s : Store) (a : Addr) : 0 ≤ s.drift a := by
  unfold Store.drift; split <;> decide

lemma drift_of_sanctuary (h : (s.heap a).poolType = .sanctuary) : s.drift a = 0 :=
  if_neg fun hs => by rw [hs.1] at h; cases h

lemma drift_congr {t : Store} (hty : (t.heap a).poolType = (s.heap a).poolType)
    (hl : a ∈ t.probationList ↔ a ∈ s.probationList) : t.drift a = s.drift a :=
  if_congr (by rw [Store.Stray, Store.Stray, hty, hl]) rfl rfl

lemma drift_of_mem (h : a ∈ s.probationList) : s.drift a = 0 := if_neg fun hs => hs.2 h

end Drift

section Release

variable {cfg : Config} {s : Store} {fl : List Addr} {x : ℤ} {d m : ℕ} {a : Addr}

/-- An entry in use is in the tally of its pool type. -/
lemma tally_pos {ty : PoolType} (ha : a ∈ s.live ++ fl) (ht : (s.heap a).poolType = ty) :
    0 < s.tally fl ty :=
  List.countP_pos_iff.mpr ⟨a, ha, by simp [ht]⟩

lemma Ledger.probCount_pos (h : Ledger cfg s fl x d m) (hx : 0 ≤ x) (ha : a ∈ s.live ++ fl)
    (ht : (s.heap a).poolType = .probation) : 0 < s.probCount := by
  have h1 := h.probation
  have h2 := tally_pos ha ht
  omega

lemma removeFromProbation_counts (s : Store) (a : Addr) :
    (s.removeFromProbation a).sancCount = s.sancCount ∧
      (s.removeFromProbation a).poolFallbackAllocs = s.poolFallbackAllocs := by
  unfold Store.removeFromProbation; split <;> exact ⟨rfl, rfl⟩

/-- Taking an entry out of probation counts down, unless the entry is a stray. -/
lemma removeFromProbation_probCount (ht : (s.heap a).poolType = .probation)
    (hpos : a ∈ s.probationList → 0 < s.probCount) :
    ((s.removeFromProbation a).probCount : ℤ) =
      s.probCount + s.drift a - 1 := by
  unfold Store.removeFromProbation
  split
  · next ha =>
    have hpos := hpos ha
    simp only [hpos, if_true, drift_of_mem ha]
    omega
  · next ha => simp [Store.drift, Store.Stray, ht, ha]

lemma onErase_counts (s : Store) (a : Addr) :
    (s.onErase a).probCount = s.probCount ∧ (s.onErase a).sancCount = s.sancCount ∧
      (s.onErase a).poolFallbackAllocs = s.poolFallbackAllocs := by
  unfold Store.onErase; split <;> exact ⟨rfl, rfl, rfl⟩

/-- **Release** counts an entry out, but a stray only from the books. -/
lemma ledger_release (ho : Owned s (a :: fl)) (h : Ledger cfg s (a :: fl) x d m)
    (hd : cfg.probPoolMaxSize = 0 → (s.heap a).poolType = .sanctuary)
    (hx : a ∈ s.probationList → 0 ≤ x) :
    Ledger cfg (s.release cfg a) fl (x + s.drift a) (d + s.full cfg) m := by
  have hmem : a ∈ s.live ++ a :: fl := by simp
  have ha : a ∉ s.live ++ fl := by
    have := List.perm_middle.nodup_iff.mp ho.held_nodup
    exact (List.nodup_cons.mp this).1
  -- an entry of the sanctuary, unlinked by the policy
  have hsanc (ht : (s.heap a).poolType = .sanctuary) :
      Ledger cfg (((s.onErase a).dropSanctuary.modify a Store.clear).putBack cfg a) fl
        (x + s.drift a) (d + s.full cfg) m := by
    have hT := (touch_onErase s a).trans (touch_dropSanctuary _)
    obtain ⟨h1, h2, h3⟩ := onErase_counts s a
    refine h.leave ha hT.map hT.pool hT.next h3 (onErase_heap s a) ?_ ?_
    · have h1 : (s.onErase a).dropSanctuary.probCount = s.probCount := h1
      simp [drift_of_sanctuary ht, ht, h1]
    · have hpos := tally_pos hmem ht
      rw [← h.sanctuary] at hpos
      simp only [Store.dropSanctuary, h2, hpos, if_true, ht]
      omega
  unfold Store.release
  split
  · next hc =>
    rw [Store.doRelease, onErase_modify]
    exact hsanc (hd hc)
  · rw [Store.doProbRelease]
    split
    · next ht =>
      have hT := touch_removeFromProbation s a
      obtain ⟨h2, h3⟩ := removeFromProbation_counts s a
      refine h.leave ha hT.map hT.pool hT.next h3 (removeFromProbation_heap s a) ?_ ?_
      · rw [removeFromProbation_probCount ht fun hp => h.probCount_pos (hx hp) hmem ht]
        simp [ht]
      · simp [ht, h2]
    · next ht =>
      refine hsanc ?_
      cases hty : (s.heap a).poolType with
      | probation => exact absurd hty ht
      | sanctuary => rfl

lemma tally_change {t : Store} (hn : (s.live ++ fl).Nodup) (ha : a ∈ s.live ++ fl)
    (hmap : t.map = s.map) (hheap : ∀ b ≠ a, (t.heap b).poolType = (s.heap b).poolType)
    (ty : PoolType) :
    t.tally fl ty + (if (s.heap a).poolType = ty then 1 else 0) =
      s.tally fl ty + if (t.heap a).poolType = ty then 1 else 0 := by
  have hlive : t.live = s.live := by rw [Store.live, hmap, Store.live]
  have hperm := List.perm_cons_erase ha
  have hrest : ((s.live ++ fl).erase a).countP (fun b => (t.heap b).poolType = ty) =
      ((s.live ++ fl).erase a).countP fun b => (s.heap b).poolType = ty := by
    refine List.countP_congr fun b hb => ?_
    rw [hheap b (hn.mem_erase_iff.mp hb).1]
  rw [Store.tally, Store.tally, hlive, hperm.countP_eq, hperm.countP_eq, List.countP_cons,
    List.countP_cons, hrest]
  simp only [decide_eq_true_eq]
  omega

lemma Ledger.retype {t : Store} {y : ℤ} (h : Ledger cfg s fl x d m) (hn : (s.live ++ fl).Nodup)
    (ha : a ∈ s.live ++ fl) (hp : (s.heap a).poolType = .probation) (hmap : t.map = s.map)
    (hpool : t.pool = s.pool) (hnext : t.next = s.next)
    (hmade : t.poolFallbackAllocs = s.poolFallbackAllocs)
    (hheap : ∀ b ≠ a, t.heap b = s.heap b) (hty : (t.heap a).poolType = .sanctuary)
    (hused : (t.heap a).inUse = (s.heap a).inUse)
    (hprob : (t.probCount : ℤ) = s.probCount + y - 1) (hsanc : t.sancCount = s.sancCount + 1) :
    Ledger cfg t fl (x + y) d m := by
  have hlive : t.live = s.live := by rw [Store.live, hmap, Store.live]
  have htally := tally_change hn ha hmap fun b hb => by rw [hheap b hb]
  simp only [hp, hty] at htally
  have htp := htally .probation
  have hts := htally .sanctuary
  simp only [if_true, reduceCtorEq, if_false] at htp hts
  refine ⟨?_, ?_, ?_, ?_, ?_, fun b => ?_⟩
  · have := h.probation
    omega
  · have := h.sanctuary
    omega
  · rw [hlive, hpool, hnext, h.slots]
  · rw [hnext, hmade, h.made]
  · rw [hlive, hpool]; exact h.floor
  · rw [hlive]
    by_cases hb : b = a
    · rw [hb, hused]; exact h.used a
    · rw [hheap b hb]; exact h.used b

/-- **Promotion** counts an entry out of probation and into the sanctuary, but a stray only
in. -/
lemma ledger_promote (hn : (s.live ++ fl).Nodup) (h : Ledger cfg s fl x d m)
    (ha : a ∈ s.live ++ fl) (hs : a ∈ s.sieveList → (s.heap a).poolType = .sanctuary)
    (hx : a ∈ s.probationList → 0 ≤ x) :
    Ledger cfg (s.promoteToSanctuary a) fl (x + s.drift a) d m := by
  unfold Store.promoteToSanctuary
  split
  · next ht =>
    rwa [drift_of_sanctuary ht, add_zero]
  · next ht =>
    have hp : (s.heap a).poolType = .probation := by
      cases hty : (s.heap a).poolType with
      | probation => rfl
      | sanctuary => exact absurd hty ht
    have hT := touch_removeFromProbation s a
    obtain ⟨h1, h2⟩ := removeFromProbation_counts s a
    have h3 := removeFromProbation_probCount hp fun hl => h.probCount_pos (hx hl) ha hp
    have h4 := removeFromProbation_heap s a
    have hnew : a ∉ (s.removeFromProbation a).sieveList := by
      rw [removeFromProbation_sieveList]; exact fun hl => ht (hs hl)
    rw [Store.onInsert, if_neg hnew]
    refine h.retype hn ha hp hT.map hT.pool hT.next h2 (fun b hb => ?_) ?_ ?_ h3 ?_
    · simp [Store.modify_heap, hb, h4]
    · simp
    · simp [h4]
    · exact congrArg (· + 1) h1

end Release

/-! ### Batches -/

def Store.keyDrops (cfg : Config) (s : Store) (key : Bytes) : ℕ :=
  match s.map.lookup key with
  | none => 0
  | some _ => s.full cfg

def Store.keysDrops (cfg : Config) : Store → List Bytes → ℕ
  | _, [] => 0
  | s, key :: keys => s.keyDrops cfg key + keysDrops cfg (s.evictKey cfg key) keys

section Batch

variable {cfg : Config} {s : Store} {fl : List Addr} {U : PoolType → Addr → Prop} {x : ℤ}
  {d m : ℕ}

lemma ledger_evictKey {k : Bytes} {a : Addr} (ho : Owned s fl) (h : Ledger cfg s fl x d m)
    (hk : s.map.lookup k = some a)
    (hd : cfg.probPoolMaxSize = 0 → (s.heap a).poolType = .sanctuary)
    (hx : a ∈ s.probationList → 0 ≤ x) :
    Ledger cfg (s.evictKey cfg k) fl (x + s.drift a) (d + s.keyDrops cfg k) m := by
  have h1 := ledger_release (owned_erase ho hk).1 (h.erase hk) hd hx
  rw [Store.evictKey, Store.keyDrops, hk]
  exact h1.congr (List.Perm.refl _) rfl rfl rfl rfl rfl fun _ => ⟨rfl, rfl⟩

/-- **A batch** whose victims are unlinked: all strays, or none. -/
lemma ledger_batch {y : ℤ} (vs : List Addr) (ho : Owned s fl) (h : Ledger cfg s fl x d m)
    (hnd : vs.Nodup) (hv : ∀ v ∈ vs, ∃ k, s.map.lookup k = some v)
    (hd : cfg.probPoolMaxSize = 0 → ∀ v ∈ vs, (s.heap v).poolType = .sanctuary)
    (hl : ∀ v ∈ vs, v ∉ s.probationList) (hy : ∀ v ∈ vs, s.drift v = y) :
    Ledger cfg (s.evictKeys cfg (vs.map fun a => (s.heap a).key)) fl (x + vs.length * y)
      (d + s.keysDrops cfg (vs.map fun a => (s.heap a).key)) m := by
  induction vs generalizing s x d with
  | nil => simpa [Store.evictKeys, Store.keysDrops] using h
  | cons a vs ih =>
    obtain ⟨hav, hnd'⟩ := List.nodup_cons.mp hnd
    obtain ⟨k, hk⟩ := hv a (by simp)
    obtain ⟨hheap, hstay, hlist⟩ := batch_cons cfg ho hk hav
    have hne (v : Addr) (hvs : v ∈ vs) : v ≠ a := by rintro rfl; exact hav hvs
    have h1 := ledger_evictKey ho h hk (fun hc => hd hc a (by simp))
      fun hp => absurd hp (hl a (by simp))
    rw [hy a (by simp)] at h1
    have hl' (v : Addr) (hvs : v ∈ vs) : v ∉ (s.evictKey cfg k).probationList := fun hp =>
      hl v (by simp [hvs]) ((evictKeys_sublist cfg s [k]).2.subset hp)
    have h2 := ih (owned_evictKey cfg ho k).1 h1 hnd'
      (fun v hvs => (hv v (by simp [hvs])).imp (hstay v (hne v hvs)))
      (fun hc v hvs => by rw [hheap v (hne v hvs)]; exact hd hc v (by simp [hvs])) hl'
      fun v hvs => by
        rw [← hy v (by simp [hvs])]
        exact drift_congr (by rw [hheap v (hne v hvs)])
          (iff_of_false (hl' v hvs) (hl v (by simp [hvs])))
    have hkeys : vs.map (fun b => (s.heap b).key) =
        vs.map fun b => ((s.evictKey cfg k).heap b).key :=
      List.map_congr_left fun b hb => by rw [hheap b (hne b hb)]
    have hx : x + y + (vs.length : ℤ) * y = x + ((a :: vs).length : ℤ) * y := by
      simp only [List.length_cons]
      push_cast
      ring
    rw [hx, add_assoc] at h2
    rw [hlist, List.map_cons, Store.keysDrops, ho.keyed k a hk, hkeys]
    exact h2

/-- The probation list is in the tally. -/
lemma Linked.length_le_tally (hL : Linked cfg s fl U) (n : ℕ) :
    (s.probationList.take n).length ≤ s.tally fl .probation := by
  have hsub : (s.probationList.take n) ⊆ s.live ++ fl := fun a ha =>
    mem_held.mpr (hL.prob a (List.mem_of_mem_take ha)).2
  have hall : (s.probationList.take n).countP (fun a => (s.heap a).poolType = .probation) =
      (s.probationList.take n).length :=
    List.countP_eq_length.mpr fun a ha => by simp [(hL.prob a (List.mem_of_mem_take ha)).1]
  rw [← hall]
  exact (List.subperm_of_subset (hL.probNodup.sublist (List.take_sublist _ _)) hsub).countP_le _

/-- The reaper counts its victims out before it gives them back. -/
lemma ledger_reaped (hL : Linked cfg s fl U) (h : Ledger cfg s fl x d m) (hx : 0 ≤ x) :
    Ledger cfg (s.reaped cfg) fl (x - (s.probationList.take cfg.reach).length) d m := by
  have hle := hL.length_le_tally cfg.reach
  have hp := h.probation
  unfold Store.reaped
  split
  · next hnil => simpa [hnil] using h
  · refine ⟨?_, h.sanctuary, h.slots, h.made, h.floor, h.used⟩
    rw [List.length_take] at hle ⊢
    have hdec := decU64_iterate (n := min cfg.reach s.probationList.length)
      (p := s.probCount) (by omega)
    show ((decU64^[_] s.probCount : ℕ) : ℤ) = (s.tally fl .probation : ℤ) + _
    rw [hdec]
    omega

def Store.reaperDrops (cfg : Config) (s : Store) : ℕ :=
  (s.reaped cfg).keysDrops cfg
    ((s.probationList.take cfg.reach).map fun a => (s.heap a).key)

/-- **The reaper** keeps the books balanced. -/
lemma ledger_reaper (ho : Owned s fl) (hL : Linked cfg s fl U) (h : Ledger cfg s fl x d m)
    (hx : 0 ≤ x) (hfl : ∀ b ∈ s.probationList, b ∉ fl) :
    Ledger cfg (s.runSequentialReaper cfg).1 fl x (d + s.reaperDrops cfg) m := by
  have ht := touch_reaped cfg s
  have hheap := Store.reaped_heap cfg s
  have hlist := Store.reaped_probationList cfg s
  set vs := s.probationList.take cfg.reach with hvs
  have hmem (v : Addr) (hv : v ∈ vs) : v ∈ s.probationList := List.mem_of_mem_take hv
  have hout (v : Addr) (hv : v ∈ vs) : v ∉ (s.reaped cfg).probationList := by
    rw [hlist]
    exact List.disjoint_take_drop hL.probNodup le_rfl hv
  have h1 := ledger_batch (y := 1) vs (ht.owned ho) (ledger_reaped hL h hx)
    (hL.probNodup.sublist (List.take_sublist _ _))
    (fun v hv => by rw [ht.map]; exact (hL.prob v (hmem v hv)).2.resolve_right (hfl v (hmem v hv)))
    (fun hc v hv => by simpa [hL.disabled hc] using hmem v hv) hout
    fun v hv => by
      have hs : (s.reaped cfg).Stray v :=
        ⟨by rw [hheap]; exact (hL.prob v (hmem v hv)).1, hout v hv⟩
      exact if_pos hs
  rw [hheap, mul_one, sub_add_cancel] at h1
  rw [Store.runSequentialReaper_eq]
  exact h1

end Batch

/-! ### Acquiring -/

section Acquire

variable {cfg : Config} {s : Store} {fl : List Addr} {U : PoolType → Addr → Prop} {x : ℤ}
  {d m : ℕ} {a : Addr}

lemma ledger_alloc_count (ho : Owned s fl) (h : Ledger cfg s fl x d (m + 1)) :
    Ledger cfg (s.alloc.countProbation s.next) (s.next :: fl) x d m := by
  refine h.enter (fun ha => not_held_next ho (mem_held.mp ha)) rfl ?_ (Nat.le_succ _) ?_
    (fun b hb => ?_) ?_ ?_ ?_
  · exact Nat.add_right_comm _ 1 s.next
  · exact (Nat.add_right_comm s.next 1 m).trans h.made
  · simp [Store.countProbation, Store.modify_heap, hb, Store.alloc]
  · simp [Store.countProbation]
  · simp [Store.countProbation, Store.alloc]
  · simp [Store.countProbation, Store.alloc]

lemma ledger_takeFront (ho : Owned s fl) (h : Ledger cfg s fl x d m) {t : Store}
    (ht : s.takeFront = (t, some a)) : Ledger cfg t (a :: fl) x d m := by
  obtain ⟨pool, u, hp, rfl, rfl⟩ := Store.takeFront_eq_some ht
  have ha : a ∉ s.live ++ fl := fun ha =>
    not_held_of_pool ho (by simp [hp]) (mem_held.mp ha)
  refine h.enter ha rfl ?_ ?_ h.made (fun c hc => Store.countProbation_heap_other _ hc) ?_ ?_ ?_
  · simp only [hp, List.length_cons]
    rfl
  · simp only [hp, List.length_cons]
    exact le_rfl
  · simp [Store.countProbation]
  · simp [Store.countProbation]
  · simp [Store.countProbation]

lemma linkSanctuary_counts (ha : a ∉ s.sieveList) :
    (s.linkSanctuary a).map = s.map ∧ (s.linkSanctuary a).next = s.next ∧
      (s.linkSanctuary a).poolFallbackAllocs = s.poolFallbackAllocs ∧
      (s.linkSanctuary a).probCount = s.probCount ∧
      (s.linkSanctuary a).sancCount = s.sancCount + 1 ∧
      (s.linkSanctuary a).heap a =
        { s.heap a with inUse := true, visited := true, poolType := .sanctuary } := by
  have h4 := (onInsert_frame (a := a)
    (s := { s.modify a fun e => { e with inUse := true } with sancCount := s.sancCount + 1 })
    ha).2.2.2
  refine ⟨?_, ?_, ?_, ?_, ?_, h4.trans (by simp)⟩ <;>
    simp only [Store.linkSanctuary, Store.onInsert, Store.modify_sieveList, ha, if_false] <;> rfl

lemma ledger_doAcquire (ho : Owned s []) (hL : Linked cfg s [] U)
    (h : Ledger cfg s [] x d (m + if s.pool = [] then 1 else 0)) {t : Store}
    (ht : s.doAcquire cfg = (t, .ok (some a))) : Ledger cfg t [a] x d m := by
  have hpool := doAcquire_pool ht
  obtain ⟨u, rfl, ⟨hp, rfl, rfl⟩ | ⟨pool, hp, rfl⟩⟩ := Store.doAcquire_eq_some ht
  · rw [if_pos hp] at h
    have ha : s.next ∉ s.sieveList := fun hm => not_held_next ho (hL.sieve _ hm).2
    obtain ⟨h1, h2, h3, h4, h5, h6⟩ := linkSanctuary_counts (s := s.alloc) (a := s.next) ha
    have hother := (linkSanctuary_frame (s := s.alloc) (a := s.next) ha).2.2.1
    refine h.enter (fun hm => not_held_next ho (mem_held.mp hm)) h1 ?_ (by simp [hp]) ?_
      (fun c hc => ?_) ?_ ?_ ?_
    · rw [hpool, h2, hp]
      simp [Store.alloc, Nat.add_comm]
    · rw [h2, h3]
      exact (Nat.add_right_comm s.next 1 m).trans h.made
    · rw [hother c hc]
      simp [Store.alloc, hc]
    · rw [h6]
    · rw [h4, h6]; rfl
    · rw [h5, h6]; rfl
  · rw [if_neg (by simp [hp])] at h
    have ha : a ∉ s.sieveList := fun hm => not_held_of_pool ho (by simp [hp]) (hL.sieve _ hm).2
    obtain ⟨h1, h2, h3, h4, h5, h6⟩ :=
      linkSanctuary_counts (s := { s with pool := pool }) (a := a) ha
    have hother := (linkSanctuary_frame (s := { s with pool := pool }) (a := a) ha).2.2.1
    refine h.enter (fun hm => not_held_of_pool ho (by simp [hp]) (mem_held.mp hm)) h1 ?_
      (by rw [hpool, hp]; exact le_rfl) ?_ hother ?_ ?_ ?_
    · rw [hpool, h2, hp]
      rfl
    · rw [h2, h3]
      exact h.made
    · rw [h6]
    · rw [h4, h6]; rfl
    · rw [h5, h6]; rfl

def Store.acquireDrops (cfg : Config) (s : Store) : ℕ :=
  if cfg.probPoolMaxSize = 0 then 0
  else if s.pool = [] then (s.alloc.countProbation s.next).reaperDrops cfg
  else if cfg.probThreshold ≤ s.probCount then s.reaperDrops cfg
  else 0

/-- **Acquire** enters the entry it gives out. -/
lemma ledger_acquire (ho : Owned s []) (hL : Linked cfg s [] U)
    (h : Ledger cfg s [] x d (m + if s.pool = [] then 1 else 0)) (hx : 0 ≤ x) {t : Store}
    (ht : s.acquire cfg = (t, .ok (some a))) : Ledger cfg t [a] x (d + s.acquireDrops cfg) m := by
  unfold Store.acquireDrops
  cases Store.acquires_of_acquire ht with
  | sanctuary hc ht =>
    rw [if_pos hc]
    exact ledger_doAcquire ho hL h ht
  | made hc hp =>
    rw [if_neg hc, if_pos hp]
    rw [if_pos hp] at h
    obtain ⟨ho', h1, hfl⟩ := linked_made ho hL
    exact ledger_reaper ho' h1 (ledger_alloc_count ho h) hx hfl
  | reaped hc hp hq _ ht =>
    rw [if_neg hc, if_neg hp, if_pos hq]
    rw [if_neg hp] at h
    exact ledger_takeFront (owned_runSequentialReaper cfg ho).1
      (ledger_reaper ho hL h hx (by simp)) ht
  | front hc hp hq ht =>
    rw [if_neg hc, if_neg hp, if_neg hq]
    rw [if_neg hp] at h
    exact ledger_takeFront ho h ht

/-- An entry that is made and destroyed at once stays counted. -/
lemma ledger_wasted (ho : Owned s []) (h : Ledger cfg s [] x d (m + 1)) :
    Ledger cfg s.wasted [] (x + 1) (d + 1) m := by
  have hn : s.next ∉ s.live ++ [] := fun hm => not_held_next ho (mem_held.mp hm)
  have hheap (b : Addr) : s.wasted.heap b = if b = s.next then {} else s.heap b := by
    split
    · next hb => rw [hb, Store.wasted, Store.destroy, Store.modify_heap_same, clear_eq]
    · next hb => exact s.wasted_heap_other hb
  have htally (ty : PoolType) : s.wasted.tally [] ty = s.tally [] ty := by
    refine List.countP_congr fun b hb => ?_
    have hbn : b ≠ s.next := by
      rintro rfl
      exact hn hb
    rw [hheap, if_neg hbn]
  refine ⟨?_, ?_, congrArg (· + 1) h.slots, (Nat.add_right_comm s.next 1 m).trans h.made, h.floor,
    fun b => ?_⟩
  · have hcount : s.wasted.probCount = s.probCount + 1 := rfl
    have hp := h.probation
    rw [hcount, htally]
    push_cast
    omega
  · rw [htally]
    exact h.sanctuary
  · have hlive : s.wasted.live = s.live := rfl
    rw [hheap, hlive]
    split
    · next hb => simpa [hb] using hn
    · exact h.used b

/-- **An acquisition that throws** may leave the counter one ahead, for an entry that is not
there any more, or an entry recorded that was never made. -/
lemma ledger_refuses (ho : Owned s [])
    (h : Ledger cfg s [] x d (m + if s.pool = [] then 1 else 0)) {t : Store} {e : LengthError}
    (ht : Store.Refuses cfg s t e) :
    ∃ d' m', Ledger cfg t [] (x + if s.pool = [] ∧ cfg.valueFits = true then 1 else 0) d' m' ∧
      d' + m' = d + m + (if s.pool = [] then 1 else 0) ∧
      m' ≤ m + if s.pool = [] then 1 else 0 := by
  cases ht with
  | value hp hfits =>
    refine ⟨d, m + 1, ?_, by simp [hp, Nat.add_assoc], by simp [hp]⟩
    simpa [hp, hfits] using h
  | made hc hp hfits =>
    refine ⟨d + 1, m, ?_, by simp [hp, Nat.add_right_comm], Nat.le_add_right _ _⟩
    rw [if_pos ⟨hp, hfits⟩]
    rw [if_pos hp] at h
    exact ledger_wasted ho h
  | reaper hc hp =>
    refine ⟨d, m, ?_, by simp [hp], Nat.le_add_right _ _⟩
    rw [if_neg (by simp [hp]), add_zero]
    rw [if_neg hp] at h
    exact h.congr (List.Perm.refl _) rfl rfl rfl rfl rfl fun _ => ⟨rfl, rfl⟩

end Acquire

end ShunyaKV.Shard
