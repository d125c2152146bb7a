import ShunyaKV.Shard.Refine

/-!
Which entries are linked where.

The sanctuary list and the probation list hold entries in use, each of the list's own pool
type, and the hand of the policy stands in its list. An entry in use that is in neither
list is out of reach of every eviction; the predicate that allows for such entries, by
their pool type, is a parameter.
-/

namespace ShunyaKV.Shard

open ShunyaKV.Lib.HandList

/-- An entry in use: in the map, or in the hands of a call. -/
def Held (s : Store) (fl : List Addr) (a : Addr) : Prop :=
  (∃ k, s.map.lookup k = some a) ∨ a ∈ fl

/-- The lists are sound, and cover the entries in use but for those in `U`. -/
structure Linked (cfg : Config) (s : Store) (fl : List Addr) (U : PoolType → Addr → Prop) :
    Prop where
  sieveNodup : s.sieveList.Nodup
  probNodup : s.probationList.Nodup
  sieve : ∀ a ∈ s.sieveList, (s.heap a).poolType = .sanctuary ∧ Held s fl a
  prob : ∀ a ∈ s.probationList, (s.heap a).poolType = .probation ∧ Held s fl a
  handMem : ∀ a, s.hand = some a → a ∈ s.sieveList
  handNone : s.hand = none → s.sieveList = []
  covered : ∀ a, Held s fl a →
    a ∈ s.sieveList ∨ a ∈ s.probationList ∨ U (s.heap a).poolType a
  disabled : cfg.probPoolMaxSize = 0 → s.probationList = []

lemma linked_start (cfg : Config) (U : PoolType → Addr → Prop) : Linked cfg (start cfg) [] U := by
  constructor <;> simp [start, Held]

section Frame

variable {cfg : Config} {s s' : Store} {fl : List Addr} {U U' : PoolType → Addr → Prop} {a : Addr}

lemma Linked.disjoint (h : Linked cfg s fl U) (ha : a ∈ s.sieveList) : a ∉ s.probationList := by
  intro hp
  have h1 := (h.sieve a ha).1
  rw [(h.prob a hp).1] at h1
  cases h1

/-- The part of the list before the hand and the part from the hand on. -/
lemma Linked.split (h : Linked cfg s fl U) : ∃ l r, s.Split l r ∧ (r = [] → l = []) := by
  rcases hh : s.hand with _ | a
  · exact ⟨[], [], ⟨by simp [h.handNone hh], hh, by simp⟩, fun _ => rfl⟩
  · obtain ⟨l, r, hl⟩ := List.append_of_mem (h.handMem a hh)
    exact ⟨l, a :: r, ⟨hl, hh, hl ▸ h.sieveNodup⟩, fun h => by simp at h⟩

/-- Only entries that are in neither list count against `U`. -/
lemma Linked.weaken (h : Linked cfg s fl U)
    (hU : ∀ a, Held s fl a → a ∉ s.sieveList → a ∉ s.probationList →
      U (s.heap a).poolType a → U' (s.heap a).poolType a) :
    Linked cfg s fl U' := by
  refine ⟨h.sieveNodup, h.probNodup, h.sieve, h.prob, h.handMem, h.handNone, fun a ha => ?_,
    h.disabled⟩
  rcases h.covered a ha with h1 | h1 | h1
  · exact .inl h1
  · exact .inr (.inl h1)
  · by_contra hc
    simp only [not_or] at hc
    exact hc.2.2 (hU a ha hc.1 hc.2.1 h1)

lemma Linked.frame {fl' : List Addr} (h : Linked cfg s fl U)
    (hheld : ∀ a, Held s' fl' a ↔ Held s fl a)
    (hsieve : s'.sieveList = s.sieveList) (hhand : s'.hand = s.hand)
    (hprob : s'.probationList = s.probationList)
    (htype : ∀ a, Held s fl a → (s'.heap a).poolType = (s.heap a).poolType) :
    Linked cfg s' fl' U := by
  constructor
  · rw [hsieve]; exact h.sieveNodup
  · rw [hprob]; exact h.probNodup
  · intro a ha
    rw [hsieve] at ha
    obtain ⟨h1, h2⟩ := h.sieve a ha
    exact ⟨(htype a h2).trans h1, (hheld a).mpr h2⟩
  · intro a ha
    rw [hprob] at ha
    obtain ⟨h1, h2⟩ := h.prob a ha
    exact ⟨(htype a h2).trans h1, (hheld a).mpr h2⟩
  · rw [hhand, hsieve]; exact h.handMem
  · rw [hhand, hsieve]; exact h.handNone
  · intro a ha
    have ha' := (hheld a).mp ha
    rw [hsieve, hprob, htype a ha']
    exact h.covered a ha'
  · rw [hprob]; exact h.disabled

lemma Linked.modify (h : Linked cfg s fl U) (f : Entry → Entry)
    (hf : ∀ e, (f e).poolType = e.poolType) : Linked cfg (s.modify a f) fl U := by
  refine h.frame (fun _ => Iff.rfl) rfl rfl rfl fun b _ => ?_
  rw [s.modify_heap]
  split
  · next hb => subst hb; exact hf _
  · rfl

end Frame

/-! ### The two lists -/

lemma onErase_not_mem {s : Store} {a : Addr} (h : s.sieveList.Nodup) :
    a ∉ (s.onErase a).sieveList := by
  unfold Store.onErase
  split
  · exact fun hm => (h.mem_erase_iff.mp hm).1 rfl
  · assumption

lemma removeFromProbation_not_mem {s : Store} {a : Addr} (h : s.probationList.Nodup) :
    a ∉ (s.removeFromProbation a).probationList := by
  unfold Store.removeFromProbation
  split
  · exact fun hm => (h.mem_erase_iff.mp hm).1 rfl
  · assumption

lemma onErase_probationList (s : Store) (a : Addr) :
    (s.onErase a).probationList = s.probationList := by
  unfold Store.onErase; split <;> rfl

lemma removeFromProbation_sieveList (s : Store) (a : Addr) :
    (s.removeFromProbation a).sieveList = s.sieveList := by
  unfold Store.removeFromProbation; split <;> rfl

section Lists

variable {cfg : Config} {s : Store} {fl : List Addr} {U : PoolType → Addr → Prop} {a : Addr}

/-- What is left of the list when the entry at the hand goes, and where the hand moves. -/
lemma onErase_hand {l r : List Addr} (ha : a ∉ l) (hne : l ++ r ≠ []) :
    ∃ b ∈ l ++ r, (after (l ++ a :: r) a).or (l ++ a :: r).head? = some b := by
  rw [after_append ha]
  cases r with
  | cons x r => exact ⟨x, by simp, rfl⟩
  | nil =>
    cases l with
    | nil => simp at hne
    | cons x l => exact ⟨x, by simp, by simp⟩

lemma linked_onErase (h : Linked cfg s fl U) (a : Addr) :
    Linked cfg (s.onErase a) fl fun t b => U t b ∨ b = a := by
  unfold Store.onErase
  split
  · next ha =>
    obtain ⟨l, r, hl⟩ := List.append_of_mem ha
    have hnd := h.sieveNodup
    rw [hl] at hnd
    have hal : a ∉ l := not_mem_left hnd
    have her : s.sieveList.erase a = l ++ r := by rw [hl, erase_append hal]
    have hmem (b : Addr) : b ∈ s.sieveList ↔ b = a ∨ b ∈ l ++ r := by rw [hl]; simp; tauto
    simp only [her]
    refine ⟨hnd.sublist (by simp), h.probNodup, fun b hb => h.sieve b ((hmem b).mpr (.inr hb)),
      h.prob, ?_, ?_, ?_, h.disabled⟩
    · intro b hb
      simp only at hb ⊢
      by_cases hne : l ++ r = []
      · simp [hne] at hb
      · simp only [hne, if_false] at hb
        split at hb
        · obtain ⟨c, hc, hc'⟩ := onErase_hand hal hne
          rw [hl, hc', Option.some.injEq] at hb
          exact hb ▸ hc
        · next hh =>
          rcases (hmem b).mp (h.handMem b hb) with rfl | hb'
          · exact absurd hb hh
          · exact hb'
    · intro hb
      simp only at hb ⊢
      by_contra hne
      simp only [hne, if_false] at hb
      split at hb
      · obtain ⟨c, -, hc'⟩ := onErase_hand hal hne
        rw [hl, hc'] at hb
        cases hb
      · rw [h.handNone hb] at ha
        cases ha
    · intro b hb
      rcases h.covered b hb with h1 | h1 | h1
      · rcases (hmem b).mp h1 with h2 | h2
        · exact .inr (.inr (.inr h2))
        · exact .inl h2
      · exact .inr (.inl h1)
      · exact .inr (.inr (.inl h1))
  · exact h.weaken fun _ _ _ _ hU => .inl hU

lemma linked_removeFromProbation (h : Linked cfg s fl U) (a : Addr) :
    Linked cfg (s.removeFromProbation a) fl fun t b => U t b ∨ b = a := by
  unfold Store.removeFromProbation
  split
  · refine ⟨h.sieveNodup, h.probNodup.erase a, h.sieve,
      fun b hb => h.prob b (List.mem_of_mem_erase hb), h.handMem, h.handNone, fun b hb => ?_,
      fun hd => by simp [h.disabled hd]⟩
    rcases h.covered b hb with h1 | h1 | h1
    · exact .inl h1
    · by_cases hba : b = a
      · exact .inr (.inr (.inr hba))
      · exact .inr (.inl ((List.mem_erase_of_ne hba).mpr h1))
    · exact .inr (.inr (.inl h1))
  · exact h.weaken fun _ _ _ _ hU => .inl hU

lemma linked_onInsert (h : Linked cfg s fl U) (ha : Held s fl a) (hp : a ∉ s.probationList) :
    Linked cfg (s.onInsert a) fl U := by
  unfold Store.onInsert
  split
  · exact h
  · next hs =>
    have htype (b : Addr) : ((s.modify a fun e =>
        { e with visited := true, poolType := .sanctuary }).heap b).poolType =
        if b = a then .sanctuary else (s.heap b).poolType := by
      rw [s.modify_heap]; split <;> rfl
    refine ⟨?_, h.probNodup, ?_, ?_, ?_, ?_, ?_, h.disabled⟩
    · exact List.nodup_append.mpr ⟨h.sieveNodup, by simp, by
        rintro x hx y hy rfl
        exact hs (List.mem_singleton.mp hy ▸ hx)⟩
    · intro b hb
      simp only [htype]
      rcases List.mem_append.mp hb with hb | hb
      · refine ⟨?_, (h.sieve b hb).2⟩
        split
        · rfl
        · exact (h.sieve b hb).1
      · obtain rfl := List.mem_singleton.mp hb
        exact ⟨by simp, ha⟩
    · intro b hb
      have hba : b ≠ a := by rintro rfl; exact hp hb
      simp only [htype, hba, if_false]
      exact h.prob b hb
    · intro b hb
      by_cases hh : s.hand = none
      · simp only [Store.modify_hand, Store.modify_sieveList, hh, if_true] at hb ⊢
        exact List.mem_of_mem_head? hb
      · simp only [Store.modify_hand, Store.modify_sieveList, hh, if_false] at hb ⊢
        simp [h.handMem b hb]
    · intro hb
      by_cases hh : s.hand = none
      · simp [hh] at hb
      · simp only [Store.modify_hand, hh, if_false] at hb
    · intro b hb
      by_cases hba : b = a
      · exact .inl (by simp [hba])
      · simp only [htype, hba, if_false]
        rcases h.covered b hb with h1 | h1 | h1
        · exact .inl (by simp [h1])
        · exact .inr (.inl h1)
        · exact .inr (.inr h1)

lemma linked_promote (h : Linked cfg s fl U) (ha : Held s fl a) :
    Linked cfg (s.promoteToSanctuary a) fl U := by
  unfold Store.promoteToSanctuary
  split
  · exact h
  · have h1 := linked_removeFromProbation h a
    have ha' : Held (s.removeFromProbation a) fl a := by
      unfold Held
      rw [(touch_removeFromProbation s a).map]
      exact ha
    have h2 := linked_onInsert h1 ha' (removeFromProbation_not_mem h.probNodup)
    have hin : a ∈ ((s.removeFromProbation a).onInsert a).sieveList := by
      unfold Store.onInsert
      split
      · assumption
      · simp
    have h3 : Linked cfg ((s.removeFromProbation a).onInsert a) fl U := by
      refine h2.weaken fun b _ hb _ hU => hU.resolve_right ?_
      rintro rfl
      exact hb hin
    exact h3.frame (fun _ => Iff.rfl) rfl rfl rfl fun _ _ => rfl

end Lists

/-! ### Giving an entry back -/

section Release

variable {cfg : Config} {s : Store} {fl : List Addr} {U : PoolType → Addr → Prop} {a : Addr}

lemma Linked.leave (h : Linked cfg s (a :: fl) U) (hs : a ∉ s.sieveList) (hp : a ∉ s.probationList)
    (hm : ∀ k, s.map.lookup k ≠ some a) (hfl : a ∉ fl) :
    Linked cfg s fl (fun t b => U t b ∧ b ≠ a) ∧ ¬ Held s fl a := by
  have hheld (b : Addr) (hb : Held s (a :: fl) b) (hba : b ≠ a) : Held s fl b := by
    rcases hb with hb | hb
    · exact .inl hb
    · exact .inr ((List.mem_cons.mp hb).resolve_left hba)
  have hnot : ¬ Held s fl a := by
    rintro (⟨k, hk⟩ | hk)
    · exact hm k hk
    · exact hfl hk
  refine ⟨⟨h.sieveNodup, h.probNodup, ?_, ?_, h.handMem, h.handNone, ?_, h.disabled⟩, hnot⟩
  · intro b hb
    exact ⟨(h.sieve b hb).1, hheld b (h.sieve b hb).2 (by rintro rfl; exact hs hb)⟩
  · intro b hb
    exact ⟨(h.prob b hb).1, hheld b (h.prob b hb).2 (by rintro rfl; exact hp hb)⟩
  · intro b hb
    have hba : b ≠ a := by rintro rfl; exact hnot hb
    rcases h.covered b (hb.imp id (List.mem_cons_of_mem _)) with h1 | h1 | h1
    · exact .inl h1
    · exact .inr (.inl h1)
    · exact .inr (.inr ⟨h1, hba⟩)

/-- Clearing an entry that is no longer in use, and passing it to the pool. -/
lemma Linked.putBack (h : Linked cfg s fl U) (ha : ¬ Held s fl a) :
    Linked cfg ((s.modify a Store.clear).putBack cfg a) fl U := by
  obtain ⟨h1, h2, h3, h4⟩ := putBack_lists cfg (s.modify a Store.clear) a
  refine h.frame (fun b => by unfold Held; rw [h4]; rfl) h1 h2 h3 fun b hb => ?_
  have hba : b ≠ a := by rintro rfl; exact ha hb
  rw [putBack_heap, s.modify_heap_other a _ hba]

lemma onErase_modify (s : Store) (a : Addr) (f : Entry → Entry) :
    (s.modify a f).onErase a = (s.onErase a).modify a f := by
  unfold Store.onErase
  split <;> rename_i h <;> rw [Store.modify_sieveList] at h
  · rw [if_pos h]; rfl
  · rw [if_neg h]

/-- **Release** takes an entry out of its list. -/
lemma linked_release (ho : Owned s (a :: fl)) (h : Linked cfg s (a :: fl) U) :
    Linked cfg (s.release cfg a) fl U := by
  have hm (k : Bytes) : s.map.lookup k ≠ some a := by
    intro hk
    exact (ho.mapOnly k a hk).2.2 (by simp)
  have hfl : a ∉ fl := (List.nodup_cons.mp ho.flNodup).1
  -- out of both lists, the entry can go to the pool
  have key {t : Store} (ht : Linked cfg t (a :: fl) fun t b => U t b ∨ b = a) (hmap : t.map = s.map)
      (hs : a ∉ t.sieveList) (hp : a ∉ t.probationList) :
      Linked cfg ((t.modify a Store.clear).putBack cfg a) fl U := by
    obtain ⟨h1, h2⟩ := ht.leave hs hp (by rw [hmap]; exact hm) hfl
    exact (h1.weaken fun b _ _ _ hb => hb.1.resolve_right hb.2).putBack h2
  have herase : Linked cfg (s.onErase a).dropSanctuary (a :: fl) fun t b => U t b ∨ b = a :=
    (linked_onErase h a).frame (fun _ => Iff.rfl) rfl rfl rfl fun _ _ => rfl
  have hemap := ((touch_onErase s a).trans (touch_dropSanctuary _)).map
  have hs : a ∉ (s.onErase a).dropSanctuary.sieveList := onErase_not_mem h.sieveNodup
  have hpl : (s.onErase a).dropSanctuary.probationList = s.probationList :=
    onErase_probationList s a
  unfold Store.release
  split
  · next hd =>
    rw [Store.doRelease, onErase_modify]
    exact key herase hemap hs (by rw [hpl, h.disabled hd]; simp)
  · rw [Store.doProbRelease]
    split
    · next ht =>
      refine key (linked_removeFromProbation h a) (touch_removeFromProbation s a).map ?_
        (removeFromProbation_not_mem h.probNodup)
      rw [removeFromProbation_sieveList]
      intro hs'
      rw [(h.sieve a hs').1] at ht
      cases ht
    · next ht =>
      refine key herase hemap hs ?_
      rw [hpl]
      exact fun hp => ht (h.prob a hp).1

lemma linked_erase {k : Bytes} (h : Linked cfg s fl U) (hk : s.map.lookup k = some a) :
    Linked cfg { s with map := s.map.erase k } (a :: fl) U := by
  refine h.frame (fun b => ?_) rfl rfl rfl fun _ _ => rfl
  unfold Held
  constructor
  · rintro (⟨k', hk'⟩ | hb)
    · by_cases hkk : k' = k
      · subst hkk; simp at hk'
      · exact .inl ⟨k', by rwa [AList.lookup_erase_ne hkk] at hk'⟩
    · rcases List.mem_cons.mp hb with rfl | hb
      · exact .inl ⟨k, hk⟩
      · exact .inr hb
  · rintro (⟨k', hk'⟩ | hb)
    · by_cases hkk : k' = k
      · subst hkk
        rw [hk, Option.some.injEq] at hk'
        exact .inr (by simp [hk'])
      · exact .inl ⟨k', by rwa [AList.lookup_erase_ne hkk]⟩
    · exact .inr (by simp [hb])

end Release

/-! ### Batches -/

lemma removeFromProbation_sublist (s : Store) (a : Addr) :
    (s.removeFromProbation a).probationList.Sublist s.probationList := by
  unfold Store.removeFromProbation
  split
  · exact List.erase_sublist
  · exact List.Sublist.refl _

lemma release_sublist (cfg : Config) (s : Store) (a : Addr) :
    (s.release cfg a).sieveList.Sublist s.sieveList ∧
      (s.release cfg a).probationList.Sublist s.probationList := by
  have herase (s : Store) : (s.onErase a).sieveList.Sublist s.sieveList := by
    unfold Store.onErase
    split
    · exact List.erase_sublist
    · exact List.Sublist.refl _
  have hkeep (s : Store) : (s.onErase a).dropSanctuary.probationList = s.probationList :=
    onErase_probationList s a
  unfold Store.release
  split
  · obtain ⟨h1, -, h3, -⟩ :=
      putBack_lists cfg ((s.modify a Store.clear).onErase a).dropSanctuary a
    rw [Store.doRelease, h1, h3]
    exact ⟨herase _, by rw [hkeep, Store.modify_probationList]⟩
  · obtain ⟨h1, -, h3, -⟩ := putBack_lists cfg (Store.modify (if (s.heap a).poolType = .probation
      then s.removeFromProbation a else (s.onErase a).dropSanctuary) a Store.clear) a
    rw [Store.doProbRelease, h1, h3]
    simp only [Store.modify_sieveList, Store.modify_probationList]
    split
    · exact ⟨by rw [removeFromProbation_sieveList], removeFromProbation_sublist s a⟩
    · exact ⟨herase s, by rw [hkeep]⟩

lemma evictKeys_sublist (cfg : Config) (s : Store) (keys : List Bytes) :
    (s.evictKeys cfg keys).sieveList.Sublist s.sieveList ∧
      (s.evictKeys cfg keys).probationList.Sublist s.probationList := by
  induction keys generalizing s with
  | nil => exact ⟨List.Sublist.refl _, List.Sublist.refl _⟩
  | cons key keys ih =>
    obtain ⟨h1, h2⟩ := ih (s.evictKey cfg key)
    have h3 : (s.evictKey cfg key).sieveList.Sublist s.sieveList ∧
        (s.evictKey cfg key).probationList.Sublist s.probationList := by
      unfold Store.evictKey
      split
      · exact ⟨List.Sublist.refl _, List.Sublist.refl _⟩
      · exact release_sublist cfg { s with map := s.map.erase key } _
    exact ⟨h1.trans h3.1, h2.trans h3.2⟩

section Batch

variable {cfg : Config} {s : Store} {fl : List Addr} {U : PoolType → Addr → Prop}

lemma linked_evictKey (ho : Owned s fl) (h : Linked cfg s fl U) (key : Bytes) :
    Linked cfg (s.evictKey cfg key) fl U := by
  unfold Store.evictKey
  rcases hl : s.map.lookup key with _ | a
  · exact h
  · exact (linked_release (owned_erase ho hl).1 (linked_erase h hl)).frame
      (fun _ => Iff.rfl) rfl rfl rfl fun _ _ => rfl

lemma linked_evictKeys (ho : Owned s fl) (h : Linked cfg s fl U) (keys : List Bytes) :
    Linked cfg (s.evictKeys cfg keys) fl U := by
  induction keys generalizing s with
  | nil => exact h
  | cons key keys ih => exact ih (owned_evictKey cfg ho key).1 (linked_evictKey ho h key)

/-- **A batch leaves nothing behind**: entries of the map taken out of the lists are in use
no more once their keys are evicted. -/
lemma linked_batch {vs : List Addr} (ho : Owned s fl)
    (h : Linked cfg s fl fun t b => U t b ∨ b ∈ vs)
    (hv : ∀ v ∈ vs, v ∉ fl) :
    Linked cfg (s.evictKeys cfg (vs.map fun a => (s.heap a).key)) fl U := by
  refine (linked_evictKeys ho h _).weaken fun b hb _ _ hU => hU.resolve_right fun hbv => ?_
  rcases hb with ⟨k, hk⟩ | hb
  · rw [evictKeys_lookup] at hk
    split at hk
    · cases hk
    · next hn => exact hn (List.mem_map.mpr ⟨b, hbv, ho.keyed k b hk⟩)
  · exact hv b hbv hb

/-- The state a SIEVE pass leaves to the batch that follows it. -/
lemma linked_sweep (h : Linked cfg s fl U) (budget now : ℕ) :
    (s.sweep budget now).2 = (s.taking budget now).map (fun a => (s.heap a).key) ∧
      (∀ v ∈ s.taking budget now, v ∈ s.sieveList) ∧
      (s.sweep budget now).1.sieveList.Sublist s.sieveList ∧
      Linked cfg (s.sweep budget now).1 fl fun t b => U t b ∨ b ∈ s.taking budget now := by
  obtain ⟨l, r, hsp, hr⟩ := h.split
  rw [Store.sweep_eq hsp hr, Store.taking, hsp.ahead]
  set p := s.takes now
  have hsub : (l ++ (passed p budget r ++ unseen p budget r)).Sublist s.sieveList := by
    rw [hsp.list]
    exact (left_sublist p budget r).append_left l
  have htype (b : Addr) : ((s.swept p budget l r).heap b).poolType = (s.heap b).poolType := by
    simp only [Store.swept, Store.unvisit]
    split <;> rfl
  refine ⟨rfl, ?_, hsub, ?_⟩
  · intro v hv
    rw [hsp.list]
    simp [(mem_taken p hv).1]
  · refine ⟨h.sieveNodup.sublist hsub, h.probNodup, ?_, ?_, ?_, ?_, ?_, h.disabled⟩
    · intro b hb
      show ((s.swept p budget l r).heap b).poolType = _ ∧ _
      rw [htype]
      exact h.sieve b (hsub.subset hb)
    · intro b hb
      show ((s.swept p budget l r).heap b).poolType = _ ∧ _
      rw [htype]
      exact h.prob b hb
    · intro b hb
      rcases Option.or_eq_some_iff.mp hb with hb | ⟨-, hb⟩
      · have := List.mem_of_mem_head? hb
        simp [Store.swept, this]
      · exact List.mem_of_mem_head? hb
    · intro hb
      exact List.head?_eq_none_iff.mp (Option.or_eq_none_iff.mp hb).2
    · intro b hb
      simp only [htype]
      rcases h.covered b hb with h1 | h1 | h1
      · rw [hsp.list, List.mem_append, mem_split p budget r b] at h1
        rcases h1 with h1 | h1 | h1
        · exact .inl (by simp [Store.swept, h1])
        · exact .inr (.inr (.inr h1))
        · exact .inl (by simp only [Store.swept]; simp [List.mem_append.mp h1])
      · exact .inr (.inl h1)
      · exact .inr (.inr (.inl h1))

/-- The entries the eviction pass at the end of a write takes. One that throws takes none. -/
def victims (cfg : Config) (s : Store) (now : ℕ) : List Addr :=
  if cfg.maxSize = 0 then []
  else if cfg.softTriggered (s.usedSlots cfg) then
    if vectorMaxSize < cfg.softBudget then [] else s.taking cfg.softBudget now
  else []

lemma checkMemoryAndEvict_eq (ho : Owned s fl) (h : Linked cfg s fl U) (now : ℕ) :
    ∃ t, (s.checkMemoryAndEvict cfg now).1 =
        t.evictKeys cfg ((victims cfg s now).map fun a => (t.heap a).key) ∧
      Touch s t ∧ t.sieveList.Sublist s.sieveList ∧ t.probationList = s.probationList ∧
      Linked cfg t fl (fun ty b => U ty b ∨ b ∈ victims cfg s now) ∧
      ∀ v ∈ victims cfg s now, v ∈ s.sieveList := by
  have hnone : Linked cfg s fl fun ty b => U ty b ∨ b ∈ ([] : List Addr) :=
    h.weaken fun _ _ _ _ hU => .inl hU
  have hidle : ∃ t, s = t.evictKeys cfg (([] : List Addr).map fun a => (t.heap a).key) ∧
      Touch s t ∧ t.sieveList.Sublist s.sieveList ∧ t.probationList = s.probationList ∧
      Linked cfg t fl (fun ty b => U ty b ∨ b ∈ ([] : List Addr)) ∧
      ∀ v ∈ ([] : List Addr), v ∈ s.sieveList :=
    ⟨s, rfl, Touch.refl s, List.Sublist.refl _, rfl, hnone, by simp⟩
  unfold Store.checkMemoryAndEvict Store.evict victims
  split_ifs
  · exact hidle
  · exact hidle
  · obtain ⟨h1, h2, h3, h4⟩ := linked_sweep h cfg.softBudget now
    have ht := touch_sweep ho cfg.softBudget now
    refine ⟨(s.sweep cfg.softBudget now).1, ?_, ht, h3, ?_, h4, h2⟩
    · simp only [h1]
      congr 1
      exact List.map_congr_left fun a _ => ((ht.data a).2.1).symm
    · obtain ⟨l, r, hsp, hr⟩ := h.split
      rw [Store.sweep_eq hsp hr]
      rfl
  · exact hidle

lemma linked_checkMemoryAndEvict (ho : Owned s []) (h : Linked cfg s [] U) (now : ℕ) :
    Linked cfg (s.checkMemoryAndEvict cfg now).1 [] U := by
  obtain ⟨t, h1, h2, -, -, h3, -⟩ := checkMemoryAndEvict_eq ho h now
  rw [h1]
  exact linked_batch (h2.owned ho) h3 (by simp)

lemma batch_cons (cfg : Config) {vs : List Addr} {k : Bytes} {a : Addr} (ho : Owned s fl)
    (hk : s.map.lookup k = some a) (hav : a ∉ vs) :
    (∀ b ≠ a, (s.evictKey cfg k).heap b = s.heap b) ∧
      (∀ b ≠ a, ∀ k', s.map.lookup k' = some b → (s.evictKey cfg k).map.lookup k' = some b) ∧
      s.evictKeys cfg ((a :: vs).map fun b => (s.heap b).key) =
        (s.evictKey cfg k).evictKeys cfg
          (vs.map fun b => ((s.evictKey cfg k).heap b).key) := by
  have hheap (b : Addr) (hb : b ≠ a) : (s.evictKey cfg k).heap b = s.heap b := by
    rw [Store.evictKey, hk]
    exact release_heap_other cfg { s with map := s.map.erase k } hb
  refine ⟨hheap, fun b hb k' hk' => ?_, ?_⟩
  · rw [evictKey_lookup, if_neg, hk']
    rintro rfl
    exact hb (Option.some.inj (hk'.symm.trans hk))
  · have hkeys : vs.map (fun b => (s.heap b).key) =
        vs.map fun b => ((s.evictKey cfg k).heap b).key :=
      List.map_congr_left fun b hb => by rw [hheap b (by rintro rfl; exact hav hb)]
    rw [List.map_cons, ho.keyed k a hk, ← hkeys]
    rfl

/-- A batch removes from the map the entries it has chosen and no other. -/
lemma batch_lookup {vs : List Addr} (ho : Owned s fl) (hv : ∀ v ∈ vs, ∃ k, s.map.lookup k = some v)
    (k : Bytes) :
    (s.evictKeys cfg (vs.map fun a => (s.heap a).key)).map.lookup k =
      (s.map.lookup k).filter fun a => a ∉ vs := by
  have hmem (a : Addr) (ha : s.map.lookup k = some a) :
      k ∈ vs.map (fun a => (s.heap a).key) ↔ a ∈ vs := by
    rw [List.mem_map]
    constructor
    · rintro ⟨v, hvs, hk⟩
      obtain ⟨k', hk'⟩ := hv v hvs
      obtain rfl : k' = k := (ho.keyed k' v hk').symm.trans hk
      rw [ha, Option.some.injEq] at hk'
      exact hk' ▸ hvs
    · exact fun h => ⟨a, h, ho.keyed k a ha⟩
  rw [evictKeys_lookup]
  rcases hl : s.map.lookup k with _ | a
  · simp
  · by_cases ha : a ∈ vs <;> simp [hmem a hl, ha, Option.filter]

lemma checkMemoryAndEvict_lookup (ho : Owned s []) (h : Linked cfg s [] U) (now : ℕ) (k : Bytes) :
    (s.checkMemoryAndEvict cfg now).1.map.lookup k =
      (s.map.lookup k).filter fun a => a ∉ victims cfg s now := by
  obtain ⟨t, h1, h2, -, -, -, h4⟩ := checkMemoryAndEvict_eq ho h now
  rw [h1, batch_lookup (h2.owned ho), h2.map]
  intro v hv
  rw [h2.map]
  exact (h.sieve v (h4 v hv)).2.resolve_right (by simp)

end Batch

end ShunyaKV.Shard
