import ShunyaKV.Shard.Evictable
import ShunyaKV.Shard.Held

/-!
The lists while calls are suspended.

While a pass is suspended, the hand of the policy may be past the last entry, and the victims
of a batch are in the map and in no list. What always holds is that the lists have entries in
use and of their own pool type, and that the hand of the reaper stands in its list or past
the last entry.
-/

namespace ShunyaKV.Shard

open ShunyaKV.Lib.HandList

/-- The two stores differ in the hand of the policy at most. -/
def Alike (s t : Store) : Prop := ∃ h, t = { s with hand := h }

section Alike

variable {cfg : Config} {s s' t : Store} {a : Addr}

lemma Alike.touch (h : Alike s t) : Touch s t := by
  obtain ⟨_, rfl⟩ := h
  exact ⟨rfl, rfl, rfl, rfl, fun _ _ => rfl, fun _ => ⟨rfl, rfl, rfl⟩⟩

lemma Alike.modify (h : Alike s t) (f : Entry → Entry) : Alike (s.modify a f) (t.modify a f) := by
  obtain ⟨x, rfl⟩ := h
  exact ⟨x, rfl⟩

lemma Alike.onInsert (h : Alike s t) : Alike (s.onInsert a) (t.onInsert a) := by
  obtain ⟨x, rfl⟩ := h
  unfold Store.onInsert
  dsimp only
  split <;> exact ⟨_, rfl⟩

lemma Alike.onErase (h : Alike s t) : Alike (s.onErase a) (t.onErase a) := by
  obtain ⟨x, rfl⟩ := h
  unfold Store.onErase
  dsimp only
  split <;> exact ⟨_, rfl⟩

lemma Alike.removeFromProbation (h : Alike s t) :
    Alike (s.removeFromProbation a) (t.removeFromProbation a) := by
  obtain ⟨x, rfl⟩ := h
  unfold Store.removeFromProbation
  dsimp only
  split <;> exact ⟨x, rfl⟩

lemma Alike.putBack (h : Alike s t) : Alike (s.putBack cfg a) (t.putBack cfg a) := by
  obtain ⟨x, rfl⟩ := h
  unfold Store.putBack
  dsimp only
  split <;> exact ⟨x, rfl⟩

lemma Alike.dropSanctuary (h : Alike s t) : Alike s.dropSanctuary t.dropSanctuary := by
  obtain ⟨x, rfl⟩ := h
  exact ⟨x, rfl⟩

lemma Alike.heap (h : Alike s t) : t.heap = s.heap := by
  obtain ⟨x, rfl⟩ := h
  rfl

lemma Alike.promote (h : Alike s t) : Alike (s.promoteToSanctuary a) (t.promoteToSanctuary a) := by
  unfold Store.promoteToSanctuary
  rw [h.heap]
  split
  · exact h
  · obtain ⟨x, hx⟩ := (h.removeFromProbation (a := a)).onInsert (a := a)
    rw [hx]
    exact ⟨x, rfl⟩

lemma Alike.release (h : Alike s t) : Alike (s.release cfg a) (t.release cfg a) := by
  unfold Store.release
  split
  · exact (h.modify Store.clear).onErase.dropSanctuary.putBack
  · unfold Store.doProbRelease
    rw [h.heap]
    split
    · exact (h.removeFromProbation.modify Store.clear).putBack
    · exact (h.onErase.dropSanctuary.modify Store.clear).putBack

lemma Alike.withMap (h : Alike s t) (f : AList (fun _ : Bytes => Addr) → AList fun _ => Addr) :
    Alike { s with map := f s.map } { t with map := f t.map } := by
  obtain ⟨x, rfl⟩ := h
  exact ⟨x, rfl⟩

lemma Alike.evictKey (h : Alike s t) (key : Bytes) :
    Alike (s.evictKey cfg key) (t.evictKey cfg key) := by
  unfold Store.evictKey
  rw [h.touch.map]
  rcases s.map.lookup key with _ | a
  · exact h
  · have hrel : Alike (Store.release cfg { s with map := s.map.erase key } a)
        (Store.release cfg { t with map := t.map.erase key } a) :=
      (h.withMap (·.erase key)).release
    rw [h.touch.map] at hrel
    obtain ⟨x, hx⟩ := hrel
    dsimp only
    rw [hx]
    exact ⟨x, rfl⟩

lemma Alike.update (h : Alike s t) (k v : Bytes) (d : Option ℕ) :
    Alike (update cfg s k v d a) (update cfg t k v d a) := by
  have hm := h.modify (a := a) fun e =>
    { e with key := k, value := v, expiresAt := d.getD e.expiresAt }
  unfold Shard.update Store.emplace
  dsimp only
  rw [hm.touch.map]
  split
  · have hins := hm.withMap (·.insert k a)
    rw [hm.touch.map] at hins
    exact hins
  · rw [hm.heap]
    exact (hm.modify _).promote.release

lemma Alike.get (h : Alike s t) (k : Bytes) (now : ℕ) :
    Alike (s.get cfg k now).1 (t.get cfg k now).1 := by
  unfold Store.get
  rw [h.touch.map]
  split
  · exact h
  · next a _ =>
    rw [h.heap]
    split
    · exact (h.onErase.withMap (·.erase k)).release
    · have hhit := (h.promote (a := a)).modify (a := a) fun e => { e with visited := true }
      exact hhit

lemma Alike.linkSanctuary (h : Alike s t) : Alike (s.linkSanctuary a) (t.linkSanctuary a) := by
  obtain ⟨x, rfl⟩ := h
  refine Alike.onInsert ⟨x, rfl⟩

lemma Alike.takeFront (h : Alike s t) (hs : s.takeFront = (s', some a)) :
    ∃ t', Alike s' t' ∧ t.takeFront = (t', some a) := by
  obtain ⟨x, rfl⟩ := h
  obtain ⟨pool, u, hp, rfl, rfl⟩ := Store.takeFront_eq_some hs
  exact ⟨_, ⟨x, rfl⟩, by simp only [Store.takeFront, hp]; rfl⟩

end Alike

/-! ### The lists -/

/-- The lists are sound, whatever the hand of the policy. -/
structure Threaded (cfg : Config) (s : Store) (fl : List Addr) : Prop where
  sieveNodup : s.sieveList.Nodup
  sieve : ∀ a ∈ s.sieveList, (s.heap a).poolType = .sanctuary ∧ Held s fl a
  prob : ∀ a ∈ s.probationList, (s.heap a).poolType = .probation ∧ Held s fl a
  stands : Stands s.probationList s.probationHand
  disabled : cfg.probPoolMaxSize = 0 → s.probationList = []

section Threaded

variable {cfg : Config} {s s' t : Store} {fl fl' : List Addr} {U : PoolType → Addr → Prop}
  {a : Addr}

/-- With its hand at the first entry the policy would be in order. -/
lemma Threaded.linked (h : Threaded cfg s fl) :
    ∃ t, Alike s t ∧ Linked cfg t fl fun _ _ => True :=
  ⟨{ s with hand := s.sieveList.head? }, ⟨_, rfl⟩, h.sieveNodup, h.stands.nodup, h.sieve, h.prob,
    fun _ => List.mem_of_head?, List.head?_eq_none_iff.mp, fun _ _ => .inr (.inr trivial),
    h.disabled⟩

lemma Linked.threaded (h : Linked cfg t fl U) (ha : Alike s t)
    (hs : Stands s.probationList s.probationHand) : Threaded cfg s fl := by
  obtain ⟨x, rfl⟩ := ha
  exact ⟨h.sieveNodup, h.sieve, h.prob, hs, h.disabled⟩

lemma threaded_start (cfg : Config) : Threaded cfg (start cfg) [] :=
  (linked_start cfg fun _ _ => True).threaded ⟨none, rfl⟩ ⟨List.nodup_nil, by simp [start]⟩

lemma Threaded.frame (h : Threaded cfg s fl) (hheld : ∀ a, Held s fl a → Held s' fl' a)
    (hsieve : s'.sieveList = s.sieveList) (hprob : s'.probationList = s.probationList)
    (hhand : s'.probationHand = s.probationHand)
    (htype : ∀ a, Held s fl a → (s'.heap a).poolType = (s.heap a).poolType) :
    Threaded cfg s' fl' := by
  constructor
  · rw [hsieve]; exact h.sieveNodup
  · intro a ha
    rw [hsieve] at ha
    obtain ⟨h1, h2⟩ := h.sieve a ha
    exact ⟨(htype a h2).trans h1, hheld a h2⟩
  · intro a ha
    rw [hprob] at ha
    obtain ⟨h1, h2⟩ := h.prob a ha
    exact ⟨(htype a h2).trans h1, hheld a h2⟩
  · rw [hprob, hhand]; exact h.stands
  · rw [hprob]; exact h.disabled

lemma Threaded.perm (h : Threaded cfg s fl) (hp : fl.Perm fl') : Threaded cfg s fl' :=
  h.frame (fun _ => Or.imp id hp.mem_iff.mp) rfl rfl rfl fun _ _ => rfl

/-! ### The hand of the reaper

All that is done to the list of the reaper and to its hand, apart from a new entry at the end,
is to take entries out and to put the hand back to the first one. -/

/-- Kept when an entry goes and the hand moves on, and when the hand goes back. -/
structure Lasting (P : List Addr → Option Addr → Prop) : Prop where
  erase {l : List Addr} {h : Option Addr} {a : Addr} : P l h → a ∈ l → P (l.erase a) (moveOn l h a)
  rewind {l : List Addr} {h : Option Addr} : P l h → P l l.head?

lemma lasting_stands : Lasting Stands := ⟨Stands.erase, fun h => .head h.nodup⟩

section Lasting

variable {P : List Addr → Option Addr → Prop} {cfg : Config} {s s' : Store} {a : Addr}

lemma Lasting.removeFromProbation (hP : Lasting P) (h : P s.probationList s.probationHand)
    (a : Addr) :
    P (s.removeFromProbation a).probationList (s.removeFromProbation a).probationHand := by
  unfold Store.removeFromProbation
  split
  · next ha => exact hP.erase h ha
  · exact h

lemma onErase_probationHand (s : Store) (a : Addr) :
    (s.onErase a).probationHand = s.probationHand := by
  unfold Store.onErase
  split <;> rfl

lemma onInsert_probation (s : Store) (a : Addr) :
    (s.onInsert a).probationList = s.probationList ∧
      (s.onInsert a).probationHand = s.probationHand := by
  unfold Store.onInsert
  split <;> exact ⟨rfl, rfl⟩

lemma Lasting.promote (hP : Lasting P) (h : P s.probationList s.probationHand) (a : Addr) :
    P (s.promoteToSanctuary a).probationList (s.promoteToSanctuary a).probationHand := by
  unfold Store.promoteToSanctuary
  split
  · exact h
  · obtain ⟨h1, h2⟩ := onInsert_probation (s.removeFromProbation a) a
    dsimp only
    rw [h1, h2]
    exact hP.removeFromProbation h a

lemma putBack_probation (cfg : Config) (s : Store) (a : Addr) :
    (s.putBack cfg a).probationList = s.probationList ∧
      (s.putBack cfg a).probationHand = s.probationHand := by
  unfold Store.putBack
  split <;> exact ⟨rfl, rfl⟩

lemma Lasting.release (hP : Lasting P) (h : P s.probationList s.probationHand) (cfg : Config)
    (a : Addr) : P (s.release cfg a).probationList (s.release cfg a).probationHand := by
  have hput {t : Store} (ht : P t.probationList t.probationHand) :
      P (t.putBack cfg a).probationList (t.putBack cfg a).probationHand := by
    obtain ⟨h1, h2⟩ := putBack_probation cfg t a
    rwa [h1, h2]
  have herase {t : Store} (ht : P t.probationList t.probationHand) :
      P (t.onErase a).probationList (t.onErase a).probationHand := by
    rwa [onErase_probationList, onErase_probationHand]
  unfold Store.release
  split
  · exact hput (herase h)
  · refine hput ?_
    rw [Store.modify_probationList, Store.modify_probationHand]
    split
    · exact hP.removeFromProbation h a
    · exact herase h

lemma Lasting.emplace (hP : Lasting P) (h : P s.probationList s.probationHand) (cfg : Config)
    (k : Bytes) (a : Addr) (updateTtl : Bool) :
    P (s.emplace cfg k a updateTtl).probationList (s.emplace cfg k a updateTtl).probationHand := by
  unfold Store.emplace
  rcases s.map.lookup k with _ | old
  · exact h
  · have h' := hP.promote (s := s.modify old fun e => e.updateFrom (s.heap a) updateTtl) h old
    exact hP.release h' cfg a

lemma Lasting.get (hP : Lasting P) (h : P s.probationList s.probationHand) (cfg : Config)
    (k : Bytes) (now : ℕ) :
    P (s.get cfg k now).1.probationList (s.get cfg k now).1.probationHand := by
  unfold Store.get
  rcases s.map.lookup k with _ | a
  · exact h
  · dsimp only
    split
    · have h' : P (s.onErase a).probationList (s.onErase a).probationHand := by
        rwa [onErase_probationList, onErase_probationHand]
      exact hP.release (s := { s.onErase a with map := (s.onErase a).map.erase k }) h' cfg a
    · exact hP.promote h a

lemma Lasting.doAcquire (h : P s.probationList s.probationHand)
    (hs : s.doAcquire cfg = (s', .ok (some a))) : P s'.probationList s'.probationHand := by
  obtain ⟨u, rfl, hu⟩ := Store.doAcquire_eq_some hs
  have hprob : (u.linkSanctuary a).probationList = u.probationList ∧
      (u.linkSanctuary a).probationHand = u.probationHand := onInsert_probation _ a
  rw [hprob.1, hprob.2]
  obtain ⟨-, -, rfl⟩ | ⟨pool, -, rfl⟩ := hu
  · exact h
  · exact h

lemma Lasting.reapTurn (hP : Lasting P) (h : P s.probationList s.probationHand)
    (ha : s.probationHand = some a) (hmem : a ∈ s.probationList) :
    P (s.reapTurn a).1.probationList (s.reapTurn a).1.probationHand := by
  have herase := hP.erase h hmem
  rw [moveOn, if_pos ha] at herase
  exact herase

/-- A turn takes an entry out of the list at most, the one at the hand or another one. -/
lemma Lasting.turn (hP : Lasting P) (hmem : ∀ a, s.probationHand = some a → a ∈ s.probationList)
    (h : P s.probationList s.probationHand) (ht : Turn cfg s s') :
    P s'.probationList s'.probationHand := by
  cases ht with
  | note =>
    obtain ⟨n, hn⟩ := noteFallback_frame s
    rw [hn]
    exact h
  | rewind => exact hP.rewind h
  | reap ha => exact hP.reapTurn h ha (hmem _ ha)
  | tally n => exact h
  | evict key =>
    unfold Store.evictKey
    rcases s.map.lookup key with _ | a
    · exact h
    · exact hP.release (s := { s with map := s.map.erase key }) h cfg a
  | look now _ =>
    unfold Store.evictTurn
    split <;> exact h
  | point x => exact h

end Lasting

/-! ### Turns, and the steps around them -/

lemma threaded_evictTurn (h : Threaded cfg s fl) (now : ℕ) (a : Addr) :
    Threaded cfg (s.evictTurn now a).1 fl := by
  unfold Store.evictTurn
  split
  · exact ⟨h.sieveNodup.erase a, fun b hb => h.sieve b (List.mem_of_mem_erase hb), h.prob,
      h.stands, h.disabled⟩
  · refine h.frame (fun _ => id) rfl rfl rfl fun b _ => ?_
    have hheap : ((s.modify a fun e => { e with visited := false }).heap b).poolType =
        (s.heap b).poolType := by
      rw [s.modify_heap]
      split
      · next hb => rw [hb]
      · rfl
    exact hheap

lemma threaded_turn (ho : Owned s fl) (h : Threaded cfg s fl) (ht : Turn cfg s s') :
    Threaded cfg s' fl := by
  have hstands := lasting_stands.turn h.stands.mem h.stands ht
  cases ht with
  | note =>
    obtain ⟨n, hn⟩ := noteFallback_frame s
    rw [hn]
    exact h.frame (fun _ => id) rfl rfl rfl fun _ _ => rfl
  | rewind => exact ⟨h.sieveNodup, h.sieve, h.prob, hstands, h.disabled⟩
  | @reap a _ =>
    have hsub : (s.reapTurn a).1.probationList.Sublist s.probationList := List.erase_sublist
    refine ⟨h.sieveNodup, h.sieve, fun b hb => h.prob b (hsub.subset hb), hstands, fun hc => ?_⟩
    rw [h.disabled hc] at hsub
    exact List.sublist_nil.mp hsub
  | tally n => exact h.frame (fun _ => id) rfl rfl rfl fun _ _ => rfl
  | evict key =>
    obtain ⟨t, ha, hL⟩ := h.linked
    exact (linked_evictKey (ha.touch.owned ho) hL key).threaded (ha.evictKey key) hstands
  | look now _ => exact threaded_evictTurn h now _
  | point x => exact h.frame (fun _ => id) rfl rfl rfl fun _ _ => rfl

lemma threaded_doAcquire (ho : Owned s fl) (h : Threaded cfg s fl)
    (hs : s.doAcquire cfg = (s', .ok (some a))) : Threaded cfg s' (a :: fl) := by
  have hlink {u : Store} (hu : Threaded cfg u fl) (ha : ¬ Held u fl a)
      (hstands : Stands (u.linkSanctuary a).probationList (u.linkSanctuary a).probationHand) :
      Threaded cfg (u.linkSanctuary a) (a :: fl) := by
    obtain ⟨t, hat, hL⟩ := hu.linked
    have ha' : ¬ Held t fl a := by
      unfold Held
      rw [hat.touch.map]
      exact ha
    exact (linked_linkSanctuary hL ha').threaded hat.linkSanctuary hstands
  have hstands := Lasting.doAcquire h.stands hs
  obtain ⟨u, rfl, ⟨-, rfl, rfl⟩ | ⟨pool, hp, rfl⟩⟩ := Store.doAcquire_eq_some hs
  · refine hlink (h.frame (fun _ => id) rfl rfl rfl fun b hb => ?_) (not_held_next ho) hstands
    have hne : b ≠ s.next := by
      rintro rfl
      exact not_held_next ho hb
    simp [Store.alloc, hne]
  · have ha : ¬ Held s fl a := not_held_of_pool ho (by simp [hp])
    exact hlink (h.frame (fun _ => id) rfl rfl rfl fun _ _ => rfl) ha hstands

lemma threaded_make (ho : Owned s fl) (h : Threaded cfg s fl) :
    Threaded cfg (s.alloc.countProbation s.next) (s.next :: fl) := by
  refine h.frame (fun _ => Or.imp id (List.mem_cons_of_mem _)) rfl rfl rfl fun b hb => ?_
  have hne : b ≠ s.next := by
    rintro rfl
    exact not_held_next ho hb
  rw [Store.countProbation_heap_other _ hne]
  simp [Store.alloc, hne]

lemma threaded_takeFront (ho : Owned s fl) (h : Threaded cfg s fl) (hc : cfg.probPoolMaxSize ≠ 0)
    (hs : s.takeFront = (s', some a)) : Threaded cfg s' (a :: fl) := by
  obtain ⟨t, ha, hL⟩ := h.linked
  obtain ⟨t', ha', ht⟩ := ha.takeFront hs
  refine (linked_takeFront (ha.touch.owned ho) hL hc ht).threaded ha' ?_
  obtain ⟨pool, u, hp, rfl, rfl⟩ := Store.takeFront_eq_some hs
  exact h.stands.append fun hm => not_held_of_pool ho (by simp [hp]) (h.prob a hm).2

lemma threaded_refuses (ho : Owned s fl) (h : Threaded cfg s fl) {e : LengthError}
    (ht : Store.Refuses cfg s s' e) : Threaded cfg s' fl := by
  have hrewound : Threaded cfg s.rewound fl := threaded_turn ho h .rewind
  cases ht with
  | value => exact h
  | made =>
    refine hrewound.frame (fun _ => id) rfl rfl rfl fun b hb => ?_
    have hne : b ≠ s.next := by
      rintro rfl
      exact not_held_next ho hb
    rw [s.wasted_heap_other hne]
    rfl
  | reaper => exact hrewound

lemma threaded_update (ho : Owned s (a :: fl)) (h : Threaded cfg s (a :: fl)) (k v : Bytes)
    (d : Option ℕ) : Threaded cfg (update cfg s k v d a) fl := by
  obtain ⟨t, hat, hL⟩ := h.linked
  set f : Entry → Entry := fun e => { e with key := k, value := v, expiresAt := d.getD e.expiresAt }
  have ho' : Owned (t.modify a f) (a :: fl) := (hat.touch.owned ho).modify (by simp) f
  have hL' := linked_emplace ho' (hL.modify (a := a) f fun _ => rfl) k d.isSome
  have hstands := lasting_stands.emplace (s := s.modify a f) h.stands cfg k a d.isSome
  exact hL'.threaded (hat.update k v d) hstands

lemma threaded_get (ho : Owned s fl) (h : Threaded cfg s fl) (k : Bytes) (now : ℕ) :
    Threaded cfg (s.get cfg k now).1 fl := by
  obtain ⟨t, ha, hL⟩ := h.linked
  exact (linked_get (ha.touch.owned ho) hL now).threaded (ha.get k now)
    (lasting_stands.get h.stands cfg k now)

structure Tidy (cfg : Config) (s : Store) (fl : List Addr) : Prop where
  holds : Holds s fl
  threaded : Threaded cfg s fl

/-- **The lists are sound at every moment.** -/
lemma tidy_kept (cfg : Config) : Kept cfg (Tidy cfg) where
  perm h hp := ⟨h.holds.perm hp, h.threaded.perm hp⟩
  turn h ht := ⟨(moves_turn h.holds ht).1, threaded_turn h.holds.toOwned h.threaded ht⟩
  acquire _ h hs :=
    ⟨(moves_doAcquire h.holds hs).1, threaded_doAcquire h.holds.toOwned h.threaded hs⟩
  make _ h := ⟨(moves_alloc h.holds).1, threaded_make h.holds.toOwned h.threaded⟩
  front hc h hs :=
    ⟨(moves_takeFront h.holds hs).1, threaded_takeFront h.holds.toOwned h.threaded hc hs⟩
  refuse h ht :=
    ⟨(moves_refuses h.holds ht).1, threaded_refuses h.holds.toOwned h.threaded ht⟩
  write k v d h :=
    ⟨(holds_update cfg h.holds k v d).1, threaded_update h.holds.toOwned h.threaded k v d⟩
  get k now h := ⟨holds_get cfg h.holds k now, threaded_get h.holds.toOwned h.threaded k now⟩

lemma tidy_fresh (cfg : Config) : (Reactor.fresh cfg).Keeps cfg (Tidy cfg) :=
  ⟨⟨holds_start cfg, threaded_start cfg⟩, by simp [Reactor.fresh]⟩

end Threaded

end ShunyaKV.Shard
