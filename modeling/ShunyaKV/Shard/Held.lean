import ShunyaKV.Shard.Refine
import ShunyaKV.Shard.Turns

/-!
Suspended calls keep their entries to themselves.

A call that has acquired an entry, or made one, holds it until its write. Whatever the other
calls do meanwhile, they do not reach that entry, and all that a call does to the map up to
its write and after it is to remove whole keys.
-/

namespace ShunyaKV.Shard

open ShunyaKV.Lib.Ttl

/-- Ownership with `fl` the entries in the hands of the calls, none of which has a deadline. -/
structure Holds (s : Store) (fl : List Addr) : Prop extends Owned s fl where
  noDeadline : ∀ a ∈ fl, (s.heap a).expiresAt = 0

/-- From `s` the entries `fl` are held, `s'` is reached and keys have been removed. -/
def Moves (s s' : Store) (fl : List Addr) : Prop := Holds s' fl ∧ ∃ R, Evicts s s' R

lemma Owned.perm {s : Store} {fl fl' : List Addr} (h : Owned s fl) (hp : fl.Perm fl') :
    Owned s fl' where
  keyed := h.keyed
  mapOnly k a hk := by
    obtain ⟨h1, h2, h3⟩ := h.mapOnly k a hk
    exact ⟨h1, h2, fun hm => h3 (hp.mem_iff.mpr hm)⟩
  poolNodup := h.poolNodup
  poolNew := h.poolNew
  flOnly a ha := h.flOnly a (hp.mem_iff.mpr ha)
  flNodup := hp.nodup_iff.mp h.flNodup

lemma Holds.perm {s : Store} {fl fl' : List Addr} (h : Holds s fl) (hp : fl.Perm fl') :
    Holds s fl' := ⟨h.toOwned.perm hp, fun a ha => h.noDeadline a (hp.mem_iff.mpr ha)⟩

lemma holds_start (cfg : Config) : Holds (start cfg) [] := ⟨owned_start cfg, by simp⟩

lemma Moves.trans {s s' s'' : Store} {fl fl' : List Addr} (h : Moves s s' fl)
    (h' : Moves s' s'' fl') : Moves s s'' fl' := by
  obtain ⟨-, R, hR⟩ := h
  obtain ⟨hh, S, hS⟩ := h'
  exact ⟨hh, R ++ S, hR.trans hS⟩

lemma Touch.moves {s s' : Store} {fl : List Addr} (h : Touch s s') (hh : Holds s fl) :
    Moves s s' fl :=
  ⟨⟨h.owned hh.toOwned, fun a ha => by rw [(h.data a).2.2, hh.noDeadline a ha]⟩, [], h.evicts⟩

lemma moves_evictKeys (cfg : Config) {s : Store} {fl : List Addr} (hh : Holds s fl)
    (keys : List Bytes) : Moves s (s.evictKeys cfg keys) fl := by
  obtain ⟨ho, R, hR⟩ := owned_evictKeys cfg hh.toOwned keys
  refine ⟨⟨ho, fun a ha => ?_⟩, R, hR⟩
  rw [evictKeys_heap fun key _ hl => (hh.mapOnly key a hl).2.2 ha, hh.noDeadline a ha]

lemma touch_noteFallback (s : Store) : Touch s s.noteFallback := by
  unfold Store.noteFallback
  split
  · exact ⟨rfl, rfl, rfl, rfl, fun _ _ => rfl, fun _ => ⟨rfl, rfl, rfl⟩⟩
  · exact Touch.refl s

/-- A turn removes a key at most. -/
lemma moves_turn {cfg : Config} {s s' : Store} {fl : List Addr} (hh : Holds s fl)
    (h : Turn cfg s s') : Moves s s' fl := by
  cases h with
  | note => exact (touch_noteFallback s).moves hh
  | look now ha => exact (touch_evictTurn hh.toOwned now _).moves hh
  | evict key => exact moves_evictKeys cfg hh [key]
  | rewind | reap | tally | point =>
    exact Touch.moves ⟨rfl, rfl, rfl, rfl, fun _ _ => rfl, fun _ => ⟨rfl, rfl, rfl⟩⟩ hh

lemma moves_turns {cfg : Config} {s s' : Store} {fl : List Addr} (hh : Holds s fl)
    (h : Turns cfg s s') : Moves s s' fl := by
  induction h with
  | refl => exact (Touch.refl s).moves hh
  | tail _ hturn ih => exact ih.trans (moves_turn ih.1 hturn)

/-! ### Acquiring -/

lemma Acquired.moves {s s' : Store} {a : Addr} {fl : List Addr} (h : Acquired s s' a fl)
    (hfl : ∀ b ∈ fl, (s'.heap b).expiresAt = 0) : Moves s s' (a :: fl) := by
  refine ⟨⟨h.owned, fun b hb => ?_⟩, h.evicts⟩
  rcases List.mem_cons.mp hb with rfl | hb
  · exact h.noDeadline
  · exact hfl b hb

lemma moves_alloc {s : Store} {fl : List Addr} (hh : Holds s fl) :
    Moves s (s.alloc.countProbation s.next) (s.next :: fl) := by
  obtain ⟨h1, h2, h3⟩ := owned_alloc hh.toOwned
  have hacq := acquired_count h1 (by simp [h3])
  obtain ⟨R, hR⟩ := hacq.evicts
  have h0 : Evicts s s.alloc [] := ⟨by rw [h2, without_nil], rfl⟩
  refine Acquired.moves ⟨hacq.owned, hacq.noDeadline, [] ++ R, h0.trans hR⟩ fun b hb => ?_
  have hb' : b ≠ s.next := fun e => (hh.flOnly b hb).1.ne e
  rw [Store.countProbation_heap_other _ hb']
  simp [Store.alloc, hb', hh.noDeadline b hb]

lemma linkSanctuary_heap_other (s : Store) {a b : Addr} (hb : b ≠ a) :
    (s.linkSanctuary a).heap b = s.heap b := by
  have h : (s.modify a fun e => { e with inUse := true }).heap b = s.heap b :=
    s.modify_heap_other a _ hb
  unfold Store.linkSanctuary Store.onInsert
  dsimp only
  split
  · exact h
  · simp [Store.modify_heap_other _ _ _ hb]

lemma doAcquire_heap_other {cfg : Config} {s s' : Store} {a b : Addr}
    (h : s.doAcquire cfg = (s', .ok (some a))) (hb : b ≠ a) : s'.heap b = s.heap b := by
  obtain ⟨u, rfl, ⟨-, rfl, rfl⟩ | ⟨pool, -, rfl⟩⟩ := Store.doAcquire_eq_some h
  · rw [linkSanctuary_heap_other _ hb]
    simp [Store.alloc, hb]
  · exact linkSanctuary_heap_other _ hb

/-- An acquired entry is none of those held. -/
lemma Acquired.holds {s s' : Store} {a : Addr} {fl : List Addr} (hh : Holds s fl)
    (h : Acquired s s' a fl) (hother : ∀ b, b ≠ a → s'.heap b = s.heap b) :
    Moves s s' (a :: fl) := by
  refine h.moves fun b hb => ?_
  have hba : b ≠ a := by
    rintro rfl
    exact (List.nodup_cons.mp h.owned.flNodup).1 hb
  rw [hother b hba, hh.noDeadline b hb]

lemma moves_takeFront {s s' : Store} {fl : List Addr} {a : Addr} (hh : Holds s fl)
    (h : s.takeFront = (s', some a)) : Moves s s' (a :: fl) := by
  have hp : s.pool ≠ [] := by
    intro hp
    simp [Store.takeFront, hp] at h
  obtain ⟨b, t, he, hacq⟩ := acquired_takeFront hh.toOwned hp
  rw [he] at h
  cases h
  exact hacq.holds hh fun b hb => Store.takeFront_heap_other he hb

lemma moves_doAcquire {cfg : Config} {s s' : Store} {fl : List Addr} {a : Addr} (hh : Holds s fl)
    (h : s.doAcquire cfg = (s', .ok (some a))) : Moves s s' (a :: fl) := by
  have hfits (hp : s.pool = []) : cfg.valueFits = true := by
    by_contra hfits
    simp [Store.doAcquire, hp, hfits] at h
  obtain ⟨b, t, he, hacq⟩ := acquired_doAcquire hh.toOwned hfits
  rw [he] at h
  cases h
  exact hacq.holds hh fun b hb => doAcquire_heap_other he hb

/-- An acquisition that throws reaches no entry held by another call. -/
lemma moves_refuses {cfg : Config} {s s' : Store} {fl : List Addr} {e : LengthError}
    (hh : Holds s fl) (h : Store.Refuses cfg s s' e) : Moves s s' fl := by
  obtain ⟨ho, hev⟩ := owned_refuses hh.toOwned h
  refine ⟨⟨ho, fun b hb => ?_⟩, [], hev⟩
  cases h with
  | made => rw [s.wasted_heap_other (hh.flOnly b hb).1.ne, hh.noDeadline b hb]
  | value | reaper => exact hh.noDeadline b hb

lemma moves_startWrite (cfg : Config) {s : Store} {fl : List Addr} (hh : Holds s fl)
    {r : Store × Pc} (h : startWrite cfg s = some r) :
    Moves s r.1 (r.2.held ++ fl) ∧
      (r.2.waiting ∨ s.AcquireThrows cfg ∧ ∃ e, r.2 = .done (.threw e)) := by
  have hm := (touch_noteFallback s).moves hh
  obtain ⟨s', pc⟩ := r
  cases startWrite_opening h with
  | plain _ he => exact ⟨hm.trans (moves_doAcquire hm.1 he), .inl rfl⟩
  | made _ _ hr h =>
    obtain ⟨ht, hpc⟩ := turns_startReaper (not_throws_made hr) h
    have halloc := moves_alloc hm.1
    rw [(noteFallback_fields s).2.2.1] at halloc
    rw [hpc.held]
    exact ⟨(hm.trans halloc).trans (moves_turns halloc.1 ht), .inl hpc.waiting⟩
  | crowded _ _ _ hr h =>
    obtain ⟨ht, hpc⟩ := turns_startReaper (not_throws_noted hr) h
    rw [hpc.held]
    exact ⟨hm.trans (moves_turns hm.1 ht), .inl hpc.waiting⟩
  | front _ _ _ he => exact ⟨hm.trans (moves_takeFront hm.1 he), .inl rfl⟩
  | threw he =>
    exact ⟨hm.trans (moves_refuses hm.1 he),
      .inr ⟨Store.acquireThrows_noteFallback.mp he.throws, _, rfl⟩⟩

/-! ### Writing -/

/-- A write does not reach an entry held by another call. -/
lemma emplace_deadline (cfg : Config) {s : Store} {fl : List Addr} {a b : Addr}
    (ho : Owned s (a :: fl)) (hb : b ∈ fl) (k : Bytes) (updateTtl : Bool) :
    ((s.emplace cfg k a updateTtl).heap b).expiresAt = (s.heap b).expiresAt := by
  have hba : b ≠ a := by
    rintro rfl
    exact (List.nodup_cons.mp ho.flNodup).1 hb
  unfold Store.emplace
  rcases hl : s.map.lookup k with _ | old
  · rfl
  · obtain ⟨-, hpool, hfl⟩ := ho.mapOnly k old hl
    have hbo : b ≠ old := by
      rintro rfl
      exact hfl (by simp [hb])
    dsimp only
    rw [release_heap_other cfg _ hba]
    set t := s.modify old fun e => e.updateFrom (s.heap a) updateTtl with ht
    rw [((touch_promote (s := t) (a := old) hpool).data b).2.2, ht, s.modify_heap_other old _ hbo]

lemma holds_update (cfg : Config) {s : Store} {fl : List Addr} {a : Addr}
    (hh : Holds s (a :: fl)) (k v : Bytes) (d : Option ℕ) :
    Holds (update cfg s k v d a) fl ∧
      abs (update cfg s k v d a) = write (abs s) k v (d.getD (deadline (abs s) k)) ∧
      (update cfg s k v d a).evictionCount = s.evictionCount := by
  have hmem : a ∈ a :: fl := by simp
  have ho := hh.toOwned
  set f : Entry → Entry := fun e => { e with key := k, value := v, expiresAt := d.getD e.expiresAt }
    with hf
  have hheap : (s.modify a f).heap a = f (s.heap a) := s.modify_heap_same a f
  obtain ⟨h1, h2, h3⟩ := owned_emplace cfg (ho.modify hmem f) (by rw [hheap]) d.isSome
  have hz := hh.noDeadline a hmem
  refine ⟨⟨h1, fun b hb => ?_⟩, ?_, h3⟩
  · have hba : b ≠ a := by
      rintro rfl
      exact (List.nodup_cons.mp ho.flNodup).1 hb
    rw [update, emplace_deadline cfg (ho.modify hmem f) hb, s.modify_heap_other a f hba]
    exact hh.noDeadline b (by simp [hb])
  · rw [update, h2, abs_modify ho hmem, hheap]
    -- an absent key has the deadline of the new entry, which is none
    have hd : (if d.isSome ∨ abs s k = none then (f (s.heap a)).expiresAt
        else deadline (abs s) k) = d.getD (deadline (abs s) k) := by
      cases d with
      | some d => simp [f]
      | none => rcases hk : abs s k with _ | ⟨_, _⟩ <;> simp [f, deadline, hk, hz]
    rw [hd]

/-! ### Reading -/

lemma get_deadline (cfg : Config) {s : Store} {fl : List Addr} {b : Addr} (ho : Owned s fl)
    (hb : b ∈ fl) (k : Bytes) (now : ℕ) :
    ((s.get cfg k now).1.heap b).expiresAt = (s.heap b).expiresAt := by
  unfold Store.get
  rcases hl : s.map.lookup k with _ | a
  · rfl
  · obtain ⟨-, hpool, hfl⟩ := ho.mapOnly k a hl
    have hba : b ≠ a := by
      rintro rfl
      exact hfl hb
    dsimp only
    split
    · rw [release_heap_other cfg _ hba]
      exact congrArg Entry.expiresAt (congrFun (onErase_heap s a) b)
    · have h := touch_promote hpool
      rw [Store.onHit, Store.modify_heap_other _ _ _ hba, (h.data b).2.2]

lemma holds_get (cfg : Config) {s : Store} {fl : List Addr} (hh : Holds s fl) (k : Bytes)
    (now : ℕ) : Holds (s.get cfg k now).1 fl :=
  ⟨(get_refines cfg hh.toOwned k now).1, fun b hb => by
    rw [get_deadline cfg hh.toOwned hb, hh.noDeadline b hb]⟩

/-! ### A call from one suspension to the next -/

/-- Before its write a call removes keys and does nothing else to the map. -/
lemma moves_waiting (cfg : Config) {s : Store} {fl : List Addr} {call : Call} {pc : Pc}
    {now later : ℕ} {r : Store × Pc} (hh : Holds s (pc.held ++ fl)) (hw : pc.waiting)
    (hpc : ∀ a, pc ≠ .acquired a) (h : resume cfg now later s call pc = some r) :
    Moves s r.1 (r.2.held ++ fl) ∧ r.2.waiting := by
  obtain ⟨s', pc'⟩ := r
  cases resume_moved h with
  | acquiring hacq ht hacq' =>
    rw [hacq.held] at hh
    rw [hacq'.held]
    exact ⟨moves_turns hh ht, hacq'.waiting⟩
  | made a => exact ⟨(Touch.refl _).moves hh, rfl⟩
  | front he => exact ⟨moves_takeFront hh he, rfl⟩
  | write => exact absurd rfl (hpc _)
  | evicting hev =>
    rw [hev.waiting] at hw
    cases hw

lemma moves_evicting (cfg : Config) {s : Store} {fl : List Addr} {call : Call} {pc : Pc}
    {now later : ℕ} {r : Store × Pc} (hh : Holds s (pc.held ++ fl)) (hw : pc.waiting = false)
    (h : resume cfg now later s call pc = some r) :
    Moves s r.1 (r.2.held ++ fl) ∧ r.2.Evicting := by
  obtain ⟨s', pc'⟩ := r
  cases resume_moved h with
  | acquiring hacq =>
    rw [hacq.waiting] at hw
    cases hw
  | made | front | write => cases hw
  | evicting hev ht hev' =>
    rw [hev.held] at hh
    rw [hev'.held]
    exact ⟨moves_turns hh ht, hev'⟩

/-- **A segment that does not begin with the entry** removes keys and does nothing else to the
map. -/
lemma moves_resume (cfg : Config) {s : Store} {fl : List Addr} {call : Call} {pc : Pc}
    {now later : ℕ} {r : Store × Pc} (hh : Holds s (pc.held ++ fl)) (hpc : ∀ a, pc ≠ .acquired a)
    (h : resume cfg now later s call pc = some r) :
    Moves s r.1 (r.2.held ++ fl) ∧
      (pc.waiting ∧ r.2.waiting ∨ pc.waiting = false ∧ r.2.Evicting) := by
  cases hw : pc.waiting with
  | true =>
    obtain ⟨h1, h2⟩ := moves_waiting cfg hh hw hpc h
    exact ⟨h1, .inl ⟨rfl, h2⟩⟩
  | false =>
    obtain ⟨h1, h2⟩ := moves_evicting cfg hh hw h
    exact ⟨h1, .inr ⟨rfl, h2⟩⟩

/-- The first part of an eviction pass chooses victims and leaves the map as it is. -/
lemma touch_sieveSegment {cfg : Config} {s : Store} {fl : List Addr} (ho : Owned s fl)
    (now fuel count : ℕ) (victims : List Bytes) :
    Touch s (sieveSegment cfg now fuel count victims s).1 := by
  have hpoint (s : Store) (h : Option Addr) : Touch s { s with hand := h } :=
    ⟨rfl, rfl, rfl, rfl, fun _ _ => rfl, fun _ => ⟨rfl, rfl, rfl⟩⟩
  induction fuel generalizing s count victims with
  | zero => exact hpoint s _
  | succ fuel ih =>
    unfold sieveSegment
    split
    · split
      · exact hpoint s _
      · next a _ =>
        have h := touch_evictTurn ho now a
        rcases ht : s.evictTurn now a with ⟨t, _ | key⟩ <;> rw [ht] at h <;> dsimp only
        · exact h.trans (ih (h.owned ho) count victims)
        · split
          · exact h.trans (hpoint t _)
          · split
            · exact h
            · exact h.trans (ih (h.owned ho) (count + 1) (victims ++ [key]))
    · exact hpoint s _

lemma touch_startEvict (cfg : Config) {s : Store} {fl : List Addr} (ho : Owned s fl) (now : ℕ) :
    Touch s (startEvict cfg now s).1 := by
  unfold startEvict
  split
  · exact Touch.refl s
  split
  · split
    · exact Touch.refl s
    split
    · exact Touch.refl s
    · have h : Touch s { s with hand := if s.hand = none then s.sieveList.head? else s.hand } :=
        ⟨rfl, rfl, rfl, rfl, fun _ _ => rfl, fun _ => ⟨rfl, rfl, rfl⟩⟩
      exact h.trans (touch_sieveSegment (h.owned ho) now _ 0 [])
  · exact Touch.refl s

lemma resume_acquired (cfg : Config) {s : Store} {fl : List Addr} {call : Call} {a : Addr}
    {now later : ℕ} {r : Store × Pc} (hh : Holds s (a :: fl))
    (h : resume cfg now later s call (.acquired a) = some r) :
    ∃ k v d, (⟨call, now, later⟩ : Event).Writes k v d ∧ Holds r.1 (r.2.held ++ fl) ∧
      r.2.Evicting ∧ abs r.1 = write (abs s) k v (d.getD (deadline (abs s) k)) ∧
        r.1.evictionCount = s.evictionCount := by
  have hwrite (k v : Bytes) (d : Option ℕ)
      (hr : startEvict cfg later (update cfg s k v d a) = r) :
      Holds r.1 (r.2.held ++ fl) ∧ r.2.Evicting ∧
        abs r.1 = write (abs s) k v (d.getD (deadline (abs s) k)) ∧
        r.1.evictionCount = s.evictionCount := by
    obtain ⟨h1, h2, h3⟩ := holds_update cfg hh k v d
    have ht := touch_startEvict cfg h1.toOwned later
    have hpc := (turns_startEvict cfg later (update cfg s k v d a)).2
    rw [hr] at ht hpc
    rw [hpc.held]
    exact ⟨(ht.moves h1).1, hpc, ht.abs_eq.trans h2, ht.evictions.trans h3⟩
  cases call with
  | set k v => exact ⟨k, v, none, ⟨rfl, rfl, rfl⟩, hwrite k v none (Option.some.inj h)⟩
  | setWithTtl k v ttl =>
    exact ⟨k, v, _, ⟨rfl, rfl, rfl⟩, hwrite k v (some (Store.due now ttl)) (Option.some.inj h)⟩
  | get k => cases h

end ShunyaKV.Shard
