import ShunyaKV.Shard.Pass
import ShunyaKV.Shard.Tasks

/-!
Passes that are suspended while the list changes.

A call of `evict` yields after every thousandth victim, and the calls of the policy that run
meanwhile, other passes among them, insert and erase entries and move the hand. A log keeps
what enters and leaves the list; a pass that would read the entry at a hand that is not in
the list has no result.
-/

namespace ShunyaKV.Shard

open ShunyaKV.Lib.HandList ShunyaKV.Lib.Steps

/-- An entry enters the list, is erased from it, or is taken by the pass of a call under the
key it has then. -/
inductive Deed
  | inserted (a : Addr)
  | erased (a : Addr)
  | taken (i : ℕ) (a : Addr) (key : Bytes)

namespace Deed

def enters (a : Addr) : Deed → Bool
  | .inserted b => b = a
  | _ => false

def leaves (a : Addr) : Deed → Bool
  | .inserted _ => false
  | .erased b => b = a
  | .taken _ b _ => b = a

def reported (i : ℕ) : Deed → Option Bytes
  | .taken j _ key => if j = i then some key else none
  | _ => none

end Deed

/-- The loop of `evict` in call `i`, up to its end or its next yield. -/
def passSegment (cfg : Config) (now i : ℕ) :
    ℕ → ℕ → List Bytes → List Deed → Store → Option (Store × Pc × List Deed)
  | 0, _, victims, log, s =>
    let r := finishEvict victims s
    some (r.1, r.2, log)
  | fuel + 1, count, victims, log, s =>
    let r := finishEvict victims s
    if count < cfg.softBudget then
      match s.hand with
      | none => some (r.1, r.2, log)
      | some a =>
        if a ∈ s.sieveList then
          match s.evictTurn now a with
          | (t, some key) =>
            let victims := victims ++ [key]
            let log := log ++ [.taken i a key]
            let r := finishEvict victims t
            if t.sieveList = [] then some (r.1, r.2, log)
            else if (count + 1) % 1000 = 0 then some (t, .sieving now (count + 1) victims, log)
            else passSegment cfg now i fuel (count + 1) victims log t
          | (t, none) => passSegment cfg now i fuel count victims log t
        -- `*hand_` at an entry that is not linked
        else none
    else some (r.1, r.2, log)

/-- The policy with the calls of `evict` made so far, and what has happened to the list. -/
structure Policy where
  store : Store
  calls : List Pc
  log : List Deed

/-- A call of the policy, a write to an entry by its owner, or a suspended pass goes on. -/
inductive PolicyAct
  | onInsert (a : Addr)
  | onErase (a : Addr)
  | onHit (a : Addr)
  | edit (a : Addr) (f : Entry → Entry)
  | evict (now : ℕ)
  | resume (i : ℕ)

namespace Policy

def fresh (cfg : Config) : Policy := ⟨start cfg, [], []⟩

def act (cfg : Config) (σ : Policy) : PolicyAct → Option Policy
  | .onInsert a =>
    some { σ with
      store := σ.store.onInsert a
      log := if a ∈ σ.store.sieveList then σ.log else σ.log ++ [.inserted a] }
  | .onErase a =>
    some { σ with
      store := σ.store.onErase a
      log := if a ∈ σ.store.sieveList then σ.log ++ [.erased a] else σ.log }
  | .onHit a => some { σ with store := σ.store.onHit a }
  | .edit a f => some { σ with store := σ.store.modify a f }
  | .evict now =>
    let s := σ.store
    if vectorMaxSize < cfg.softBudget then
      some { σ with calls := σ.calls ++ [.done (.threw .vector)] }
    else if s.sieveList = [] then some { σ with calls := σ.calls ++ [.chosen []] }
    else
      let s := { s with hand := if s.hand = none then s.sieveList.head? else s.hand }
      (passSegment cfg now σ.calls.length s.sieveList.length 0 [] σ.log s).map fun r =>
        ⟨r.1, σ.calls ++ [r.2.1], r.2.2⟩
  | .resume i =>
    match σ.calls[i]? with
    | some (.sieving now count victims) =>
      (passSegment cfg now i σ.store.sieveList.length count victims σ.log σ.store).map fun r =>
        ⟨r.1, σ.calls.set i r.2.1, r.2.2⟩
    -- no pass waits there
    | _ => some σ

end Policy

/-! ### What is logged -/

/-- The entries in the list have entered it once more than they have left it, the others as
often; at no time before was it otherwise. -/
structure Tallied (log : List Deed) (l : List Addr) : Prop where
  linked : ∀ a, log.countP (·.enters a) = log.countP (·.leaves a) + if a ∈ l then 1 else 0
  always : ∀ u, u <+: log → ∀ a, u.countP (·.leaves a) ≤ u.countP (·.enters a) ∧
    u.countP (·.enters a) ≤ u.countP (·.leaves a) + 1

lemma Tallied.snoc {log : List Deed} {l l' : List Addr} (h : Tallied log l) (d : Deed)
    (hd : ∀ a, (if d.enters a then 1 else 0) + (if a ∈ l then 1 else 0) =
      (if d.leaves a then 1 else 0) + if a ∈ l' then 1 else 0) : Tallied (log ++ [d]) l' := by
  have hlinked (a : Addr) : (log ++ [d]).countP (·.enters a) =
      (log ++ [d]).countP (·.leaves a) + if a ∈ l' then 1 else 0 := by
    have h1 := h.linked a
    have h2 := hd a
    simp only [List.countP_append, List.countP_singleton]
    omega
  refine ⟨hlinked, fun u hu a => ?_⟩
  rcases List.prefix_concat_iff.mp hu with rfl | hu
  · have := hlinked a
    split at this <;> omega
  · exact h.always u hu a

lemma Tallied.insert {log : List Deed} {l : List Addr} (h : Tallied log l) {a : Addr}
    (ha : a ∉ l) : Tallied (log ++ [.inserted a]) (l ++ [a]) := by
  refine h.snoc _ fun b => ?_
  by_cases hb : a = b
  · subst hb
    simp [Deed.enters, Deed.leaves, ha]
  · simp [Deed.enters, Deed.leaves, hb, Ne.symm hb]

lemma Tallied.erase {log : List Deed} {l : List Addr} (h : Tallied log l) (hl : l.Nodup)
    {a : Addr} (ha : a ∈ l) {d : Deed}
    (hd : ∀ b, d.enters b = false ∧ d.leaves b = decide (a = b)) :
    Tallied (log ++ [d]) (l.erase a) := by
  refine h.snoc d fun b => ?_
  obtain ⟨h1, h2⟩ := hd b
  rw [h1, h2]
  by_cases hb : a = b
  · subst hb
    simp [ha, hl.not_mem_erase]
  · simp [hb, List.mem_erase_of_ne (Ne.symm hb)]

/-! ### One turn and one segment -/

/-- A turn at the hand leaves the hand in the list. -/
lemma standing_evictTurn {s : Store} (hs : s.Standing) {a : Addr} (ha : a ∈ s.sieveList)
    (now : ℕ) : (s.evictTurn now a).1.Standing := by
  unfold Store.evictTurn
  split
  · refine ⟨hs.nodup.erase a, fun b hb => ?_⟩
    dsimp only at hb ⊢
    split at hb
    · cases hb
    · exact after_mem hs.nodup ha hb
  · exact ⟨hs.nodup, fun b hb => List.mem_of_mem_erase (after_mem hs.nodup ha hb)⟩

lemma evictTurn_some {s t : Store} {now : ℕ} {a : Addr} {key : Bytes}
    (h : s.evictTurn now a = (t, some key)) : t.sieveList = s.sieveList.erase a := by
  unfold Store.evictTurn at h
  split at h <;> cases h
  rfl

lemma evictTurn_none {s t : Store} {now : ℕ} {a : Addr} (h : s.evictTurn now a = (t, none)) :
    t.sieveList = s.sieveList := by
  unfold Store.evictTurn at h
  split at h <;> cases h
  rfl

def Pc.picked : Pc → List Bytes
  | .sieving _ _ victims => victims
  | .chosen victims => victims
  | _ => []

def reports (log : List Deed) (i : ℕ) : List Bytes := log.filterMap (Deed.reported i)

lemma reports_snoc (log : List Deed) {d : Deed} {i : ℕ} (h : d.reported i = none) :
    reports (log ++ [d]) i = reports log i := by
  simp [reports, h]

/-- The list and the log in good order, with the victims of call `i`. -/
structure Ordered (i : ℕ) (victims : List Bytes) (log : List Deed) (s : Store) : Prop where
  standing : s.Standing
  tallied : Tallied log s.sieveList
  reports : reports log i = victims

lemma Ordered.finish {i : ℕ} {victims : List Bytes} {log : List Deed} {s : Store}
    (h : Ordered i victims log s) : Ordered i victims log (finishEvict victims s).1 := by
  refine ⟨⟨h.standing.nodup, fun a ha => ?_⟩, h.tallied, h.reports⟩
  unfold finishEvict at ha ⊢
  dsimp only at ha ⊢
  split at ha
  · cases ha
  · split at ha
    · exact List.mem_of_head? ha
    · exact h.standing.hand a ha

lemma Ordered.take {i : ℕ} {victims : List Bytes} {log : List Deed} {s t : Store} {a : Addr}
    {now : ℕ} {key : Bytes} (h : Ordered i victims log s) (ha : a ∈ s.sieveList)
    (ht : s.evictTurn now a = (t, some key)) :
    Ordered i (victims ++ [key]) (log ++ [.taken i a key]) t := by
  have hs := standing_evictTurn h.standing ha now
  rw [ht] at hs
  refine ⟨hs, ?_, ?_⟩
  · rw [evictTurn_some ht]
    exact h.tallied.erase h.standing.nodup ha fun b => ⟨rfl, rfl⟩
  · rw [← h.reports]
    simp [Shard.reports, Deed.reported]

lemma Ordered.pass {i : ℕ} {victims : List Bytes} {log : List Deed} {s t : Store} {a : Addr}
    {now : ℕ} (h : Ordered i victims log s) (ha : a ∈ s.sieveList)
    (ht : s.evictTurn now a = (t, none)) : Ordered i victims log t := by
  have hs := standing_evictTurn h.standing ha now
  rw [ht] at hs
  exact ⟨hs, by rw [evictTurn_none ht]; exact h.tallied, h.reports⟩

/-- A segment has a result, the one of the calls of the store, and nothing is reported in the
name of another call. -/
lemma passSegment_eq (cfg : Config) (now i fuel count : ℕ) {victims : List Bytes}
    {log : List Deed} {s : Store} (h : Ordered i victims log s) :
    ∃ s' pc log', passSegment cfg now i fuel count victims log s = some (s', pc, log') ∧
      sieveSegment cfg now fuel count victims s = (s', pc) ∧ Ordered i pc.picked log' s' ∧
      ∀ j, j ≠ i → reports log' j = reports log j := by
  induction fuel generalizing count victims log s with
  | zero => exact ⟨_, _, _, rfl, rfl, h.finish, fun _ _ => rfl⟩
  | succ fuel ih =>
    unfold passSegment sieveSegment
    dsimp only
    by_cases hc : count < cfg.softBudget
    · rw [if_pos hc, if_pos hc]
      rcases hh : s.hand with _ | a
      · exact ⟨_, _, _, rfl, rfl, h.finish, fun _ _ => rfl⟩
      · have ha := h.standing.hand a hh
        dsimp only
        rw [if_pos ha]
        rcases ht : s.evictTurn now a with ⟨t, _ | key⟩
        · exact ih count (h.pass ha ht)
        · have hother (j : ℕ) (hj : j ≠ i) :
              reports (log ++ [.taken i a key]) j = reports log j :=
            reports_snoc log (if_neg (Ne.symm hj))
          have htake := h.take ha ht
          dsimp only
          by_cases hnil : t.sieveList = []
          · rw [if_pos hnil, if_pos hnil]
            exact ⟨_, _, _, rfl, rfl, htake.finish, hother⟩
          rw [if_neg hnil, if_neg hnil]
          by_cases hy : (count + 1) % 1000 = 0
          · rw [if_pos hy, if_pos hy]
            exact ⟨_, _, _, rfl, rfl, htake, hother⟩
          · rw [if_neg hy, if_neg hy]
            obtain ⟨s', pc, log', h1, h2, h3, h4⟩ := ih (count + 1) htake
            exact ⟨s', pc, log', h1, h2, h3, fun j hj => (h4 j hj).trans (hother j hj)⟩
    · rw [if_neg hc, if_neg hc]
      exact ⟨_, _, _, rfl, rfl, h.finish, fun _ _ => rfl⟩

/-! ### Runs -/

namespace Policy

def picked (σ : Policy) (i : ℕ) : List Bytes := (σ.calls[i]?.map Pc.picked).getD []

structure Good (σ : Policy) : Prop where
  standing : σ.store.Standing
  tallied : Tallied σ.log σ.store.sieveList
  reports : ∀ i, reports σ.log i = σ.picked i

lemma good_fresh (cfg : Config) : (fresh cfg).Good where
  standing := ⟨by simp [fresh, start], by simp [fresh, start]⟩
  tallied := by
    refine ⟨by simp [fresh, start], fun u hu a => ?_⟩
    obtain rfl := List.prefix_nil.mp hu
    simp
  reports := by simp [fresh, Shard.reports, picked]

lemma Good.ordered {σ : Policy} (h : σ.Good) (i : ℕ) :
    Ordered i (σ.picked i) σ.log σ.store := ⟨h.standing, h.tallied, h.reports i⟩

lemma Good.replace {σ : Policy} (h : σ.Good) {s : Store} {log : List Deed} (hs : s.Standing)
    (ht : Tallied log s.sieveList) (hr : ∀ i, Shard.reports log i = Shard.reports σ.log i) :
    Good ⟨s, σ.calls, log⟩ := ⟨hs, ht, fun i => (hr i).trans (h.reports i)⟩

lemma Good.advance {σ : Policy} (h : σ.Good) {i : ℕ} {pc : Pc} {log : List Deed} {s : Store}
    {calls : List Pc} (ho : Ordered i pc.picked log s)
    (hlog : ∀ j, j ≠ i → Shard.reports log j = Shard.reports σ.log j) (hi : calls[i]? = some pc)
    (hcalls : ∀ j, j ≠ i → calls[j]? = σ.calls[j]?) : Good ⟨s, calls, log⟩ := by
  refine ⟨ho.standing, ho.tallied, fun j => ?_⟩
  by_cases hj : j = i
  · subst hj
    simp [picked, hi, ho.reports]
  · rw [hlog j hj, h.reports j, picked, picked, hcalls j hj]

lemma Good.onInsert {σ : Policy} (h : σ.Good) (a : Addr) :
    Good ⟨σ.store.onInsert a, σ.calls,
      if a ∈ σ.store.sieveList then σ.log else σ.log ++ [.inserted a]⟩ := by
  refine h.replace (Store.standing_onInsert h.standing a) ?_ fun i => ?_
  · by_cases ha : a ∈ σ.store.sieveList
    · simpa [Store.onInsert, ha] using h.tallied
    · simpa [Store.onInsert, ha] using h.tallied.insert ha
  · split
    · rfl
    · exact reports_snoc _ rfl

lemma Good.onErase {σ : Policy} (h : σ.Good) (a : Addr) :
    Good ⟨σ.store.onErase a, σ.calls,
      if a ∈ σ.store.sieveList then σ.log ++ [.erased a] else σ.log⟩ := by
  refine h.replace (Store.standing_onErase h.standing a) ?_ fun i => ?_
  · by_cases ha : a ∈ σ.store.sieveList
    · simpa [Store.onErase, ha] using
        h.tallied.erase h.standing.nodup ha (d := .erased a) fun b => ⟨rfl, rfl⟩
    · simpa [Store.onErase, ha] using h.tallied
  · split
    · exact reports_snoc _ rfl
    · rfl

lemma Good.append {σ : Policy} (h : σ.Good) {pc : Pc} {log : List Deed} {s : Store}
    (ho : Ordered σ.calls.length pc.picked log s)
    (hlog : ∀ j, j ≠ σ.calls.length → Shard.reports log j = Shard.reports σ.log j) :
    Good ⟨s, σ.calls ++ [pc], log⟩ := by
  refine h.advance ho hlog (by simp) fun j hj => ?_
  rw [List.getElem?_append]
  split
  · rfl
  · rw [List.getElem?_eq_none (by simp; omega), List.getElem?_eq_none (by omega)]

/-- A pass starts with the hand at an entry. -/
lemma Good.evict (cfg : Config) {σ : Policy} (h : σ.Good) (now : ℕ) :
    ∃ σ', σ.act cfg (.evict now) = some σ' ∧ σ'.Good := by
  have ho := h.ordered σ.calls.length
  have hnew : σ.picked σ.calls.length = [] := by simp [picked]
  rw [hnew] at ho
  have hnone {pc : Pc} (hpc : pc.picked = []) : Good ⟨σ.store, σ.calls ++ [pc], σ.log⟩ :=
    h.append (by rwa [hpc]) fun _ _ => rfl
  unfold act
  dsimp only
  split
  · exact ⟨_, rfl, hnone rfl⟩
  split
  · exact ⟨_, rfl, hnone rfl⟩
  · set s : Store := { σ.store with
      hand := if σ.store.hand = none then σ.store.sieveList.head? else σ.store.hand } with hs
    have ho' : Ordered σ.calls.length [] σ.log s := by
      refine ⟨⟨h.standing.nodup, fun a ha => ?_⟩, h.tallied, ho.reports⟩
      rw [hs] at ha
      dsimp only at ha
      split at ha
      · exact List.mem_of_head? ha
      · exact h.standing.hand a ha
    obtain ⟨s', pc, log', h1, -, h3, h4⟩ :=
      passSegment_eq cfg now σ.calls.length s.sieveList.length 0 ho'
    exact ⟨_, by rw [h1]; rfl, h.append h3 h4⟩

lemma Good.resume (cfg : Config) {σ : Policy} (h : σ.Good) (i : ℕ) :
    ∃ σ', σ.act cfg (.resume i) = some σ' ∧ σ'.Good := by
  unfold act
  dsimp only
  split
  · next now count victims hi =>
    have hlt : i < σ.calls.length := (List.getElem?_eq_some_iff.mp hi).1
    have ho : Ordered i victims σ.log σ.store := by
      have := h.ordered i
      rwa [picked, hi] at this
    obtain ⟨s', pc, log', h1, -, h3, h4⟩ :=
      passSegment_eq cfg now i σ.store.sieveList.length count ho
    refine ⟨_, by rw [h1]; rfl, h.advance h3 h4 ?_ ?_⟩
    · simp [hlt]
    · exact fun j hj => List.getElem?_set_ne (Ne.symm hj)
  · exact ⟨σ, rfl, h⟩

/-- **No action is undefined**, and each keeps the list in order. -/
lemma good_act (cfg : Config) {σ : Policy} (h : σ.Good) (a : PolicyAct) :
    ∃ σ', σ.act cfg a = some σ' ∧ σ'.Good := by
  cases a with
  | onInsert a => exact ⟨_, rfl, h.onInsert a⟩
  | onErase a => exact ⟨_, rfl, h.onErase a⟩
  | onHit a | edit a =>
    exact ⟨_, rfl, h.replace ⟨h.standing.nodup, h.standing.hand⟩ h.tallied fun _ => rfl⟩
  | evict now => exact h.evict cfg now
  | resume i => exact h.resume cfg i

/-- **The hand is safe.** Whatever calls of the policy run while passes are suspended, in
whatever order, no pass reads the entry at a hand that is not in the list: every run has a
result, and the hand is in the list or at its end. An entry leaves the list at most once for
each time it has entered it, erased or reported by one pass, and the entries in the list are
those that have entered it and not yet left. -/
theorem hand_safe (cfg : Config) (acts : List PolicyAct) :
    ∃ σ, runs (act cfg) (fresh cfg) acts = some σ ∧
      (∀ a, σ.store.hand = some a → a ∈ σ.store.sieveList) ∧ σ.store.sieveList.Nodup ∧
      (∀ u, u <+: σ.log → ∀ a, u.countP (·.leaves a) ≤ u.countP (·.enters a) ∧
        u.countP (·.enters a) ≤ u.countP (·.leaves a) + 1) ∧
      (∀ a, a ∈ σ.store.sieveList ↔
        σ.log.countP (·.enters a) = σ.log.countP (·.leaves a) + 1) ∧
      ∀ i, σ.picked i = σ.log.filterMap (Deed.reported i) := by
  obtain ⟨σ, hrun, hg⟩ := runs_total (fun σ a h => good_act cfg h a) (good_fresh cfg) acts
  refine ⟨σ, hrun, hg.standing.hand, hg.standing.nodup, hg.tallied.always, fun a => ?_,
    fun i => (hg.reports i).symm⟩
  have := hg.tallied.linked a
  by_cases ha : a ∈ σ.store.sieveList
  · rw [if_pos ha] at this
    exact ⟨fun _ => this, fun _ => ha⟩
  · rw [if_neg ha] at this
    exact ⟨fun h => absurd h ha, fun h => by omega⟩

end Policy

end ShunyaKV.Shard
