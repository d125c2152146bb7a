import ShunyaKV.Lib.HandList
import ShunyaKV.Shard.State

/-!
The SIEVE policy over the sanctuary list.

A pass starts at the hand and runs to the end of the list. An entry that is expired or has
not been visited is unlinked and reported by its key, any other loses its visited bit, and
the pass stops early when the budget is used up.
-/

namespace ShunyaKV.Shard

open ShunyaKV.Lib.HandList

/-- An absolute deadline, `0` for none. -/
def isExpired (now expiresAt : ℕ) : Bool := expiresAt ≠ 0 ∧ expiresAt ≤ now

namespace Store

def onInsert (s : Store) (a : Addr) : Store :=
  if a ∈ s.sieveList then s
  else
    let s := s.modify a fun e => { e with visited := true, poolType := .sanctuary }
    let l := s.sieveList ++ [a]
    { s with sieveList := l, hand := if s.hand = none then l.head? else s.hand }

def onErase (s : Store) (a : Addr) : Store :=
  if a ∈ s.sieveList then
    -- the hand is moved on before the entry is unlinked
    let h := if s.hand = some a then (after s.sieveList a).or s.sieveList.head? else s.hand
    let l := s.sieveList.erase a
    { s with sieveList := l, hand := if l = [] then none else h }
  else s

def onHit (s : Store) (a : Addr) : Store := s.modify a fun e => { e with visited := true }

def takes (s : Store) (now : ℕ) (a : Addr) : Bool :=
  isExpired now (s.heap a).expiresAt || !(s.heap a).visited

/-- One turn of the loop of `evict`, the hand at `a`, and the key of the victim. -/
def evictTurn (s : Store) (now : ℕ) (a : Addr) : Store × Option Bytes :=
  if s.takes now a then
    let l := s.sieveList.erase a
    ({ s with sieveList := l, hand := if l = [] then none else after s.sieveList a },
      some (s.heap a).key)
  else
    ({ s.modify a fun e => { e with visited := false } with hand := after s.sieveList a }, none)

/-- The loop of `evict`, `count` victims taken. A turn moves the hand on, so that the
length of the list is fuel enough. -/
def evictLoop (budget now : ℕ) : ℕ → ℕ → Store → Store × List Bytes
  | 0, _, s => (s, [])
  | fuel + 1, count, s =>
    if count < budget then
      match s.hand with
      | none => (s, [])
      | some a =>
        match s.evictTurn now a with
        | (s, some key) =>
          if s.sieveList = [] then (s, [key])
          else
            let r := evictLoop budget now fuel (count + 1) s
            (r.1, key :: r.2)
        | (s, none) => evictLoop budget now fuel count s
    else (s, [])

def sweep (s : Store) (budget now : ℕ) : Store × List Bytes :=
  if s.sieveList = [] then (s, [])
  else
    let s := { s with hand := if s.hand = none then s.sieveList.head? else s.hand }
    let r := evictLoop budget now s.sieveList.length 0 s
    let s := r.1
    ({ s with hand := if s.sieveList = [] then none
                      else if s.hand = none then s.sieveList.head? else s.hand }, r.2)

/-- Room for the victims is reserved before the list is looked at. -/
def evict (s : Store) (budget now : ℕ) : Except LengthError (Store × List Bytes) :=
  if vectorMaxSize < budget then .error .vector else .ok (s.sweep budget now)

lemma evict_ok {s : Store} {budget : ℕ} (h : ¬ vectorMaxSize < budget) (now : ℕ) :
    s.evict budget now = .ok (s.sweep budget now) := if_neg h

lemma evict_throws {s : Store} {budget now : ℕ} (h : vectorMaxSize < budget) :
    s.evict budget now = .error .vector := if_pos h

/-! ### What a pass does -/

/-- The visited bits of the entries in `l` cleared. -/
def unvisit (s : Store) (l : List Addr) : Store :=
  { s with heap := fun a => if a ∈ l then { s.heap a with visited := false } else s.heap a }

/-- The hand stands at the first entry of `r`, the part of the list a pass will look at. -/
structure Split (s : Store) (l r : List Addr) : Prop where
  list : s.sieveList = l ++ r
  hand : s.hand = r.head?
  nodup : (l ++ r).Nodup

lemma Split.take {s : Store} {l r : List Addr} {a : Addr} (h : s.Split l (a :: r)) :
    Split { s with sieveList := l ++ r, hand := r.head? } l r :=
  ⟨rfl, rfl, h.nodup.sublist (by simp)⟩

lemma Split.pass {s : Store} {l r : List Addr} {a : Addr} (h : s.Split l (a :: r)) :
    Split { s.modify a fun e => { e with visited := false } with hand := r.head? } (l ++ [a]) r :=
  ⟨by simp [h.list], rfl, by simpa using h.nodup⟩

def ahead (s : Store) : List Addr := s.sieveList.dropWhile fun a => some a ≠ s.hand

def taking (s : Store) (budget now : ℕ) : List Addr := taken (s.takes now) budget s.ahead

lemma Split.ahead {s : Store} {l r : List Addr} (h : s.Split l r) : s.ahead = r := by
  rw [Store.ahead, h.list, h.hand]
  cases r with
  | nil => simp [List.dropWhile_eq_nil_iff]
  | cons a r => simpa using dropWhile_ne_append (not_mem_left h.nodup)

lemma unvisit_nil (s : Store) : s.unvisit [] = s := by simp [unvisit]

lemma unvisit_cons (s : Store) (a : Addr) (l : List Addr) :
    (s.modify a fun e => { e with visited := false }).unvisit l = s.unvisit (a :: l) := by
  simp only [unvisit, modify]
  congr 1
  funext b
  by_cases hb : b = a
  · subst hb; by_cases hl : b ∈ l <;> simp [hl]
  · by_cases hl : b ∈ l <;> simp [hb, hl]

lemma evictTurn_take {s : Store} {l r : List Addr} {now : ℕ} {a : Addr} (h : s.Split l (a :: r))
    (ht : s.takes now a) :
    s.evictTurn now a = ({ s with sieveList := l ++ r, hand := r.head? }, some (s.heap a).key) := by
  have ha : a ∉ l := not_mem_left h.nodup
  have hhand : (if l ++ r = [] then none else r.head?) = r.head? := by
    by_cases hn : l ++ r = []
    · have : r = [] := (List.append_eq_nil_iff.mp hn).2
      simp [this]
    · simp [hn]
  simp only [evictTurn, ht, if_true, h.list, erase_append ha, after_append ha, hhand]

lemma evictTurn_pass {s : Store} {l r : List Addr} {now : ℕ} {a : Addr} (h : s.Split l (a :: r))
    (ht : s.takes now a = false) :
    s.evictTurn now a =
      ({ s.modify a fun e => { e with visited := false } with hand := r.head? }, none) := by
  have ha : a ∉ l := not_mem_left h.nodup
  simp [evictTurn, ht, h.list, after_append ha]

section Pass

variable {p : Addr → Bool} {budget now : ℕ}

/-- The store a sweep over `r` leaves behind, its hand not yet brought back to the start. -/
def swept (s : Store) (p : Addr → Bool) (b : ℕ) (l r : List Addr) : Store :=
  { s.unvisit (passed p b r) with
    sieveList := l ++ (passed p b r ++ unseen p b r), hand := (unseen p b r).head? }

/-- A sweep that looks at nothing changes nothing. -/
lemma swept_of_unseen {s : Store} {b : ℕ} {l r : List Addr} (h : s.Split l r)
    (hb : b = 0 ∨ r = []) : s.swept p b l r = s ∧ taken p b r = [] := by
  have hpass : passed p b r = [] ∧ unseen p b r = r ∧ taken p b r = [] := by
    rcases hb with rfl | rfl
    · cases r <;> simp [passed, unseen, taken]
    · cases b <;> simp [passed, unseen, taken]
  obtain ⟨h1, h2, h3⟩ := hpass
  refine ⟨?_, h3⟩
  rw [swept, h1, h2, unvisit_nil, List.nil_append, ← h.list, ← h.hand]

lemma swept_take (s : Store) (b : ℕ) (l r : List Addr) {a : Addr} (ha : p a = true) :
    swept { s with sieveList := l ++ r, hand := r.head? } p b l r =
      swept s p (b + 1) l (a :: r) := by
  simp [swept, unvisit, passed, unseen, ha]

lemma swept_pass (s : Store) (b : ℕ) (l r : List Addr) {a : Addr} (ha : p a = false) :
    swept { s.modify a fun e => { e with visited := false } with hand := r.head? } p (b + 1)
      (l ++ [a]) r = swept s p (b + 1) l (a :: r) := by
  have h := unvisit_cons s a (passed p (b + 1) r)
  have e1 : passed p (b + 1) (a :: r) = a :: passed p (b + 1) r := by simp [passed, ha]
  have e2 : unseen p (b + 1) (a :: r) = unseen p (b + 1) r := by simp [unseen, ha]
  rw [swept, swept, e1, e2, ← h]
  simp [unvisit]

/-- What a pass makes of another entry does not depend on the one it has passed over. -/
lemma takes_pass (s : Store) (hand : Option Addr) {a x : Addr} (hxa : x ≠ a) :
    takes { s.modify a fun e => { e with visited := false } with hand := hand } now x =
      s.takes now x := by
  simp [takes, modify, hxa]

lemma key_pass (s : Store) (a x : Addr) :
    ((s.modify a fun e => { e with visited := false }).heap x).key = (s.heap x).key := by
  by_cases hxa : x = a
  · subst hxa; simp
  · simp [modify, hxa]

/-- The last entry is gone, and the loop is left before it counts the victim. -/
lemma evictLoop_last {s : Store} {a : Addr} (b : ℕ) (h : s.Split [] [a]) (ha : p a = true) :
    s.swept p (b + 1) [] [a] = { s with sieveList := [], hand := none } ∧ taken p b [] = [] := by
  have hswept := swept_of_unseen (p := p) (b := b) h.take (Or.inr rfl)
  rwa [swept_take s b [] [] ha] at hswept

/-- **A pass is a sweep**: the loop takes, passes over and leaves unseen what a sweep with
the budget that is left does. -/
lemma evictLoop_eq {s : Store} {l r : List Addr} (fuel count : ℕ) (h : s.Split l r)
    (hp : ∀ a ∈ r, s.takes now a = p a) (hf : r.length ≤ fuel) :
    evictLoop budget now fuel count s =
      (s.swept p (budget - count) l r,
        (taken p (budget - count) r).map fun a => (s.heap a).key) := by
  induction r generalizing s l fuel count with
  | nil =>
    obtain ⟨h1, h2⟩ := swept_of_unseen (p := p) (b := budget - count) h (Or.inr rfl)
    rw [h1, h2]
    have hh : s.hand = none := h.hand
    cases fuel <;> simp [evictLoop, hh]
  | cons a r ih =>
    obtain ⟨fuel, rfl⟩ : ∃ n, fuel = n + 1 := ⟨fuel - 1, by simp at hf; omega⟩
    have hf' : r.length ≤ fuel := by simpa using hf
    rcases Nat.lt_or_ge count budget with hc | hc
    · obtain ⟨b, hb⟩ : ∃ b, budget - count = b + 1 := ⟨budget - count - 1, by omega⟩
      have hb' : budget - (count + 1) = b := by omega
      have hh : s.hand = some a := h.hand
      have hpa := hp a (by simp)
      rw [evictLoop, if_pos hc, hh, hb]
      cases ha : p a with
      | true =>
        have htk : taken p (b + 1) (a :: r) = a :: taken p b r := by simp [taken, ha]
        have hloop := ih (s := { s with sieveList := l ++ r, hand := r.head? }) fuel (count + 1)
          h.take (fun x hx => hp x (by simp [hx])) hf'
        simp only [evictTurn_take h (hpa.trans ha)]
        rw [hloop, hb', swept_take s b l r ha, htk]
        by_cases hemp : l ++ r = []
        · obtain ⟨rfl, rfl⟩ := List.append_eq_nil_iff.mp hemp
          obtain ⟨hlast, hnone⟩ := evictLoop_last b h ha
          simp [hlast, hnone]
        · simp [hemp]
      | false =>
        have har : a ∉ r := (List.nodup_cons.mp (List.nodup_append.mp h.nodup).2.1).1
        have htk : taken p (b + 1) (a :: r) = taken p (b + 1) r := by simp [taken, ha]
        have hloop := ih fuel count h.pass (fun x hx => by
          rw [takes_pass s _ (ne_of_mem_of_not_mem hx har), hp x (by simp [hx])]) hf'
        simp only [evictTurn_pass h (hpa.trans ha)]
        rw [hloop, hb, swept_pass s b l r ha, htk]
        simp only [key_pass]
    · have hb : budget - count = 0 := by omega
      obtain ⟨h1, h2⟩ := swept_of_unseen (p := p) (b := budget - count) h (Or.inl hb)
      rw [h1, h2, evictLoop, if_neg (by omega)]
      rfl

/-- **What a pass does**, the hand at the first entry of `r`. -/
theorem sweep_eq {s : Store} {l r : List Addr} (h : s.Split l r) (hr : r = [] → l = []) :
    s.sweep budget now =
      ({ s.swept (s.takes now) budget l r with
          hand := (unseen (s.takes now) budget r).head?.or
            (s.swept (s.takes now) budget l r).sieveList.head? },
        (taken (s.takes now) budget r).map fun a => (s.heap a).key) := by
  by_cases hne : r = []
  · subst hne
    obtain rfl := hr rfl
    obtain ⟨h1, h2⟩ := swept_of_unseen (p := s.takes now) (b := budget) h (Or.inr rfl)
    have hl : s.sieveList = [] := h.list
    have hh : s.hand = none := h.hand
    have hu : unseen (s.takes now) budget ([] : List Addr) = [] := by cases budget <;> rfl
    rw [h1, h2, sweep, if_pos hl, hu, hl]
    simp [← hh]
  · have hl : s.sieveList ≠ [] := by rw [h.list]; simp [hne]
    have hh : s.hand ≠ none := by rw [h.hand]; simpa using hne
    have hs : { s with hand := if s.hand = none then s.sieveList.head? else s.hand } = s := by
      simp [hh]
    have hloop : evictLoop budget now s.sieveList.length 0 s = _ :=
      evictLoop_eq (p := s.takes now) _ 0 h (fun _ _ => rfl) (by rw [h.list]; simp)
    rw [sweep, if_neg hl]
    simp only [hs, hloop, Nat.sub_zero]
    congr 1
    rcases hu : unseen (s.takes now) budget r with _ | ⟨x, u⟩
    · by_cases hp : l ++ passed (s.takes now) budget r = []
      · obtain ⟨rfl, hp'⟩ := List.append_eq_nil_iff.mp hp
        simp [swept, hu, hp']
      · simp [swept, hu, hp]
    · simp [swept, hu]

end Pass

end Store

end ShunyaKV.Shard
