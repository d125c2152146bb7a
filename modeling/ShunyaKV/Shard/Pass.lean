import ShunyaKV.Shard.Sieve

/-!
The passes of the SIEVE policy, whatever the list and wherever the hand.

A pass looks at the entries from the hand to the end of the list, and not past the last one
its budget allows it to take. It may take nothing; then it has cleared the bits of what it
looked at and the hand is back at the first entry, so that the next one takes something.
-/

namespace ShunyaKV.Shard

open ShunyaKV.Lib.HandList

namespace Store

/-- The hand stands at an entry of the list, or past the last one. -/
structure Standing (s : Store) : Prop where
  nodup : s.sieveList.Nodup
  hand : ∀ a, s.hand = some a → a ∈ s.sieveList

/-- The list in two parts: a pass looks at the second one, from its first entry on. -/
structure Course (s : Store) (behind course : List Addr) : Prop where
  list : s.sieveList = behind ++ course
  hand : s.hand = none ∧ behind = [] ∨ s.hand ≠ none ∧ s.hand = course.head?

lemma Standing.course {s : Store} (hs : s.Standing) : ∃ behind course, s.Course behind course := by
  rcases hh : s.hand with _ | a
  · exact ⟨[], s.sieveList, rfl, .inl ⟨hh, rfl⟩⟩
  · obtain ⟨l, r, hl⟩ := List.append_of_mem (hs.hand a hh)
    exact ⟨l, a :: r, hl, .inr ⟨by simp [hh], hh⟩⟩

lemma sweep_end {s : Store} (h : s.hand = none) (budget now : ℕ) :
    s.sweep budget now = { s with hand := s.sieveList.head? }.sweep budget now := by
  by_cases hl : s.sieveList = []
  · have hhead : s.sieveList.head? = s.hand := by rw [hl, h, List.head?_nil]
    rw [hhead]
  · simp [sweep, hl, h]

def afterPass (s : Store) (budget now : ℕ) (behind course : List Addr) : Store :=
  { s.swept (s.takes now) budget behind course with
    hand := (unseen (s.takes now) budget course).head?.or
      (s.swept (s.takes now) budget behind course).sieveList.head? }

/-- **What a pass does**, wherever the hand. -/
lemma Course.sweep_eq {s : Store} {behind course : List Addr} (h : s.Course behind course)
    (hs : s.Standing) (budget now : ℕ) :
    s.sweep budget now = (s.afterPass budget now behind course,
      (taken (s.takes now) budget course).map fun a => (s.heap a).key) := by
  have hnodup : (behind ++ course).Nodup := h.list ▸ hs.nodup
  rcases h.hand with ⟨hnone, rfl⟩ | ⟨hne, hhand⟩
  · have hlist : s.sieveList = course := h.list
    have hsplit : Split { s with hand := s.sieveList.head? } [] course :=
      ⟨h.list, congrArg List.head? hlist, hnodup⟩
    rw [sweep_end hnone, Store.sweep_eq hsplit fun _ => rfl]
    rfl
  · refine Store.sweep_eq ⟨h.list, hhand, hnodup⟩ fun hnil => absurd hhand ?_
    simpa [hnil] using hne

/-! ### One pass -/

/-- A pass that looks at `seen` and leaves `rest` unseen, with the entries it takes. -/
structure SievePass (s : Store) (budget now : ℕ) (behind seen rest victims : List Addr)
    (t : Store) (keys : List Bytes) : Prop where
  /-- It starts at the hand, or at the first entry if the hand is at the end. -/
  course : s.Course behind (seen ++ rest)
  /-- It goes on to the end of the list or until it has its victims, and no further. -/
  ends : rest = [] ∨ victims.length = budget
  stops : ∀ u v, seen = u ++ v → v ≠ [] → (u.filter (s.takes now)).length < budget
  victims_eq : victims = seen.filter (s.takes now)
  victims_first : victims = ((seen ++ rest).filter (s.takes now)).take budget
  keys_eq : keys = victims.map fun a => (s.heap a).key
  /-- What it has seen and not taken stays, with its bit cleared. -/
  list : t.sieveList = behind ++ (seen.filter (fun a => !s.takes now a) ++ rest)
  passed : ∀ a ∈ seen, s.takes now a = false → t.heap a = { s.heap a with visited := false }
  others : ∀ a, (a ∈ seen → s.takes now a = true) → t.heap a = s.heap a
  hand : t.hand = rest.head?.or t.sieveList.head?
  frame : t = { s with sieveList := t.sieveList, hand := t.hand, heap := t.heap }

lemma Course.sievePass {s : Store} {behind course : List Addr} (h : s.Course behind course)
    (hs : s.Standing) (budget now : ℕ) :
    SievePass s budget now behind (seen (s.takes now) budget course)
      (unseen (s.takes now) budget course) (taken (s.takes now) budget course)
      (s.sweep budget now).1 (s.sweep budget now).2 := by
  have hpassed := filter_not_seen (s.takes now) budget course
  rw [h.sweep_eq hs]
  refine ⟨?_, unseen_eq_nil_or _ _ _, fun u v huv hv => length_filter_lt _ huv hv,
    (filter_seen _ _ _).symm, ?_, rfl, ?_, ?_, ?_, rfl, rfl⟩
  · rwa [seen_append_unseen]
  · rw [seen_append_unseen, taken_eq]
  · rw [hpassed]
    rfl
  · intro a ha hp
    have hmem : a ∈ passed (s.takes now) budget course := by
      rw [← hpassed]
      simp [ha, hp]
    simp [afterPass, swept, unvisit, hmem]
  · intro a ha
    have hmem : a ∉ passed (s.takes now) budget course := by
      rw [← hpassed]
      simpa using ha
    simp [afterPass, swept, unvisit, hmem]

/-! ### Calls of the policy -/

inductive PolicyCall
  | onInsert (a : Addr)
  | onErase (a : Addr)
  | onHit (a : Addr)
  | evict (budget now : ℕ)

def policyCall (s : Store) : PolicyCall → Store
  | .onInsert a => s.onInsert a
  | .onErase a => s.onErase a
  | .onHit a => s.onHit a
  | .evict budget now =>
    match s.evict budget now with
    | .ok r => r.1
    | .error _ => s

lemma policyCall_evict (s : Store) (budget now : ℕ) : s.policyCall (.evict budget now) =
    if vectorMaxSize < budget then s else (s.sweep budget now).1 := by
  unfold policyCall evict
  dsimp only
  split_ifs <;> rfl

def policyCalls (s : Store) (cs : List PolicyCall) : Store := cs.foldl policyCall s

/-- The call is a pass that looks at the entry. -/
def LooksAt (s : Store) (a : Addr) : PolicyCall → Prop
  | .evict budget now => ∃ behind seen rest victims t keys, s.evict budget now = .ok (t, keys) ∧
      a ∈ seen ∧ SievePass s budget now behind seen rest victims t keys
  | _ => False

def Unpassed (a : Addr) : Store → List PolicyCall → Prop
  | _, [] => True
  | s, c :: cs => ¬ s.LooksAt a c ∧ Unpassed a (s.policyCall c) cs

lemma standing_onInsert {s : Store} (hs : s.Standing) (a : Addr) : (s.onInsert a).Standing := by
  unfold onInsert
  split
  · exact hs
  · next ha =>
    obtain ⟨hnodup, hmem⟩ := Stands.append ⟨hs.nodup, hs.hand⟩ ha
    refine ⟨hnodup, fun b hb => ?_⟩
    dsimp only at hb
    split at hb
    · exact List.mem_of_head? hb
    · exact hmem b hb

lemma standing_onErase {s : Store} (hs : s.Standing) (a : Addr) : (s.onErase a).Standing := by
  unfold onErase
  split
  · next ha =>
    obtain ⟨hnodup, hmem⟩ := Stands.erase ⟨hs.nodup, hs.hand⟩ ha
    exact ⟨hnodup, hmem⟩
  · exact hs

lemma standing_sweep {s : Store} (hs : s.Standing) (budget now : ℕ) :
    (s.sweep budget now).1.Standing := by
  obtain ⟨behind, course, hc⟩ := hs.course
  have hp := hc.sievePass hs budget now
  refine ⟨?_, fun a ha => ?_⟩
  · have hsub : (s.sweep budget now).1.sieveList.Sublist s.sieveList := by
      rw [hp.list, hp.course.list]
      exact (List.Sublist.refl _).append (List.filter_sublist.append (List.Sublist.refl _))
    exact hs.nodup.sublist hsub
  · rw [hp.hand, Option.or_eq_some_iff] at ha
    rcases ha with ha | ⟨-, ha⟩
    · rw [hp.list]
      simp [List.mem_of_head? ha]
    · exact List.mem_of_head? ha

lemma standing_policyCall {s : Store} (hs : s.Standing) (c : PolicyCall) :
    (s.policyCall c).Standing := by
  cases c with
  | onInsert a => exact standing_onInsert hs a
  | onErase a => exact standing_onErase hs a
  | onHit a => exact ⟨hs.nodup, hs.hand⟩
  | evict budget now =>
    rw [policyCall_evict]
    split_ifs
    · exact hs
    · exact standing_sweep hs budget now

/-- Only a pass that looks at an entry clears its bit. -/
lemma visited_policyCall {s : Store} {a : Addr} {c : PolicyCall} (hs : s.Standing)
    (hv : (s.heap a).visited = true) (hc : ¬ s.LooksAt a c) :
    ((s.policyCall c).heap a).visited = true := by
  cases c with
  | onInsert b =>
    unfold policyCall onInsert
    dsimp only
    split
    · exact hv
    · by_cases hb : a = b
      · subst hb; simp
      · simp [s.modify_heap_other b _ hb, hv]
  | onErase b =>
    unfold policyCall onErase
    dsimp only
    split <;> exact hv
  | onHit b =>
    by_cases hb : a = b
    · subst hb; simp [policyCall, onHit]
    · simp [policyCall, onHit, s.modify_heap_other b _ hb, hv]
  | evict budget now =>
    obtain ⟨behind, course, hcourse⟩ := hs.course
    have hp := hcourse.sievePass hs budget now
    rw [policyCall_evict]
    split_ifs with hbig
    · exact hv
    · have hseen : a ∉ seen (s.takes now) budget course :=
        fun ha => hc ⟨_, _, _, _, _, _, evict_ok hbig now, ha, hp⟩
      rw [hp.others a fun h => absurd h hseen, hv]

lemma visited_policyCalls {s : Store} {a : Addr} {cs : List PolicyCall} (hs : s.Standing)
    (hv : (s.heap a).visited = true) (hc : Unpassed a s cs) :
    (s.policyCalls cs).Standing ∧ ((s.policyCalls cs).heap a).visited = true := by
  induction cs generalizing s with
  | nil => exact ⟨hs, hv⟩
  | cons c cs ih => exact ih (standing_policyCall hs c) (visited_policyCall hs hv hc.1) hc.2

/-- **A pass of the policy.** From the hand, or from the first entry if the hand is at the
end, a pass looks at the entries up to the end of the list or its last victim, takes the
expired and the unvisited ones among them, clears the bits of the others and leaves the rest
as it is. An entry that has been hit and that no pass has looked at since is not taken as
long as it is not expired. All this unless there is no room for as many victims as the budget
says: then the pass throws. -/
theorem evict_pass_iff (s : Store) (hs : s.Standing) (budget now : ℕ) :
    (∃ t keys, s.evict budget now = .ok (t, keys) ∧
      (∃ behind seen rest victims, SievePass s budget now behind seen rest victims t keys) ∧
      ∀ (s₀ : Store) (a : Addr) (cs : List PolicyCall), s₀.Standing →
        s = (s₀.onHit a).policyCalls cs → Unpassed a (s₀.onHit a) cs →
        isExpired now (s.heap a).expiresAt = false → a ∈ s.sieveList → a ∈ t.sieveList) ↔
      budget < 2 ^ 59 := by
  constructor
  · rintro ⟨t, keys, h, -⟩
    by_contra hbig
    have hvast : vectorMaxSize < budget := by
      unfold vectorMaxSize
      omega
    rw [evict_throws hvast] at h
    cases h
  intro hb
  obtain ⟨behind, course, hc⟩ := hs.course
  have hp := hc.sievePass hs budget now
  refine ⟨(s.sweep budget now).1, (s.sweep budget now).2,
    evict_ok (by unfold vectorMaxSize; omega) now, ⟨_, _, _, _, hp⟩,
    fun s₀ a cs hs₀ e hcs hexp ha => ?_⟩
  have hhit : ((s₀.onHit a).heap a).visited = true := by simp [onHit]
  have hv : (s.heap a).visited = true := by
    rw [e]
    exact (visited_policyCalls (s := s₀.onHit a) ⟨hs₀.nodup, hs₀.hand⟩ hhit hcs).2
  have htakes : s.takes now a = false := by simp [takes, hexp, hv]
  rw [hp.course.list] at ha
  rw [hp.list]
  simp only [List.mem_append, List.mem_filter, htakes] at ha ⊢
  tauto

/-- Three entries, the hand at the second one, which alone has been visited. -/
def threeLinked : Store :=
  { start ⟨3, 0, 0, 0, 0, fun _ => false, true, by simp⟩ with
    sieveList := [0, 1, 2]
    hand := some 1
    heap := fun a => { key := [UInt8.ofNat a], visited := a = 1 } }

lemma standing_threeLinked : threeLinked.Standing :=
  ⟨by decide, fun a h => by cases h; decide⟩

/-- The first entry is hit, and a pass takes the third one without looking at the first. -/
def hitBehind : Store := (threeLinked.onHit 0).policyCalls [.evict 1 0]

lemma unpassed_hitBehind : Unpassed 0 (threeLinked.onHit 0) [.evict 1 0] := by
  refine ⟨?_, trivial⟩
  rintro ⟨behind, seen, rest, victims, t, keys, -, hmem, hp⟩
  obtain ⟨hlist, ⟨hnone, -⟩ | ⟨-, hhand⟩⟩ := hp.course
  · cases hnone
  · change [0, 1, 2] = behind ++ (seen ++ rest) at hlist
    change some 1 = (seen ++ rest).head? at hhand
    cases behind with
    | nil =>
      rw [List.nil_append] at hlist
      rw [← hlist] at hhand
      cases hhand
    | cons b behind =>
      obtain ⟨-, hlist⟩ := List.cons.inj hlist
      have hzero : 0 ∈ [1, 2] := by
        rw [hlist]
        simp [hmem]
      simp at hzero

/-- The next pass goes by the entry that was hit, and takes the one after it. -/
theorem evict_pass_hitBehind :
    ∃ t, hitBehind.evict 2 0 = .ok (t, [[1]]) ∧
      (∃ behind seen rest victims, SievePass hitBehind 2 0 behind seen rest victims t [[1]]) ∧
      0 ∈ t.sieveList := by
  have hs : hitBehind.Standing := ⟨by decide, fun a h => by cases h; decide⟩
  obtain ⟨t, keys, h, hp, hkeep⟩ := (evict_pass_iff hitBehind hs 2 0).mpr (by decide)
  have hkeys : keys = [[1]] := by
    have h' := h
    cases h'
    decide
  subst hkeys
  exact ⟨t, h, hp, hkeep threeLinked 0 _ standing_threeLinked rfl unpassed_hitBehind (by decide)
    (by decide)⟩

/-- A budget of `2 ^ 59` is more than the list of victims can hold. -/
theorem not_pass_vast : ¬ ∃ t keys, threeLinked.evict (2 ^ 59) 0 = .ok (t, keys) ∧
    ∃ behind seen rest victims,
      SievePass threeLinked (2 ^ 59) 0 behind seen rest victims t keys := by
  rintro ⟨t, keys, h, -⟩
  rw [evict_throws (by decide)] at h
  cases h

/-! ### One pass after another -/

def passes (budget : ℕ) (s : Store) : List ℕ → Store × List (Except LengthError (List Bytes))
  | [] => (s, [])
  | now :: nows =>
    match s.evict budget now with
    | .ok (t, keys) =>
      let r := passes budget t nows
      (r.1, .ok keys :: r.2)
    | .error e =>
      let r := passes budget s nows
      (r.1, .error e :: r.2)

def victimsOf : Except LengthError (List Bytes) → List Bytes
  | .ok keys => keys
  | .error _ => []

section Pass

variable {s t : Store} {budget now : ℕ} {behind seen rest victims : List Addr} {keys : List Bytes}

/-- An entry is taken or stays. -/
lemma SievePass.perm (h : SievePass s budget now behind seen rest victims t keys) :
    (victims ++ t.sieveList).Perm s.sieveList := by
  have hsplit : (victims ++ seen.filter fun a => !s.takes now a).Perm seen := by
    rw [h.victims_eq]
    exact List.filter_append_perm _ seen
  rw [h.list, h.course.list]
  calc victims ++ (behind ++ (seen.filter (fun a => !s.takes now a) ++ rest))
      |>.Perm (behind ++ (victims ++ (seen.filter (fun a => !s.takes now a) ++ rest))) :=
        List.perm_append_comm_assoc _ _ _
    _ = behind ++ ((victims ++ seen.filter fun a => !s.takes now a) ++ rest) := by
        rw [List.append_assoc victims]
    _ |>.Perm (behind ++ (seen ++ rest)) := (hsplit.append_right rest).append_left behind

lemma SievePass.key (h : SievePass s budget now behind seen rest victims t keys) (a : Addr) :
    (t.heap a).key = (s.heap a).key := by
  by_cases ha : a ∈ seen ∧ s.takes now a = false
  · rw [h.passed a ha.1 ha.2]
  · rw [h.others a fun hmem => by simpa [hmem] using ha]

/-- A pass that takes nothing has looked at something, and nothing is left unseen. -/
lemma SievePass.idle (h : SievePass s budget now behind seen rest [] t keys) (hb : 1 ≤ budget)
    (hne : t.sieveList ≠ []) :
    t.hand = t.sieveList.head? ∧ ∃ a ∈ t.sieveList, (t.heap a).visited = false := by
  have hrest : rest = [] := by
    rcases h.ends with hr | hr
    · exact hr
    · rw [List.length_nil] at hr
      omega
  subst hrest
  have hnone : ∀ a ∈ seen, s.takes now a = false := by
    simpa using List.filter_eq_nil_iff.mp h.victims_eq.symm
  have hstay : seen.filter (fun a => !s.takes now a) = seen :=
    List.filter_eq_self.mpr fun a ha => by rw [hnone a ha]; rfl
  have hlist := h.list
  rw [hstay, List.append_nil] at hlist
  have hseen : seen ≠ [] := by
    rintro rfl
    rcases h.course.hand with ⟨-, rfl⟩ | ⟨hh, hh'⟩
    · exact hne hlist
    · exact hh hh'
  obtain ⟨a, ha⟩ := List.exists_mem_of_ne_nil _ hseen
  refine ⟨by simpa using h.hand, a, by simp [hlist, ha], ?_⟩
  rw [h.passed a ha (hnone a ha)]

end Pass

/-- With the hand at the first entry, an unvisited one is taken. -/
lemma sweep_ne_nil {s : Store} (hs : s.Standing) (hh : s.hand = s.sieveList.head?) {a : Addr}
    (ha : a ∈ s.sieveList) (hv : (s.heap a).visited = false) {budget : ℕ} (hb : 1 ≤ budget)
    (now : ℕ) : (s.sweep budget now).2 ≠ [] := by
  have hhand : s.hand ≠ none := by
    rw [hh]
    exact fun h => List.ne_nil_of_mem ha (List.head?_eq_none_iff.mp h)
  have hp := (show s.Course [] s.sieveList from ⟨rfl, .inr ⟨hhand, hh⟩⟩).sievePass hs budget now
  have hmem : a ∈ s.sieveList.filter (s.takes now) := by simp [ha, takes, hv]
  obtain ⟨x, l, hl⟩ := List.exists_cons_of_ne_nil (List.ne_nil_of_mem hmem)
  obtain ⟨b, rfl⟩ : ∃ b, budget = b + 1 := ⟨budget - 1, by omega⟩
  rw [hp.keys_eq, hp.victims_first, seen_append_unseen, hl]
  simp

/-- Of two passes in a row, one takes something. -/
lemma sweep_sweep {s : Store} (hs : s.Standing) {budget : ℕ} (hb : 1 ≤ budget) (now now' : ℕ)
    (hne : (s.sweep budget now).1.sieveList ≠ []) :
    (s.sweep budget now).2 ≠ [] ∨ ((s.sweep budget now).1.sweep budget now').2 ≠ [] := by
  obtain ⟨behind, course, hc⟩ := hs.course
  have hp := hc.sievePass hs budget now
  by_cases hv : taken (s.takes now) budget course = []
  · rw [hv] at hp
    obtain ⟨hh, a, ha, hvis⟩ := hp.idle hb hne
    exact .inr (sweep_ne_nil (standing_sweep hs budget now) hh ha hvis hb now')
  · left
    rw [hp.keys_eq]
    simpa using hv

lemma sweep_nil {s : Store} (h : s.sieveList = []) (budget now : ℕ) :
    s.sweep budget now = (s, []) := by
  rw [sweep, if_pos h]

lemma sweep_length {s : Store} (hs : s.Standing) (budget now : ℕ) :
    (s.sweep budget now).2.length + (s.sweep budget now).1.sieveList.length =
      s.sieveList.length := by
  obtain ⟨behind, course, hc⟩ := hs.course
  have hp := hc.sievePass hs budget now
  rw [hp.keys_eq, List.length_map, ← List.length_append, hp.perm.length_eq]

lemma sweep_sweep_length {s : Store} (hs : s.Standing) {budget : ℕ} (hb : 1 ≤ budget)
    (now now' : ℕ) :
    ((s.sweep budget now).1.sweep budget now').1.sieveList.length ≤ s.sieveList.length - 1 := by
  have hlen := sweep_length hs budget now
  have hlen' := sweep_length (standing_sweep hs budget now) budget now'
  by_cases hne : (s.sweep budget now).1.sieveList = []
  · rw [hne, List.length_nil] at hlen'
    omega
  · rcases sweep_sweep hs hb now now' hne with h | h
    · have := List.length_pos_iff.mpr h
      omega
    · have := List.length_pos_iff.mpr h
      omega

section Passes

variable {s : Store} {budget : ℕ}

lemma passes_cons (hbig : ¬ vectorMaxSize < budget) (now : ℕ) (nows : List ℕ) :
    s.passes budget (now :: nows) = (((s.sweep budget now).1.passes budget nows).1,
      .ok (s.sweep budget now).2 :: ((s.sweep budget now).1.passes budget nows).2) := by
  rw [passes, evict_ok hbig]

/-- Passes that throw leave everything as it is. -/
lemma passes_throw (hbig : vectorMaxSize < budget) (nows : List ℕ) :
    s.passes budget nows = (s, nows.map fun _ => .error .vector) := by
  induction nows with
  | nil => rfl
  | cons now nows ih =>
    rw [passes, evict_throws hbig]
    simp [ih]

lemma passes_nil (hbig : ¬ vectorMaxSize < budget) (h : s.sieveList = []) (nows : List ℕ) :
    (s.passes budget nows).1.sieveList = [] := by
  induction nows with
  | nil => exact h
  | cons now nows ih => rwa [passes_cons hbig, sweep_nil h]

/-- Two passes for each entry are enough. -/
lemma passes_empty {n : ℕ} (hs : s.Standing) (hb : 1 ≤ budget) (hbig : ¬ vectorMaxSize < budget)
    (hn : s.sieveList.length ≤ n) {nows : List ℕ} (hlen : 2 * n ≤ nows.length) :
    (s.passes budget nows).1.sieveList = [] := by
  induction n generalizing s nows with
  | zero => exact passes_nil hbig (List.length_eq_zero_iff.mp (by omega)) nows
  | succ n ih =>
    rcases nows with _ | ⟨now, _ | ⟨now', nows⟩⟩
    · simp at hlen
    · simp only [List.length_singleton] at hlen
      omega
    · simp only [List.length_cons] at hlen
      have htwo := sweep_sweep_length hs hb now now'
      rw [passes_cons hbig, passes_cons hbig]
      exact ih (standing_sweep (standing_sweep hs budget now) budget now') (by omega) (by omega)

/-- Every entry is returned once or is still there. -/
lemma passes_perm (hs : s.Standing) (hbig : ¬ vectorMaxSize < budget) (nows : List ℕ) :
    ∃ vs : List (List Addr), (vs.flatten ++ (s.passes budget nows).1.sieveList).Perm s.sieveList ∧
      (s.passes budget nows).2.map victimsOf = vs.map fun v => v.map fun a => (s.heap a).key := by
  induction nows generalizing s with
  | nil => exact ⟨[], by simp [passes], rfl⟩
  | cons now nows ih =>
    obtain ⟨behind, course, hc⟩ := hs.course
    have hp := hc.sievePass hs budget now
    obtain ⟨vs, hperm, hkeys⟩ := ih (standing_sweep hs budget now)
    refine ⟨taken (s.takes now) budget course :: vs, ?_, ?_⟩
    · rw [passes_cons hbig, List.flatten_cons, List.append_assoc]
      exact (hperm.append_left _).trans hp.perm
    · rw [passes_cons hbig]
      simp only [List.map_cons, hkeys, victimsOf, hp.keys_eq]
      congr 1
      refine List.map_congr_left fun v _ => List.map_congr_left fun a _ => hp.key a

/-- **The policy makes progress.** Of two passes in a row, the list not empty before the
second, at least one takes something. So two passes for each entry empty the list, and each
entry is returned exactly once. A budget that leaves no room for the victims gets nowhere, unless
there is nothing to do. -/
theorem passes_progress_iff (s : Store) (hs : s.Standing) (budget : ℕ) (hb : 1 ≤ budget) :
    ((∀ now now', (s.passes budget [now]).1.sieveList ≠ [] →
        ∃ r ∈ (s.passes budget [now, now']).2, victimsOf r ≠ []) ∧
      ∀ nows : List ℕ, 2 * s.sieveList.length ≤ nows.length →
        (s.passes budget nows).1.sieveList = [] ∧
        ∃ vs : List (List Addr), vs.flatten.Perm s.sieveList ∧
          (s.passes budget nows).2.map victimsOf =
            vs.map fun v => v.map fun a => (s.heap a).key) ↔
      budget < 2 ^ 59 ∨ s.sieveList = [] := by
  by_cases hbig : vectorMaxSize < budget
  · have hge : ¬ budget < 2 ^ 59 := by unfold vectorMaxSize at hbig; omega
    simp only [passes_throw hbig, hge, false_or]
    constructor
    · rintro ⟨htwo, -⟩
      by_contra hne
      obtain ⟨r, hr, hvictims⟩ := htwo 0 0 hne
      simp only [List.map_cons, List.map_nil, List.mem_cons, List.not_mem_nil, or_false,
        or_self] at hr
      subst hr
      exact hvictims rfl
    · intro hnil
      refine ⟨fun _ _ hne => absurd hnil hne, fun nows _ => ⟨hnil, nows.map fun _ => [], ?_, ?_⟩⟩
      · rw [hnil]
        simp
      · simp [victimsOf]
  · refine iff_of_true ⟨fun now now' hne => ?_, fun nows hlen => ?_⟩
      (.inl (by unfold vectorMaxSize at hbig; omega))
    · rw [passes_cons hbig] at hne ⊢
      rw [passes_cons hbig]
      rcases sweep_sweep hs hb now now' hne with h | h
      · exact ⟨_, List.mem_cons_self, h⟩
      · exact ⟨_, List.mem_cons_of_mem _ List.mem_cons_self, h⟩
    · have hempty := passes_empty hs hb hbig (Nat.le_refl _) hlen
      obtain ⟨vs, hperm, hkeys⟩ := passes_perm hs hbig nows
      rw [hempty, List.append_nil] at hperm
      exact ⟨hempty, vs, hperm, hkeys⟩

end Passes

theorem passes_progress_threeLinked :
    (threeLinked.passes 1 (List.replicate 6 0)).2.map victimsOf =
        [[[2]], [[0]], [[1]], [], [], []] ∧
      (threeLinked.passes 1 (List.replicate 6 0)).1.sieveList = [] ∧
      ∃ r ∈ (threeLinked.passes 1 [0, 0]).2, victimsOf r ≠ [] := by
  obtain ⟨htwo, hempty⟩ :=
    (passes_progress_iff threeLinked standing_threeLinked 1 (by decide)).mpr (.inl (by decide))
  exact ⟨by decide, (hempty (List.replicate 6 0) (by decide)).1, htwo 0 0 (by decide)⟩

/-- No pass with a budget of `2 ^ 59` takes anything. -/
theorem not_progress_vast : (threeLinked.passes (2 ^ 59) [0]).1.sieveList ≠ [] ∧
    ¬ ∃ r ∈ (threeLinked.passes (2 ^ 59) [0, 0]).2, victimsOf r ≠ [] := by
  rw [passes_throw (by decide), passes_throw (by decide)]
  exact ⟨by decide, by simp [victimsOf]⟩

end Store

end ShunyaKV.Shard
