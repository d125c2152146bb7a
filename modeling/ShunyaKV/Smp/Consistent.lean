import Mathlib.Data.List.Perm.Basic
import ShunyaKV.Smp.Forward

/-!
Consistency across shards.

Whatever order the requests run in and their messages arrive in, a key is in the store of
its shard only, a request is carried out once and there, and a read that starts after a
write of its key is acknowledged returns nothing older.
-/

namespace ShunyaKV.Smp

open ShunyaKV.Lib.Ttl ShunyaKV.Lib.Steps ShunyaKV.Shard ShunyaKV.Hash ShunyaKV.Cmd

lemma target_issued (M : Machine) (self : ℕ) (call : Call) :
    (Request.issued M self call).target = M.owner call.key := by
  unfold Request.issued
  dsimp only
  split
  · rfl
  · next h => exact (not_not.mp h).symm

/-! ### One segment of a call -/

/-- The request has not read or written the map yet. -/
def Phase.before : Phase → Bool
  | .sent => true
  | .running pc => pc.waiting
  | _ => false

def Phase.held : Phase → List Addr
  | .running pc => pc.held
  | _ => []

/-- What a call returns that has written the map. The pass after the write may throw. -/
inductive AfterWrite : Reply → Prop
  | stored : AfterWrite (.stored true)
  | threw (e : LengthError) : AfterWrite (.threw e)

/-- What request `i` does to the map, and its result. -/
inductive Performs (i : ℕ) : Call → Reply → Note ℕ Bytes Bytes → Prop
  | set (k v : Bytes) (d : ℕ) {r : Reply} (hr : AfterWrite r) :
    Performs i (.set k v) r (.wrote i k v d)
  | setWithTtl (k v : Bytes) (ttl now : ℕ) {r : Reply} (hr : AfterWrite r) :
    Performs i (.setWithTtl k v ttl) r (.wrote i k v (Store.due now ttl))
  | get (k : Bytes) (now : ℕ) (answer : Option Bytes) :
    Performs i (.get k) (.found answer) (.read i k now answer)

lemma Performs.key {i : ℕ} {call : Call} {r : Reply} {e : Note ℕ Bytes Bytes}
    (h : Performs i call r e) : e.key = call.key := by cases h <;> rfl

lemma Performs.client {i : ℕ} {call : Call} {r : Reply} {e : Note ℕ Bytes Bytes}
    (h : Performs i call r e) : e.client = some i := by cases h <;> rfl

/-- The call returns `r`, possibly after an eviction pass. -/
def Ends (pc : Pc) (r : Reply) : Prop := pc.Evicting ∧ r = .stored true ∨ pc = .done r

/-- What a segment does: it waits on, it throws, it reads or writes the map `m`, or it evicts. -/
inductive Segment (i : ℕ) (call : Call) (m : TtlMap Bytes Bytes) :
    Phase → Option (Note ℕ Bytes Bytes) → Pc → Prop
  | wait {φ : Phase} {pc : Pc} (hφ : φ.before) (h : pc.waiting) : Segment i call m φ none pc
  | refuse {φ : Phase} (e : LengthError) (hφ : φ.before) (hcall : ∀ k, call ≠ .get k) :
    Segment i call m φ none (.done (.threw e))
  | perform {φ : Phase} {pc : Pc} {r : Reply} {e : Note ℕ Bytes Bytes} (hφ : φ.before)
    (h : Performs i call r e) (hends : Ends pc r)
    (hread : ∀ k now answer, e = .read i k now answer → answer = (fetch m now k).1) :
    Segment i call m φ (some e) pc
  | evict {pc pc' : Pc} (hw : pc.waiting = false) (hdone : ∀ r, pc ≠ .done r)
    (h : pc'.Evicting) : Segment i call m (.running pc) none pc'

section Segments

variable {cfg : Config} {s : Store} {fl : List Addr} {req : Request} {now later : ℕ}
  {q : Store × Pc}

lemma effect_running {call : Call} {target : ℕ} {pc : Pc} (hpc : ∀ a, pc ≠ .acquired a) (i : ℕ) :
    Request.effect cfg now s i ⟨call, target, .running pc⟩ = none := by
  cases pc with
  | acquired a => exact absurd rfl (hpc a)
  | _ => cases call <;> rfl

/-- The first segment: a write only asks for its entry, a read is over. -/
lemma segment_sent {call : Call} {target : ℕ} (i : ℕ) (hh : Holds s fl)
    (h : begin cfg now s call = some q) :
    Holds q.1 (q.2.held ++ fl) ∧
      (∃ S, abs q.1 = without
        (replayFrom (abs s) (Request.effect cfg now s i ⟨call, target, .sent⟩).toList) S) ∧
      Segment i call (abs s) .sent (Request.effect cfg now s i ⟨call, target, .sent⟩) q.2 := by
  cases call with
  | set | setWithTtl =>
    obtain ⟨⟨h1, S, h2, -⟩, h3 | ⟨-, e, h3⟩⟩ := moves_startWrite cfg hh h
    · exact ⟨h1, ⟨S, h2⟩, .wait rfl h3⟩
    · refine ⟨h1, ⟨S, h2⟩, ?_⟩
      rw [h3]
      exact .refuse e rfl (by simp)
  | get k =>
    cases h
    obtain ⟨-, hanswer, habs, -⟩ := get_refines cfg hh.toOwned k now
    refine ⟨holds_get cfg hh k now, ?_, .perform rfl (.get k now _) (.inr rfl) ?_⟩
    · obtain ⟨S, hS⟩ := fetch_eq_without (abs s) now k
      exact ⟨S, habs.trans hS⟩
    · rintro _ _ _ ⟨⟩
      exact hanswer

/-- The segment that begins with the entry. -/
lemma segment_acquired {call : Call} {target : ℕ} {a : Addr} (i : ℕ) (hh : Holds s (a :: fl))
    (h : resume cfg now later s call (.acquired a) = some q) :
    Holds q.1 (q.2.held ++ fl) ∧
      abs q.1 = replayFrom (abs s)
        (Request.effect cfg now s i ⟨call, target, .running (.acquired a)⟩).toList ∧
      Segment i call (abs s) (.running (.acquired a))
        (Request.effect cfg now s i ⟨call, target, .running (.acquired a)⟩) q.2 := by
  obtain ⟨k, v, d, hwrites, h1, h2, hS, -⟩ := resume_acquired cfg hh h
  refine ⟨h1, ?_, ?_⟩
  · cases call <;> simp only [Event.Writes] at hwrites
    · obtain ⟨rfl, rfl, rfl⟩ := hwrites
      exact hS
    · obtain ⟨rfl, rfl, rfl⟩ := hwrites
      exact hS
  · cases call <;> simp only [Event.Writes] at hwrites
    · exact .perform rfl (.set _ _ _ .stored) (.inl ⟨h2, rfl⟩) (by simp)
    · exact .perform rfl (.setWithTtl _ _ _ now .stored) (.inl ⟨h2, rfl⟩) (by simp)

/-- **One segment**: it removes keys from the map, and does at most one other thing to it. -/
lemma segment_spec (i : ℕ) (hh : Holds s (req.phase.held ++ fl))
    (h : req.segment cfg now later s = some q) :
    Holds q.1 (q.2.held ++ fl) ∧
      (∃ S, abs q.1 = without (replayFrom (abs s) (req.effect cfg now s i).toList) S) ∧
      Segment i req.call (abs s) req.phase (req.effect cfg now s i) q.2 := by
  obtain ⟨call, target, φ⟩ := req
  cases φ with
  | sent => exact segment_sent i hh h
  | running pc =>
    have hq : resume cfg now later s call pc = some q := h
    -- the map is written in the segment that begins with the entry, and in no other
    by_cases hacq : ∃ a, pc = .acquired a
    · obtain ⟨a, rfl⟩ := hacq
      obtain ⟨h1, h2, h3⟩ := segment_acquired i hh hq
      exact ⟨h1, ⟨[], h2.trans (without_nil _).symm⟩, h3⟩
    · have hne (a : Addr) : pc ≠ .acquired a := fun e => hacq ⟨a, e⟩
      rw [effect_running hne]
      obtain ⟨⟨h1, S, h2, -⟩, ⟨hw, h3⟩ | ⟨hw, h3⟩⟩ := moves_resume cfg hh hne hq
      · exact ⟨h1, ⟨S, h2⟩, .wait hw h3⟩
      · refine ⟨h1, ⟨S, h2⟩, .evict hw ?_ h3⟩
        rintro r rfl
        cases hq
  | returning r => cases h
  | acked r => cases h

lemma mem_missing {keys : List Bytes} {k : Bytes} :
    k ∈ missing s keys ↔ k ∈ keys ∧ abs s k = none := by
  unfold missing Shard.abs
  simp [List.mem_filter]

/-- The notes of a segment tell what it has done to the map. -/
lemma replayFrom_notes {s' : Store} {i : ℕ} {S : List Bytes}
    (h : abs s' = without (replayFrom (abs s) (req.effect cfg now s i).toList) S) :
    abs s' = replayFrom (abs s) (req.notes cfg now s s' i) := by
  unfold Request.notes
  rw [replayFrom_append, replayFrom_removed]
  refine without_eq_of_missing h (fun k hk => (mem_missing.mp hk).2) fun k hk hnone => ?_
  refine mem_missing.mpr ⟨List.mem_append.mpr ?_, hnone⟩
  rw [← AList.mem_keys, mem_map_iff]
  rcases he : req.effect cfg now s i with _ | e <;> rw [he] at hk
  · exact .inr hk
  · refine (Note.apply_ne_none hk).imp (fun hw => ?_) id
    simp [hw]

/-- They are about the key of the call and keys of the map. -/
lemma key_of_mem_notes {s' : Store} {i : ℕ} {φ : Phase} {pc : Pc} {m : TtlMap Bytes Bytes}
    (h : Segment i req.call m φ (req.effect cfg now s i) pc) {e : Note ℕ Bytes Bytes}
    (he : e ∈ req.notes cfg now s s' i) : e.key = req.call.key ∨ abs s e.key ≠ none := by
  have heffect (e : Note ℕ Bytes Bytes) (he : e ∈ req.effect cfg now s i) :
      e.key = req.call.key := by
    rcases hx : req.effect cfg now s i with _ | x <;> rw [hx] at he h <;> cases he
    cases h with
    | perform _ hp => exact hp.key
  rcases List.mem_append.mp he with he | he
  · exact .inl (heffect e (by simpa using he))
  · obtain ⟨k, hk, rfl⟩ := List.mem_map.mp he
    rcases List.mem_append.mp (mem_missing.mp hk).1 with hk | hk
    · obtain ⟨x, hx, hxk⟩ := Option.bind_eq_some_iff.mp (by simpa using hk)
      refine .inl ?_
      rw [← heffect x hx]
      cases x with
      | wrote => exact (Option.some.inj hxk).symm
      | read => cases hxk
      | removed => cases hxk
    · exact .inr ((mem_map_iff s k).mp hk)

end Segments

/-! ### What is kept -/

def marksOf (i : ℕ) (log : List Mark) : List Mark := log.filter fun m => m.note.client = some i

/-- Request `i` has read or written the map once, on its shard, and its result is `r`. -/
def Once (log : List Mark) (i : ℕ) (req : Request) (r : Reply) : Prop :=
  ∃ e, marksOf i log = [⟨req.target, e⟩] ∧ Performs i req.call r e

/-- Request `i` is a write that has thrown before it has come to the map. -/
def Refused (log : List Mark) (i : ℕ) (req : Request) (r : Reply) : Prop :=
  marksOf i log = [] ∧ (∀ k, req.call ≠ .get k) ∧ ∃ e, r = .threw e

/-- What the log has of request `i`: nothing before it has come to the map, and its only
read or write afterwards. -/
def Request.Recorded (log : List Mark) (i : ℕ) (req : Request) : Prop :=
  match req.phase with
  | .sent => marksOf i log = []
  | .running pc =>
    if pc.waiting then marksOf i log = []
    else (∃ r, Once log i req r ∧ Ends pc r) ∨ ∃ r, Refused log i req r ∧ pc = .done r
  | .returning r => Once log i req r ∨ Refused log i req r
  | .acked r => Once log i req r ∨ Refused log i req r

def held (sid : ℕ) (requests : List Request) : List Addr :=
  requests.flatMap fun req => if req.target = sid then req.phase.held else []

/-- What holds in every state: each request goes to the shard of its key and is recorded;
the log tells what the stores contain and what the reads have returned. -/
structure Consistent (M : Machine) (o : Observed) : Prop where
  target : ∀ req ∈ o.requests, req.target = M.owner req.call.key
  holds : ∀ sid, Holds (o.stores sid) (held sid o.requests)
  recorded : ∀ i, ∀ req : Request, o.requests[i]? = some req → req.Recorded o.log i
  unknown : ∀ i, o.requests.length ≤ i → marksOf i o.log = []
  contents : ∀ sid k, abs (o.stores sid) k = if sid = M.owner k then replay o.notes k else none
  shards : ∀ m ∈ o.log, m.shard = M.owner m.note.key
  faithful : Faithful o.notes

lemma consistent_fresh (M : Machine) : Consistent M (.fresh M) where
  target := by simp [Observed.fresh, Cluster.fresh]
  holds sid := holds_start (M.cfg sid)
  recorded := by simp [Observed.fresh, Cluster.fresh]
  unknown _ _ := rfl
  contents sid k := by
    have h : abs (start (M.cfg sid)) k = none := rfl
    have h' : replay (Observed.fresh M).notes k = none := rfl
    rw [h', ite_self]
    exact h
  shards := by simp [Observed.fresh]
  faithful := faithful_nil

section Steps

variable {M : Machine} {o : Observed}

lemma Consistent.issue (h : Consistent M o) (self : ℕ) (call : Call) :
    Consistent M ⟨⟨o.stores, o.requests ++ [.issued M self call]⟩, o.log⟩ where
  target req hreq := by
    rcases List.mem_append.mp hreq with hreq | hreq
    · exact h.target req hreq
    · rw [List.mem_singleton.mp hreq]
      exact target_issued M self call
  holds sid := by
    have e : held sid (o.requests ++ [.issued M self call]) = held sid o.requests := by
      simp [held, Request.issued, Phase.held]
    rw [e]
    exact h.holds sid
  recorded i req hreq := by
    rcases Nat.lt_or_ge i o.requests.length with hi | hi
    · rw [List.getElem?_append_left hi] at hreq
      exact h.recorded i req hreq
    · rw [List.getElem?_append_right hi] at hreq
      obtain rfl : req = .issued M self call := by
        have hmem := List.mem_of_getElem? hreq
        simpa using hmem
      exact h.unknown i hi
  unknown i hi := by
    rw [List.length_append] at hi
    exact h.unknown i (by omega)
  contents := h.contents
  shards := h.shards
  faithful := h.faithful

lemma held_set (sid : ℕ) {requests : List Request} {i : ℕ} {req : Request}
    (hreq : requests[i]? = some req) (req' : Request) :
    (held sid (requests.set i req')).Perm
      ((if req'.target = sid then req'.phase.held else []) ++ held sid (requests.eraseIdx i)) := by
  obtain ⟨hi, -⟩ := List.getElem?_eq_some_iff.mp hreq
  exact (List.set_perm_cons_eraseIdx hi req').flatMap_right _

lemma held_get (sid : ℕ) {requests : List Request} {i : ℕ} {req : Request}
    (hreq : requests[i]? = some req) :
    (held sid requests).Perm
      ((if req.target = sid then req.phase.held else []) ++ held sid (requests.eraseIdx i)) := by
  obtain ⟨hi, rfl⟩ := List.getElem?_eq_some_iff.mp hreq
  exact (List.getElem_cons_eraseIdx_perm hi).symm.flatMap_right _

lemma Consistent.target_set (h : Consistent M o) {i : ℕ} {req : Request}
    (hreq : o.requests[i]? = some req) (φ : Phase) :
    ∀ req' ∈ o.requests.set i { req with phase := φ }, req'.target = M.owner req'.call.key := by
  intro req' hmem
  rcases List.mem_or_eq_of_mem_set hmem with hmem | rfl
  · exact h.target req' hmem
  · exact h.target req (List.mem_of_getElem? hreq)

/-- The others are recorded as before if the log has nothing new of them. -/
lemma Consistent.recorded_set (h : Consistent M o) {i : ℕ} {req req' : Request} {log : List Mark}
    (hreq : o.requests[i]? = some req) (hlog : ∀ j, j ≠ i → marksOf j log = marksOf j o.log)
    (hrec : req'.Recorded log i) {j : ℕ} {r : Request}
    (hr : (o.requests.set i req')[j]? = some r) : r.Recorded log j := by
  by_cases hj : i = j
  · subst hj
    rw [List.getElem?_set_self (List.getElem?_eq_some_iff.mp hreq).1] at hr
    cases hr
    exact hrec
  · rw [List.getElem?_set_ne hj] at hr
    have hold := h.recorded j r hr
    unfold Request.Recorded Once Refused at hold ⊢
    rwa [hlog j fun e => hj e.symm]

lemma Consistent.move (h : Consistent M o) {i : ℕ} {req : Request}
    (hreq : o.requests[i]? = some req) {φ : Phase} (hheld : φ.held = req.phase.held)
    (hrec : Request.Recorded o.log i { req with phase := φ }) :
    Consistent M ⟨⟨o.stores, o.requests.set i { req with phase := φ }⟩, o.log⟩ where
  target := h.target_set hreq φ
  holds sid := by
    refine (h.holds sid).perm ((held_get sid hreq).trans ?_)
    have hset := (held_set sid hreq { req with phase := φ }).symm
    rwa [hheld] at hset
  recorded _ _ hr := h.recorded_set hreq (fun _ _ => rfl) hrec hr
  unknown j hj := h.unknown j (by simpa using hj)
  contents := h.contents
  shards := h.shards
  faithful := h.faithful

lemma finish_eq_some {ψ φ : Phase} (h : ψ.finish = some φ) :
    ∃ r, ψ = .running (.done r) ∧ φ = .returning r := by
  unfold Phase.finish at h
  split at h <;> cases h
  exact ⟨_, rfl, rfl⟩

lemma deliver_eq_some {ψ φ : Phase} (h : ψ.deliver = some φ) :
    ∃ r, ψ = .returning r ∧ φ = .acked r := by
  unfold Phase.deliver at h
  split at h <;> cases h
  exact ⟨_, rfl, rfl⟩

lemma Once.done {log : List Mark} {i : ℕ} {req : Request} {r r' : Reply} (h : Once log i req r')
    (hends : Ends (.done r) r') : Once log i req r := by
  rcases hends with ⟨hev, rfl⟩ | e
  · obtain ⟨e, he, hp⟩ := h
    have hr : AfterWrite r := by
      cases hev with
      | done => exact .stored
      | threw e => exact .threw e
    refine ⟨e, he, ?_⟩
    generalize req.call = call at hp ⊢
    cases hp with
    | set k v d => exact .set k v d hr
    | setWithTtl k v ttl now => exact .setWithTtl k v ttl now hr
  · rwa [Pc.done.inj e]

lemma Consistent.finish (h : Consistent M o) {i : ℕ} {c : Cluster}
    (hc : o.toCluster.move i Phase.finish = some c) : Consistent M ⟨c, o.log⟩ := by
  obtain ⟨⟨call, target, ψ⟩, hreq, hc⟩ := Option.bind_eq_some_iff.mp hc
  obtain ⟨φ, hφ, rfl⟩ := Option.map_eq_some_iff.mp hc
  obtain ⟨r, rfl, rfl⟩ := finish_eq_some hφ
  refine h.move hreq rfl ?_
  rcases h.recorded i _ hreq with ⟨r', honce, hends⟩ | ⟨r', hrefused, hpc⟩
  · exact .inl (honce.done hends)
  · rw [Pc.done.inj hpc]
    exact .inr hrefused

lemma Consistent.deliver (h : Consistent M o) {i : ℕ} {c : Cluster}
    (hc : o.toCluster.move i Phase.deliver = some c) : Consistent M ⟨c, o.log⟩ := by
  obtain ⟨⟨call, target, ψ⟩, hreq, hc⟩ := Option.bind_eq_some_iff.mp hc
  obtain ⟨φ, hφ, rfl⟩ := Option.map_eq_some_iff.mp hc
  obtain ⟨r, rfl, rfl⟩ := deliver_eq_some hφ
  have hrec := h.recorded i _ hreq
  exact h.move hreq rfl hrec

/-! ### A segment of a call -/

lemma marksOf_append (log : List Mark) (i sid : ℕ) (l : List (Note ℕ Bytes Bytes)) :
    marksOf i (log ++ l.map (Mark.mk sid)) =
      marksOf i log ++ (l.filter fun e => e.client = some i).map (Mark.mk sid) := by
  unfold marksOf
  rw [List.filter_append, List.filter_map]
  rfl

lemma filter_notes {cfg : Config} {now i : ℕ} {s : Store} (s' : Store) {req : Request}
    {φ : Phase} {pc : Pc} {m : TtlMap Bytes Bytes}
    (h : Segment i req.call m φ (req.effect cfg now s i) pc) (j : ℕ) :
    ((req.notes cfg now s s' i).filter fun e => e.client = some j) =
      if j = i then (req.effect cfg now s i).toList else [] := by
  have hremoved (R : List Bytes) : ((R.map Note.removed : List (Note ℕ Bytes Bytes)).filter
      fun e => e.client = some j) = [] := by
    simp [List.filter_eq_nil_iff, Note.client]
  unfold Request.notes
  rw [List.filter_append, hremoved, List.append_nil]
  rcases hx : req.effect cfg now s i with _ | e <;> rw [hx] at h
  · simp
  · cases h with
    | perform _ hp =>
      by_cases hj : j = i
      · simp [hp.client, hj]
      · simp [hp.client, hj, Ne.symm hj]

lemma Request.Recorded.before {log : List Mark} {i : ℕ} {req : Request} (h : req.Recorded log i)
    (hφ : req.phase.before) : marksOf i log = [] := by
  obtain ⟨call, target, φ⟩ := req
  cases φ with
  | sent => exact h
  | running pc =>
    have hw : pc.waiting = true := hφ
    simpa [Request.Recorded, hw] using h
  | returning r => cases hφ
  | acked r => cases hφ

lemma Ends.waiting {pc : Pc} {r : Reply} (h : Ends pc r) : pc.waiting = false := by
  rcases h with ⟨hev, -⟩ | rfl
  · exact hev.waiting
  · rfl

lemma recorded_segment {cfg : Config} {now i : ℕ} {s : Store} (s' : Store) {req : Request}
    {pc : Pc} {log : List Mark} (hrec : req.Recorded log i)
    (h : Segment i req.call (abs s) req.phase (req.effect cfg now s i) pc) :
    Request.Recorded (log ++ (req.notes cfg now s s' i).map (Mark.mk req.target)) i
      { req with phase := .running pc } := by
  have hmarks := marksOf_append log i req.target (req.notes cfg now s s' i)
  rw [filter_notes s' h, if_pos rfl] at hmarks
  generalize req.effect cfg now s i = x at h hmarks
  generalize hlog : log ++ (req.notes cfg now s s' i).map (Mark.mk req.target) = log' at hmarks ⊢
  obtain ⟨call, target, φ⟩ := req
  show if pc.waiting then marksOf i log' = [] else _
  cases h with
  | wait hφ hw =>
    rw [if_pos hw, hmarks, hrec.before hφ]
    rfl
  | refuse e hφ hcall =>
    refine .inr ⟨_, ⟨?_, hcall, e, rfl⟩, rfl⟩
    rw [hmarks, hrec.before hφ]
    rfl
  | @perform _ _ r e hφ hp hends =>
    rw [if_neg (by simp [hends.waiting])]
    refine .inl ⟨r, ⟨e, ?_, hp⟩, hends⟩
    rw [hmarks, hrec.before hφ]
    rfl
  | @evict pc₀ _ hw hdone hev =>
    -- the write is in the log already
    obtain ⟨r, ⟨e, he, hp⟩, hends⟩ :
        ∃ r, Once log i ⟨call, target, .running pc₀⟩ r ∧ Ends pc₀ r := by
      unfold Request.Recorded at hrec
      dsimp only at hrec
      rw [if_neg (by simp [hw])] at hrec
      rcases hrec with hrec | ⟨r, -, hpc⟩
      · exact hrec
      · exact absurd hpc (hdone r)
    have hr : r = .stored true := (hends.resolve_right (hdone r)).2
    rw [if_neg (by simp [hev.waiting])]
    refine .inl ⟨r, ⟨e, ?_, hp⟩, .inl ⟨hev, hr⟩⟩
    rw [hmarks, he]
    rfl

lemma faithful_notes {cfg : Config} {now i : ℕ} {s : Store} (s' : Store) {req : Request} {pc : Pc}
    {l : List (Note ℕ Bytes Bytes)} (hl : Faithful l)
    (hs : replay l req.call.key = abs s req.call.key)
    (h : Segment i req.call (abs s) req.phase (req.effect cfg now s i) pc) :
    Faithful (l ++ req.notes cfg now s s' i) := by
  obtain ⟨call, target, φ⟩ := req
  unfold Request.notes
  dsimp only
  rw [← List.append_assoc]
  refine Faithful.removed ?_ _
  generalize Request.effect cfg now s i ⟨call, target, φ⟩ = x at h ⊢
  rcases x with _ | e
  · simpa using hl
  · cases h with
    | perform _ hp _ hread =>
      cases hp with
      | set k v d => exact hl.wrote i k v d
      | setWithTtl k v ttl t => exact hl.wrote i k v _
      | get k t answer =>
        have hanswer : answer = (fetch (replay l) t k).1 :=
          (hread k t answer rfl).trans (fetch_congr hs t).symm
        rw [hanswer]
        exact hl.read i k t

/-- The notes of shard `sid` change the map of its own keys only. -/
lemma Consistent.contents_append (h : Consistent M o) {sid : ℕ} {s' : Store}
    {N : List (Note ℕ Bytes Bytes)} (howner : ∀ e ∈ N, sid = M.owner e.key)
    (habs : abs s' = replayFrom (abs (o.stores sid)) N) (sid' : ℕ) (k : Bytes) :
    abs (Function.update o.stores sid s' sid') k =
      if sid' = M.owner k then replay (o.notes ++ N) k else none := by
  have hother (hk : sid ≠ M.owner k) (m : TtlMap Bytes Bytes) : replayFrom m N k = m k :=
    replayFrom_other m fun e he e' => hk (by rw [howner e he, e'])
  rw [replay_append]
  by_cases hsid : sid' = sid
  · rw [hsid, Function.update_self, habs]
    have hold := h.contents sid k
    split
    · next hk =>
      rw [if_pos hk] at hold
      exact replayFrom_congr hold N
    · next hk =>
      rw [if_neg hk] at hold
      rw [hother hk, hold]
  · rw [Function.update_of_ne hsid, h.contents]
    split
    · next hk => rw [hother fun e => hsid (hk.trans e.symm)]
    · rfl

/-- The other calls of the shard hold what they held, and so do those of other shards. -/
lemma Consistent.holds_set (h : Consistent M o) {i : ℕ} {req : Request}
    (hreq : o.requests[i]? = some req) {s' : Store} {φ : Phase}
    (hholds : Holds s' (φ.held ++ held req.target (o.requests.eraseIdx i))) (sid : ℕ) :
    Holds (Function.update o.stores req.target s' sid)
      (held sid (o.requests.set i { req with phase := φ })) := by
  refine Holds.perm ?_ (held_set sid hreq _).symm
  by_cases hsid : req.target = sid
  · subst hsid
    rw [if_pos rfl, Function.update_self]
    exact hholds
  · have hperm := held_get sid hreq
    rw [if_neg hsid] at hperm
    rw [if_neg hsid, Function.update_of_ne (Ne.symm hsid)]
    exact (h.holds sid).perm hperm

lemma map_note_append (o : Observed) (sid : ℕ) (N : List (Note ℕ Bytes Bytes)) :
    (o.log ++ N.map (Mark.mk sid)).map Mark.note = o.notes ++ N := by
  rw [List.map_append, List.map_map]
  exact congrArg (o.notes ++ ·) (List.map_id N)

/-- **A segment of a call** on the shard of its key. -/
lemma Consistent.run (h : Consistent M o) {i now later : ℕ} {c : Cluster}
    (hc : o.toCluster.run M i now later = some c) :
    Consistent M ⟨c, o.log ++ o.marks M c (.run i now later)⟩ := by
  obtain ⟨req, hreq, hc⟩ := Option.bind_eq_some_iff.mp hc
  obtain ⟨q, hq, rfl⟩ := Option.map_eq_some_iff.mp hc
  have htarget := h.target req (List.mem_of_getElem? hreq)
  have hheld : Holds (o.stores req.target)
      (req.phase.held ++ held req.target (o.requests.eraseIdx i)) := by
    have hperm := held_get req.target hreq
    rw [if_pos rfl] at hperm
    exact (h.holds req.target).perm hperm
  obtain ⟨hholds, ⟨S, hS⟩, hseg⟩ := segment_spec i hheld hq
  have habs := replayFrom_notes hS
  have howner (e : Note ℕ Bytes Bytes)
      (he : e ∈ req.notes (M.cfg req.target) now (o.stores req.target) q.1 i) :
      req.target = M.owner e.key := by
    -- its key is that of the call, or was in the store of this shard
    rcases key_of_mem_notes hseg he with hk | hk
    · rw [hk, htarget]
    · rw [h.contents] at hk
      by_contra hne
      exact hk (if_neg hne)
  have hrec := recorded_segment q.1 (h.recorded i req hreq) hseg
  have hfilter := filter_notes q.1 hseg
  have hfaith := faithful_notes q.1 h.faithful (by rw [h.contents, if_pos htarget]) hseg
  simp only [Observed.marks, hreq, Function.update_self]
  generalize req.notes (M.cfg req.target) now (o.stores req.target) q.1 i = N at *
  have hlog (j : ℕ) (hj : j ≠ i) :
      marksOf j (o.log ++ N.map (Mark.mk req.target)) = marksOf j o.log := by
    rw [marksOf_append, hfilter, if_neg hj]
    exact List.append_nil _
  have hnotes := map_note_append o req.target N
  exact
    { target := h.target_set hreq _
      holds := h.holds_set hreq hholds
      recorded := fun j r hr => h.recorded_set hreq hlog hrec hr
      unknown := fun j hj => by
        have hj' : o.requests.length ≤ j := by simpa using hj
        have hi := (List.getElem?_eq_some_iff.mp hreq).1
        rw [hlog j (by omega), h.unknown j hj']
      contents := fun sid k => by
        have hk := h.contents_append howner habs sid k
        rwa [← hnotes] at hk
      shards := fun m hm => by
        rcases List.mem_append.mp hm with hm | hm
        · exact h.shards m hm
        · obtain ⟨e, he, rfl⟩ := List.mem_map.mp hm
          exact howner e he
      faithful := by rwa [← hnotes] at hfaith }

/-- **Every action.** -/
lemma Consistent.act (h : Consistent M o) {a : Act} {o' : Observed} (ha : o.act M a = some o') :
    Consistent M o' := by
  obtain ⟨c, hc, rfl⟩ := Option.map_eq_some_iff.mp ha
  cases a with
  | issue self argv =>
    have hlog : o.log ++ o.marks M c (.issue self argv) = o.log := List.append_nil _
    rw [hlog]
    unfold Cluster.act at hc
    dsimp only at hc
    split at hc
    · next call _ =>
      cases hc
      exact h.issue self call
    · cases hc
      exact h
  | run i now later => exact h.run hc
  | finish i =>
    have hlog : o.log ++ o.marks M c (.finish i) = o.log := List.append_nil _
    rw [hlog]
    exact h.finish hc
  | deliver i =>
    have hlog : o.log ++ o.marks M c (.deliver i) = o.log := List.append_nil _
    rw [hlog]
    exact h.deliver hc

lemma log_extends {a : Act} {o' : Observed} (ha : o.act M a = some o') : o.log <+: o'.log := by
  obtain ⟨c, -, rfl⟩ := Option.map_eq_some_iff.mp ha
  exact List.prefix_append _ _

end Steps

end ShunyaKV.Smp
