import ShunyaKV.Shard.Evictable
import ShunyaKV.Smp.Fresh

/-!
Shards without a pool.

A pool for no entries is what a configuration gives that allows the pool no memory. Every entry is
then made when it is needed, and nothing is reaped or evicted: a key goes only when a read finds
it expired.
-/

namespace ShunyaKV.Smp

open ShunyaKV.Lib.Ttl ShunyaKV.Lib.Steps ShunyaKV.Shard

/-- A pool for no entries, and none for probation. -/
structure Unpooled (cfg : Config) : Prop where
  maxSize : cfg.maxSize = 0
  probPoolMaxSize : cfg.probPoolMaxSize = 0

/-- The call does not reap and does not evict. -/
inductive Straight : Phase → Prop
  | sent : Straight .sent
  | acquired (a : Addr) : Straight (.running (.acquired a))
  | done (r : Reply) : Straight (.running (.done r))
  | returning (r : Reply) : Straight (.returning r)
  | acked (r : Reply) : Straight (.acked r)

section Segments

variable {cfg : Config} {s : Store} {fl : List Addr} {req : Request} {now later : ℕ}
  {q : Store × Pc}

lemma startWrite_unpooled (hcfg : Unpooled cfg) (h : startWrite cfg s = some q) :
    Straight (.running q.2) ∧ q.1.map = s.map := by
  obtain ⟨s', pc⟩ := q
  have hnote : s.noteFallback.map = s.map := by
    unfold Store.noteFallback
    split <;> rfl
  cases startWrite_opening h with
  | plain _ he => exact ⟨.acquired _, (doAcquire_map he).trans hnote⟩
  | made hc => exact absurd hcfg.probPoolMaxSize hc
  | crowded hc => exact absurd hcfg.probPoolMaxSize hc
  | front hc => exact absurd hcfg.probPoolMaxSize hc
  | threw he => exact ⟨.done _, he.map.trans hnote⟩

lemma startEvict_unpooled (hcfg : Unpooled cfg) (s : Store) (now : ℕ) :
    startEvict cfg now s = (s, .done (.stored true)) := by
  rw [startEvict, if_pos hcfg.maxSize]

lemma straight_segment (hcfg : Unpooled cfg) (hφ : Straight req.phase)
    (h : req.segment cfg now later s = some q) : Straight (.running q.2) := by
  obtain ⟨call, target, φ⟩ := req
  cases hφ with
  | sent =>
    cases call with
    | set | setWithTtl => exact (startWrite_unpooled hcfg h).1
    | get k =>
      cases h
      exact .done _
  | acquired a =>
    have hr : resume cfg now later s call (.acquired a) = some q := h
    cases call with
    | set | setWithTtl =>
      obtain rfl := Option.some.inj hr
      rw [startEvict_unpooled hcfg]
      exact .done _
    | get k => cases hr
  | done r => cases h
  | returning r => cases h
  | acked r => cases h

def Lapses (s : Store) (now i : ℕ) (k : Bytes) (e : Option (Note ℕ Bytes Bytes)) : Prop :=
  e = some (.read i k now none) ∧ ∃ v d, abs s k = some (v, d) ∧ ¬ Live now d

/-- **A key that a segment removes has expired**, and the segment is its read. -/
lemma lapses_of_missing (hcfg : Unpooled cfg) (hφ : Straight req.phase)
    (hh : Holds s (req.phase.held ++ fl)) (i : ℕ) (h : req.segment cfg now later s = some q)
    {k : Bytes} (hk : replayFrom (abs s) (req.effect cfg now s i).toList k ≠ none)
    (hnone : abs q.1 k = none) : Lapses s now i k (req.effect cfg now s i) := by
  obtain ⟨call, target, φ⟩ := req
  cases hφ with
  | sent =>
    cases call with
    | set | setWithTtl =>
      have hmap := (startWrite_unpooled hcfg h).2
      have hsame : abs q.1 k = none ↔ abs s k = none := by
        unfold Shard.abs
        rw [hmap, Option.map_eq_none_iff, Option.map_eq_none_iff]
      exact absurd (hsame.mp hnone) hk
    | get k' =>
      cases h
      obtain ⟨-, hanswer, habs, -⟩ := get_refines cfg hh.toOwned k' now
      have hk' : abs s k ≠ none := hk
      have heffect : Request.effect cfg now s i ⟨.get k', target, .sent⟩ =
          some (.read i k' now (s.get cfg k' now).2) := rfl
      dsimp only at hnone
      rw [habs] at hnone
      rw [heffect, hanswer]
      unfold fetch at hnone ⊢
      rcases hfound : abs s k' with _ | ⟨v, d⟩
      · rw [hfound] at hnone
        exact absurd hnone hk'
      · rw [hfound] at hnone
        dsimp only at hnone ⊢
        by_cases hlive : Live now d
        · rw [if_pos hlive] at hnone
          exact absurd hnone hk'
        · rw [if_neg hlive] at hnone ⊢
          have hkk : k = k' := by
            by_contra hne
            exact hk' (by simpa [without, hne] using hnone)
          subst hkk
          exact ⟨rfl, v, d, hfound, hlive⟩
  | acquired a =>
    have habs : abs q.1 = replayFrom (abs s)
        (Request.effect cfg now s i ⟨call, target, .running (.acquired a)⟩).toList :=
      (segment_acquired i hh h).2.1
    rw [habs] at hnone
    exact absurd hnone hk
  | done r => cases h
  | returning r => cases h
  | acked r => cases h

lemma effect_ne_removed (i : ℕ) (k : Bytes) : req.effect cfg now s i ≠ some (.removed k) := by
  unfold Request.effect
  split <;> simp

lemma present_of_key (i : ℕ) {k : Bytes}
    (hk : k ∈ ((req.effect cfg now s i).bind Note.written).toList ++ s.map.keys) :
    replayFrom (abs s) (req.effect cfg now s i).toList k ≠ none := by
  have hmap (h : k ∈ s.map.keys) : abs s k ≠ none := (mem_map_iff s k).mp h
  rcases he : req.effect cfg now s i with _ | e <;> rw [he] at hk
  · exact hmap (by simpa using hk)
  · cases e with
    | wrote j k' v d =>
      rw [Option.toList_some, replayFrom_cons, replayFrom_nil, Note.apply]
      by_cases hkk : k = k'
      · simp [hkk]
      · rw [write_other _ _ _ hkk]
        exact hmap (by simpa [Note.written, hkk] using hk)
    | read j k' now' answer => exact hmap (by simpa [Note.written] using hk)
    | removed k' => exact absurd he (effect_ne_removed i k')

lemma eq_singleton {α : Type*} {l : List α} {a : α} (hl : l.Nodup) (ha : a ∈ l)
    (h : ∀ b ∈ l, b = a) : l = [a] := by
  have hrep := List.eq_replicate_of_mem h
  have hle : l.length ≤ 1 := by
    rw [hrep] at hl
    exact List.nodup_replicate.mp hl
  have hpos := List.length_pos_of_mem ha
  rw [hrep, show l.length = 1 by omega]
  rfl

lemma notes_unpooled (hcfg : Unpooled cfg) (hφ : Straight req.phase)
    (hh : Holds s (req.phase.held ++ fl)) (i : ℕ) (h : req.segment cfg now later s = some q) :
    req.notes cfg now s q.1 i = (req.effect cfg now s i).toList ∨
      ∃ k, req.notes cfg now s q.1 i = [.read i k now none, .removed k] ∧
        ∃ v d, abs s k = some (v, d) ∧ ¬ Live now d := by
  unfold Request.notes
  dsimp only
  have hlapses (k : Bytes) (hk : k ∈ missing q.1
      (((req.effect cfg now s i).bind Note.written).toList ++ s.map.keys)) :
      Lapses s now i k (req.effect cfg now s i) := by
    obtain ⟨hkey, hnone⟩ := mem_missing.mp hk
    exact lapses_of_missing hcfg hφ hh i h (present_of_key i hkey) hnone
  rcases hmiss : missing q.1 (((req.effect cfg now s i).bind Note.written).toList ++ s.map.keys)
    with _ | ⟨k, ks⟩
  · exact .inl (List.append_nil _)
  · obtain ⟨he, v, d, hk, hd⟩ := hlapses k (by simp [hmiss])
    refine .inr ⟨k, ?_, v, d, hk, hd⟩
    have hone : k :: ks = [k] := by
      refine eq_singleton ?_ (by simp) fun k' hk' => ?_
      · rw [← hmiss, he]
        exact s.map.keys_nodup.filter _
      · have he' := (hlapses k' (by rw [hmiss]; exact hk')).1
        rw [he, Option.some.injEq] at he'
        injection he' with _ hkk
        exact hkk.symm
    rw [he, hone]
    rfl

end Segments

/-! ### Runs -/

section Runs

variable {M : Machine} {o o' : Observed}

/-- What is kept: calls go straight on, and only expired keys have been removed. -/
structure Uncrowded (M : Machine) (o : Observed) : Prop where
  consistent : Consistent M o
  straight : ∀ req ∈ o.requests, Straight req.phase
  lapsing : Lapsing o.notes

lemma uncrowded_fresh (M : Machine) : Uncrowded M (.fresh M) where
  consistent := consistent_fresh M
  straight := by simp [Observed.fresh, Cluster.fresh]
  lapsing := lapsing_nil

lemma Uncrowded.straight_set (h : Uncrowded M o) {i : ℕ} {req : Request} {φ : Phase}
    (hφ : Straight φ) : ∀ r ∈ o.requests.set i { req with phase := φ }, Straight r.phase := by
  intro r hr
  rcases List.mem_or_eq_of_mem_set hr with hr | rfl
  · exact h.straight r hr
  · exact hφ

lemma Uncrowded.run (hM : ∀ sid, Unpooled (M.cfg sid)) (h : Uncrowded M o) {i now later : ℕ}
    {c : Cluster} (hc : o.toCluster.run M i now later = some c) :
    (∀ req ∈ c.requests, Straight req.phase) ∧
      Lapsing ((o.log ++ o.marks M c (.run i now later)).map Mark.note) := by
  obtain ⟨req, hreq, hc⟩ := Option.bind_eq_some_iff.mp hc
  obtain ⟨q, hq, rfl⟩ := Option.map_eq_some_iff.mp hc
  have hφ := h.straight req (List.mem_of_getElem? hreq)
  have hheld : Holds (o.stores req.target)
      (req.phase.held ++ held req.target (o.requests.eraseIdx i)) := by
    have hperm := held_get req.target hreq
    rw [if_pos rfl] at hperm
    exact (h.consistent.holds req.target).perm hperm
  refine ⟨h.straight_set (straight_segment (hM _) hφ hq), ?_⟩
  have hmarks : (o.log ++ o.marks M ⟨Function.update o.stores req.target q.1,
      o.requests.set i { req with phase := .running q.2 }⟩ (.run i now later)).map Mark.note =
      o.notes ++ req.notes (M.cfg req.target) now (o.stores req.target) q.1 i := by
    simp only [Observed.marks, hreq, Function.update_self, List.map_append, List.map_map]
    rw [Observed.notes]
    congr 1
    exact List.map_id _
  rw [hmarks]
  rcases notes_unpooled (hM _) hφ hheld i hq with hn | ⟨k, hn, v, d, hk, hd⟩
  · rw [hn]
    rcases he : req.effect (M.cfg req.target) now (o.stores req.target) i with _ | e
    · rw [Option.toList_none, List.append_nil]
      exact h.lapsing
    · refine h.lapsing.note fun k hk => ?_
      subst hk
      exact absurd he (effect_ne_removed i k)
  · rw [hn]
    refine h.lapsing.lapse (v := v) i ?_ hd
    have hcontents := h.consistent.contents req.target k
    rw [hk] at hcontents
    by_cases howner : req.target = M.owner k
    · rw [if_pos howner] at hcontents
      exact hcontents.symm
    · rw [if_neg howner] at hcontents
      cases hcontents

lemma Uncrowded.move (h : Uncrowded M o) {i : ℕ} {c : Cluster} {next : Phase → Option Phase}
    (hnext : ∀ φ ψ, next φ = some ψ → Straight ψ) (hc : o.toCluster.move i next = some c) :
    ∀ req ∈ c.requests, Straight req.phase := by
  obtain ⟨req, hreq, hc⟩ := Option.bind_eq_some_iff.mp hc
  obtain ⟨φ, hφ, rfl⟩ := Option.map_eq_some_iff.mp hc
  exact h.straight_set (hnext _ _ hφ)

lemma Uncrowded.act (hM : ∀ sid, Unpooled (M.cfg sid)) (h : Uncrowded M o) {a : Act}
    (ha : o.act M a = some o') : Uncrowded M o' := by
  have hconsistent := h.consistent.act ha
  obtain ⟨c, hc, rfl⟩ := Option.map_eq_some_iff.mp ha
  cases a with
  | issue self argv =>
    have hlog : o.log ++ o.marks M c (.issue self argv) = o.log := List.append_nil _
    rw [hlog] at hconsistent ⊢
    refine ⟨hconsistent, fun req hreq => ?_, h.lapsing⟩
    unfold Cluster.act at hc
    dsimp only at hc
    split at hc
    · next call _ =>
      cases hc
      rcases List.mem_append.mp hreq with hreq | hreq
      · exact h.straight req hreq
      · rw [List.mem_singleton.mp hreq]
        exact .sent
    · cases hc
      exact h.straight req hreq
  | run i now later =>
    obtain ⟨hstraight, hlapsing⟩ := h.run hM hc
    exact ⟨hconsistent, hstraight, hlapsing⟩
  | finish i =>
    have hlog : o.log ++ o.marks M c (.finish i) = o.log := List.append_nil _
    rw [hlog] at hconsistent ⊢
    refine ⟨hconsistent, h.move (fun φ ψ hψ => ?_) hc, h.lapsing⟩
    obtain ⟨r, -, rfl⟩ := finish_eq_some hψ
    exact .returning r
  | deliver i =>
    have hlog : o.log ++ o.marks M c (.deliver i) = o.log := List.append_nil _
    rw [hlog] at hconsistent ⊢
    refine ⟨hconsistent, h.move (fun φ ψ hψ => ?_) hc, h.lapsing⟩
    obtain ⟨r, -, rfl⟩ := deliver_eq_some hψ
    exact .acked r

end Runs

end ShunyaKV.Smp
