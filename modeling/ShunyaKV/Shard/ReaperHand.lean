import ShunyaKV.Shard.Solo
import ShunyaKV.Shard.Threaded

/-!
The hand of the reaper while reapers are suspended.

The list may be emptied while a reaper is suspended, by itself or by other calls; the hand is
then past the last entry. An entry that is linked afterwards does not bring it back, so that
the reaper, when it goes on, finds the list not empty and its hand at no entry. Nothing else
can take the hand from under a reaper.
-/

namespace ShunyaKV.Shard

open ShunyaKV.Lib.HandList ShunyaKV.Lib.Steps

/-! ### Where the loop of the reaper is entered -/

/-- The stores in which the body of the loop is entered, up to its end or its next yield. -/
def reapTurns : ℕ → ℕ → Store → List Store
  | 0, _, _ => []
  | budget + 1, count, s =>
    if s.probationList = [] then []
    else
      match s.probationHand with
      | none => [s]
      | some a =>
        if (count + 1) % 1000 = 0 then [s] else s :: reapTurns budget (count + 1) (s.reapTurn a).1

def startTurns (cfg : Config) (s : Store) : List Store :=
  if s.probationList = [] ∨ vectorMaxSize < cfg.reaperBudget then []
  else reapTurns cfg.reaperBudget 0 { s with probationHand := s.probationList.head? }

def writeTurns (cfg : Config) (s : Store) : List Store :=
  let s := s.noteFallback
  if cfg.probPoolMaxSize = 0 then []
  else if s.pool = [] then
    if cfg.valueFits then startTurns cfg (s.alloc.countProbation s.next) else []
  else if cfg.probThreshold ≤ s.probCount then startTurns cfg s
  else []

def Reactor.reaperTurns (cfg : Config) (σ : Reactor) : Action → List Store
  | .arrive (.get _) _ => []
  | .arrive _ _ => writeTurns cfg σ.store
  | .resume i _ _ =>
    match σ.tasks[i]? with
    | some ⟨_, .reaping count _ _, _⟩ => reapTurns (cfg.reaperBudget - count) count σ.store
    | _ => []

def HandLinked (s : Store) : Prop := ∃ a ∈ s.probationList, s.probationHand = some a

/-- A segment of the reaper is undefined exactly if it reads the entry at `end()`. -/
lemma reapSegment_eq_none_iff {cfg : Config} {fresh : Option Addr} (budget count : ℕ)
    (victims : List Bytes) (s : Store) :
    reapSegment cfg fresh budget count victims s = none ↔
      ∃ t ∈ reapTurns budget count s, t.probationHand = none := by
  induction budget generalizing count victims s with
  | zero => simp [reapSegment, reapTurns]
  | succ budget ih =>
    unfold reapSegment reapTurns
    split
    · simp
    · rcases hh : s.probationHand with _ | a
      · simp [hh]
      · dsimp only
        split
        · simp [hh]
        · rw [ih]
          simp [hh]

/-! ### A hand that stays -/

def Placed (l : List Addr) (h : Option Addr) : Prop := l ≠ [] → h ≠ none

lemma placed_head (l : List Addr) : Placed l l.head? :=
  fun hl hh => hl (List.head?_eq_none_iff.mp hh)

lemma lasting_placed : Lasting Placed where
  erase {l h a} hp ha hne := by
    have hl := List.ne_nil_of_mem ha
    rw [moveOn, if_neg hne]
    split
    · intro hnone
      exact placed_head l hl (Option.or_eq_none_iff.mp hnone).2
    · exact hp hl
  rewind _ := placed_head _

/-- The hand is at an entry of the list if there is one. -/
structure Sure (l : List Addr) (h : Option Addr) : Prop where
  stands : Stands l h
  placed : Placed l h

lemma lasting_sure : Lasting Sure where
  erase h ha := ⟨h.stands.erase ha, lasting_placed.erase h.placed ha⟩
  rewind h := ⟨.head h.stands.nodup, placed_head _⟩

lemma Sure.turns {cfg : Config} {s s' : Store} (h : Sure s.probationList s.probationHand)
    (ht : Turns cfg s s') : Sure s'.probationList s'.probationHand := by
  induction ht with
  | refl => exact h
  | tail _ hturn ih => exact lasting_sure.turn ih.stands.mem ih hturn

/-- From a hand at an entry the loop never leaves the list. -/
lemma Sure.reapTurns {budget count : ℕ} {s : Store} (h : Sure s.probationList s.probationHand) :
    ∀ t ∈ reapTurns budget count s, HandLinked t := by
  induction budget generalizing count s with
  | zero => simp [Shard.reapTurns]
  | succ budget ih =>
    unfold Shard.reapTurns
    split
    · simp
    · next hne =>
      rcases hh : s.probationHand with _ | a
      · exact absurd hh (h.placed hne)
      · have hmem := h.stands.mem a hh
        have hlinked : HandLinked s := ⟨a, hmem, hh⟩
        have hnext : ∀ t ∈ Shard.reapTurns budget (count + 1) (s.reapTurn a).1, HandLinked t :=
          ih (lasting_sure.reapTurn h hh hmem)
        dsimp only
        split
        · simpa using hlinked
        · simpa [hlinked] using hnext

lemma startTurns_linked {cfg : Config} {s : Store} (h : s.probationList.Nodup) :
    ∀ t ∈ startTurns cfg s, HandLinked t := by
  unfold startTurns
  split
  · simp
  · exact Sure.reapTurns (s := { s with probationHand := s.probationList.head? })
      ⟨.head h, placed_head _⟩

lemma writeTurns_linked {cfg : Config} {s : Store} (h : s.probationList.Nodup) :
    ∀ t ∈ writeTurns cfg s, HandLinked t := by
  obtain ⟨n, hn⟩ := noteFallback_frame s
  unfold writeTurns
  rw [hn]
  dsimp only
  split
  · simp
  split
  · split
    · exact startTurns_linked h
    · simp
  split
  · exact startTurns_linked h
  · simp

lemma sure_startReaper {cfg : Config} {fresh : Option Addr} {s : Store} {r : Store × Pc}
    (hthrows : ¬ s.ReaperThrows cfg) (hs : Stands s.probationList s.probationHand)
    (h : startReaper cfg fresh s = some r) :
    Sure r.1.probationList r.1.probationHand := by
  unfold startReaper at h
  split at h
  · next hnil =>
    cases h
    exact ⟨hs, fun hne => absurd hnil hne⟩
  · next hne =>
    have hsure : Sure s.probationList s.probationList.head? := ⟨.head hs.nodup, placed_head _⟩
    dsimp only at h
    rw [if_neg fun hlt => hthrows ⟨hne, hlt⟩] at h
    exact Sure.turns (s := { s with probationHand := s.probationList.head? }) hsure
      (turns_reapSegment h).1

/-! ### Suspended reapers -/

/-- The call is suspended in the loop of the reaper with budget left. -/
def Pc.reapsOn (cfg : Config) : Pc → Bool
  | .reaping count _ _ => count < cfg.reaperBudget
  | _ => false

lemma Pc.reapsOn_callback (cfg : Config) (keys : List Bytes) (count : ℕ) (fresh : Option Addr)
    (s : Store) : (callback cfg keys count fresh s).2.reapsOn cfg = false := by
  unfold callback
  split <;> rfl

lemma Pc.Evicting.not_reapsOn {cfg : Config} {pc : Pc} (h : pc.Evicting) :
    pc.reapsOn cfg = false := by cases h <;> rfl

/-- A call is in the loop only if it has been there before. -/
lemma reapsOn_resume {cfg : Config} {now later : ℕ} {s : Store} {call : Call} {pc : Pc}
    {r : Store × Pc} (h : resume cfg now later s call pc = some r) (hr : r.2.reapsOn cfg) :
    pc.reapsOn cfg := by
  cases pc with
  | reaping count victims fresh =>
    by_contra hn
    have hbudget : cfg.reaperBudget - count = 0 := by
      simp only [Pc.reapsOn, decide_eq_true_eq] at hn
      omega
    have hfinish : r = finishReaper cfg count victims fresh s := by
      rw [resume, hbudget, reapSegment] at h
      exact (Option.some.inj h).symm
    rw [hfinish, finishReaper] at hr
    split at hr
    · cases hr
    · rw [Pc.reapsOn_callback] at hr
      cases hr
  | calling left count fresh =>
    cases h
    rw [Pc.reapsOn_callback] at hr
    cases hr
  | reaped fresh =>
    cases fresh with
    | some a =>
      cases h
      cases hr
    | none =>
      obtain ⟨a, -, hpc⟩ := toAcquired_returned h
      rw [hpc] at hr
      cases hr
  | acquired =>
    obtain ⟨s', pc'⟩ := r
    cases resume_moved h with
    | acquiring hpc => cases hpc
    | evicting hpc => cases hpc
    | write _ _ hpc' =>
      rw [hpc'.not_reapsOn] at hr
      cases hr
  | sieving | chosen | removing | done =>
    obtain ⟨s', pc'⟩ := r
    cases resume_moved h with
    | acquiring hpc => cases hpc
    | evicting _ _ hpc' =>
      rw [hpc'.not_reapsOn] at hr
      cases hr

namespace Reactor

def Reaping (cfg : Config) (σ : Reactor) : Prop := ∃ t ∈ σ.tasks, t.pc.reapsOn cfg

/-- The action links an entry in probation. -/
def Links (cfg : Config) (σ : Reactor) : Action → Prop
  | .arrive (.get _) _ => False
  | .arrive _ _ =>
    cfg.probPoolMaxSize ≠ 0 ∧ σ.store.pool ≠ [] ∧ σ.store.probCount < cfg.probThreshold
  | .resume i _ _ => σ.store.pool ≠ [] ∧ ∃ t, σ.tasks[i]? = some t ∧ t.pc = .reaped none

/-- The action links an entry in an empty list under a suspended reaper. -/
def Relinks (cfg : Config) (σ : Reactor) (a : Action) : Prop :=
  σ.store.probationList = [] ∧ σ.Reaping cfg ∧ σ.Links cfg a

/-- Wherever the loop of the reaper is entered next, its hand is at an entry of the list. -/
def HandSafe (cfg : Config) (σ : Reactor) : Prop :=
  ∀ a, ∀ s ∈ σ.reaperTurns cfg a, HandLinked s

lemma handSafe_iff {cfg : Config} {σ : Reactor} (h : σ.Keeps cfg (Tidy cfg)) :
    σ.HandSafe cfg ↔ (σ.Reaping cfg → Placed σ.store.probationList σ.store.probationHand) := by
  have hstands := h.inv.threaded.stands
  constructor
  · rintro hsafe ⟨t, ht, hpc⟩ hne hnone
    obtain ⟨i, hi⟩ := List.getElem?_of_mem ht
    obtain ⟨call, pc, effect⟩ := t
    cases pc with
    | reaping count victims fresh =>
      simp only [Pc.reapsOn, decide_eq_true_eq] at hpc
      obtain ⟨b, hb⟩ : ∃ b, cfg.reaperBudget - count = b + 1 :=
        ⟨cfg.reaperBudget - count - 1, by omega⟩
      have hmem : σ.store ∈ σ.reaperTurns cfg (.resume i 0 0) := by
        simp [reaperTurns, hi, hb, Shard.reapTurns, hne, hnone]
      obtain ⟨a, -, ha⟩ := hsafe _ _ hmem
      rw [hnone] at ha
      cases ha
    | calling | reaped | acquired | sieving | chosen | removing | done => cases hpc
  · intro hplaced a
    cases a with
    | arrive call now =>
      cases call with
      | set | setWithTtl => exact writeTurns_linked hstands.nodup
      | get => simp [reaperTurns]
    | resume i now later =>
      rcases hi : σ.tasks[i]? with _ | ⟨call, pc, effect⟩
      · simp [reaperTurns, hi]
      · cases pc with
        | reaping count victims fresh =>
          simp only [reaperTurns, hi]
          by_cases hlt : count < cfg.reaperBudget
          · have hreaping : σ.Reaping cfg :=
              ⟨_, List.mem_of_getElem? hi, by simpa [Pc.reapsOn] using hlt⟩
            exact Sure.reapTurns ⟨hstands, hplaced hreaping⟩
          · have hbudget : cfg.reaperBudget - count = 0 := by omega
            rw [hbudget]
            simp [Shard.reapTurns]
        | calling | reaped | acquired | sieving | chosen | removing | done =>
          simp [reaperTurns, hi]

/-- What the front of the pool does to the list. -/
lemma takeFront_probation {s s' : Store} {a : Addr} (h : s.takeFront = (s', some a)) :
    s'.probationList = s.probationList ++ [a] ∧ s'.probationHand = s.probationHand := by
  obtain ⟨pool, u, -, rfl, rfl⟩ := Store.takeFront_eq_some h
  exact ⟨rfl, rfl⟩

lemma Reaping.set {cfg : Config} {s s' : Store} {l r : List Task} {t t' : Task}
    (h : Reaping cfg ⟨s, l ++ t :: r⟩) (ht : t.pc.reapsOn cfg = false) :
    Reaping cfg ⟨s', l ++ t' :: r⟩ := by
  obtain ⟨u, hu, hpc⟩ := h
  refine ⟨u, ?_, hpc⟩
  rcases List.mem_append.mp hu with hu | hu
  · exact List.mem_append_left _ hu
  · rcases List.mem_cons.mp hu with rfl | hu
    · rw [ht] at hpc
      cases hpc
    · exact List.mem_append_right _ (List.mem_cons_of_mem _ hu)

/-- An action that links an entry is carried out, and leaves the hand where it is. -/
lemma Links.act {cfg : Config} {σ : Reactor} {a : Action} (h : σ.Links cfg a)
    (hr : σ.Reaping cfg) :
    ∃ σ', σ.act cfg a = some σ' ∧ σ'.Reaping cfg ∧ σ'.store.probationList ≠ [] ∧
      σ'.store.probationHand = σ.store.probationHand := by
  have hfront (hp : σ.store.pool ≠ []) : ∃ s' x, σ.store.takeFront = (s', some x) := by
    obtain ⟨x, pool, hpool⟩ := List.exists_cons_of_ne_nil hp
    exact ⟨_, x, takeFront_cons hpool⟩
  cases a with
  | arrive call now =>
    have hwrite (hc : cfg.probPoolMaxSize ≠ 0) (hp : σ.store.pool ≠ [])
        (hlt : σ.store.probCount < cfg.probThreshold)
        (hbegin : begin cfg now σ.store call = startWrite cfg σ.store) :
        ∃ σ', σ.act cfg (.arrive call now) = some σ' ∧ σ'.Reaping cfg ∧
          σ'.store.probationList ≠ [] ∧ σ'.store.probationHand = σ.store.probationHand := by
      obtain ⟨s', x, he⟩ := hfront hp
      obtain ⟨h1, h2⟩ := takeFront_probation he
      rw [startWrite_front hc hp hlt, he] at hbegin
      obtain ⟨u, hu, hpc⟩ := hr
      refine ⟨⟨s', σ.tasks ++ [⟨call, .acquired x, call.effect now⟩]⟩, ?_,
        ⟨u, List.mem_append_left _ hu, hpc⟩, by simp [h1], h2⟩
      rw [Reactor.act, hbegin]
      rfl
    cases call with
    | set k v => exact hwrite h.1 h.2.1 h.2.2 rfl
    | setWithTtl k v ttl => exact hwrite h.1 h.2.1 h.2.2 rfl
    | get k => exact h.elim
  | resume i now later =>
    obtain ⟨hp, t, hi, hpc⟩ := h
    obtain ⟨s', x, he⟩ := hfront hp
    obtain ⟨h1, h2⟩ := takeFront_probation he
    obtain ⟨l, r, htasks, hset⟩ := tasks_split hi
    obtain ⟨s, tasks⟩ := σ
    subst htasks
    refine ⟨⟨s', l ++ t.next now (.acquired x) :: r⟩, ?_, hr.set (by rw [hpc]; rfl), by simp [h1],
      h2⟩
    rw [Reactor.act, hi, Option.bind_some, hpc, Shard.resume, he, ← hset (t.next now (.acquired x))]
    rfl

/-- A reaper that is suspended after an action was so before, or has just started. -/
lemma reaping_of_act {cfg : Config} {σ : Reactor} {i now later : ℕ} {t : Task} {r : Store × Pc}
    (hi : σ.tasks[i]? = some t) (hr : Shard.resume cfg now later σ.store t.call t.pc = some r)
    (h : Reaping cfg ⟨r.1, σ.tasks.set i (t.next now r.2)⟩) : σ.Reaping cfg := by
  obtain ⟨u, hu, hpc⟩ := h
  rcases List.mem_or_eq_of_mem_set hu with hu | rfl
  · exact ⟨u, hu, hpc⟩
  · rw [Task.next_pc] at hpc
    exact ⟨t, List.mem_of_getElem? hi, reapsOn_resume hr hpc⟩

/-- A new entry comes after others, one of which has the hand. -/
lemma placed_front {s s' : Store} {x : Addr} (hp : Placed s.probationList s.probationHand)
    (hne : s.probationList ≠ []) (h : s.takeFront = (s', some x)) :
    Placed s'.probationList s'.probationHand := by
  obtain ⟨-, hhand⟩ := takeFront_probation h
  intro _
  rw [hhand]
  exact hp hne

lemma placed_opening {cfg : Config} {s s' : Store} {pc : Pc}
    (hs : Stands s.probationList s.probationHand)
    (hp : pc.reapsOn cfg = false → Placed s.probationList s.probationHand)
    (hlink : pc.reapsOn cfg = false → cfg.probPoolMaxSize ≠ 0 → s.pool ≠ [] →
      s.probCount < cfg.probThreshold → s.probationList ≠ []) (ho : Opening cfg s s' pc) :
    Placed s'.probationList s'.probationHand := by
  obtain ⟨n, hnote⟩ := noteFallback_frame s
  have hnoted : Stands s.noteFallback.probationList s.noteFallback.probationHand := by
    rw [hnote]
    exact hs
  cases ho with
  | plain hc h =>
    refine Lasting.doAcquire ?_ h
    rw [hnote]
    exact hp rfl
  | made _ _ hr h =>
    exact (sure_startReaper (s := s.noteFallback.alloc.countProbation s.next) (not_throws_made hr)
      hnoted h).placed
  | crowded _ _ _ hr h => exact (sure_startReaper (not_throws_noted hr) hnoted h).placed
  | front hc hpool hlt h =>
    refine placed_front (s := s.noteFallback) ?_ ?_ h
    · rw [hnote]
      exact hp rfl
    · rw [hnote]
      exact hlink rfl hc hpool hlt
  | threw h =>
    cases h with
    | value =>
      rw [hnote]
      exact hp rfl
    | made | reaper => exact placed_head _

lemma placed_moved {cfg : Config} {now later : ℕ} {s s' : Store} {call : Call} {pc pc' : Pc}
    (hsure : Sure s.probationList s.probationHand)
    (hlink : pc = .reaped none → s.pool ≠ [] → s.probationList ≠ [])
    (h : Moved cfg now later s call pc s' pc') : Placed s'.probationList s'.probationHand := by
  cases h with
  | acquiring _ ht => exact (hsure.turns ht).placed
  | made a => exact hsure.placed
  | front h =>
    obtain ⟨pool, u, hpool, -⟩ := Store.takeFront_eq_some h
    exact placed_front hsure.placed (hlink rfl (by simp [hpool])) h
  | @write b k v d _ _ _ ht =>
    have hupdate := lasting_sure.emplace (s := s.modify b fun e =>
      { e with key := k, value := v, expiresAt := d.getD e.expiresAt }) hsure cfg k b d.isSome
    exact (Sure.turns hupdate ht).placed
  | evicting _ ht => exact (hsure.turns ht).placed

/-- **Only an action that links an entry in an empty list takes the hand away.** -/
lemma placed_act {cfg : Config} {σ σ' : Reactor} {a : Action} (hk : σ.Keeps cfg (Tidy cfg))
    (hp : σ.Reaping cfg → Placed σ.store.probationList σ.store.probationHand)
    (hn : ¬ σ.Relinks cfg a) (ha : σ.act cfg a = some σ') (hr : σ'.Reaping cfg) :
    Placed σ'.store.probationList σ'.store.probationHand := by
  have hstands := hk.inv.threaded.stands
  have hlink (hreap : σ.Reaping cfg) (hlinks : σ.Links cfg a) : σ.store.probationList ≠ [] :=
    fun hnil => hn ⟨hnil, hreap, hlinks⟩
  cases a with
  | arrive call now =>
    obtain ⟨⟨s', pc⟩, hbegin, rfl⟩ := Option.map_eq_some_iff.mp ha
    have hbefore (hpc : pc.reapsOn cfg = false) : σ.Reaping cfg := by
      obtain ⟨u, hu, hu'⟩ := hr
      rcases List.mem_append.mp hu with hu | hu
      · exact ⟨u, hu, hu'⟩
      · obtain rfl := List.mem_singleton.mp hu
        rw [hpc] at hu'
        cases hu'
    cases call with
    | set | setWithTtl =>
      exact placed_opening hstands (fun hpc => hp (hbefore hpc))
        (fun hpc hc hpool hlt => hlink (hbefore hpc) ⟨hc, hpool, hlt⟩) (startWrite_opening hbegin)
    | get k =>
      cases hbegin
      exact lasting_placed.get (hp (hbefore rfl)) cfg k now
  | resume i now later =>
    obtain ⟨t, hi, hmap⟩ := Option.bind_eq_some_iff.mp ha
    obtain ⟨r, hresume, rfl⟩ := Option.map_eq_some_iff.mp hmap
    have hreap := reaping_of_act hi hresume hr
    exact placed_moved ⟨hstands, hp hreap⟩ (fun hpc hpool => hlink hreap ⟨hpool, t, hi, hpc⟩)
      (resume_moved hresume)

/-- **The hand of the reaper is safe as long as no entry is linked in an empty list under a
suspended reaper**, and not longer: in the state after such an action, the reaper would read
the entry at `end()` if it went on. -/
theorem reaper_hand_safe_iff (cfg : Config) (acts : List Action) :
    Along (act cfg) (fun σ a => ¬ σ.Relinks cfg a) (fresh cfg) acts ↔
      ∀ pre, pre <+: acts → ∀ σ, runs (act cfg) (fresh cfg) pre = some σ → σ.HandSafe cfg := by
  refine Along.iff_reached (I := fun σ => σ.Keeps cfg (Tidy cfg)) (fun _ _ _ h ha =>
    h.act (tidy_kept cfg) ha) ?_ ?_ (tidy_fresh cfg) ?_ acts
  · intro σ a σ' hk hsafe hn ha
    rw [handSafe_iff hk] at hsafe
    rw [handSafe_iff (hk.act (tidy_kept cfg) ha)]
    exact placed_act hk hsafe hn ha
  · intro σ a hk hsafe hrel
    obtain ⟨hnil, hreap, hlinks⟩ := not_not.mp hrel
    obtain ⟨σ', ha, hreap', hne, hhand⟩ := hlinks.act hreap
    refine ⟨σ', ha, fun hsafe' => ?_⟩
    rw [handSafe_iff (hk.act (tidy_kept cfg) ha)] at hsafe'
    exact hsafe' hreap' hne (hhand.trans (hk.inv.threaded.stands.eq_none hnil))
  · rw [handSafe_iff (tidy_fresh cfg)]
    rintro ⟨t, ht, -⟩
    cases ht

/-- A reaper that may take more entries than there are when it first yields. -/
def roomyReaper : Config :=
  { maxSize := 2000, probPoolMaxSize := 1000, probThreshold := 1000, reaperBudget := 2000
    softBudget := 1000, softTriggered := fun _ => false }

/-- The write that comes while the list is empty takes the hand away. -/
lemma runs_lost {cfg : Config} {n : ℕ} (hn : n = 1000) (hc : cfg.probPoolMaxSize ≠ 0)
    (hsoft : ∀ m, cfg.softTriggered m = false) (hmax : n < cfg.maxSize)
    (hth : cfg.probThreshold = n) (hb : n < cfg.reaperBudget)
    (hroom : ¬ vectorMaxSize < cfg.reaperBudget) :
    ∃ σ, runs (act cfg) (fresh cfg) (midBatch n [2] [2]) = some σ ∧ ¬ σ.HandSafe cfg ∧
      σ.act cfg (.resume n 0 0) = none := by
  obtain ⟨s, hfill, hruns⟩ := runs_inReaper hc hsoft hn hmax hth hb.le hroom
  have hreaping : Reaping cfg ⟨s.emptied, Shard.inserts n ++ [inReaper n]⟩ := by
    refine ⟨inReaper n, by simp, ?_⟩
    simp only [inReaper, Pc.reapsOn, decide_eq_true_eq]
    omega
  have hlinks : Links cfg ⟨s.emptied, Shard.inserts n ++ [inReaper n]⟩
      (.arrive (.set [2] [2]) 0) :=
    ⟨hc, hfill.pool_ne_nil hmax, by show 0 < cfg.probThreshold; omega⟩
  obtain ⟨σ, hact, hreap, hne, hhand⟩ := hlinks.act hreaping
  have hnone : σ.store.probationHand = none := hhand
  have htask : σ.tasks[n]? = some (inReaper n) := by
    obtain ⟨r, -, rfl⟩ := Option.map_eq_some_iff.mp hact
    simp [inserts_length]
  refine ⟨σ, ?_, fun hsafe => ?_, ?_⟩
  · rw [midBatch, List.append_cons, runs_append, hruns, Option.bind_some, runs_step hact]
    rfl
  · have hkeeps := (tidy_fresh cfg).runs (tidy_kept cfg) hruns
    rw [handSafe_iff (hkeeps.act (tidy_kept cfg) hact)] at hsafe
    exact hsafe hreap hne hnone
  · obtain ⟨b, hbudget⟩ : ∃ b, cfg.reaperBudget - 1000 = b + 1 :=
      ⟨cfg.reaperBudget - 1000 - 1, by omega⟩
    have hresume : Shard.resume cfg 0 0 σ.store (inReaper n).call (inReaper n).pc = none := by
      rw [inReaper, Shard.resume, reapSegment_eq_none_iff, hbudget]
      exact ⟨σ.store, by simp [Shard.reapTurns, hne, hnone], hnone⟩
    rw [Reactor.act, htask, Option.bind_some, hresume]
    rfl

/-- A reaper with budget left finds an entry that was linked after it had emptied the list, and
its hand at `end()`. -/
theorem reaper_reads_end :
    ∃ σ, runs (act roomyReaper) (fresh roomyReaper) (midBatch 1000 [2] [2]) = some σ ∧
      ¬ σ.HandSafe roomyReaper ∧ σ.act roomyReaper (.resume 1000 0 0) = none :=
  runs_lost rfl (by decide) (fun _ => rfl) (by decide) rfl (by decide) (by decide)

end Reactor

end ShunyaKV.Shard
