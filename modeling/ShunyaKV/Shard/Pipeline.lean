import ShunyaKV.Shard.Solo

/-!
Calls of one connection in the order received.

A read takes effect when its request arrives and a write when it has its entry. As long as a
request on a key arrives only after the writes of the key before it have taken effect, and no
write throws on its way to its entry, the calls on each key answer and write as if they were run
one after the other.
-/

namespace ShunyaKV.Shard

open ShunyaKV.Lib.Ttl ShunyaKV.Lib.Steps

def Call.key : Call → Bytes
  | .set k _ => k
  | .setWithTtl k _ _ => k
  | .get k => k

def Call.op : Call → Op Bytes Bytes
  | .set k v => .set k v
  | .setWithTtl k v ttl => .setTtl k v ttl
  | .get k => .get k

def Task.answer (t : Task) : Option Bytes :=
  match t.pc with
  | .done r => r.value
  | _ => none

/-- The call, when it took effect and its answer, if it is on `k` and has taken effect. -/
def Task.executed (k : Bytes) (t : Task) : Option (Op Bytes Bytes × ℕ × Option Bytes) :=
  if t.call.key = k then t.effect.map fun now => (t.call.op, now, t.answer) else none

namespace Reactor

/-- The calls on `k` that have taken effect, in the order received. -/
def history (σ : Reactor) (k : Bytes) : List (Op Bytes Bytes × ℕ × Option Bytes) :=
  σ.tasks.filterMap (Task.executed k)

/-- The calls on `k` have answered, and left in the map, what they do one after the other in
the order received, evictions aside. -/
structure InOrder (σ : Reactor) (k : Bytes) : Prop where
  finished : ∀ t ∈ σ.tasks, (∃ r, t.pc = .done r) → t.effect ≠ none
  trace : ∃ m, Trace Store.due empty (σ.history k) m ∧ m k = abs σ.store k

/-- A request arrives only after the writes of its key before it have taken effect. -/
def Waits (σ : Reactor) : Action → Prop
  | .arrive call _ => ∀ t ∈ σ.tasks, t.call.key = call.key → t.effect ≠ none
  | .resume _ _ _ => True

instance (σ : Reactor) : (a : Action) → Decidable (σ.Waits a)
  | .arrive call _ =>
    inferInstanceAs (Decidable (∀ t ∈ σ.tasks, t.call.key = call.key → t.effect ≠ none))
  | .resume _ _ _ => inferInstanceAs (Decidable True)

/-- A write that arrives gets an entry. -/
def Grants (cfg : Config) (σ : Reactor) : Action → Prop
  | .arrive (.get _) _ => True
  | .arrive _ _ => ¬ σ.store.AcquireThrows cfg
  | .resume _ _ _ => True

instance (cfg : Config) (σ : Reactor) : (a : Action) → Decidable (σ.Grants cfg a)
  | .arrive (.get _) _ => inferInstanceAs (Decidable True)
  | .arrive (.set _ _) _ => inferInstanceAs (Decidable (¬ _))
  | .arrive (.setWithTtl _ _ _) _ => inferInstanceAs (Decidable (¬ _))
  | .resume _ _ _ => inferInstanceAs (Decidable True)

lemma grants_of_room {cfg : Config} (hbudget : cfg.reaperBudget < 2 ^ 59)
    (hfits : cfg.valueFits = true) (σ : Reactor) (a : Action) : σ.Grants cfg a := by
  rcases a with ⟨_ | _ | _, _⟩ | _
  · exact Store.not_acquireThrows hbudget hfits _
  · exact Store.not_acquireThrows hbudget hfits _
  · trivial
  · trivial

end Reactor

/-! ### Histories -/

/-- `l` accounts for what the map holds for `k`. -/
def Accounts (l : List (Op Bytes Bytes × ℕ × Option Bytes)) (s : Store) (k : Bytes) : Prop :=
  ∃ m, Trace Store.due empty l m ∧ m k = abs s k

lemma Accounts.evict {l : List (Op Bytes Bytes × ℕ × Option Bytes)} {s s' : Store} {k : Bytes}
    {R : List Bytes} (h : Accounts l s k) (hs : abs s' = without (abs s) R) :
    Accounts l s' k := by
  obtain ⟨m, hm, hk⟩ := h
  refine ⟨without m R, hm.evict R, ?_⟩
  rw [hs]
  unfold without
  rw [hk]

lemma Accounts.op {l : List (Op Bytes Bytes × ℕ × Option Bytes)} {s s' : Store} {k : Bytes}
    {op : Op Bytes Bytes} {t : ℕ} {S : List Bytes} (h : Accounts l s k) (hk : op.key = k)
    (hs : abs s' = without (apply Store.due (abs s) t op).2 S) :
    Accounts (l ++ [(op, t, (apply Store.due (abs s) t op).1)]) s' k := by
  obtain ⟨m, hm, hmk⟩ := h
  subst hk
  obtain ⟨h1, h2⟩ := apply_congr Store.due op t hmk
  rw [← h1]
  refine ⟨without (apply Store.due m t op).2 S, (hm.op op t).evict S, ?_⟩
  rw [hs]
  unfold without
  rw [h2]

lemma Accounts.other {l : List (Op Bytes Bytes × ℕ × Option Bytes)} {s s' : Store} {k : Bytes}
    {op : Op Bytes Bytes} {t : ℕ} {S : List Bytes} (h : Accounts l s k) (hk : k ≠ op.key)
    (hs : abs s' = without (apply Store.due (abs s) t op).2 S) : Accounts l s' k := by
  obtain ⟨m, hm, hmk⟩ := h
  refine ⟨without m S, hm.evict S, ?_⟩
  rw [hs]
  unfold without
  rw [apply_other _ _ _ hk, hmk]

lemma key_op (call : Call) : call.op.key = call.key := by cases call <;> rfl

lemma apply_writes {call : Call} {now later : ℕ} {k v : Bytes} {d : Option ℕ}
    (h : (⟨call, now, later⟩ : Event).Writes k v d) (m : TtlMap Bytes Bytes) :
    apply Store.due m now call.op = (none, write m k v (d.getD (deadline m k))) := by
  cases call with
  | set k' v' =>
    obtain ⟨rfl, rfl, rfl⟩ := h
    rfl
  | setWithTtl k' v' ttl =>
    obtain ⟨rfl, rfl, rfl⟩ := h
    rfl
  | get k' => exact h.elim

/-! ### What an action does to the map -/

/-- The call that takes effect with an action, and when. -/
def Reactor.effective (σ : Reactor) : Action → Option (Call × ℕ)
  | .arrive (.get k) now => some (.get k, now)
  | .arrive _ _ => none
  | .resume i now _ =>
    match σ.tasks[i]? with
    | some ⟨call, .acquired _, _⟩ => some (call, now)
    | _ => none

/-- It is the only thing that happens to the map. -/
lemma Reactor.abs_act_effective {cfg : Config} {σ σ' : Reactor} {a : Action} {call : Call} {now : ℕ}
    (hh : Holds σ.store σ.held) (he : σ.effective a = some (call, now))
    (ha : σ.act cfg a = some σ') :
    abs σ'.store = (apply Store.due (abs σ.store) now call.op).2 := by
  cases a with
  | arrive call' now' =>
    obtain ⟨q, hq, rfl⟩ := Option.map_eq_some_iff.mp ha
    cases call' with
    | set k v => cases he
    | setWithTtl k v ttl => cases he
    | get k =>
      cases he
      cases hq
      exact (get_refines cfg hh.toOwned k now).2.2.1
  | resume i now' later =>
    obtain ⟨s, tasks⟩ := σ
    obtain ⟨l, ⟨call', pc, effect⟩, r, q, rfl, hi, hq, rfl⟩ := resume_of_act ha
    simp only [effective, hi] at he
    cases pc with
    | acquired b =>
      cases he
      obtain ⟨k, v, d, hw, -, -, habs, -⟩ := resume_acquired cfg (hh.perm (held_perm s l r _)) hq
      rw [apply_writes hw]
      exact habs
    | reaping | calling | reaped | sieving | chosen | removing | done => cases he

/-- An action in which no call takes effect removes keys. -/
lemma Reactor.abs_act_none {cfg : Config} {σ σ' : Reactor} {a : Action}
    (hh : Holds σ.store σ.held) (he : σ.effective a = none) (ha : σ.act cfg a = some σ') :
    ∃ R, abs σ'.store = without (abs σ.store) R := by
  cases a with
  | arrive call now =>
    obtain ⟨q, hq, rfl⟩ := Option.map_eq_some_iff.mp ha
    cases call with
    | get k => cases he
    | set | setWithTtl =>
      obtain ⟨⟨-, R, hR, -⟩, -⟩ := moves_startWrite cfg hh hq
      exact ⟨R, hR⟩
  | resume i now later =>
    obtain ⟨s, tasks⟩ := σ
    obtain ⟨l, ⟨call, pc, effect⟩, r, q, rfl, hi, hq, rfl⟩ := resume_of_act ha
    have hpc (b : Addr) : pc ≠ .acquired b := by
      rintro rfl
      simp [effective, hi] at he
    obtain ⟨⟨-, R, hR, -⟩, -⟩ := moves_resume cfg (hh.perm (held_perm s l r _)) hpc hq
    exact ⟨R, hR⟩

/-! ### The tasks -/

lemma executed_none {k : Bytes} {t : Task} (h : t.effect = none) : t.executed k = none := by
  simp [Task.executed, h]

lemma executed_other {k : Bytes} {t : Task} (h : t.call.key ≠ k) : t.executed k = none := by
  simp [Task.executed, h]

lemma answer_waiting {t : Task} (h : t.pc.waiting) : t.answer = none := by
  unfold Task.answer
  split
  · next hpc =>
    rw [hpc] at h
    cases h
  · rfl

lemma answer_evicting {t : Task} (h : t.pc.Evicting) : t.answer = none := by
  obtain ⟨call, pc, effect⟩ := t
  cases h with
  | sieving | chosen | removing | done | threw => rfl

lemma answer_suspended {cfg : Config} {s : Store} {call : Call} {pc : Pc} {now later : ℕ}
    {effect : Option ℕ} {q : Store × Pc} (h : resume cfg now later s call pc = some q) :
    Task.answer ⟨call, pc, effect⟩ = none := by
  cases pc with
  | done r => cases h
  | reaping | calling | reaped | acquired | sieving | chosen | removing => rfl

/-! ### Runs -/

namespace Reactor

structure Orderly (σ : Reactor) : Prop where
  holds : Holds σ.store σ.held
  effect : ∀ t ∈ σ.tasks, t.pc.waiting ↔ t.effect = none
  order : σ.tasks.Pairwise fun t t' => t.call.key = t'.call.key → t.effect ≠ none
  trace : ∀ k, Accounts (σ.history k) σ.store k

lemma orderly_fresh (cfg : Config) : (fresh cfg).Orderly where
  holds := holds_start cfg
  effect := by simp [fresh]
  order := .nil
  trace k := ⟨empty, .nil, by simp [fresh, abs_start]⟩

lemma Orderly.append {σ : Reactor} {t' : Task} {s' : Store} (h : σ.Orderly)
    (hwait : ∀ t ∈ σ.tasks, t.call.key = t'.call.key → t.effect ≠ none)
    (hw : t'.pc.waiting ↔ t'.effect = none) (hholds : Holds s' (t'.pc.held ++ σ.held))
    (htrace : ∀ k, Accounts (history ⟨s', σ.tasks ++ [t']⟩ k) s' k) :
    (⟨s', σ.tasks ++ [t']⟩ : Reactor).Orderly := by
  refine ⟨hholds.perm ?_, fun t ht => ?_, ?_, htrace⟩
  · simpa [held] using List.perm_append_comm
  · rcases List.mem_append.mp ht with ht | ht
    · exact h.effect t ht
    · obtain rfl := List.mem_singleton.mp ht
      exact hw
  · refine List.pairwise_append.mpr ⟨h.order, List.pairwise_singleton _ _, fun t ht u hu => ?_⟩
    obtain rfl := List.mem_singleton.mp hu
    exact hwait t ht

lemma Orderly.arrive_write {cfg : Config} {σ : Reactor} {call : Call} {r : Store × Pc}
    (h : σ.Orderly) (hwait : ∀ t ∈ σ.tasks, t.call.key = call.key → t.effect ≠ none)
    (hgrant : ¬ σ.store.AcquireThrows cfg) (hr : startWrite cfg σ.store = some r) :
    (⟨r.1, σ.tasks ++ [⟨call, r.2, none⟩]⟩ : Reactor).Orderly := by
  obtain ⟨⟨hholds, R, hR, -⟩, hw⟩ := moves_startWrite cfg h.holds hr
  have hw : r.2.waiting := hw.resolve_right fun hthrew => hgrant hthrew.1
  refine h.append hwait (iff_of_true hw rfl) hholds fun k => ?_
  have hhist : history ⟨r.1, σ.tasks ++ [⟨call, r.2, none⟩]⟩ k = σ.history k := by
    simp [history, executed_none]
  rw [hhist]
  exact (h.trace k).evict hR

lemma Orderly.arrive_get {cfg : Config} {σ : Reactor} {key : Bytes} {now : ℕ} (h : σ.Orderly)
    (hwait : ∀ t ∈ σ.tasks, t.call.key = key → t.effect ≠ none) :
    (⟨(σ.store.get cfg key now).1, σ.tasks ++
      [⟨.get key, .done (.found (σ.store.get cfg key now).2), some now⟩]⟩ : Reactor).Orderly := by
  obtain ⟨-, hans, habs, -⟩ := get_refines cfg h.holds.toOwned key now
  have habs' : abs (σ.store.get cfg key now).1 =
      without (apply Store.due (abs σ.store) now (.get key)).2 [] := by
    rw [without_nil]
    exact habs
  refine h.append hwait (by simp [Pc.waiting]) (holds_get cfg h.holds key now) fun k => ?_
  by_cases hk : key = k
  · subst hk
    have : Accounts _ _ key := (h.trace key).op rfl habs'
    rw [show (apply Store.due (abs σ.store) now (.get key)).1 = _ from hans.symm] at this
    simpa [history, Task.executed, Call.key, Call.op, Task.answer, Reply.value] using this
  · have hne : k ≠ (Op.get key : Op Bytes Bytes).key := fun e => hk e.symm
    have := (h.trace k).other hne habs'
    simpa [history, Task.executed, Call.key, hk] using this

lemma Orderly.replace {σ : Reactor} {l r : List Task} {t t' : Task} {s' : Store} (h : σ.Orderly)
    (htasks : σ.tasks = l ++ t :: r) (hcall : t'.call = t.call)
    (heff : t.effect ≠ none → t'.effect ≠ none) (hw : t'.pc.waiting ↔ t'.effect = none)
    (hholds : Holds s' (t'.pc.held ++ others l r))
    (htrace : ∀ k, Accounts (history ⟨s', l ++ t' :: r⟩ k) s' k) :
    (⟨s', l ++ t' :: r⟩ : Reactor).Orderly := by
  have horder := h.order
  rw [htasks, List.pairwise_append, List.pairwise_cons] at horder
  obtain ⟨hl, ⟨htr, hr⟩, hlr⟩ := horder
  have heffect := h.effect
  simp only [htasks, List.mem_append, List.mem_cons] at heffect
  refine ⟨hholds.perm (held_perm s' l r t').symm, fun u hu => ?_, ?_, htrace⟩
  · rcases List.mem_append.mp hu with hu | hu
    · exact heffect u (.inl hu)
    · rcases List.mem_cons.mp hu with rfl | hu
      · exact hw
      · exact heffect u (.inr (.inr hu))
  · refine List.pairwise_append.mpr ⟨hl, List.pairwise_cons.mpr ⟨fun u hu hk => ?_, hr⟩, ?_⟩
    · exact heff (htr u hu (hcall ▸ hk))
    · intro u hu u' hu' hk
      rcases List.mem_cons.mp hu' with rfl | hu'
      · exact hlr u hu t (by simp) (hcall ▸ hk)
      · exact hlr u hu u' (by simp [hu']) hk

/-- A task that moves on before or after its write leaves the history as it is. -/
lemma history_replace {s s' : Store} {l r : List Task} {t t' : Task} {k : Bytes}
    (h : t'.executed k = t.executed k) :
    history ⟨s', l ++ t' :: r⟩ k = history ⟨s, l ++ t :: r⟩ k := by
  simp only [history, List.filterMap_append, List.filterMap_cons, h]

/-- A task that writes is the last one of its key in the history. -/
lemma history_write {s s' : Store} {l r : List Task} {call : Call} {pc pc' : Pc} {now : ℕ}
    (h : Orderly ⟨s, l ++ ⟨call, pc, none⟩ :: r⟩)
    (hans : Task.answer ⟨call, pc', some now⟩ = none) :
    history ⟨s', l ++ ⟨call, pc', some now⟩ :: r⟩ call.key =
      history ⟨s, l ++ ⟨call, pc, none⟩ :: r⟩ call.key ++ [(call.op, now, none)] := by
  have hr : r.filterMap (Task.executed call.key) = [] := by
    refine List.filterMap_eq_nil_iff.mpr fun u hu => executed_other fun hk => ?_
    have horder := (List.pairwise_append.mp h.order).2.1
    exact (List.pairwise_cons.mp horder).1 u hu hk.symm rfl
  simp [history, hr, Task.executed, hans]

lemma Orderly.write {cfg : Config} {s : Store} {l r : List Task} {call : Call} {a : Addr}
    {now later : ℕ} {q : Store × Pc} (h : Orderly ⟨s, l ++ ⟨call, .acquired a, none⟩ :: r⟩)
    (hq : Shard.resume cfg now later s call (.acquired a) = some q) :
    Orderly ⟨q.1, l ++ ⟨call, q.2, some now⟩ :: r⟩ := by
  have hheld := h.holds.perm (held_perm s l r _)
  obtain ⟨k, v, d, hwr, hholds, hev, habs, -⟩ := resume_acquired cfg hheld hq
  have happly := apply_writes hwr (abs s)
  have habs' : abs q.1 = without (apply Store.due (abs s) now call.op).2 [] := by
    rw [habs, happly, without_nil]
  have hans : Task.answer ⟨call, q.2, some now⟩ = none := answer_evicting hev
  refine h.replace rfl rfl (by simp) (by simp [hev.waiting]) hholds fun k' => ?_
  by_cases hk : call.key = k'
  · subst hk
    have hacc := (h.trace call.key).op (key_op call) habs'
    rw [happly] at hacc
    rwa [history_write h hans]
  · rw [history_replace (s := s) (t := ⟨call, .acquired a, none⟩)
      ((executed_other hk).trans (executed_other hk).symm)]
    exact (h.trace k').other (by rw [key_op]; exact fun e => hk e.symm) habs'

lemma Orderly.move {cfg : Config} {s : Store} {l r : List Task} {call : Call} {pc : Pc}
    {effect : Option ℕ} {now later : ℕ} {q : Store × Pc}
    (h : Orderly ⟨s, l ++ ⟨call, pc, effect⟩ :: r⟩) (hpc : ∀ a, pc ≠ .acquired a)
    (hq : Shard.resume cfg now later s call pc = some q) :
    Orderly ⟨q.1, l ++ ⟨call, q.2, effect⟩ :: r⟩ := by
  have hheld := h.holds.perm (held_perm s l r _)
  have heff := h.effect ⟨call, pc, effect⟩ (by simp)
  have hmove : Moves s q.1 (q.2.held ++ others l r) ∧ (q.2.waiting ↔ effect = none) ∧
      Task.answer ⟨call, q.2, effect⟩ = none := by
    obtain ⟨h1, ⟨hw, h2⟩ | ⟨hw, h2⟩⟩ := moves_resume cfg hheld hpc hq
    · exact ⟨h1, iff_of_true h2 (heff.mp hw), answer_waiting h2⟩
    · have hsome : effect ≠ none := fun e => by
        have := heff.mpr e
        rw [hw] at this
        cases this
      exact ⟨h1, iff_of_false (by simp [h2.waiting]) hsome, answer_evicting h2⟩
  obtain ⟨⟨hholds, R, hR, -⟩, hw, hans⟩ := hmove
  refine h.replace rfl rfl id hw hholds fun k => ?_
  have hexec : Task.executed k ⟨call, q.2, effect⟩ = Task.executed k ⟨call, pc, effect⟩ := by
    rw [Task.executed, Task.executed, hans, answer_suspended hq]
  rw [history_replace (s := s) hexec]
  exact (h.trace k).evict hR

/-- **One action keeps the calls in order.** -/
lemma Orderly.act {cfg : Config} {σ σ' : Reactor} {a : Action} (h : σ.Orderly) (hw : σ.Waits a)
    (hgrant : σ.Grants cfg a) (ha : σ.act cfg a = some σ') : σ'.Orderly := by
  cases a with
  | arrive call now =>
    obtain ⟨r, hr, rfl⟩ := Option.map_eq_some_iff.mp ha
    cases call with
    | set k v => exact h.arrive_write hw hgrant hr
    | setWithTtl k v ttl => exact h.arrive_write hw hgrant hr
    | get k =>
      cases hr
      exact h.arrive_get hw
  | resume i now later =>
    obtain ⟨s, tasks⟩ := σ
    obtain ⟨l, ⟨call, pc, effect⟩, r, q, rfl, -, hq, rfl⟩ := resume_of_act ha
    by_cases hpc : ∃ a, pc = .acquired a
    · obtain ⟨a, rfl⟩ := hpc
      obtain rfl : effect = none := (h.effect ⟨call, .acquired a, effect⟩ (by simp)).mp rfl
      exact h.write hq
    · have hnext : Task.next ⟨call, pc, effect⟩ now q.2 = ⟨call, q.2, effect⟩ := by
        cases pc with
        | acquired a => exact absurd ⟨a, rfl⟩ hpc
        | reaping | calling | reaped | sieving | chosen | removing | done => rfl
      rw [hnext]
      exact h.move (fun a e => hpc ⟨a, e⟩) hq

lemma Orderly.inOrder {σ : Reactor} (h : σ.Orderly) (k : Bytes) : σ.InOrder k := by
  refine ⟨fun t ht ⟨r, hr⟩ e => ?_, h.trace k⟩
  have := (h.effect t ht).mpr e
  rw [hr] at this
  cases this

end Reactor

/-- **Calls of one connection take effect in the order received**, as long as a request on a
key arrives only after the writes of the key before it have taken effect, and every write gets an
entry. -/
theorem pipelined_inOrder (cfg : Config) {acts : List Action} {σ : Reactor}
    (hruns : runs (Reactor.act cfg) (Reactor.fresh cfg) acts = some σ)
    (hwaits : Along (Reactor.act cfg) Reactor.Waits (Reactor.fresh cfg) acts)
    (hgrants : Along (Reactor.act cfg) (Reactor.Grants cfg) (Reactor.fresh cfg) acts)
    (k : Bytes) : σ.InOrder k := by
  have horderly : σ.Orderly := (hwaits.and hgrants).runs_rule (I := Reactor.Orderly)
    (fun _ _ _ h hP ha => h.act hP.1 hP.2 ha) (Reactor.orderly_fresh cfg) hruns
  exact horderly.inOrder k

def roomy : Config :=
  { maxSize := 4, probPoolMaxSize := 4, probThreshold := 4, reaperBudget := 1, softBudget := 1,
    softTriggered := fun _ => false }

/-- Two writes of different keys that pass each other, and a read. -/
def crossing : List Action :=
  [.arrive (.set [1] [1]) 0, .arrive (.set [2] [2]) 0, .resume 1 0 0, .resume 0 0 0,
    .arrive (.get [1]) 0]

theorem pipelined_inOrder_crossing :
    ∃ σ, runs (Reactor.act roomy) (Reactor.fresh roomy) crossing = some σ ∧
      Along (Reactor.act roomy) Reactor.Waits (Reactor.fresh roomy) crossing ∧
      Along (Reactor.act roomy) (Reactor.Grants roomy) (Reactor.fresh roomy) crossing ∧
      σ.InOrder [1] := by
  have hwaits : Along (Reactor.act roomy) Reactor.Waits (Reactor.fresh roomy) crossing := by decide
  have hgrants : Along (Reactor.act roomy) (Reactor.Grants roomy) (Reactor.fresh roomy) crossing :=
    along_of_forall (Reactor.grants_of_room (by decide) rfl) _ _
  exact ⟨_, rfl, hwaits, hgrants, pipelined_inOrder roomy rfl hwaits hgrants [1]⟩

/-- Room for two thousand entries, with a reaper that runs when a thousand are in probation
and no SIEVE pass. -/
def thousand : Config :=
  { maxSize := 2000, probPoolMaxSize := 1000, probThreshold := 1000, reaperBudget := 1000
    softBudget := 1000, softTriggered := fun _ => false }

/-- Two writes of one key after `n` new ones, the second of which overtakes the first in the
reaper. -/
def overtaken (n : ℕ) : List Action :=
  midBatch n [1] [2] ++
    [.resume (n + 1) 0 0, .resume n 0 0, .resume n 0 0, .resume n 0 0, .resume n 0 0]

lemma one_ne_freshKey (i : ℕ) : ([1] : Bytes) ≠ freshKey i := by
  intro h
  have : (1 : UInt8) ∈ freshKey i := by simp [← h]
  exact absurd (List.eq_of_mem_replicate this) (by decide)

lemma runs_overtaken {cfg : Config} {n : ℕ} (hn : n = 1000) (hc : cfg.probPoolMaxSize ≠ 0)
    (hsoft : ∀ m, cfg.softTriggered m = false) (hmax : n + 1 < cfg.maxSize)
    (hth : cfg.probThreshold = n) (hb : cfg.reaperBudget = n) :
    ∃ s d, runs (Reactor.act cfg) (Reactor.fresh cfg) (overtaken n) = some ⟨s, inserts n ++
        [⟨.set [1] [1], .done (.stored true), some 0⟩,
          ⟨.set [1] [2], .done (.stored true), some 0⟩]⟩ ∧
      abs s [1] = some ([1], d) := by
  obtain ⟨s, t, a, hfill, hh, hmap, hpool, hruns⟩ :=
    runs_midBatch hc hsoft hn (by omega) hth hb.ge (by unfold vectorMaxSize; omega) [1] [2]
  have hmid := runs_midWrite hsoft hruns
    [.resume n 0 0, .resume n 0 0, .resume n 0 0, .resume n 0 0]
  have hnew : t.map.lookup [1] = none := by
    rw [hmap]
    exact hfill.absent fun i _ => one_ne_freshKey i
  have hh₂ := (holds_update cfg hh [1] [2] none).1
  have hp₂ : (update cfg t [1] [2] none a).pool ≠ [] := by
    rw [update_new hnew]
    have h := hfill.pool
    rw [hpool, List.length_cons] at h
    exact List.ne_nil_of_length_pos (by show 0 < t.pool.length; omega)
  set s₂ := update cfg t [1] [2] none a
  -- the first write removes its victims and takes an entry
  have h3 : resume cfg 0 0 s₂ (.set [1] [1]) (.reaping 1000 ((List.range n).map freshKey) none) =
    _ := resume_reaping 0 0 (by simpa using hn) (hb.trans hn)
  have hh₃ := (moves_waiting cfg (show Holds s₂ (Pc.held (.reaping _ _ none) ++ []) from hh₂) rfl
    (by simp) h3).1.1
  have hp₃ := evictKeys_pool cfg { s₂ with probEvictionCount := s₂.probEvictionCount + 1000 }
    ((List.range n).map freshKey)
  set s₃ := Store.evictKeys cfg { s₂ with probEvictionCount := s₂.probEvictionCount + 1000 }
    ((List.range n).map freshKey)
  clear_value s₃
  obtain ⟨t', b, h, hh', -⟩ := takeFront_some hh₃ (hp₃.ne_nil hp₂)
  have h4 : resume cfg 0 0 s₃ (.set [1] [1]) (.reaped none) = _ := h
  have habs := (holds_update cfg hh' [1] [1] none).2.1
  refine ⟨update cfg t' [1] [1] none b, _, ?_, by rw [habs, write_same]⟩
  rw [overtaken, hmid]
  refine Eq.trans (Reactor.runs_resume (inserts_length n) h3 _) ?_
  refine Eq.trans (Reactor.runs_resume (inserts_length n) (resume_calling 0 0 s₃ _ _ _) _) ?_
  refine Eq.trans (Reactor.runs_resume (inserts_length n) h4 _) ?_
  exact Reactor.runs_resume (inserts_length n) (resume_set hsoft 0 0 t' _ _ b) []

/-- Both writes are done and the key has the value of the first one. -/
theorem not_inOrder_overtaken :
    ∃ σ, runs (Reactor.act thousand) (Reactor.fresh thousand) (overtaken 1000) = some σ ∧
      (∀ t ∈ σ.tasks, ∃ r, t.pc = .done r) ∧ ¬ σ.InOrder [1] := by
  have hc : thousand.probPoolMaxSize ≠ 0 := by decide
  obtain ⟨s, d, hruns, habs⟩ := runs_overtaken rfl hc (fun _ => rfl) (by decide) rfl rfl
  refine ⟨_, hruns, fun t ht => ?_, fun ⟨_, m, htrace, hm⟩ => ?_⟩
  · rcases List.mem_append.mp ht with ht | ht
    · obtain ⟨i, -, rfl⟩ := List.mem_map.mp ht
      exact ⟨_, rfl⟩
    · simp only [List.mem_cons, List.not_mem_nil, or_false] at ht
      rcases ht with rfl | rfl <;> exact ⟨_, rfl⟩
  · have hnone : (inserts 1000).filterMap (Task.executed [1]) = [] := by
      refine List.filterMap_eq_nil_iff.mpr fun t ht => ?_
      obtain ⟨i, -, rfl⟩ := List.mem_map.mp ht
      exact executed_other fun e => one_ne_freshKey i e.symm
    have hhist : Reactor.history ⟨s, inserts 1000 ++
        [⟨.set [1] [1], .done (.stored true), some 0⟩,
          ⟨.set [1] [2], .done (.stored true), some 0⟩]⟩ [1] =
        [(.set [1] [1], 0, none)] ++ [(.set [1] [2], 0, none)] := by
      rw [Reactor.history, List.filterMap_append, hnone]
      rfl
    have hlast : ([1] : Bytes) = [2] := htrace.last_set hhist ([1], d) (hm.trans habs)
    exact absurd hlast (by decide)

end ShunyaKV.Shard
