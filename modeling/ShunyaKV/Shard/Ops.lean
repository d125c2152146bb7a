import ShunyaKV.Shard.Pool

/-!
The operations of the store, run one after the other.

Each call carries two readings of the clock, one where it reads or writes the entry and
one at its eviction pass. A call that suspends is resumed before the next one starts.
-/

namespace ShunyaKV.Shard

namespace Store

/-- `try_emplace`, and the overwrite when the key is there: the value moves into the old
entry, which is promoted, and the new entry goes back to the pool. -/
def emplace (cfg : Config) (s : Store) (k : Bytes) (a : Addr) (updateTtl : Bool) : Store :=
  match s.map.lookup k with
  | none => { s with map := s.map.insert k a }
  | some old =>
    let s := s.modify old fun e => e.updateFrom (s.heap a) updateTtl
    release cfg (s.promoteToSanctuary old) a

def checkMemoryAndEvict (cfg : Config) (s : Store) (now : ℕ) : Store × Except LengthError Unit :=
  if cfg.maxSize = 0 then (s, .ok ())
  else if cfg.softTriggered (s.usedSlots cfg) then
    match s.evict cfg.softBudget now with
    | .ok r => (evictKeys cfg r.1 r.2, .ok ())
    | .error e => (s, .error e)
  else (s, .ok ())

lemma checkMemoryAndEvict_fst (cfg : Config) (s : Store) (now : ℕ) :
    (s.checkMemoryAndEvict cfg now).1 = s ∨ (s.checkMemoryAndEvict cfg now).1 =
      (s.sweep cfg.softBudget now).1.evictKeys cfg (s.sweep cfg.softBudget now).2 := by
  unfold checkMemoryAndEvict evict
  split_ifs
  · exact .inl rfl
  · exact .inl rfl
  · exact .inr rfl
  · exact .inl rfl

def noteFallback (s : Store) : Store :=
  if s.availableSlots = 0 then s.recordPoolFallbackAlloc else s

lemma acquireThrows_noteFallback {cfg : Config} {s : Store} :
    s.noteFallback.AcquireThrows cfg ↔ s.AcquireThrows cfg := by
  unfold noteFallback
  split <;> rfl

/-- What `set` and `set_with_ttl` do up to their eviction pass, and whether they have an
entry to write to. Only the second one has a deadline to write. -/
def write (cfg : Config) (s : Store) (k v : Bytes) (deadline : Option ℕ) :
    Store × Except LengthError Bool :=
  await (acquire cfg s.noteFallback) fun s entry =>
    match entry with
    | none => (s, .ok false)
    | some a =>
      let s := s.modify a fun e =>
        { e with key := k, value := v, expiresAt := deadline.getD e.expiresAt }
      (s.emplace cfg k a deadline.isSome, .ok true)

/-- A write and its eviction pass at time `later`. -/
def put (cfg : Config) (s : Store) (k v : Bytes) (deadline : Option ℕ) (later : ℕ) :
    Store × Except LengthError Bool :=
  await (write cfg s k v deadline) fun s ok =>
    if ok then await (s.checkMemoryAndEvict cfg later) fun s _ => (s, .ok true) else (s, .ok false)

lemma put_eq {cfg : Config} {s t : Store} {k v : Bytes} {d : Option ℕ}
    (h : s.write cfg k v d = (t, .ok true)) (later : ℕ) :
    s.put cfg k v d later = await (t.checkMemoryAndEvict cfg later) fun s _ => (s, .ok true) := by
  rw [put, h]
  rfl

lemma put_fst {cfg : Config} {s t : Store} {k v : Bytes} {d : Option ℕ}
    (h : s.write cfg k v d = (t, .ok true)) (later : ℕ) :
    (s.put cfg k v d later).1 = (t.checkMemoryAndEvict cfg later).1 := by
  rw [put_eq h, await]
  split <;> rfl

lemma put_ok {cfg : Config} {s t : Store} {k v : Bytes} {d : Option ℕ}
    (h : s.write cfg k v d = (t, .ok true)) (later : ℕ) (hsoft : cfg.softBudget < 2 ^ 59) :
    (s.put cfg k v d later).2 = .ok true := by
  have hpass : (t.checkMemoryAndEvict cfg later).2 = .ok () := by
    unfold checkMemoryAndEvict
    rw [evict_ok (by unfold vectorMaxSize; omega)]
    split_ifs <;> rfl
  rw [put_eq h, await, hpass]

lemma put_throws {cfg : Config} {s t : Store} {k v : Bytes} {d : Option ℕ} {e : LengthError}
    (h : s.write cfg k v d = (t, .error e)) (later : ℕ) :
    s.put cfg k v d later = (t, .error e) := by
  rw [put, h]
  rfl

def set (cfg : Config) (s : Store) (k v : Bytes) (later : ℕ) : Store × Except LengthError Bool :=
  s.put cfg k v none later

/-- `now_s() + ttl`, in 64 bits. -/
def due (now ttl : ℕ) : ℕ := (now + ttl) % 2 ^ 64

def setWithTtl (cfg : Config) (s : Store) (k v : Bytes) (ttl now later : ℕ) :
    Store × Except LengthError Bool :=
  s.put cfg k v (some (due now ttl)) later

def get (cfg : Config) (s : Store) (k : Bytes) (now : ℕ) : Store × Option Bytes :=
  match s.map.lookup k with
  | none => (s, none)
  | some a =>
    if isExpired now (s.heap a).expiresAt then
      let s := s.onErase a
      (release cfg { s with map := s.map.erase k } a, none)
    else
      let s := (s.promoteToSanctuary a).onHit a
      (s, some (s.heap a).value)

end Store

inductive Call
  | set (k v : Bytes)
  | setWithTtl (k v : Bytes) (ttl : ℕ)
  | get (k : Bytes)

/-- A call, the clock at its read or write and the clock at its eviction pass. -/
structure Event where
  call : Call
  now : ℕ
  later : ℕ

/-- What a call returns or throws. -/
inductive Reply
  | stored (ok : Bool)
  | found (v : Option Bytes)
  | threw (e : LengthError)
  deriving DecidableEq

def Reply.ofWrite : Except LengthError Bool → Reply
  | .ok ok => .stored ok
  | .error e => .threw e

lemma Reply.ofWrite_eq_stored {r : Except LengthError Bool} {ok : Bool} :
    Reply.ofWrite r = .stored ok ↔ r = .ok ok := by
  cases r <;> simp [Reply.ofWrite]

def step (cfg : Config) (s : Store) (e : Event) : Store × Reply :=
  match e.call with
  | .set k v => let r := s.set cfg k v e.later; (r.1, .ofWrite r.2)
  | .setWithTtl k v ttl => let r := s.setWithTtl cfg k v ttl e.now e.later; (r.1, .ofWrite r.2)
  | .get k => let r := s.get cfg k e.now; (r.1, .found r.2)

/-- The call writes `v` to `k`, with a deadline if it gives one. -/
def Event.Writes (e : Event) (k v : Bytes) (deadline : Option ℕ) : Prop :=
  match e.call with
  | .set k' v' => k' = k ∧ v' = v ∧ deadline = none
  | .setWithTtl k' v' ttl => k' = k ∧ v' = v ∧ deadline = some (Store.due e.now ttl)
  | .get _ => False

lemma Event.cases (e : Event) : (∃ k v d, e.Writes k v d) ∨ ∃ k, e.call = .get k := by
  obtain ⟨_ | _ | _, _, _⟩ := e
  · exact .inl ⟨_, _, _, rfl, rfl, rfl⟩
  · exact .inl ⟨_, _, _, rfl, rfl, rfl⟩
  · exact .inr ⟨_, rfl⟩

lemma step_write (cfg : Config) (s : Store) {e : Event} {k v : Bytes} {d : Option ℕ}
    (h : e.Writes k v d) :
    step cfg s e = ((s.put cfg k v d e.later).1, .ofWrite (s.put cfg k v d e.later).2) := by
  obtain ⟨_ | _ | _, _, _⟩ := e
  · obtain ⟨rfl, rfl, rfl⟩ := h; rfl
  · obtain ⟨rfl, rfl, rfl⟩ := h; rfl
  · exact h.elim

lemma step_get (cfg : Config) (s : Store) {e : Event} {k : Bytes} (h : e.call = .get k) :
    step cfg s e = ((s.get cfg k e.now).1, .found (s.get cfg k e.now).2) := by
  unfold step; rw [h]

def run (cfg : Config) (s : Store) (es : List Event) : Store :=
  es.foldl (fun s e => (step cfg s e).1) s

def replies (cfg : Config) : Store → List Event → List Reply
  | _, [] => []
  | s, e :: es => (step cfg s e).2 :: replies cfg (step cfg s e).1 es

def states (cfg : Config) : Store → List Event → List Store
  | _, [] => []
  | s, e :: es => (step cfg s e).1 :: states cfg (step cfg s e).1 es

@[simp] lemma run_nil (cfg : Config) (s : Store) : run cfg s [] = s := rfl
@[simp] lemma run_cons (cfg : Config) (s : Store) (e : Event) (es : List Event) :
    run cfg s (e :: es) = run cfg (step cfg s e).1 es := rfl
lemma run_append (cfg : Config) (s : Store) (es fs : List Event) :
    run cfg s (es ++ fs) = run cfg (run cfg s es) fs := by
  simp [run, List.foldl_append]

end ShunyaKV.Shard
