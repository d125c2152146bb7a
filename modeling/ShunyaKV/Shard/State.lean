import Mathlib.Algebra.Group.Nat.Defs
import Mathlib.Data.List.AList
import Mathlib.Tactic.Common

/-!
The state of one shard's store: the map, the pool of free entries, and the two intrusive
lists that thread the entries in use.

Entries live at addresses. The map and the pool own addresses, the lists link them, and an
iterator is the address it stands at, `none` for `end()`. A hook is linked when the entry's
address is in the list the hook belongs to.
-/

namespace ShunyaKV.Shard

abbrev Bytes := List UInt8

abbrev Addr := ℕ

inductive PoolType
  | probation | sanctuary
  deriving DecidableEq, Repr

/-- `ttl::Entry`, its hooks apart. -/
structure Entry where
  value : Bytes := []
  key : Bytes := []
  expiresAt : ℕ := 0
  ver : ℕ := 0
  heat : ℕ := 0
  lastAccess : ℕ := 0
  visited : Bool := false
  poolType : PoolType := .probation
  inUse : Bool := false
  deriving DecidableEq, Repr

/-- The value is moved over; the deadline and the version only for a write with a TTL. -/
def Entry.updateFrom (e updated : Entry) (updateTtl : Bool) : Entry :=
  if updateTtl then
    { e with value := updated.value, expiresAt := updated.expiresAt, ver := (e.ver + 1) % 2 ^ 32 }
  else { e with value := updated.value }

/-- A `reserve` beyond `max_size()`, of the list of victims or of a value, throws one. -/
inductive LengthError
  | vector | string
  deriving DecidableEq, Repr

/-- `max_size()` of a `std::vector<sstring>`: `2 ^ 63 - 1` bytes, 16 for each. -/
def vectorMaxSize : ℕ := 2 ^ 59 - 1

/-- What `start` has computed from the configuration file. -/
structure Config where
  maxSize : ℕ
  probPoolMaxSize : ℕ
  probThreshold : ℕ
  reaperBudget : ℕ
  /-- `soft_.budget` -/
  softBudget : ℕ
  /-- The outcome of `used / max_size_ >= soft_.trigger`, a comparison of doubles, for each
  number of used slots. -/
  softTriggered : ℕ → Bool
  /-- The outcome of `value_offset_ <= max_size()`, of a `std::string`. -/
  valueFits : Bool := true
  /-- `prepopulate_pool` has reserved the values of its entries. -/
  fits : maxSize ≠ 0 → valueFits = true := by exact fun _ => rfl

@[ext]
structure Store where
  map : AList (fun _ : Bytes => Addr)
  heap : Addr → Entry
  /-- Addresses from here on have never been allocated. -/
  next : Addr
  pool : List Addr
  sieveList : List Addr
  hand : Option Addr
  probationList : List Addr
  probationHand : Option Addr
  probCount : ℕ
  sancCount : ℕ
  probEvictionCount : ℕ
  evictionCount : ℕ
  poolFallbackAllocs : ℕ

/-- The store after `start`: a full pool of new entries and nothing else. -/
def start (cfg : Config) : Store where
  map := ∅
  heap := fun _ => {}
  next := cfg.maxSize
  pool := List.range cfg.maxSize
  sieveList := []
  hand := none
  probationList := []
  probationHand := none
  probCount := 0
  sancCount := 0
  probEvictionCount := 0
  evictionCount := 0
  poolFallbackAllocs := 0

namespace Store

def modify (s : Store) (a : Addr) (f : Entry → Entry) : Store :=
  { s with heap := Function.update s.heap a (f (s.heap a)) }

/-- `make_unique<ttl::Entry>()`, at the address `s.next`. -/
def alloc (s : Store) : Store :=
  { s with heap := Function.update s.heap s.next {}, next := s.next + 1 }

def availableSlots (s : Store) : ℕ := s.pool.length

def usedSlots (cfg : Config) (s : Store) : ℕ := (cfg.maxSize + 2 ^ 64 - s.pool.length) % 2 ^ 64

def recordPoolFallbackAlloc (s : Store) : Store :=
  { s with poolFallbackAllocs := s.poolFallbackAllocs + 1 }

def recordEviction (s : Store) : Store := { s with evictionCount := s.evictionCount + 1 }

variable (s : Store) (a : Addr) (f : Entry → Entry)

@[simp] lemma modify_map : (s.modify a f).map = s.map := rfl
@[simp] lemma modify_next : (s.modify a f).next = s.next := rfl
@[simp] lemma modify_pool : (s.modify a f).pool = s.pool := rfl
@[simp] lemma modify_sieveList : (s.modify a f).sieveList = s.sieveList := rfl
@[simp] lemma modify_hand : (s.modify a f).hand = s.hand := rfl
@[simp] lemma modify_probationList : (s.modify a f).probationList = s.probationList := rfl
@[simp] lemma modify_probationHand : (s.modify a f).probationHand = s.probationHand := rfl
@[simp] lemma modify_probCount : (s.modify a f).probCount = s.probCount := rfl
@[simp] lemma modify_sancCount : (s.modify a f).sancCount = s.sancCount := rfl
@[simp] lemma modify_evictionCount : (s.modify a f).evictionCount = s.evictionCount := rfl

lemma modify_heap (b : Addr) :
    (s.modify a f).heap b = if b = a then f (s.heap a) else s.heap b := by
  by_cases h : b = a
  · subst h; simp [modify]
  · simp [modify, h]

@[simp] lemma modify_heap_same : (s.modify a f).heap a = f (s.heap a) := by simp [modify]

lemma modify_heap_other {b : Addr} (h : b ≠ a) : (s.modify a f).heap b = s.heap b := by
  simp [modify, h]

end Store

end ShunyaKV.Shard
