import ShunyaKV.Cmd.Handlers
import ShunyaKV.Lib.Lines

/-!
The configuration file: what each line assigns, and what the whole file leaves in a `db_config`.

A file means the last valid assignment to each key. The loader does so for all keys but
`soft_throttle`: there it sets `false` whatever the line says. Floating-point numbers are a type
`δ`, and `std::stod` is any function that gives one and the number of characters it has read.
-/

namespace ShunyaKV.ConfigFile

open ShunyaKV.Lib ShunyaKV.Lib.Decimal ShunyaKV.Shard ShunyaKV.Cmd

/-! ### `db_config` -/

inductive EvictionPolicy
  | sieve
  deriving DecidableEq, Repr

structure EvictConfig (δ : Type) where
  trigger : δ
  stop : δ
  budget : ℕ
  probBudget : ℕ
  throttle : Bool

structure EvictionConfig (δ : Type) where
  policy : EvictionPolicy
  soft : EvictConfig δ
  probEvict : EvictConfig δ

inductive Mode
  | fixed
  | byMemory
  deriving DecidableEq, Repr

structure PoolConfig (δ : Type) where
  mode : Mode
  memoryReservePercentage : δ
  poolMaxMemoryPercent : δ
  pageSizeGoal : ℕ
  keyReserve : ℕ
  probPoolSizePercent : δ

structure DbConfig (δ : Type) where
  evConfig : EvictionConfig δ
  pool : PoolConfig δ
  dbPort : ℕ
  hash : Bytes
  sendShardDetailsOnConnect : Bool

def builtIn {δ : Type} [OfScientific δ] : DbConfig δ where
  evConfig :=
    { policy := .sieve
      soft := ⟨0.0, 0.0, 0, 0, false⟩
      probEvict := ⟨0.0, 0.0, 0, 0, false⟩ }
  pool := ⟨.byMemory, 0.15, 0.0, 0, 0, 0.0⟩
  dbPort := 60110
  hash := ascii "fnv1a64"
  sendShardDetailsOnConnect := false

/-! ### Values -/

def isBlank (b : UInt8) : Bool := b = 32 ∨ b = 9 ∨ b = 13

def trim (s : Bytes) : Bytes := Lines.strip isBlank s

def parseBool (v : Bytes) : Option Bool :=
  if v = ascii "1" ∨ v = ascii "true" ∨ v = ascii "TRUE" ∨ v = ascii "on" ∨ v = ascii "ON" ∨
      v = ascii "yes" ∨ v = ascii "YES" then some true
  else if v = ascii "0" ∨ v = ascii "false" ∨ v = ascii "FALSE" ∨ v = ascii "off" ∨
      v = ascii "OFF" ∨ v = ascii "no" ∨ v = ascii "NO" then some false
  else none

def maybeUnquote (v : Bytes) : Bytes :=
  if 2 ≤ v.length ∧ v.head? = some 34 ∧ v.getLast? = some 34 then (v.drop 1).take (v.length - 2)
  else v

def parseU64 (v : Bytes) : Option ℕ :=
  match fromChars (2 ^ 64 - 1) v with
  | some (parsed, []) => some parsed
  | _ => none

def parsePort (v : Bytes) : Option ℕ :=
  match fromChars (2 ^ 32 - 1) v with
  | some (parsed, []) => if parsed ≤ 65535 then some (parsed % 2 ^ 16) else none
  | _ => none

def parsePolicy (v : Bytes) : Option EvictionPolicy :=
  if v = ascii "sieve" ∨ v = ascii "SIEVE" ∨ v = ascii "Sieve" then some .sieve else none

section Load

variable {δ : Type} (stod : Bytes → Option (δ × ℕ))

/-- `stod` throws, reads the text to its end or stops before it. -/
def parseDouble (v : Bytes) : Option δ :=
  match stod v with
  | some (parsed, idx) => if idx = v.length then some parsed else none
  | none => none

/-! ### Lines -/

/-- The keys, one for each branch of the loader. -/
inductive Key
  | dbPort | hash | policy | softTrigger | softStop | softBudget | softThrottle
  | sendShardDetailsOnConnect | memoryReservePercentage | poolMaxMemoryPercent | pageSizeGoal
  | keyReserve | probationaryPoolSize | hardTrigger | hardBudget
  deriving DecidableEq, Repr

def branch (key : Bytes) : Option Key :=
  if key = ascii "db_port" ∨ key = ascii "base_port" ∨ key = ascii "port" then some .dbPort
  else if key = ascii "hash" then some .hash
  else if key = ascii "policy" then some .policy
  else if key = ascii "soft_trigger" then some .softTrigger
  else if key = ascii "soft_stop" then some .softStop
  else if key = ascii "soft_budget" then some .softBudget
  else if key = ascii "soft_throttle" then some .softThrottle
  else if key = ascii "send_shard_details_on_connect" then some .sendShardDetailsOnConnect
  else if key = ascii "memory_reserve_percentage" then some .memoryReservePercentage
  else if key = ascii "pool_max_memory_percent" then some .poolMaxMemoryPercent
  else if key = ascii "page_size_goal" then some .pageSizeGoal
  else if key = ascii "key_reserve" then some .keyReserve
  else if key = ascii "probationary_pool_size" then some .probationaryPoolSize
  else if key = ascii "hard_trigger" then some .hardTrigger
  else if key = ascii "hard_budget" then some .hardBudget
  else none

def assign (cfg : DbConfig δ) (value : Bytes) : Key → DbConfig δ
  | .dbPort => (parsePort value).elim cfg fun parsed => { cfg with dbPort := parsed }
  | .hash => { cfg with hash := value }
  | .policy => (parsePolicy value).elim cfg fun parsed => { cfg with evConfig.policy := parsed }
  | .softTrigger =>
    (parseDouble stod value).elim cfg fun parsed => { cfg with evConfig.soft.trigger := parsed }
  | .softStop =>
    (parseDouble stod value).elim cfg fun parsed => { cfg with evConfig.soft.stop := parsed }
  | .softBudget =>
    (parseU64 value).elim cfg fun parsed => { cfg with evConfig.soft.budget := parsed }
  | .softThrottle =>
    -- the value parsed is not used
    (parseBool value).elim cfg fun _ => { cfg with evConfig.soft.throttle := false }
  | .sendShardDetailsOnConnect =>
    (parseBool value).elim cfg fun parsed => { cfg with sendShardDetailsOnConnect := parsed }
  | .memoryReservePercentage =>
    (parseDouble stod value).elim cfg
      fun parsed => { cfg with pool.memoryReservePercentage := parsed }
  | .poolMaxMemoryPercent =>
    (parseDouble stod value).elim cfg fun parsed => { cfg with pool.poolMaxMemoryPercent := parsed }
  | .pageSizeGoal =>
    (parseU64 value).elim cfg fun parsed => { cfg with pool.pageSizeGoal := parsed }
  | .keyReserve => (parseU64 value).elim cfg fun parsed => { cfg with pool.keyReserve := parsed }
  | .probationaryPoolSize =>
    (parseDouble stod value).elim cfg fun parsed => { cfg with pool.probPoolSizePercent := parsed }
  | .hardTrigger =>
    (parseDouble stod value).elim cfg
      fun parsed => { cfg with evConfig.probEvict.trigger := parsed }
  | .hardBudget =>
    (parseU64 value).elim cfg fun parsed => { cfg with evConfig.probEvict.probBudget := parsed }

/-- The key and the value of a line, split at the first `=`. A `#` in front makes a comment of the
line, and one in the value makes a comment of the rest. -/
def assignment (line : Bytes) : Option (Bytes × Bytes) :=
  let sv := trim line
  if sv = [] ∨ sv.head? = some 35 then none
  else
    match sv.idxOf? 61 with
    | none => none
    | some eq =>
      let key := trim (sv.take eq)
      let value := trim (sv.drop (eq + 1))
      let value := match value.idxOf? 35 with
        | some comment => trim (value.take comment)
        | none => value
      if value = [] then none else some (key, maybeUnquote value)

def loadLine (cfg : DbConfig δ) (line : Bytes) : DbConfig δ :=
  match assignment line with
  | none => cfg
  | some (key, value) => (branch key).elim cfg (assign stod cfg value)

/-! ### Files -/

/-- The lines that `std::getline` gives one after the other. -/
def getlines : Bytes → List Bytes
  | [] => []
  | b :: s =>
    if b = 10 then [] :: getlines s
    else
      match getlines s with
      | [] => [[b]]
      | line :: lines => (b :: line) :: lines

/-- The file that is opened: the one with this path or, for the default path, one in a directory
above. -/
def opened (files : Bytes → Option Bytes) (path : Bytes) : Option Bytes :=
  match files path with
  | some content => some content
  | none =>
    if path.head? ≠ some 47 ∧ path = ascii "config.conf" then
      match files (ascii "../config.conf") with
      | some content => some content
      | none => files (ascii "../../config.conf")
    else none

def loadConfigFile (files : Bytes → Option Bytes) (cfg : DbConfig δ) (path : Bytes) : DbConfig δ :=
  match opened files path with
  | none => cfg
  | some content => (getlines content).foldl (loadLine stod) cfg

/-! ### What a file means -/

variable (δ) in
abbrev Key.Value : Key → Type
  | .dbPort | .softBudget | .pageSizeGoal | .keyReserve | .hardBudget => ℕ
  | .hash => Bytes
  | .policy => EvictionPolicy
  | .softThrottle | .sendShardDetailsOnConnect => Bool
  | .softTrigger | .softStop | .memoryReservePercentage | .poolMaxMemoryPercent
  | .probationaryPoolSize | .hardTrigger => δ

def Key.get : (k : Key) → DbConfig δ → k.Value δ
  | .dbPort, cfg => cfg.dbPort
  | .hash, cfg => cfg.hash
  | .policy, cfg => cfg.evConfig.policy
  | .softTrigger, cfg => cfg.evConfig.soft.trigger
  | .softStop, cfg => cfg.evConfig.soft.stop
  | .softBudget, cfg => cfg.evConfig.soft.budget
  | .softThrottle, cfg => cfg.evConfig.soft.throttle
  | .sendShardDetailsOnConnect, cfg => cfg.sendShardDetailsOnConnect
  | .memoryReservePercentage, cfg => cfg.pool.memoryReservePercentage
  | .poolMaxMemoryPercent, cfg => cfg.pool.poolMaxMemoryPercent
  | .pageSizeGoal, cfg => cfg.pool.pageSizeGoal
  | .keyReserve, cfg => cfg.pool.keyReserve
  | .probationaryPoolSize, cfg => cfg.pool.probPoolSizePercent
  | .hardTrigger, cfg => cfg.evConfig.probEvict.trigger
  | .hardBudget, cfg => cfg.evConfig.probEvict.probBudget

/-- The fields that no key governs. -/
def DbConfig.ungoverned (cfg : DbConfig δ) : ℕ × δ × ℕ × Bool × Mode :=
  (cfg.evConfig.soft.probBudget, cfg.evConfig.probEvict.stop, cfg.evConfig.probEvict.budget,
    cfg.evConfig.probEvict.throttle, cfg.pool.mode)

def Key.names : Key → List Bytes
  | .dbPort => [ascii "db_port", ascii "base_port", ascii "port"]
  | .hash => [ascii "hash"]
  | .policy => [ascii "policy"]
  | .softTrigger => [ascii "soft_trigger"]
  | .softStop => [ascii "soft_stop"]
  | .softBudget => [ascii "soft_budget"]
  | .softThrottle => [ascii "soft_throttle"]
  | .sendShardDetailsOnConnect => [ascii "send_shard_details_on_connect"]
  | .memoryReservePercentage => [ascii "memory_reserve_percentage"]
  | .poolMaxMemoryPercent => [ascii "pool_max_memory_percent"]
  | .pageSizeGoal => [ascii "page_size_goal"]
  | .keyReserve => [ascii "key_reserve"]
  | .probationaryPoolSize => [ascii "probationary_pool_size"]
  | .hardTrigger => [ascii "hard_trigger"]
  | .hardBudget => [ascii "hard_budget"]

/-- The text is a decimal numeral of `n`, no more than `max`. -/
def Numeral (max : ℕ) (v : Bytes) (n : ℕ) : Prop :=
  v ≠ [] ∧ (∀ b ∈ v, IsDigit b) ∧ value 0 v = n ∧ n ≤ max

def words : Bool → List Bytes
  | true => [ascii "1", ascii "true", ascii "TRUE", ascii "on", ascii "ON", ascii "yes",
      ascii "YES"]
  | false => [ascii "0", ascii "false", ascii "FALSE", ascii "off", ascii "OFF", ascii "no",
      ascii "NO"]

def Key.Denotes : (k : Key) → Bytes → k.Value δ → Prop
  | .dbPort, v, n => Numeral 65535 v n
  | .softBudget, v, n | .pageSizeGoal, v, n | .keyReserve, v, n | .hardBudget, v, n =>
    Numeral (2 ^ 64 - 1) v n
  | .hash, v, x => v = x
  | .policy, v, _ => v ∈ [ascii "sieve", ascii "SIEVE", ascii "Sieve"]
  | .softThrottle, v, b | .sendShardDetailsOnConnect, v, b => v ∈ words b
  | .softTrigger, v, x | .softStop, v, x | .memoryReservePercentage, v, x
  | .poolMaxMemoryPercent, v, x | .probationaryPoolSize, v, x | .hardTrigger, v, x =>
    stod v = some (x, v.length)

/-- The line is no comment and reads `key = raw`, with blanks around both and maybe a comment at
its end. -/
structure Assigns (line key raw : Bytes) : Prop where
  text : ∃ left right comment, line = left ++ 61 :: (right ++ comment) ∧ 61 ∉ left ∧ 35 ∉ right ∧
    (comment = [] ∨ comment.head? = some 35) ∧ Lines.Stripped isBlank left key ∧
    Lines.Stripped isBlank right raw
  key : key.head? ≠ some 35
  raw : raw ≠ []

/-- The line is a valid assignment of `x`. -/
def Key.Says (k : Key) (line : Bytes) (x : k.Value δ) : Prop :=
  ∃ key raw, Assigns line key raw ∧ key ∈ k.names ∧ k.Denotes stod (maybeUnquote raw) x

/-- **The lines mean their last valid assignments**: a field has the value from the last line that
assigns one to its key, and keeps its own if there is no such line. -/
structure Means (lines : List Bytes) (cfg cfg' : DbConfig δ) : Prop where
  governed : ∀ k : Key, Lines.LastOr (k.Says stod) lines (k.get cfg) (k.get cfg')
  ungoverned : cfg'.ungoverned = cfg.ungoverned

/-! ### Lines and what they assign -/

/-- The value is cut off at the first `#` before or after it is trimmed. -/
lemma trim_comment (rest : Bytes) :
    (match (trim rest).idxOf? 35 with
      | some comment => trim ((trim rest).take comment)
      | none => trim rest) = trim (rest.takeWhile (· ≠ 35)) := by
  by_cases h : 35 ∈ rest
  · obtain ⟨x, y, rfl, hx⟩ := List.eq_append_cons_of_mem h
    have hx' : 35 ∉ x.dropWhile isBlank := fun hmem => hx ((List.dropWhile_sublist _).subset hmem)
    have htrim : trim (x ++ 35 :: y) = x.dropWhile isBlank ++ 35 :: y.rdropWhile isBlank :=
      Lines.strip_append_cons x y (by decide)
    rw [htrim, Lines.idxOf?_append_cons hx']
    dsimp only
    rw [List.take_left, Words.takeWhile_ne_append hx]
    exact Lines.strip_dropWhile x
  · have htrim : 35 ∉ trim rest := fun hmem => h ((Lines.strip_sublist rest).subset hmem)
    rw [List.idxOf?_eq_none_iff.mpr htrim, Words.takeWhile_ne_self h]

lemma assignment_append {left : Bytes} (h : 61 ∉ left) (rest : Bytes) :
    assignment (left ++ 61 :: rest) =
      if (trim left).head? = some 35 ∨ trim (rest.takeWhile (· ≠ 35)) = [] then none
      else some (trim left, maybeUnquote (trim (rest.takeWhile (· ≠ 35)))) := by
  have hleft : 61 ∉ left.dropWhile isBlank := fun hmem => h ((List.dropWhile_sublist _).subset hmem)
  have htrim : trim (left ++ 61 :: rest) =
      left.dropWhile isBlank ++ 61 :: rest.rdropWhile isBlank :=
    Lines.strip_append_cons left rest (by decide)
  have hkey : trim (left.dropWhile isBlank) = trim left := Lines.strip_dropWhile left
  have hvalue : trim (rest.rdropWhile isBlank) = trim rest := Lines.strip_rdropWhile rest
  have hhead : (left.dropWhile isBlank ++ 61 :: rest.rdropWhile isBlank).head? = some 35 ↔
      (trim left).head? = some 35 := by
    rw [trim, Lines.head?_strip]
    cases left.dropWhile isBlank <;> simp
  unfold assignment
  simp only [htrim, hhead, Lines.idxOf?_append_cons hleft, List.take_left, hkey,
    List.drop_append, List.drop_eq_nil_of_le (Nat.le_succ _), Nat.add_sub_cancel_left,
    List.drop_one, List.tail_cons, List.nil_append, hvalue, trim_comment, List.append_eq_nil_iff,
    reduceCtorEq, and_false, false_or]
  by_cases hcomment : (trim left).head? = some 35
  · simp [hcomment]
  · simp [hcomment]

lemma assignment_of_notMem {line : Bytes} (h : 61 ∉ line) : assignment line = none := by
  have htrim : 61 ∉ trim line := fun hmem => h ((Lines.strip_sublist line).subset hmem)
  unfold assignment
  simp only [List.idxOf?_eq_none_iff.mpr htrim, ite_self]

/-- **The loader splits a line as it reads.** -/
lemma assignment_eq_some_iff {line key v : Bytes} :
    assignment line = some (key, v) ↔ ∃ raw, Assigns line key raw ∧ v = maybeUnquote raw := by
  constructor
  · intro h
    by_cases hmem : 61 ∈ line
    · obtain ⟨left, rest, rfl, hleft⟩ := List.eq_append_cons_of_mem hmem
      rw [assignment_append hleft] at h
      split at h
      · cases h
      · next hcond =>
        obtain ⟨rfl, rfl⟩ := Prod.mk.inj (Option.some.inj h)
        rw [not_or] at hcond
        refine ⟨_, ⟨⟨left, rest.takeWhile (· ≠ 35), rest.dropWhile (· ≠ 35), ?_, hleft, ?_, ?_,
          Lines.stripped_strip left, Lines.stripped_strip _⟩, hcond.1, hcond.2⟩, rfl⟩
        · rw [List.takeWhile_append_dropWhile]
        · intro h35
          simpa using List.mem_takeWhile_imp h35
        · have hhead := List.head?_dropWhile_not (· ≠ 35) rest
          generalize rest.dropWhile (· ≠ 35) = comment at hhead ⊢
          cases comment with
          | nil => exact .inl rfl
          | cons b comment => exact .inr (by simpa using hhead)
    · rw [assignment_of_notMem hmem] at h
      cases h
  · rintro ⟨raw, ⟨⟨left, right, comment, rfl, hleft, hright, hcomment, hkey, hraw⟩, hk, hr⟩, rfl⟩
    have htake : (right ++ comment).takeWhile (· ≠ 35) = right := by
      rcases hcomment with rfl | hcomment
      · rw [List.append_nil, Words.takeWhile_ne_self hright]
      · obtain ⟨tail, rfl⟩ := List.head?_eq_some_iff.mp hcomment
        exact Words.takeWhile_ne_append hright tail
    have hkey' : trim left = key := Lines.stripped_iff.mp hkey
    have hraw' : trim right = raw := Lines.stripped_iff.mp hraw
    rw [assignment_append hleft, htake, hkey', hraw', if_neg (not_or.mpr ⟨hk, hr⟩)]

/-- The branch taken is the one with the name of the key. -/
lemma branch_eq_some_iff {key : Bytes} {k : Key} : branch key = some k ↔ key ∈ k.names := by
  constructor
  · -- one comparison: either it settles the branch, or the others do
    have hpeel {c : Prop} [Decidable c] {k' : Key} {r : Option Key} (hc : c → key ∈ k'.names)
        (hr : r = some k → key ∈ k.names) (h : (if c then some k' else r) = some k) :
        key ∈ k.names := by
      split at h
      · next hcond =>
        obtain rfl := Option.some.inj h
        exact hc hcond
      · exact hr h
    unfold branch
    refine hpeel (fun h => ?_) ?_
    · rcases h with rfl | rfl | rfl <;> simp [Key.names]
    · iterate 14 refine hpeel List.mem_singleton.mpr ?_
      exact nofun
  · have hnames : ∀ name ∈ k.names, branch name = some k := by
      cases k <;> decide
    exact hnames key

/-! ### Values -/

lemma fromChars_iff_numeral {max n : ℕ} {v : Bytes} :
    fromChars max v = some (n, []) ↔ Numeral max v n := by
  rw [fromChars_eq_some_iff, Numeral]
  constructor
  · rintro ⟨hne, hd, hmax, rfl⟩
    exact ⟨hne, hd, rfl, hmax⟩
  · rintro ⟨hne, hd, rfl, hmax⟩
    exact ⟨hne, hd, hmax, rfl⟩

lemma parseU64_eq_some_iff {v : Bytes} {n : ℕ} :
    parseU64 v = some n ↔ Numeral (2 ^ 64 - 1) v n := by
  rw [← fromChars_iff_numeral, parseU64]
  rcases fromChars (2 ^ 64 - 1) v with _ | ⟨m, _ | ⟨b, rest⟩⟩ <;> simp

lemma parsePort_eq_some_iff {v : Bytes} {n : ℕ} : parsePort v = some n ↔ Numeral 65535 v n := by
  have hport : Numeral 65535 v n ↔ fromChars (2 ^ 32 - 1) v = some (n, []) ∧ n ≤ 65535 := by
    rw [fromChars_iff_numeral, Numeral, Numeral]
    constructor
    · rintro ⟨hne, hd, hn, hmax⟩
      exact ⟨⟨hne, hd, hn, by omega⟩, hmax⟩
    · rintro ⟨⟨hne, hd, hn, -⟩, hmax⟩
      exact ⟨hne, hd, hn, hmax⟩
  rw [hport, parsePort]
  rcases fromChars (2 ^ 32 - 1) v with _ | ⟨m, _ | ⟨b, rest⟩⟩
  · simp
  · simp only [Option.some.injEq, Prod.mk.injEq, and_true]
    split <;> simp <;> omega
  · simp

lemma parseBool_eq_some_iff {v : Bytes} {b : Bool} : parseBool v = some b ↔ v ∈ words b := by
  unfold parseBool
  cases b
  · split_ifs with htrue hfalse
    · have hnot : ∀ w ∈ words true, w ∉ words false := by decide
      simpa using hnot v (by simpa [words] using htrue)
    · simpa [words] using hfalse
    · simpa [words] using hfalse
  · split_ifs with htrue hfalse
    · simpa [words] using htrue
    · simpa [words] using htrue
    · simpa [words] using htrue

lemma parsePolicy_eq_some_iff {v : Bytes} {x : EvictionPolicy} :
    parsePolicy v = some x ↔ v ∈ [ascii "sieve", ascii "SIEVE", ascii "Sieve"] := by
  unfold parsePolicy
  split_ifs with h
  · simpa using h
  · simpa using h

lemma parseDouble_eq_some_iff {v : Bytes} {x : δ} :
    parseDouble stod v = some x ↔ stod v = some (x, v.length) := by
  unfold parseDouble
  rcases stod v with _ | ⟨y, idx⟩
  · simp
  · dsimp only
    split_ifs with h <;> simp [h]

def Key.parse : (k : Key) → Bytes → Option (k.Value δ)
  | .dbPort, v => parsePort v
  | .softBudget, v | .pageSizeGoal, v | .keyReserve, v | .hardBudget, v => parseU64 v
  | .hash, v => some v
  | .policy, v => parsePolicy v
  | .softThrottle, v | .sendShardDetailsOnConnect, v => parseBool v
  | .softTrigger, v | .softStop, v | .memoryReservePercentage, v | .poolMaxMemoryPercent, v
  | .probationaryPoolSize, v | .hardTrigger, v => parseDouble stod v

lemma Key.parse_eq_some_iff {k : Key} {v : Bytes} {x : k.Value δ} :
    k.parse stod v = some x ↔ k.Denotes stod v x := by
  cases k with
  | dbPort => exact parsePort_eq_some_iff
  | softBudget | pageSizeGoal | keyReserve | hardBudget => exact parseU64_eq_some_iff
  | hash => exact Option.some_inj
  | policy => exact parsePolicy_eq_some_iff
  | softThrottle | sendShardDetailsOnConnect => exact parseBool_eq_some_iff
  | softTrigger | softStop | memoryReservePercentage | poolMaxMemoryPercent
  | probationaryPoolSize | hardTrigger => exact parseDouble_eq_some_iff stod

def Key.valueOf (k : Key) (line : Bytes) : Option (k.Value δ) :=
  (assignment line).bind fun a => if branch a.1 = some k then k.parse stod a.2 else none

lemma Key.says_iff (k : Key) (line : Bytes) (x : k.Value δ) :
    k.Says stod line x ↔ k.valueOf stod line = some x := by
  simp only [valueOf, Says, Option.bind_eq_some_iff, ← branch_eq_some_iff, ← parse_eq_some_iff]
  constructor
  · rintro ⟨key, raw, hline, hkey, hraw⟩
    refine ⟨(key, maybeUnquote raw), assignment_eq_some_iff.mpr ⟨raw, hline, rfl⟩, ?_⟩
    rw [if_pos hkey, hraw]
  · rintro ⟨⟨key, v⟩, hline, h⟩
    obtain ⟨raw, hraw, rfl⟩ := assignment_eq_some_iff.mp hline
    split at h
    · next hkey => exact ⟨key, raw, hraw, hkey, h⟩
    · cases h

/-! ### Steps and runs -/

lemma get_assign_self (cfg : DbConfig δ) (v : Bytes) {k : Key} (hk : k ≠ .softThrottle) :
    k.get (assign stod cfg v k) = (k.parse stod v).getD (k.get cfg) := by
  have helim (x : Option (k.Value δ)) (f : k.Value δ → DbConfig δ) (hf : ∀ a, k.get (f a) = a) :
      k.get (x.elim cfg f) = x.getD (k.get cfg) := by
    cases x with
    | none => rfl
    | some a => exact hf a
  cases k
  case softThrottle => exact absurd rfl hk
  case hash => rfl
  all_goals exact helim _ _ fun _ => rfl

lemma elim_keeps {α τ : Type} (get : DbConfig δ → τ) {cfg : DbConfig δ} {f : α → DbConfig δ}
    (hf : ∀ a, get (f a) = get cfg) (x : Option α) : get (x.elim cfg f) = get cfg := by
  cases x with
  | none => rfl
  | some a => exact hf a

lemma get_assign_of_ne (cfg : DbConfig δ) (v : Bytes) {k k' : Key} (hk : k' ≠ k) :
    k.get (assign stod cfg v k') = k.get cfg := by
  cases k'
  case hash => cases k <;> first | rfl | exact absurd rfl hk
  all_goals
    refine elim_keeps k.get (fun _ => ?_) _
    cases k <;> first | rfl | exact absurd rfl hk

lemma ungoverned_assign (cfg : DbConfig δ) (v : Bytes) (k : Key) :
    (assign stod cfg v k).ungoverned = cfg.ungoverned := by
  cases k
  case hash => rfl
  all_goals
    refine elim_keeps DbConfig.ungoverned (fun _ => ?_) _
    rfl

/-- The throttle is set to `false` by every valid value. -/
lemma throttle_assign (cfg : DbConfig δ) (v : Bytes) :
    (assign stod cfg v .softThrottle).evConfig.soft.throttle =
      ((parseBool v).map fun _ => false).getD cfg.evConfig.soft.throttle := by
  rw [assign]
  cases parseBool v <;> rfl

section Step

variable (cfg : DbConfig δ) (line : Bytes)

lemma get_loadLine (k : Key) {f : Bytes → Option (k.Value δ)}
    (hf : ∀ v, k.get (assign stod cfg v k) = (f v).getD (k.get cfg)) :
    k.get (loadLine stod cfg line) =
      ((assignment line).bind fun a => if branch a.1 = some k then f a.2 else none).getD
        (k.get cfg) := by
  unfold loadLine
  rcases assignment line with _ | ⟨key, v⟩
  · rfl
  · rw [Option.bind_some]
    dsimp only
    rcases branch key with _ | k'
    · rfl
    · by_cases hk : k' = k
      · subst hk
        rw [if_pos rfl]
        exact hf v
      · rw [if_neg fun h => hk (Option.some.inj h)]
        exact get_assign_of_ne stod cfg v hk

lemma ungoverned_loadLine : (loadLine stod cfg line).ungoverned = cfg.ungoverned := by
  unfold loadLine
  rcases assignment line with _ | ⟨key, v⟩
  · rfl
  · exact elim_keeps DbConfig.ungoverned (ungoverned_assign stod cfg v) (branch key)

end Step

/-- **All fields but the throttle hold the last valid values.** -/
lemma get_foldl (lines : List Bytes) (cfg : DbConfig δ) {k : Key} (hk : k ≠ .softThrottle) :
    k.get (lines.foldl (loadLine stod) cfg) =
      (Lines.last (k.valueOf stod) lines).getD (k.get cfg) :=
  Lines.foldl_getD k.get
    (fun cfg line => get_loadLine stod cfg line k fun v => get_assign_self stod cfg v hk) cfg lines

/-- The throttle is `false` if there is a valid value. -/
lemma throttle_foldl (lines : List Bytes) (cfg : DbConfig δ) :
    Key.softThrottle.get (lines.foldl (loadLine stod) cfg) =
      ((Lines.last (Key.softThrottle.valueOf stod) lines).map fun _ => false).getD
        (Key.softThrottle.get cfg) := by
  rw [← Lines.last_map]
  refine Lines.foldl_getD Key.softThrottle.get (fun cfg line => ?_) cfg lines
  rw [get_loadLine stod cfg line .softThrottle (throttle_assign stod cfg), Key.valueOf]
  rcases assignment line with _ | ⟨key, v⟩
  · rfl
  · by_cases hk : branch key = some .softThrottle
    · simp only [Option.bind_some, if_pos hk]
      rfl
    · simp only [Option.bind_some, if_neg hk]
      rfl

lemma ungoverned_foldl (lines : List Bytes) (cfg : DbConfig δ) :
    (lines.foldl (loadLine stod) cfg).ungoverned = cfg.ungoverned := by
  induction lines generalizing cfg with
  | nil => rfl
  | cons line lines ih => rw [List.foldl_cons, ih, ungoverned_loadLine]

/-- The lines of the file that is loaded, if there is one. -/
def configLines (files : Bytes → Option Bytes) (path : Bytes) : List Bytes :=
  (opened files path).elim [] getlines

lemma loadConfigFile_eq (files : Bytes → Option Bytes) (cfg : DbConfig δ) (path : Bytes) :
    loadConfigFile stod files cfg path = (configLines files path).foldl (loadLine stod) cfg := by
  unfold loadConfigFile configLines
  cases opened files path <;> rfl

/-- **A configuration file means its last valid assignments, unless the last one to
`soft_throttle` is `true`.** This one is lost, and no other: all other fields hold the value from
the last valid line for their key, and what is no valid assignment changes nothing. -/
theorem means_iff_not_throttled (files : Bytes → Option Bytes) (cfg : DbConfig δ) (path : Bytes) :
    Means stod (configLines files path) cfg (loadConfigFile stod files cfg path) ↔
      ¬ Lines.IsLast (Key.softThrottle.Says stod) (configLines files path) true := by
  rw [loadConfigFile_eq, Lines.isLast_iff (Key.says_iff stod .softThrottle)]
  generalize configLines files path = lines
  have hthrottle := throttle_foldl stod lines cfg
  constructor
  · intro hm hlast
    have hthr := (Lines.lastOr_iff (Key.says_iff stod .softThrottle)).mp (hm.governed .softThrottle)
    rw [hlast] at hthr hthrottle
    exact Bool.noConfusion (hthr.symm.trans hthrottle)
  · intro hlast
    refine ⟨fun k => (Lines.lastOr_iff (k.says_iff stod)).mpr ?_, ungoverned_foldl stod lines cfg⟩
    by_cases hk : k = .softThrottle
    · subst hk
      rw [hthrottle]
      -- there is no valid value, or it is `false`
      rcases hvalue : Lines.last (Key.softThrottle.valueOf stod) lines with _ | _ | _
      · rfl
      · rfl
      · exact absurd hvalue hlast
    · exact get_foldl stod lines cfg hk

end Load

/-- A file with the line `soft_throttle=true` leaves the throttle off. -/
theorem not_means_throttle_true :
    ¬ Means (fun _ => none)
      (configLines (fun _ => some (ascii "soft_throttle=true")) (ascii "config.conf"))
      (builtIn : DbConfig ℚ)
      (loadConfigFile (fun _ => none) (fun _ => some (ascii "soft_throttle=true")) builtIn
        (ascii "config.conf")) := by
  intro hm
  have hthrottle := (Lines.lastOr_iff (Key.says_iff _ .softThrottle)).mp (hm.governed .softThrottle)
  revert hthrottle
  decide +kernel

end ShunyaKV.ConfigFile
