import ShunyaKV.Net.Client
import ShunyaKV.Shard.Sizing
import ShunyaKV.Smp.Unpooled

/-!
A server whose configuration file gives the pool no memory.

The built-in share of the memory for the pool is zero, and stays so without a valid line for it in
the file. The pools then have no entries, so that nothing is evicted: what is written is kept until
its deadline.
-/

namespace ShunyaKV.Net

open ShunyaKV.Lib ShunyaKV.Lib.Decimal ShunyaKV.Lib.Ttl ShunyaKV.Shard ShunyaKV.ConfigFile
  ShunyaKV.Resp ShunyaKV.Cmd ShunyaKV.Smp

/-! ### From the file to the pool -/

section Pool

variable {δ : Type} [OfScientific δ]

/-- The pools of the shards are set up from the configuration, and what is set up is what the
shards work with. -/
def SetUp (H : Host) (pl : ℕ → Platform δ) (cfg : DbConfig δ) : Prop :=
  ∀ sid, ∃ p, CacheEntryPool.init (pl sid) cfg (.new 0) = some p ∧
    p.config (pl sid) cfg = some (H.cfg sid)

/-- No line of the file gives the pool a share of the memory. -/
def Unset (stod : Bytes → Option (δ × ℕ)) (lines : List Bytes) : Prop :=
  ∀ line ∈ lines, ∀ x, ¬ Key.poolMaxMemoryPercent.Says stod line x

/-- The share is then the built-in one. -/
lemma percent_of_unset {stod : Bytes → Option (δ × ℕ)} {files : Bytes → Option Bytes} {path : Bytes}
    (h : Unset stod (configLines files path)) :
    (loadConfigFile stod files builtIn path).pool.poolMaxMemoryPercent = 0.0 := by
  have hlast : Lines.last (Key.poolMaxMemoryPercent.valueOf stod) (configLines files path) = none :=
    Lines.last_eq_none_iff.mpr fun line hline => Option.eq_none_iff_forall_ne_some.mpr
      fun x hx => h line hline x ((Key.says_iff stod _ line x).mpr hx)
  have hget := get_foldl stod (configLines files path) (builtIn : DbConfig δ)
    (k := .poolMaxMemoryPercent) (by decide)
  rw [hlast] at hget
  rw [loadConfigFile_eq]
  exact hget

lemma init_of_zero {pl : Platform δ} {cfg : DbConfig δ}
    (hpercent : cfg.pool.poolMaxMemoryPercent = 0.0) (hzero : ∀ n, pl.scale 0.0 n = 0) :
    CacheEntryPool.init pl cfg (.new 0) = some (CacheEntryPool.withProbation pl cfg
      { CacheEntryPool.configured pl cfg (.new 0) with maxSize := 0 }) := by
  have htarget : (CacheEntryPool.configured pl cfg (.new 0)).getMaxAllowedMemoryForPool pl = 0 := by
    rw [CacheEntryPool.getMaxAllowedMemoryForPool, CacheEntryPool.configured, hpercent]
    exact hzero _
  have hsize : (CacheEntryPool.configured pl cfg (.new 0)).calculateOptimalPoolSize pl =
      some 0 := by
    rw [CacheEntryPool.calculateOptimalPoolSize, htarget]
    rfl
  have hfresh : (CacheEntryPool.new 0 : CacheEntryPool δ).initialized = false := rfl
  have hmax : (CacheEntryPool.configured pl cfg (.new 0)).maxSize = 0 := rfl
  rw [CacheEntryPool.init, if_neg (by simp [hfresh])]
  dsimp only
  rw [if_pos hmax, hsize, Option.map_some]

/-- **Without a share of the memory the shards have no pool.** -/
lemma unpooled_of_unset {stod : Bytes → Option (δ × ℕ)} {files : Bytes → Option Bytes}
    {path : Bytes} {H : Host} {pl : ℕ → Platform δ}
    (hunset : Unset stod (configLines files path))
    (hsetup : SetUp H pl (loadConfigFile stod files builtIn path))
    (hzero : ∀ sid n, (pl sid).scale 0.0 n = 0)
    (hprob : ∀ sid, (pl sid).scale
      (loadConfigFile stod files builtIn path).pool.probPoolSizePercent 0 = 0) (sid : ℕ) :
    Unpooled (H.cfg sid) := by
  obtain ⟨p, hp, hcfg⟩ := hsetup sid
  rw [init_of_zero (percent_of_unset hunset) (hzero sid)] at hp
  obtain rfl := Option.some.inj hp
  obtain ⟨hmax, hprobMax⟩ := CacheEntryPool.config_sizes hcfg
  exact ⟨hmax, hprobMax.trans (hprob sid)⟩

end Pool

/-! ### Runs -/

section Runs

variable {H : Host} {P P' : Process}

/-- An event moves the shards by one action or not at all. -/
lemma Does.cluster {e : Event} (h : Does H P e P') :
    P'.cluster = P.cluster ∨ ∃ a, P.cluster.act H.toMachine a = some P'.cluster := by
  cases h with
  | connect | greet | loops | answer => exact .inl rfl
  | handOver _ _ _ hissue => exact .inr ⟨_, hissue⟩
  | run h | finish h | deliver _ _ h => exact .inr ⟨_, h⟩

lemma uncrowded_runs (hH : ∀ sid, Unpooled (H.cfg sid)) {events : List Event}
    (h : Steps.runs (Process.act H) (.fresh H) events = some P) :
    Uncrowded H.toMachine P.cluster := by
  refine Steps.runs_rule (I := fun P : Process => Uncrowded H.toMachine P.cluster)
    (fun P e P' hP he => ?_) (uncrowded_fresh H.toMachine) h
  rcases (does_of_act he).cluster with heq | ⟨a, ha⟩
  · rw [heq]
    exact hP
  · exact Uncrowded.act hH hP ha

variable {δ : Type} [OfScientific δ] {stod : Bytes → Option (δ × ℕ)} {files : Bytes → Option Bytes}
  {path : Bytes} {pl : ℕ → Platform δ} {events₁ events₂ : List Event} {P₁ P₂ : Process}
  {i₁ i₂ n m : ℕ} {link₁ link₂ : Link} {cmds₁ cmds₂ : List (List Bytes)} {cmd get : List Bytes}
  {call : Call} {resp : Bytes}

/-- **A server that gives its pool no memory keeps what it is told to.** If no line of the
configuration file sets the pool's share of the memory, then in every run a `GET` that is sent
after a write of its key was answered with `OK` is answered with the value of the latest write, or
with null after this value's deadline has passed at this or an earlier read. -/
theorem unset_percent_keeps (hunset : Unset stod (configLines files path))
    (hsetup : SetUp H pl (loadConfigFile stod files builtIn path))
    (hzero : ∀ sid n, (pl sid).scale 0.0 n = 0)
    (hprob : ∀ sid, (pl sid).scale
      (loadConfigFile stod files builtIn path).pool.probPoolSizePercent 0 = 0)
    (h₁ : Talks H events₁ P₁ i₁ link₁ cmds₁)
    (h₂ : Talks H (events₁ ++ events₂) P₂ i₂ link₂ cmds₂) (hcmd : cmds₁[n]? = some cmd)
    (hroute : route cmd = some call) (hwrite : call ≠ .get call.key)
    (hanswered : link₁.sock.out[n]? = some (writeSimple (ascii "OK"))) (hget : cmds₂[m]? = some get)
    (hroute' : route get = some (.get call.key))
    (hlater : sentTo i₂ events₁ <+: (cmds₂.take m).flatMap writeArrayBulk)
    (hresp : link₂.sock.out[m]? = some resp) :
    ∃ j j' now answer log log' v d since, Carries P₁ i₁ n j ∧ Carries P₂ i₂ m j' ∧
      P₂.cluster.log = (P₁.cluster.log ++ log) ++
        ⟨H.owner call.key, .read j' call.key now answer⟩ :: log' ∧
      Latest ((P₁.cluster.log ++ log).map Mark.note) j call.key v d since ∧
      (resp = writeBulk v ∨ resp = writeNull ∧ ∃ j'' now',
        .read j'' call.key now' none ∈ since ++ [.read j' call.key now none] ∧ ¬ Live now' d) := by
  obtain ⟨j, j', answer, now, log, log', v, d, since, hreply, hcarries, hcarries', hlog, hlatest,
    hanswer⟩ := h₁.write_read h₂ hcmd hroute hwrite hanswered hget hroute' hlater hresp
  refine ⟨j, j', now, answer, log, log', v, d, since, hcarries, hcarries', hlog, hlatest, ?_⟩
  have hlapsing : Lapsing ((P₁.cluster.log ++ log).map Mark.note) := by
    refine (uncrowded_runs (unpooled_of_unset hunset hsetup hzero hprob) h₂.run).lapsing.left ?_
    rw [Observed.notes, hlog]
    exact (List.prefix_append _ _).map Mark.note
  rw [hreply, hanswer]
  by_cases hkept : .removed call.key ∉ since ∧ Live now d
  · rw [if_pos hkept]
    exact .inl rfl
  · rw [if_neg hkept]
    refine .inr ⟨rfl, ?_⟩
    rcases not_and_or.mp hkept with hremoved | hdead
    · obtain ⟨j'', now', hread, hdead⟩ := hlapsing.latest hlatest (not_not.mp hremoved)
      exact ⟨j'', now', List.mem_append_left _ hread, hdead⟩
    · exact ⟨j', now, by simp, hdead⟩

end Runs

/-! ### No file -/

/-- A platform with 144 bytes for an entry and a gigabyte for a shard. Products with a share that is
not negative are exact. -/
def exactPlatform : Platform ℚ where
  sizeofEntry := 144
  sizeofEntry_pos := by decide
  totalMemory := 2 ^ 30
  stringMaxSize := 2 ^ 62 - 1
  unreserved x n := (x.den - x.num.toNat) * n / x.den
  scale x n := x.num.toNat * n / x.den % 2 ^ 64
  scale_lt _ _ := Nat.mod_lt _ (by decide)
  reaches n m x := x.num.toNat * m ≤ n * x.den

lemma scale_zero (n : ℕ) : exactPlatform.scale 0.0 n = 0 := by
  have hnum : (0.0 : ℚ).num.toNat = 0 := by decide +kernel
  change (0.0 : ℚ).num.toNat * n / _ % 2 ^ 64 = 0
  rw [hnum, Nat.zero_mul, Nat.zero_div, Nat.zero_mod]

lemma scale_none (x : ℚ) : exactPlatform.scale x 0 = 0 := by
  change x.num.toNat * 0 / _ % 2 ^ 64 = 0
  rw [Nat.mul_zero, Nat.zero_div, Nat.zero_mod]

def noFileConfig : Option Config :=
  (CacheEntryPool.init exactPlatform builtIn (.new 0)).bind (·.config exactPlatform builtIn)

lemma isSome_noFileConfig : noFileConfig.isSome := by decide +kernel

def noFileHost : Host where
  smp := 2
  firstDataShard := 0
  cfg _ := noFileConfig.get isSome_noFileConfig
  nodeCfg := { smp := 2 }
  sendShardDetails := false

lemma outputs_noFile :
    (Steps.runs (Process.act noFileHost) (.fresh noFileHost) setEvents).map outputs =
      some [(.flushing, [ascii "+OK\r\n"])] ∧
    (Steps.runs (Process.act noFileHost) (.fresh noFileHost) (setEvents ++ getEvents)).map
      outputs = some [(.flushing, [ascii "+OK\r\n"]), (.flushing, [writeBulk [2]])] := by
  decide +kernel

/-- A write that is answered is read back. -/
theorem noFile_keeps :
    ∃ P₁ P₂, Steps.runs (Process.act noFileHost) (.fresh noFileHost) setEvents = some P₁ ∧
      Steps.runs (Process.act noFileHost) P₁ getEvents = some P₂ ∧
      ∃ j log v d since, Latest ((P₁.cluster.log ++ log).map Mark.note) j [1] v d since ∧
        writeBulk [2] = writeBulk v := by
  obtain ⟨P₁, hP₁, hout₁⟩ := Option.map_eq_some_iff.mp outputs_noFile.1
  obtain ⟨P₂, hP₂, hout₂⟩ := Option.map_eq_some_iff.mp outputs_noFile.2
  obtain ⟨link₁, hlink₁, hw₁, hwritten₁⟩ :=
    link_of_outputs (P := P₁) (i := 0) (by rw [hout₁]; rfl)
  obtain ⟨link₂, hlink₂, hw₂, hwritten₂⟩ :=
    link_of_outputs (P := P₂) (i := 1) (by rw [hout₂]; rfl)
  have h₁ : Talks noFileHost setEvents P₁ 0 link₁ [[ascii "SET", [1], [2]]] :=
    ⟨hP₁, hlink₁, by simp [hw₁], command_set, by decide +kernel⟩
  have h₂ : Talks noFileHost (setEvents ++ getEvents) P₂ 1 link₂ [[ascii "GET", [1]]] :=
    ⟨hP₂, hlink₂, by simp [hw₂], command_get, by decide +kernel⟩
  have hroute : route [ascii "SET", [1], [2]] = some (.set [1] [2]) := rfl
  have hunset : Unset (δ := ℚ) (fun _ => none)
      (configLines (fun _ => none) (ascii "config.conf")) := by
    intro line hline
    cases hline
  have hsetup : SetUp noFileHost (fun _ => exactPlatform)
      (loadConfigFile (fun _ => none) (fun _ => none) builtIn (ascii "config.conf")) := by
    intro sid
    have hcfg : noFileConfig = some (noFileHost.cfg sid) := by
      rw [noFileHost, Option.some_get]
    have hload : loadConfigFile (fun _ => none) (fun _ => none) (builtIn : DbConfig ℚ)
        (ascii "config.conf") = builtIn := rfl
    rw [hload]
    exact Option.bind_eq_some_iff.mp hcfg
  obtain ⟨j, j', now, answer, log, log', v, d, since, -, -, -, hlatest, hresp⟩ :=
    unset_percent_keeps hunset hsetup (fun _ => scale_zero) (fun _ => scale_none _) h₁ h₂ (n := 0)
      (m := 0) rfl hroute nofun (by rw [hwritten₁]; rfl) rfl rfl (by decide +kernel)
      (by rw [hwritten₂]; rfl)
  refine ⟨P₁, P₂, hP₁, (Steps.runs_trans hP₁ getEvents).symm.trans hP₂, j, log, v, d, since,
    hlatest, ?_⟩
  rcases hresp with hresp | ⟨hnull, -⟩
  · exact hresp
  · exact absurd hnull (by decide)

end ShunyaKV.Net
