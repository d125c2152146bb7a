import ShunyaKV.Cmd.Grammar
import ShunyaKV.Shard.Threaded

/-!
How long a time to live lasts.

The deadline of `SET key value EX ttl` is the sum of the clock and `ttl` in 64 bits, and a
deadline of `0` is none. As long as the sum is at most `2 ^ 64` the key lives until then: a
sum of `2 ^ 64` is stored as none, and no clock reaches it. A larger one is stored as a
deadline that is already past.
-/

namespace ShunyaKV.Shard

open ShunyaKV.Lib.Steps ShunyaKV.Lib.Ttl

/-- A deadline that has not wrapped around is the sum. -/
lemma live_due_iff {t ttl t' : ℕ} (hpos : 1 ≤ ttl) (hsum : t + ttl ≤ 2 ^ 64) (ht' : t' < 2 ^ 64) :
    Live t' (Store.due t ttl) ↔ t' < t + ttl := by
  rcases Nat.lt_or_ge (t + ttl) (2 ^ 64) with hlt | hge
  · have hd : Store.due t ttl = t + ttl := Nat.mod_eq_of_lt hlt
    rw [hd]
    unfold Live
    omega
  · have hsum' : t + ttl = 2 ^ 64 := by omega
    have hd : Store.due t ttl = 0 := by
      rw [Store.due, hsum', Nat.mod_self]
    rw [hd, hsum']
    exact iff_of_true (.inl rfl) ht'

/-- One that has is past. -/
lemma not_live_due {t ttl : ℕ} (ht : t < 2 ^ 64) (hmax : ttl ≤ 2 ^ 64 - 1)
    (hsum : 2 ^ 64 < t + ttl) : ¬ Live t (Store.due t ttl) := by
  have hd : Store.due t ttl = t + ttl - 2 ^ 64 := by
    unfold Store.due
    omega
  rw [hd]
  unfold Live
  omega

namespace Reactor

/-- The action neither writes `k` nor evicts it, and if it reads `k` it does so at time `t'`
or before. A read that finds `k` expired removes it, which is no eviction. -/
structure Spares (cfg : Config) (k : Bytes) (t' : ℕ) (σ : Reactor) (a : Action) : Prop where
  unwritten : ∀ call now, σ.effective a = some (call, now) → call.key = k → call = .get k
  unevicted : ∀ σ', σ.act cfg a = some σ' → (∀ now, σ.effective a ≠ some (.get k, now)) →
    k ∈ σ.store.map → k ∈ σ'.store.map
  earlier : ∀ now, σ.effective a = some (.get k, now) → now ≤ t'

variable {cfg : Config} {σ σ' : Reactor} {a : Action} {k v : Bytes} {d t' : ℕ}

/-- **One action.** -/
lemma Spares.lasts (hs : σ.Spares cfg k t' a) (hh : Holds σ.store σ.held)
    (h : Lasts (abs σ.store) k v d t') (ha : σ.act cfg a = some σ') :
    Lasts (abs σ'.store) k v d t' := by
  rcases he : σ.effective a with _ | ⟨call, now⟩
  · -- keys are removed, and this one is not among them
    obtain ⟨R, hR⟩ := abs_act_none hh he ha
    rw [hR]
    refine h.without fun hk => ?_
    rw [← hR, ← mem_map_iff]
    exact hs.unevicted σ' ha (by simp [he]) ((mem_map_iff _ _).mpr hk)
  · have habs := abs_act_effective hh he ha
    by_cases hk : call.key = k
    · obtain rfl := hs.unwritten call now he hk
      have hfetch : abs σ'.store = (fetch (abs σ.store) now k).2 := habs
      rw [hfetch]
      exact h.fetch (hs.earlier now he)
    · have hother : k ≠ call.op.key := by
        rw [key_op]
        exact fun e => hk e.symm
      unfold Lasts
      rw [habs, apply_other _ _ _ hother]
      exact h

/-- **A run.** -/
lemma lasts_runs {acts : List Action} (hk : σ.Keeps cfg (Tidy cfg))
    (h : Lasts (abs σ.store) k v d t') (hs : Along (act cfg) (Spares cfg k t') σ acts)
    (hr : runs (act cfg) σ acts = some σ') :
    σ'.Keeps cfg (Tidy cfg) ∧ Lasts (abs σ'.store) k v d t' := by
  refine hs.runs_rule (I := fun σ => σ.Keeps cfg (Tidy cfg) ∧ Lasts (abs σ.store) k v d t') ?_
    ⟨hk, h⟩ hr
  rintro σ a σ' ⟨hk, h⟩ hs ha
  exact ⟨hk.act (tidy_kept cfg) ha, hs.lasts hk.inv.holds h ha⟩

lemma get_of_lasts (hh : Holds σ.store σ.held) (h : Lasts (abs σ.store) k v d t') :
    (σ.store.get cfg k t').2 = some v ↔ Live t' d := by
  rw [(get_refines cfg hh.toOwned k t').2.1]
  exact h.fetch_eq_some_iff

end Reactor

end ShunyaKV.Shard

namespace ShunyaKV.Cmd

open ShunyaKV.Lib.Decimal ShunyaKV.Lib.Steps ShunyaKV.Lib.Ttl ShunyaKV.Shard ShunyaKV.Resp

/-- The request `argv` passes the checks of `handle_set`, and its write takes effect at time
`t` between `σ` and `σ'`. -/
def Applies (cfg : Config) (argv : List Bytes) (t : ℕ) (σ σ' : Reactor) : Prop :=
  ∃ args a, checkSet argv = .ok args ∧ σ.effective a = some (args.call, t) ∧
    σ.act cfg a = some σ'

lemma Applies.lasts {cfg : Config} {name key val ex ttl : Bytes} {t : ℕ} {σ σ' : Reactor}
    (hh : Holds σ.store σ.held) (h : Applies cfg [name, key, val, ex, ttl] t σ σ') (t' : ℕ) :
    Lasts (abs σ'.store) key val (Store.due t (value 0 ttl)) t' ∧ 1 ≤ value 0 ttl ∧
      value 0 ttl ≤ 2 ^ 64 - 1 := by
  obtain ⟨args, a, hc, he, ha⟩ := h
  have hg := checkSet_eq_ok_iff.mp hc
  cases hg with
  | expiring _ _ _ _ _ hpos hmax =>
    have hcall : SetArgs.call ⟨key, val, value 0 ttl⟩ = .setWithTtl key val (value 0 ttl) :=
      if_neg (Nat.one_le_iff_ne_zero.mp hpos)
    rw [hcall] at he
    have habs := Reactor.abs_act_effective hh he ha
    refine ⟨.inl ?_, hpos, hmax⟩
    rw [habs]
    exact write_same _ _ _ _

/-- **A time to live lasts as long as requested exactly if it ends within 64 bits**: after
`SET key val EX ttl` at time `t`, while the key is neither written nor evicted, a read at any
later time `t'` returns the value if and only if `t' < t + ttl`. -/
theorem ttl_lasts_iff (cfg : Config) {acts : List Action} {σ₀ σ₁ : Reactor}
    {name key val ex ttl : Bytes} {t : ℕ}
    (hrun : runs (Reactor.act cfg) (Reactor.fresh cfg) acts = some σ₀)
    (hset : Applies cfg [name, key, val, ex, ttl] t σ₀ σ₁) (ht : t < 2 ^ 64) :
    (∀ mid σ₂ t', runs (Reactor.act cfg) σ₁ mid = some σ₂ →
      Along (Reactor.act cfg) (Reactor.Spares cfg key t') σ₁ mid → t ≤ t' → t' < 2 ^ 64 →
        ((σ₂.store.get cfg key t').2 = some val ↔ t' < t + value 0 ttl)) ↔
      t + value 0 ttl ≤ 2 ^ 64 := by
  have hkeeps := (tidy_fresh cfg).runs (tidy_kept cfg) hrun
  have hkeeps₁ : σ₁.Keeps cfg (Tidy cfg) := by
    obtain ⟨_, _, -, -, ha⟩ := hset
    exact hkeeps.act (tidy_kept cfg) ha
  have hlasts := hset.lasts hkeeps.inv.holds
  obtain ⟨-, hpos, hmax⟩ := hlasts 0
  constructor
  · intro h
    by_contra hsum
    -- the read right after the write
    have hnow := h [] σ₁ t rfl trivial le_rfl ht
    rw [Reactor.get_of_lasts hkeeps₁.inv.holds (hlasts t).1] at hnow
    exact not_live_due ht hmax (by omega) (hnow.mpr (by omega))
  · intro hsum mid σ₂ t' hmid hs _ ht'
    obtain ⟨hkeeps₂, hlasts₂⟩ := Reactor.lasts_runs hkeeps₁ (hlasts t').1 hs hmid
    rw [Reactor.get_of_lasts hkeeps₂.inv.holds hlasts₂, live_due_iff hpos hsum ht']

def entered (ttl : ℕ) : Reactor :=
  ⟨(start roomy).takeFront.1, [⟨.setWithTtl [1] [2] ttl, .acquired 0, none⟩]⟩

lemma runs_entered (ttl : ℕ) : runs (Reactor.act roomy) (Reactor.fresh roomy)
    [.arrive (.setWithTtl [1] [2] ttl) 0] = some (entered ttl) := rfl

theorem ttl_lasts_five :
    ∃ σ₁, Applies roomy [ascii "SET", [1], [2], ascii "EX", ascii "5"] 10 (entered 5) σ₁ ∧
      ∀ mid σ₂ t', runs (Reactor.act roomy) σ₁ mid = some σ₂ →
        Along (Reactor.act roomy) (Reactor.Spares roomy [1] t') σ₁ mid → 10 ≤ t' → t' < 2 ^ 64 →
          ((σ₂.store.get roomy [1] t').2 = some [2] ↔ t' < 15) := by
  obtain ⟨σ₁, happ⟩ : ∃ σ₁, Applies roomy [ascii "SET", [1], [2], ascii "EX", ascii "5"] 10
      (entered 5) σ₁ := ⟨_, ⟨[1], [2], 5⟩, .resume 0 10 10, by decide +kernel, rfl, rfl⟩
  exact ⟨σ₁, happ, (ttl_lasts_iff roomy (runs_entered 5) happ (by decide)).mpr (by decide)⟩

/-- The longest time to live ends before it begins. -/
theorem ttl_wraps :
    ∃ σ₁, runs (Reactor.act roomy) (Reactor.fresh roomy)
        [.arrive (.setWithTtl [1] [2] (2 ^ 64 - 1)) 0] = some (entered (2 ^ 64 - 1)) ∧
      Applies roomy [ascii "SET", [1], [2], ascii "EX", ascii "18446744073709551615"] 2
        (entered (2 ^ 64 - 1)) σ₁ ∧
      2 < 2 + value 0 (ascii "18446744073709551615") ∧ (σ₁.store.get roomy [1] 2).2 = none := by
  refine ⟨_, runs_entered _, ⟨⟨[1], [2], 2 ^ 64 - 1⟩, .resume 0 2 2, by decide +kernel, rfl, rfl⟩,
    ?_, ?_⟩
  · decide +kernel
  · decide +kernel

end ShunyaKV.Cmd
