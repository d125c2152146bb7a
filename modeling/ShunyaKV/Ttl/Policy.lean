import ShunyaKV.Shard.State

/-!
Deadlines that adapt to how often an entry is used.

In the tiered mode each use makes an entry hotter, up to a limit, and its time to live is doubled
once for each degree of heat, up to a limit of its own. The loop stops doubling at half of that
limit, rounded down. So if the limit is odd, it is also taken one step too early.
-/

namespace ShunyaKV.Ttl

open ShunyaKV.Shard

inductive Mode
  | fixed
  | sliding
  | tieredExponential
  deriving DecidableEq, Repr

structure TtlPolicy where
  mode : Mode := .sliding
  baseTtl : UInt64 := 5000
  maxTtl : UInt64 := 600000
  idleWindow : UInt64 := 30000
  heatMax : UInt8 := 10
  deriving DecidableEq, Repr

def shiftLoop (maxTtl : ℕ) : ℕ → ℕ → ℕ
  | 0, ttl => ttl
  | shift + 1, ttl =>
    if maxTtl / 2 ≤ ttl then maxTtl else shiftLoop maxTtl shift (2 * ttl % 2 ^ 64)

namespace TtlPolicy

variable (p : TtlPolicy) (now : ℕ) (e : Entry)

/-- The heat after an idle gap is zero, unless the entry has never been used. -/
def cooled : Entry :=
  if p.idleWindow.toNat ≠ 0 ∧ e.lastAccess ≠ 0 ∧
      p.idleWindow.toNat < (now + 2 ^ 64 - e.lastAccess) % 2 ^ 64 then
    { e with heat := 0 }
  else e

def heated : Entry :=
  if e.heat < p.heatMax.toNat then { e with heat := (e.heat + 1) % 2 ^ 8 } else e

/-- The new deadline, and the entry as it is left. -/
def computeNewExpiry : ℕ × Entry :=
  match p.mode with
  | .fixed => (now, e)
  | .sliding => ((now + p.baseTtl.toNat) % 2 ^ 64, { e with lastAccess := now })
  | .tieredExponential =>
    let e := p.heated (p.cooled now e)
    let ttl := shiftLoop p.maxTtl.toNat e.heat p.baseTtl.toNat
    let ttl := min ttl p.maxTtl.toNat
    ((now + ttl) % 2 ^ 64, { e with lastAccess := now })

/-! ### The formula -/

/-- The heat as the formula has it, before this use and after it. -/
def oldHeat : ℕ :=
  if p.idleWindow.toNat ≠ 0 ∧ p.idleWindow.toNat < now - e.lastAccess then 0 else e.heat

def newHeat : ℕ :=
  if p.oldHeat now e < p.heatMax.toNat then p.oldHeat now e + 1 else p.oldHeat now e

def tieredTtl : ℕ := min (p.baseTtl.toNat * 2 ^ p.newHeat now e) p.maxTtl.toNat

/-- The loop without a doubling that overflows, and nothing if there is one. -/
def guardedLoop (maxTtl : ℕ) : ℕ → ℕ → Option ℕ
  | 0, ttl => some ttl
  | shift + 1, ttl =>
    if maxTtl / 2 ≤ ttl then some maxTtl
    else if 2 * ttl < 2 ^ 64 then guardedLoop maxTtl shift (2 * ttl) else none

/-- What the formula says of a use in the tiered mode. -/
structure Tiered : Prop where
  heat : (p.computeNewExpiry now e).2.heat = p.newHeat now e
  expiry : (p.computeNewExpiry now e).1 = (now + p.tieredTtl now e) % 2 ^ 64

end TtlPolicy

/-! ### The loop -/

open TtlPolicy

/-- **No doubling overflows.** -/
lemma guardedLoop_eq {maxTtl : ℕ} (hmax : maxTtl < 2 ^ 64) (shift ttl : ℕ) :
    guardedLoop maxTtl shift ttl = some (shiftLoop maxTtl shift ttl) := by
  induction shift generalizing ttl with
  | zero => rfl
  | succ shift ih =>
    rw [guardedLoop, shiftLoop]
    by_cases h : maxTtl / 2 ≤ ttl
    · rw [if_pos h, if_pos h]
    · have hlt : 2 * ttl < 2 ^ 64 := by omega
      rw [if_neg h, if_neg h, if_pos hlt, Nat.mod_eq_of_lt hlt, ih]

/-- **The loop doubles up to the limit, but for a limit one more than the result.** -/
lemma min_shiftLoop {maxTtl : ℕ} (hmax : maxTtl < 2 ^ 64) (shift ttl : ℕ) :
    min (shiftLoop maxTtl shift ttl) maxTtl =
      if 1 ≤ shift ∧ maxTtl = ttl * 2 ^ shift + 1 then maxTtl
      else min (ttl * 2 ^ shift) maxTtl := by
  induction shift generalizing ttl with
  | zero => simp [shiftLoop]
  | succ shift ih =>
    have hpow : ttl * 2 ^ (shift + 1) = 2 * ttl * 2 ^ shift := by
      rw [Nat.pow_succ', ← Nat.mul_assoc, Nat.mul_comm ttl 2]
    rw [shiftLoop, hpow]
    by_cases h : maxTtl / 2 ≤ ttl
    · -- the limit is taken now, which is one too much only if the next doubling is the last
      have hge : 2 * ttl ≤ 2 * ttl * 2 ^ shift := Nat.le_mul_of_pos_right _ (Nat.two_pow_pos shift)
      rw [if_pos h, Nat.min_self]
      split_ifs <;> omega
    · have hlt : 2 * ttl < 2 ^ 64 := by omega
      have hlast : maxTtl = 2 * ttl * 2 ^ shift + 1 → 1 ≤ shift := by
        intro hmaxTtl
        by_contra hzero
        obtain rfl : shift = 0 := by omega
        omega
      rw [if_neg h, Nat.mod_eq_of_lt hlt, ih (2 * ttl)]
      by_cases hodd : maxTtl = 2 * ttl * 2 ^ shift + 1
      · rw [if_pos ⟨hlast hodd, hodd⟩, if_pos ⟨Nat.le_add_left 1 shift, hodd⟩]
      · rw [if_neg fun hc => hodd hc.2, if_neg fun hc => hodd hc.2]

/-! ### Uses -/

section Use

variable {p : TtlPolicy} {now : ℕ} {e : Entry}

lemma heat_heated (p : TtlPolicy) (e : Entry) :
    (p.heated e).heat = if e.heat < p.heatMax.toNat then e.heat + 1 else e.heat := by
  unfold heated
  split_ifs with h
  · exact Nat.mod_eq_of_lt (by have := p.heatMax.toNat_lt; omega)
  · rfl

lemma heat_cooled (hlast : e.lastAccess ≤ now) (hnow : now < 2 ^ 64) :
    (p.cooled now e).heat = if e.lastAccess = 0 then e.heat else p.oldHeat now e := by
  have hgap : (now + 2 ^ 64 - e.lastAccess) % 2 ^ 64 = now - e.lastAccess := by omega
  unfold cooled oldHeat
  rw [hgap]
  by_cases h0 : e.lastAccess = 0
  · rw [if_neg fun h => h.2.1 h0, if_pos h0]
  · rw [if_neg h0]
    by_cases hidle : p.idleWindow.toNat ≠ 0 ∧ p.idleWindow.toNat < now - e.lastAccess
    · rw [if_pos ⟨hidle.1, h0, hidle.2⟩, if_pos hidle]
    · rw [if_neg fun h => hidle ⟨h.1, h.2.2⟩, if_neg hidle]

lemma computeNewExpiry_tiered (hmode : p.mode = .tieredExponential) :
    p.computeNewExpiry now e =
      ((now + min (shiftLoop p.maxTtl.toNat (p.heated (p.cooled now e)).heat p.baseTtl.toNat)
        p.maxTtl.toNat) % 2 ^ 64, { p.heated (p.cooled now e) with lastAccess := now }) := by
  rw [computeNewExpiry, hmode]

lemma heat_eq_newHeat_iff (hlast : e.lastAccess ≤ now) (hnow : now < 2 ^ 64) :
    (p.heated (p.cooled now e)).heat = p.newHeat now e ↔
      ¬ (e.lastAccess = 0 ∧ p.idleWindow.toNat ≠ 0 ∧ p.idleWindow.toNat < now ∧ e.heat ≠ 0 ∧
        ¬ (e.heat = 1 ∧ p.heatMax.toNat = 1)) := by
  rw [heat_heated, heat_cooled hlast hnow, newHeat]
  by_cases h0 : e.lastAccess = 0
  · rw [if_pos h0, oldHeat, h0, Nat.sub_zero]
    split_ifs <;> omega
  · rw [if_neg h0]
    exact iff_of_true rfl fun h => h0 h.1

/-- **The tiered mode follows its formula, but in two cases.** The heat of an entry whose last
access is recorded as zero is never reset, however long the gap; and where the limit is one more
than the doubled time to live, the limit is taken. No doubling overflows. -/
theorem tiered_iff (hmode : p.mode = .tieredExponential) (hlast : e.lastAccess ≤ now)
    (hnow : now < 2 ^ 64) :
    (Tiered p now e ∧ ∀ shift, (guardedLoop p.maxTtl.toNat shift p.baseTtl.toNat).isSome) ↔
      ¬ (e.lastAccess = 0 ∧ p.idleWindow.toNat ≠ 0 ∧ p.idleWindow.toNat < now ∧ e.heat ≠ 0 ∧
        ¬ (e.heat = 1 ∧ p.heatMax.toNat = 1)) ∧
      ¬ (1 ≤ p.newHeat now e ∧ p.maxTtl.toNat = p.baseTtl.toNat * 2 ^ p.newHeat now e + 1) := by
  have hmax := p.maxTtl.toNat_lt
  have hguard (shift : ℕ) : (guardedLoop p.maxTtl.toNat shift p.baseTtl.toNat).isSome := by
    rw [guardedLoop_eq hmax]
    rfl
  have hloop := min_shiftLoop hmax (p.newHeat now e) p.baseTtl.toNat
  rw [← heat_eq_newHeat_iff hlast hnow, and_iff_left hguard]
  constructor
  · rintro ⟨hheat, hexpiry⟩
    rw [computeNewExpiry_tiered hmode] at hheat hexpiry
    dsimp only at hheat hexpiry
    refine ⟨hheat, fun hodd => ?_⟩
    rw [hheat, hloop, if_pos hodd, tieredTtl] at hexpiry
    omega
  · rintro ⟨hheat, hodd⟩
    rw [if_neg hodd] at hloop
    refine ⟨?_, ?_⟩ <;> rw [computeNewExpiry_tiered hmode] <;> dsimp only
    · exact hheat
    · rw [hheat, hloop, tieredTtl]

/-- With the default policy in the tiered mode, a second use within the window is worth four times
the base. -/
theorem tiered_default :
    Tiered { mode := .tieredExponential } 6000 { heat := 1, lastAccess := 5000 } :=
  ((tiered_iff rfl (by decide) (by decide)).mpr (by decide)).1

/-- A limit of 5 is taken where the doubled time to live is 4. -/
theorem not_tiered_odd_limit :
    ¬ Tiered { mode := .tieredExponential, baseTtl := 2, maxTtl := 5 } 10 { lastAccess := 10 } := by
  intro h
  have hexpiry := h.expiry
  revert hexpiry
  decide

end Use

end ShunyaKV.Ttl
