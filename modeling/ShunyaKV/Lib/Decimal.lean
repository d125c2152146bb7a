import Mathlib.Data.Nat.Digits.Defs
import Mathlib.Tactic.Lemma
import Mathlib.Tactic.Common

/-!
Decimal numerals as bytes, and a reader of numerals in 64-bit arithmetic.
-/

namespace ShunyaKV.Lib.Decimal

def ascii (s : String) : List UInt8 := s.toList.map fun c => c.toNat.toUInt8

def decimal (n : ℕ) : List UInt8 := (Nat.toDigits 10 n).map fun c => c.toNat.toUInt8

def IsDigit (b : UInt8) : Prop := 48 ≤ b.toNat ∧ b.toNat ≤ 57

instance (b : UInt8) : Decidable (IsDigit b) := inferInstanceAs (Decidable (_ ∧ _))

def digit (b : UInt8) : ℕ := b.toNat - 48

/-- The number that a list of digits after the number `v` stands for. -/
def value (v : ℕ) (l : List UInt8) : ℕ := l.foldl (fun v b => v * 10 + digit b) v

@[simp] lemma value_nil (v : ℕ) : value v [] = v := rfl
@[simp] lemma value_cons (v : ℕ) (b : UInt8) (l : List UInt8) :
    value v (b :: l) = value (v * 10 + digit b) l := by simp only [value, List.foldl_cons]

lemma le_value (v : ℕ) (l : List UInt8) : v ≤ value v l := by
  induction l generalizing v with
  | nil => exact Nat.le_refl v
  | cons b l ih =>
    have := ih (v * 10 + digit b)
    rw [value_cons]
    omega

lemma value_lt {l : List UInt8} (hl : ∀ b ∈ l, IsDigit b) (v : ℕ) :
    value v l < (v + 1) * 10 ^ l.length := by
  induction l generalizing v with
  | nil => simp
  | cons b l ih =>
    have hb := (hl b (by simp)).2
    calc value v (b :: l) < (v * 10 + digit b + 1) * 10 ^ l.length := by
          rw [value_cons]
          exact ih (fun c hc => hl c (by simp [hc])) _
      _ ≤ ((v + 1) * 10) * 10 ^ l.length := by
          unfold digit
          exact Nat.mul_le_mul_right _ (by omega)
      _ = (v + 1) * 10 ^ (b :: l).length := by
          rw [List.length_cons, Nat.pow_succ', Nat.mul_assoc]

lemma toNat_toUInt8 {c : Char} (h : c.isDigit) : (c.toNat.toUInt8).toNat = c.toNat := by
  have h1 : c.toNat ≤ 57 := by
    simp only [Char.isDigit, Bool.and_eq_true, decide_eq_true_eq] at h
    exact h.2
  have h2 : c.toNat < 256 := by omega
  simp [Nat.toUInt8, UInt8.toNat_ofNat', h2]

lemma isDigit_of_mem_decimal {n : ℕ} {b : UInt8} (h : b ∈ decimal n) : IsDigit b := by
  obtain ⟨c, hc, rfl⟩ := List.mem_map.mp h
  have hd := Nat.isDigit_of_mem_toDigits (by decide) (by decide) hc
  unfold IsDigit
  rw [toNat_toUInt8 hd]
  simp only [Char.isDigit, Bool.and_eq_true, decide_eq_true_eq] at hd
  exact hd

lemma not_mem_decimal {n : ℕ} {b : UInt8} (hb : ¬ IsDigit b) : b ∉ decimal n :=
  fun h => hb (isDigit_of_mem_decimal h)

lemma decimal_ne_nil (n : ℕ) : decimal n ≠ [] := by
  simp [decimal, Nat.toDigits_ne_nil]

/-- **A numeral is read back.** -/
lemma value_decimal (n : ℕ) : value 0 (decimal n) = n := by
  have h (l : List Char) (hl : ∀ c ∈ l, c.isDigit) (v : ℕ) :
      value v (l.map fun c => c.toNat.toUInt8) = Nat.ofDigitChars 10 l v := by
    induction l generalizing v with
    | nil => simp
    | cons c l ih =>
      rw [List.map_cons, value_cons, Nat.ofDigitChars_cons, ih fun d hd => hl d (by simp [hd])]
      congr 1
      rw [digit, toNat_toUInt8 (hl c (by simp))]
      have h0 : '0'.toNat = 48 := by decide
      omega
  rw [decimal, h _ fun c hc => Nat.isDigit_of_mem_toDigits (by decide) (by decide) hc,
    Nat.ofDigitChars_ten_toDigits]

lemma decimal_injective {n m : ℕ} (h : decimal n = decimal m) : n = m := by
  rw [← value_decimal n, h, value_decimal]

end ShunyaKV.Lib.Decimal
