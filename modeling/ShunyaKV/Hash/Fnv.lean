import ShunyaKV.Hash.Ranges

/-!
The builds of `fnv_64a_buf`.

A build with 64-bit integers multiplies by the prime, or adds shifted values in place of the
product. One without them keeps the hash in four digits of 16 bits, and leaves the top digit
unreduced until the end. All of them compute the same hash, so that whoever hashes a key finds the
same shard.
-/

namespace ShunyaKV.Hash

open ShunyaKV.Shard

def fnv64Prime : UInt64 := 0x100000001b3

/-- `NO_FNV_GCC_OPTIMIZATION` -/
def Product.fnv64aBuf (buf : Bytes) (hval : UInt64) : UInt64 :=
  buf.foldl (fun hval b => (hval ^^^ b.toUInt64) * fnv64Prime) hval

lemma Product.fnv64aBuf_cons (b : UInt8) (buf : Bytes) (hval : UInt64) :
    Product.fnv64aBuf (b :: buf) hval =
      Product.fnv64aBuf buf ((hval ^^^ b.toUInt64) * fnv64Prime) := List.foldl_cons ..

def shifted (hval : UInt64) : UInt64 :=
  hval + ((hval <<< 1) + (hval <<< 4) + (hval <<< 5) + (hval <<< 7) + (hval <<< 8) + (hval <<< 40))

def Shifts.fnv64aBuf (buf : Bytes) (hval : UInt64) : UInt64 :=
  buf.foldl (fun hval b => shifted (hval ^^^ b.toUInt64)) hval

lemma fnv1a64_eq (key : Bytes) : fnv1a64 key = Shifts.fnv64aBuf key 0xcbf29ce484222325 := rfl

/-! ### Digits -/

/-- `Fnv64_t` without 64-bit integers. -/
structure Fnv64 where
  low : UInt32
  high : UInt32
  deriving DecidableEq, Repr

def Fnv64.toNat (h : Fnv64) : ℕ := h.low.toNat + h.high.toNat * 2 ^ 32

def fnv1a64Init : Fnv64 := ⟨0x84222325, 0xcbf29ce4⟩

/-- The array `val`. -/
structure Digits where
  d0 : ℕ
  d1 : ℕ
  d2 : ℕ
  d3 : ℕ
  deriving DecidableEq, Repr

namespace Digits

def ofHash (h : Fnv64) : Digits where
  d0 := h.low.toNat &&& 0xffff
  d1 := h.low.toNat >>> 16
  d2 := h.high.toNat &&& 0xffff
  d3 := h.high.toNat >>> 16

/-- One round, with an `unsigned long` of `w` bits. -/
def round (w : ℕ) (v : Digits) (b : UInt8) : Digits :=
  let v0 := v.d0 ^^^ b.toNat
  let t0 := v0 * 0x1b3 % 2 ^ w
  let t1 := v.d1 * 0x1b3 % 2 ^ w
  let t2 := v.d2 * 0x1b3 % 2 ^ w
  let t3 := v.d3 * 0x1b3 % 2 ^ w
  let t2 := (t2 + (v0 <<< 8) % 2 ^ w) % 2 ^ w
  let t3 := (t3 + (v.d1 <<< 8) % 2 ^ w) % 2 ^ w
  let t1 := (t1 + (t0 >>> 16)) % 2 ^ w
  let t2 := (t2 + (t1 >>> 16)) % 2 ^ w
  { d0 := t0 &&& 0xffff
    d1 := t1 &&& 0xffff
    d2 := t2 &&& 0xffff
    d3 := (t3 + (t2 >>> 16)) % 2 ^ w }

def toHash (w : ℕ) (v : Digits) : Fnv64 where
  low := .ofNat ((v.d1 <<< 16) % 2 ^ w ||| v.d0)
  high := .ofNat ((v.d3 <<< 16) % 2 ^ w ||| v.d2)

def fnv64aBuf (w : ℕ) (buf : Bytes) (hval : Fnv64) : Fnv64 :=
  (buf.foldl (round w) (ofHash hval)).toHash w

/-- The digits stand for the hash; those below the top are reduced. -/
structure Stands (v : Digits) (hval : UInt64) : Prop where
  lt0 : v.d0 < 2 ^ 16
  lt1 : v.d1 < 2 ^ 16
  lt2 : v.d2 < 2 ^ 16
  value : (v.d0 + v.d1 * 2 ^ 16 + v.d2 * 2 ^ 32 + v.d3 * 2 ^ 48) % 2 ^ 64 = hval.toNat

/-- A byte reaches the lowest digit only. -/
lemma xor_byte (x : ℕ) {b : ℕ} (hb : b < 2 ^ 16) :
    x ^^^ b = x / 2 ^ 16 * 2 ^ 16 + (x % 2 ^ 16 ^^^ b) := by
  have hdiv : (x ^^^ b) / 2 ^ 16 = x / 2 ^ 16 := by
    rw [Nat.xor_div_two_pow, Nat.div_eq_of_lt hb, Nat.xor_zero]
  have hmod : (x ^^^ b) % 2 ^ 16 = x % 2 ^ 16 ^^^ b := by
    rw [Nat.xor_mod_two_pow, Nat.mod_eq_of_lt hb]
  omega

lemma and_low (x : ℕ) : x &&& 0xffff = x % 2 ^ 16 := Nat.and_two_pow_sub_one_eq_mod x 16

/-- What a round computes: nothing wraps but the top digit, which counts up to multiples of 2¹⁶
whatever the width. -/
lemma round_eq {w : ℕ} (hw : 32 ≤ w) {v : Digits} (b : UInt8) (h0 : v.d0 < 2 ^ 16)
    (h1 : v.d1 < 2 ^ 16) (h2 : v.d2 < 2 ^ 16) :
    ∃ t0 t1 t2 t3, t0 = (v.d0 ^^^ b.toNat) * 435 ∧ t1 = v.d1 * 435 + t0 / 2 ^ 16 ∧
      t2 = v.d2 * 435 + (v.d0 ^^^ b.toNat) * 256 + t1 / 2 ^ 16 ∧
      t3 % 2 ^ 16 = (v.d3 * 435 + v.d1 * 256 + t2 / 2 ^ 16) % 2 ^ 16 ∧
      round w v b = ⟨t0 % 2 ^ 16, t1 % 2 ^ 16, t2 % 2 ^ 16, t3⟩ := by
  have hW : 2 ^ 32 ≤ 2 ^ w := Nat.pow_le_pow_right (by decide) hw
  have htop (n : ℕ) : n % 2 ^ w % 2 ^ 16 = n % 2 ^ 16 := by
    have hpow : 2 ^ w = 2 ^ 16 * 2 ^ (w - 16) := by
      rw [← Nat.pow_add, Nat.add_sub_of_le (by omega)]
    rw [hpow, Nat.mod_mul_right_mod]
  have hb := b.toNat_lt
  have ha : v.d0 ^^^ b.toNat < 2 ^ 16 := Nat.xor_lt_two_pow h0 (by omega)
  refine ⟨_, _, _, _, rfl, rfl, rfl, htop _, ?_⟩
  unfold round
  simp only [Nat.shiftLeft_eq, Nat.shiftRight_eq_div_pow, and_low]
  generalize v.d0 ^^^ b.toNat = a at ha ⊢
  generalize 2 ^ w = W at hW ⊢
  have e0 : a * 435 % W = a * 435 := Nat.mod_eq_of_lt (by omega)
  have e1 : v.d1 * 435 % W = v.d1 * 435 := Nat.mod_eq_of_lt (by omega)
  have e2 : v.d2 * 435 % W = v.d2 * 435 := Nat.mod_eq_of_lt (by omega)
  have e3 : a * 2 ^ 8 % W = a * 256 := Nat.mod_eq_of_lt (by omega)
  have e4 : v.d1 * 2 ^ 8 % W = v.d1 * 256 := Nat.mod_eq_of_lt (by omega)
  have e5 : (v.d2 * 435 + a * 256) % W = v.d2 * 435 + a * 256 := Nat.mod_eq_of_lt (by omega)
  have e6 : (v.d1 * 435 + a * 435 / 2 ^ 16) % W = v.d1 * 435 + a * 435 / 2 ^ 16 :=
    Nat.mod_eq_of_lt (by omega)
  rw [e0, e1, e2, e3, e4, e5, e6]
  have e7 : (v.d2 * 435 + a * 256 + (v.d1 * 435 + a * 435 / 2 ^ 16) / 2 ^ 16) % W =
      v.d2 * 435 + a * 256 + (v.d1 * 435 + a * 435 / 2 ^ 16) / 2 ^ 16 :=
    Nat.mod_eq_of_lt (by omega)
  have hwrap (x y z : ℕ) : ((x % W + y) % W + z) % W = (x + y + z) % W := by
    rw [Nat.mod_add_mod, Nat.add_assoc, Nat.mod_add_mod, Nat.add_assoc]
  rw [e7, hwrap]

lemma product_digits {a d1 d2 d3 q0 q1 q2 r0 r1 r2 j k m x c : ℕ}
    (h0 : q0 * 2 ^ 16 + r0 = a * 435) (h1 : q1 * 2 ^ 16 + r1 = d1 * 435 + q0)
    (h2 : q2 * 2 ^ 16 + r2 = d2 * 435 + a * 256 + q1)
    (h3 : k * 2 ^ 16 + m = d3 * 435 + d1 * 256 + q2)
    (hx : a + d1 * 2 ^ 16 + d2 * 2 ^ 32 + d3 * 2 ^ 48 = x + c * 2 ^ 64) :
    r0 + r1 * 2 ^ 16 + r2 * 2 ^ 32 + (j * 2 ^ 16 + m) * 2 ^ 48 +
        (k + 256 * d2 + 2 ^ 24 * d3) * 2 ^ 64 =
      x * 1099511628211 + (j + c * 1099511628211) * 2 ^ 64 := by
  omega

lemma product_mod {a d1 d2 d3 t0 t1 t2 t3 x c : ℕ} (h0 : t0 = a * 435)
    (h1 : t1 = d1 * 435 + t0 / 2 ^ 16) (h2 : t2 = d2 * 435 + a * 256 + t1 / 2 ^ 16)
    (h3 : t3 % 2 ^ 16 = (d3 * 435 + d1 * 256 + t2 / 2 ^ 16) % 2 ^ 16)
    (hx : a + d1 * 2 ^ 16 + d2 * 2 ^ 32 + d3 * 2 ^ 48 = x + c * 2 ^ 64) :
    (t0 % 2 ^ 16 + t1 % 2 ^ 16 * 2 ^ 16 + t2 % 2 ^ 16 * 2 ^ 32 + t3 * 2 ^ 48) % 2 ^ 64 =
      x * 1099511628211 % 2 ^ 64 := by
  have h3' := Nat.div_add_mod' (d3 * 435 + d1 * 256 + t2 / 2 ^ 16) (2 ^ 16)
  rw [← h3] at h3'
  have hdigits := product_digits (j := t3 / 2 ^ 16) ((Nat.div_add_mod' t0 _).trans h0)
    ((Nat.div_add_mod' t1 _).trans h1) ((Nat.div_add_mod' t2 _).trans h2) h3' hx
  rw [Nat.div_add_mod'] at hdigits
  have hmod := congrArg (· % 2 ^ 64) hdigits
  simpa only [Nat.add_mul_mod_self_right] using hmod

/-- Reduced digits of a number stand for it up to multiples of 2⁶⁴, also after a change of the
lowest one. -/
lemma replace_low {d0 d1 d2 d3 n : ℕ} (hd : d0 < 2 ^ 16)
    (hn : (d0 + d1 * 2 ^ 16 + d2 * 2 ^ 32 + d3 * 2 ^ 48) % 2 ^ 64 = n) (a : ℕ) :
    n % 2 ^ 16 = d0 ∧ ∃ c, a + d1 * 2 ^ 16 + d2 * 2 ^ 32 + d3 * 2 ^ 48 =
      n / 2 ^ 16 * 2 ^ 16 + a + c * 2 ^ 64 := by
  refine ⟨by omega, (d0 + d1 * 2 ^ 16 + d2 * 2 ^ 32 + d3 * 2 ^ 48) / 2 ^ 64, by omega⟩

/-- **A round is a round of the product.** -/
lemma Stands.round {w : ℕ} (hw : 32 ≤ w) {v : Digits} {hval : UInt64} (h : Stands v hval)
    (b : UInt8) : Stands (v.round w b) ((hval ^^^ b.toUInt64) * fnv64Prime) := by
  obtain ⟨t0, t1, t2, t3, ht0, ht1, ht2, ht3, heq⟩ := round_eq hw b h.lt0 h.lt1 h.lt2
  rw [heq]
  refine ⟨Nat.mod_lt _ (by decide), Nat.mod_lt _ (by decide), Nat.mod_lt _ (by decide), ?_⟩
  have hb := b.toNat_lt
  obtain ⟨hlow, c, hc⟩ := replace_low h.lt0 h.value (v.d0 ^^^ b.toNat)
  have hxor := xor_byte hval.toNat (b := b.toNat) (by omega)
  rw [hlow] at hxor
  have hprime : fnv64Prime.toNat = 1099511628211 := rfl
  rw [UInt64.toNat_mul, UInt64.toNat_xor, UInt8.toNat_toUInt64, hxor, hprime]
  exact product_mod ht0 ht1 ht2 ht3 hc

lemma Stands.rounds {w : ℕ} (hw : 32 ≤ w) {v : Digits} {hval : UInt64} (h : Stands v hval)
    (buf : Bytes) : Stands (buf.foldl (Digits.round w) v) (Product.fnv64aBuf buf hval) := by
  induction buf generalizing v hval with
  | nil => exact h
  | cons b buf ih =>
    rw [List.foldl_cons, Product.fnv64aBuf_cons]
    exact ih (h.round hw b)

lemma stands_ofHash (h : Fnv64) : Stands (ofHash h) (.ofNat h.toNat) := by
  have hlow := h.low.toNat_lt
  have hhigh := h.high.toNat_lt
  refine ⟨?_, ?_, ?_, ?_⟩
  · simp only [ofHash, and_low]
    omega
  · simp only [ofHash, Nat.shiftRight_eq_div_pow]
    omega
  · simp only [ofHash, and_low]
    omega
  · simp only [ofHash, and_low, Nat.shiftRight_eq_div_pow, UInt64.toNat_ofNat', Fnv64.toNat]
    omega

lemma or_digits {w : ℕ} (hw : 32 ≤ w) (x : ℕ) {y : ℕ} (hy : y < 2 ^ 16) :
    ((x <<< 16) % 2 ^ w ||| y) % 2 ^ 32 = x % 2 ^ 16 * 2 ^ 16 + y := by
  have hpow : 2 ^ w = 2 ^ 32 * 2 ^ (w - 32) := by
    rw [← Nat.pow_add, Nat.add_sub_of_le (by omega)]
  have hshift : (x <<< 16) % 2 ^ w % 2 ^ 32 = (x % 2 ^ 16) <<< 16 := by
    rw [hpow, Nat.mod_mul_right_mod, Nat.shiftLeft_eq, Nat.shiftLeft_eq]
    omega
  have hlow : y % 2 ^ 32 = y := Nat.mod_eq_of_lt (by omega)
  rw [Nat.or_mod_two_pow, hshift, hlow, ← Nat.shiftLeft_add_eq_or_of_lt hy, Nat.shiftLeft_eq]

lemma Stands.toHash {w : ℕ} (hw : 32 ≤ w) {v : Digits} {hval : UInt64} (h : Stands v hval) :
    (v.toHash w).toNat = hval.toNat := by
  have hlow := or_digits hw v.d1 h.lt0
  have hhigh := or_digits hw v.d3 h.lt2
  have h1 := h.lt1
  have hvalue := h.value
  simp only [Digits.toHash, Fnv64.toNat, UInt32.toNat_ofNat', hlow, hhigh]
  omega

end Digits

/-! ### Sums of shifted values -/

/-- The prime has six bits besides the lowest one. -/
lemma shifted_eq (hval : UInt64) : shifted hval = hval * fnv64Prime := by
  have hshift (k : UInt64) : (hval <<< k).toNat = hval.toNat * 2 ^ (k.toNat % 64) % 2 ^ 64 := by
    rw [UInt64.toNat_shiftLeft, Nat.shiftLeft_eq]
  have hprime : fnv64Prime.toNat = 1099511628211 := by decide
  apply UInt64.toNat_inj.mp
  simp only [shifted, UInt64.toNat_add, UInt64.toNat_mul, hshift, hprime]
  have h1 : (1 : UInt64).toNat % 64 = 1 := by decide
  have h4 : (4 : UInt64).toNat % 64 = 4 := by decide
  have h5 : (5 : UInt64).toNat % 64 = 5 := by decide
  have h7 : (7 : UInt64).toNat % 64 = 7 := by decide
  have h8 : (8 : UInt64).toNat % 64 = 8 := by decide
  have h40 : (40 : UInt64).toNat % 64 = 40 := by decide
  rw [h1, h4, h5, h7, h8, h40]
  omega

lemma shifts_eq (buf : Bytes) (hval : UInt64) :
    Shifts.fnv64aBuf buf hval = Product.fnv64aBuf buf hval := by
  simp only [Shifts.fnv64aBuf, Product.fnv64aBuf, shifted_eq]

/-- **All builds compute the same hash**: the one with sums of shifted values, which the node
uses, the one with products, and the one with digits of 16 bits in integers of `w` bits. -/
theorem fnv_builds_agree {w : ℕ} (hw : 32 ≤ w) (buf : Bytes) (hval : Fnv64) :
    Shifts.fnv64aBuf buf (.ofNat hval.toNat) = Product.fnv64aBuf buf (.ofNat hval.toNat) ∧
      (Digits.fnv64aBuf w buf hval).toNat = (Shifts.fnv64aBuf buf (.ofNat hval.toNat)).toNat ∧
      (fnv1a64 buf).toNat = (Digits.fnv64aBuf w buf fnv1a64Init).toNat := by
  have hdigits (h : Fnv64) : (Digits.fnv64aBuf w buf h).toNat =
      (Shifts.fnv64aBuf buf (.ofNat h.toNat)).toNat := by
    rw [shifts_eq]
    exact ((Digits.stands_ofHash h).rounds hw buf).toHash hw
  refine ⟨shifts_eq buf _, hdigits hval, ?_⟩
  rw [hdigits, fnv1a64_eq]
  rfl

theorem fnv_builds_agree_long : (32 ≤ 32 ∧ 32 ≤ 64) ∧
    (fnv1a64 [0x61]).toNat = (Digits.fnv64aBuf 32 [0x61] fnv1a64Init).toNat ∧
    (fnv1a64 [0x61]).toNat = (Digits.fnv64aBuf 64 [0x61] fnv1a64Init).toNat :=
  ⟨by decide, (fnv_builds_agree (by decide) [0x61] fnv1a64Init).2.2,
    (fnv_builds_agree (by decide) [0x61] fnv1a64Init).2.2⟩

/-! ### Collisions -/

/-- The prime is odd. -/
lemma mul_prime_inj {x y : UInt64} : x * fnv64Prime = y * fnv64Prime ↔ x = y := by
  have hinv : fnv64Prime * 0xce965057aff6957b = 1 := by decide
  constructor
  · intro h
    calc x = x * fnv64Prime * 0xce965057aff6957b := by rw [UInt64.mul_assoc, hinv, UInt64.mul_one]
      _ = y * fnv64Prime * 0xce965057aff6957b := by rw [h]
      _ = y := by rw [UInt64.mul_assoc, hinv, UInt64.mul_one]
  · exact congrArg (· * fnv64Prime)

/-- What the bytes do to the hash is undone from the last byte backwards. -/
lemma Product.fnv64aBuf_inj (buf : Bytes) {x y : UInt64} :
    Product.fnv64aBuf buf x = Product.fnv64aBuf buf y ↔ x = y := by
  induction buf generalizing x y with
  | nil => rfl
  | cons b buf ih =>
    rw [Product.fnv64aBuf_cons, Product.fnv64aBuf_cons, ih, mul_prime_inj, UInt64.xor_left_inj]

lemma fnv1a64_append (u s : Bytes) : fnv1a64 (u ++ s) = Product.fnv64aBuf s (fnv1a64 u) := by
  rw [fnv1a64_eq, fnv1a64_eq, shifts_eq, shifts_eq]
  exact List.foldl_append

/-- **Collisions of the hash.** A common end of two keys neither makes nor breaks a collision, and
two keys that differ in one byte never collide. -/
theorem fnv1a64_collides_iff (u v s : Bytes) (b c : UInt8) :
    (fnv1a64 (u ++ s) = fnv1a64 (v ++ s) ↔ fnv1a64 u = fnv1a64 v) ∧
      (fnv1a64 (u ++ b :: s) = fnv1a64 (u ++ c :: s) ↔ b = c) := by
  simp only [fnv1a64_append]
  refine ⟨Product.fnv64aBuf_inj s, ?_⟩
  rw [Product.fnv64aBuf_cons, Product.fnv64aBuf_cons, Product.fnv64aBuf_inj, mul_prime_inj,
    UInt64.xor_right_inj]
  constructor
  · intro h
    have hnat := congrArg UInt64.toNat h
    rwa [UInt8.toNat_toUInt64, UInt8.toNat_toUInt64, UInt8.toNat_inj] at hnat
  · exact congrArg UInt8.toUInt64

end ShunyaKV.Hash
