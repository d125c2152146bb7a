import Mathlib.Data.List.Induction
import ShunyaKV.Resp.Frames

/-!
What a header denotes and what it is read as.

The digits of a header are accumulated in 64 bits. A number of up to nineteen digits may fit
or not; one that does not comes out as another number, which may well be within the limits
that are checked afterwards.
-/

namespace ShunyaKV.Resp

open ShunyaKV.Lib.Decimal ShunyaKV.Lib.Words ShunyaKV.Shard

/-! ### Headers as integers -/

/-- The header without its minus sign, if it has one. -/
def digitsOf (t : Bytes) : Bytes := if t.head? = some 45 then t.tail else t

def denoted (t : Bytes) : ℤ :=
  if t.head? = some 45 then -(value 0 (digitsOf t) : ℤ) else value 0 (digitsOf t)

/-- An optional minus sign and at least one digit. -/
def IsHeader (t : Bytes) : Prop := digitsOf t ≠ [] ∧ ∀ b ∈ digitsOf t, IsDigit b

/-- The number without its sign is an `int64_t`. -/
def InInt64 (t : Bytes) : Prop := value 0 (digitsOf t) < 2 ^ 63

/-- No step of the accumulation leaves the range of `int64_t`. -/
def InRange (ds : Bytes) : Prop :=
  ∀ (u : Bytes) (b : UInt8) (r : Bytes) (v : ℤ), ds = u ++ b :: r → readDigits 0 u = some v →
    -(2 ^ 63) ≤ v * 10 + digit b ∧ v * 10 + digit b < 2 ^ 63

lemma value_append (v : ℕ) (u w : Bytes) : value v (u ++ w) = value (value v u) w := by
  simp [value, List.foldl_append]

lemma value_snoc (u : Bytes) (b : UInt8) : value 0 (u ++ [b]) = value 0 u * 10 + digit b := by
  rw [value_append, value_cons, value_nil]

lemma digits_of_readDigits {l : Bytes} {v w : ℤ} (h : readDigits v l = some w) :
    ∀ b ∈ l, IsDigit b := by
  induction l generalizing v with
  | nil => simp
  | cons b l ih =>
    rw [readDigits] at h
    split at h
    · next hb =>
      intro c hc
      rcases List.mem_cons.mp hc with rfl | hc
      · exact hb
      · exact ih h c hc
    · cases h

lemma readDigits_value {u : Bytes} (hu : ∀ b ∈ u, IsDigit b) (hv : value 0 u < 2 ^ 63) :
    readDigits 0 u = some (value 0 u : ℤ) := by
  exact_mod_cast readDigits_eq (v := 0) hu hv

/-- **The accumulation stays in range exactly for the numbers that fit.** -/
lemma inRange_iff {ds : Bytes} (hd : ∀ b ∈ ds, IsDigit b) : InRange ds ↔ value 0 ds < 2 ^ 63 := by
  constructor
  · intro h
    induction ds using List.reverseRecOn with
    | nil => simp
    | append_singleton u b ih =>
      have hu : value 0 u < 2 ^ 63 := by
        refine ih (fun c hc => hd c (by simp [hc])) fun u' c r v hsplit hread => ?_
        exact h u' c (r ++ [b]) v (by rw [hsplit]; simp) hread
      have hread := readDigits_value (fun c hc => hd c (by simp [hc])) hu
      have hlast := (h u b [] _ rfl hread).2
      rw [value_snoc]
      omega
  · rintro h u b r v rfl hread
    have hle : value 0 (u ++ [b]) ≤ value 0 (u ++ b :: r) := by
      calc value 0 (u ++ [b]) ≤ value (value 0 (u ++ [b])) r := le_value _ _
        _ = value 0 (u ++ b :: r) := by rw [← value_append, List.append_assoc]; rfl
    rw [value_snoc] at hle
    have hread' := readDigits_value (fun c hc => hd c (by simp [hc])) (u := u) (by omega)
    obtain rfl : (value 0 u : ℤ) = v := Option.some.inj (hread'.symm.trans hread)
    omega

/-- A header is read as the integer it denotes if that fits. -/
lemma isHeader_of_readInt {t : Bytes} {v : ℤ} (h : readInt t = some v) :
    IsHeader t ∧ (InInt64 t → v = denoted t) := by
  have h : (if digitsOf t = [] then none else (readDigits 0 (digitsOf t)).map fun v =>
      if t.head? = some 45 then wrap64 (-v) else v) = some v := h
  by_cases hne : digitsOf t = []
  · rw [if_pos hne] at h
    cases h
  · rw [if_neg hne] at h
    obtain ⟨n, hread, rfl⟩ := Option.map_eq_some_iff.mp h
    have hd := digits_of_readDigits hread
    refine ⟨⟨hne, hd⟩, fun hfit => ?_⟩
    have hread' := readDigits_value hd hfit
    obtain rfl : (value 0 (digitsOf t) : ℤ) = n := Option.some.inj (hread'.symm.trans hread)
    unfold denoted
    unfold InInt64 at hfit
    split
    · rw [wrap64, Int.bmod_eq_of_le] <;> push_cast <;> omega
    · rfl

lemma readInt_iff_inInt64 {t : Bytes} {v : ℤ} (h : readInt t = some v) :
    InRange (digitsOf t) ∧ v = denoted t ↔ InInt64 t := by
  obtain ⟨⟨-, hd⟩, hv⟩ := isHeader_of_readInt h
  have hrange : InRange (digitsOf t) ↔ InInt64 t := inRange_iff hd
  exact ⟨fun h' => hrange.mp h'.1, fun hfit => ⟨hrange.mpr hfit, hv hfit⟩⟩

/-! ### Frames with their headers -/

def item (t x : Bytes) : Bytes := ascii "$" ++ t ++ writeCrlf ++ x ++ writeCrlf

/-- The request is a frame with the header `t` for the number of its strings and the headers
`ts` for their lengths. -/
structure Framed (r : ParsedRequest) (t : Bytes) (ts : List Bytes) : Prop where
  bytes : r.frame = ascii "*" ++ t ++ writeCrlf ++ (List.zipWith item ts r.argv).flatten
  headers : IsHeader t ∧ ∀ t' ∈ ts, IsHeader t'
  length : ts.length = r.argv.length

lemma headers_of_items {argv items : List Bytes} (h : List.Forall₂ Item argv items) :
    ∃ ts, items = List.zipWith item ts argv ∧
      List.Forall₂ (fun t x => readInt t = some (x.length : ℤ) ∧ x.length ≤ kMaxBulk) ts argv := by
  induction h with
  | nil => exact ⟨[], rfl, .nil⟩
  | cons hx _ ih =>
    obtain ⟨t, rfl, ⟨-, hread⟩, hle⟩ := hx
    obtain ⟨ts, rfl, hts⟩ := ih
    exact ⟨t :: ts, rfl, .cons ⟨hread, hle⟩ hts⟩

/-- A header that is read as `n`, which is small, denotes a small number exactly if it fits. -/
lemma denoted_le_iff {t : Bytes} {n : ℕ} {lo : ℕ} {hi : ℕ} (h : readInt t = some (n : ℤ))
    (hlo : lo ≤ n) (hn : n ≤ hi) (hhi : hi < 2 ^ 63) :
    ((lo : ℤ) ≤ denoted t ∧ denoted t ≤ hi) ↔ InInt64 t := by
  obtain ⟨-, hv⟩ := isHeader_of_readInt h
  constructor
  · rintro ⟨h1, h2⟩
    unfold InInt64
    by_cases hneg : t.head? = some 45
    · rw [denoted, if_pos hneg] at h1
      omega
    · rw [denoted, if_neg hneg] at h2
      omega
  · intro hfit
    rw [← hv hfit]
    omega

lemma framed_of_isFrame {r : ParsedRequest} (h : IsFrame r) :
    ∃ t ts, Framed r t ts ∧
      ((1 ≤ denoted t ∧ denoted t ≤ kMaxArgs) ∧
        (∀ t' ∈ ts, 0 ≤ denoted t' ∧ denoted t' ≤ kMaxBulk) ↔
        InInt64 t ∧ ∀ t' ∈ ts, InInt64 t') := by
  obtain ⟨t, items, hbytes, ⟨-, hread⟩, hpos, hle, hitems⟩ := h
  obtain ⟨ts, rfl, hts⟩ := headers_of_items hitems
  have hmem (t' : Bytes) (ht' : t' ∈ ts) :
      ∃ x : Bytes, readInt t' = some (x.length : ℤ) ∧ x.length ≤ kMaxBulk := by
    obtain ⟨i, hi, rfl⟩ := List.getElem_of_mem ht'
    have := (List.forall₂_iff_get.mp hts).2 i hi (by rw [← hts.length_eq]; exact hi)
    exact ⟨_, this⟩
  refine ⟨t, ts, ⟨hbytes, ⟨(isHeader_of_readInt hread).1, fun t' ht' => ?_⟩, hts.length_eq⟩, ?_⟩
  · obtain ⟨x, hx, -⟩ := hmem t' ht'
    exact (isHeader_of_readInt hx).1
  · refine and_congr ?_ (forall₂_congr fun t' ht' => ?_)
    · exact_mod_cast denoted_le_iff hread hpos hle (by decide)
    · obtain ⟨x, hx, hxle⟩ := hmem t' ht'
      exact_mod_cast denoted_le_iff hx (Nat.zero_le _) hxle (by decide)

/-- **Headers are read exactly if they fit.** A header that is accepted is an optional minus
sign and digits before CRLF. No step of its accumulation leaves the range and the result is
the integer denoted, exactly if the number without its sign is below `2 ^ 63`. A frame that is
accepted has headers that denote numbers within the limits exactly if they are all such. -/
theorem headers_exact_iff_inInt64 (buf w : Bytes) :
    (∀ (pos : ℕ) (v : ℤ) (pos' : ℕ), parseIntCrlf buf pos = .ok v pos' →
      ∃ t rest, buf.drop pos = t ++ writeCrlf ++ rest ∧ 10 ∉ t ∧ IsHeader t ∧
        (InRange (digitsOf t) ∧ v = denoted t ↔ InInt64 t)) ∧
    ∀ (rs : List ParsedRequest) (p : Processor) (left : Bytes), Fed sizeLimit w rs p left →
      ∀ r ∈ rs, ProtocolError r ∨ ∃ t ts, Framed r t ts ∧
        ((1 ≤ denoted t ∧ denoted t ≤ kMaxArgs) ∧
          (∀ t' ∈ ts, 0 ≤ denoted t' ∧ denoted t' ≤ kMaxBulk) ↔
          InInt64 t ∧ ∀ t' ∈ ts, InInt64 t') := by
  constructor
  · intro pos v pos' h
    rw [parseIntCrlf_drop] at h
    rcases hp : parseIntCrlf (buf.drop pos) 0 with ⟨v', n⟩ | _ | _ <;> rw [hp] at h <;>
      simp only [IntParse.ok.injEq, reduceCtorEq] at h
    obtain ⟨rfl, rfl⟩ := h
    obtain ⟨t, htake, hnl, hread⟩ := readInt_of_parse hp
    refine ⟨t, (buf.drop pos).drop n, ?_, hnl, (isHeader_of_readInt hread).1,
      readInt_iff_inInt64 hread⟩
    rw [← htake, List.take_append_drop]
  · intro rs p left h r hr
    obtain ⟨-, hframes, -⟩ := h.found
    rcases h.sliced.2 r hr with herr | hargv
    · exact .inl herr
    · exact .inr (framed_of_isFrame (hframes r (by simp [commands, hr, hargv])))

/-- The headers of a frame of one string fit, and so they are read as what they denote. -/
theorem headers_exact_small :
    (∃ t rest, ascii "12\r\n" = t ++ writeCrlf ++ rest ∧ 10 ∉ t ∧ IsHeader t ∧
      (InRange (digitsOf t) ∧ 12 = denoted t ↔ InInt64 t)) ∧
    ∃ rs p, Fed sizeLimit (ascii "*1\r\n$4\r\nQUIT\r\n") rs p [] ∧
      ∀ r ∈ rs, ProtocolError r ∨ ∃ t ts, Framed r t ts ∧
        ((1 ≤ denoted t ∧ denoted t ≤ kMaxArgs) ∧
          (∀ t' ∈ ts, 0 ≤ denoted t' ∧ denoted t' ≤ kMaxBulk) ↔
          InInt64 t ∧ ∀ t' ∈ ts, InInt64 t') := by
  refine ⟨(headers_exact_iff_inInt64 (ascii "12\r\n") []).1 0 12 4 (by decide +kernel), ?_⟩
  have hchunk : (ascii "*1\r\n$4\r\nQUIT\r\n").length < 2 ^ 32 := by decide
  have hfed := (fed_chunk hchunk).call rfl
  exact ⟨_, _, hfed, (headers_exact_iff_inInt64 [] _).2 _ _ _ hfed⟩

/-- A frame whose header denotes `2 ^ 64 + 1`. -/
def wrapping : Bytes := ascii "*18446744073709551617\r\n$4\r\nQUIT\r\n"

/-- The header is read as 1, and the frame is accepted. -/
theorem header_wraps_to_one :
    parseIntCrlf wrapping 1 = .ok 1 23 ∧
      denoted (ascii "18446744073709551617") = 18446744073709551617 ∧
      ¬ InRange (ascii "18446744073709551617") ∧
      ∃ p, Fed sizeLimit wrapping [⟨wrapping, [ascii "QUIT"]⟩] p [] := by
  refine ⟨by decide +kernel, by decide +kernel, fun h => ?_, ?_⟩
  · exact absurd ((inRange_iff (by decide +kernel)).mp h) (by decide +kernel)
  · have hout : (tryExtractRequest {} wrapping).2 =
        ([], .request ⟨wrapping, [ascii "QUIT"]⟩) := by decide +kernel
    have hfed : Fed sizeLimit wrapping [] {} wrapping := fed_chunk (by decide +kernel)
    have hcall : tryExtractRequest {} wrapping = ((tryExtractRequest {} wrapping).1,
        [], .request ⟨wrapping, [ascii "QUIT"]⟩) := by rw [← hout]
    exact ⟨_, hfed.call hcall⟩

end ShunyaKV.Resp
