import ShunyaKV.Resp.Headers

/-!
The decoders of whole frames.

They have the bytes of a frame before them, and no place to keep. One finds out where the frame
at the front of a text ends, the other reads the command in a frame. Indexing past the end of
the text has no result.
-/

namespace ShunyaKV.Resp.Whole

open ShunyaKV.Lib.Decimal ShunyaKV.Lib.Words ShunyaKV.Shard

/-- `std::from_chars` on `int64_t`: the number at the front of a text and what comes after it,
or no number, or one out of range. -/
def fromChars (s : Bytes) : Option (ℤ × Bytes) :=
  let neg := s.head? = some 45
  let body := if neg then s.tail else s
  let ds := body.takeWhile (IsDigit ·)
  let v : ℤ := if neg then -(value 0 ds : ℤ) else value 0 ds
  if ds = [] then none
  else if v < -(2 ^ 63) ∨ 2 ^ 63 ≤ v then none
  else some (v, body.dropWhile (IsDigit ·))

def find (s : Bytes) (b : UInt8) (pos : ℕ) : Option ℕ :=
  let line := (s.drop pos).takeWhile (· ≠ b)
  if line.length = (s.drop pos).length then none else some (pos + line.length)

def parseIntCrlf (s : Bytes) (pos : ℕ) : Option IntParse :=
  match find s 13 pos with
  | none => some .needMore
  | some cr =>
    if s.length ≤ cr + 1 then some .needMore
    else do
      let b ← s[cr + 1]?
      if b ≠ 10 then some .invalid
      else
        match fromChars ((s.drop pos).take (cr - pos)) with
        | some (v, []) => some (.ok v (cr + 2))
        | _ => some .invalid

/-- Whether CRLF stands at `i`; the second byte is read only after the first. -/
def crlfAt (s : Bytes) (i : ℕ) : Option Bool := do
  let cr ← s[i % 2 ^ 64]?
  if cr ≠ 13 then some false
  else do
    let lf ← s[(i + 1) % 2 ^ 64]?
    some (lf = 10)

inductive FrameLength
  | ok (frameLen : ℕ)
  | needMore
  | invalid
  deriving DecidableEq, Repr

def frameLoop (s : Bytes) : ℕ → ℕ → Option FrameLength
  | 0, pos => some (.ok pos)
  | argc + 1, pos =>
    if s.length ≤ pos then some .needMore
    else do
      let b ← s[pos]?
      if b ≠ 36 then some .invalid
      else do
        match ← parseIntCrlf s (pos + 1) with
        | .needMore => some .needMore
        | .invalid => some .invalid
        | .ok bulkLen pos =>
          if bulkLen < 0 then some .invalid
          else
            let need := (pos + bulkLen.toNat + 2) % 2 ^ 64
            if s.length < need then some .needMore
            else do
              let crlf ← crlfAt s (pos + bulkLen.toNat)
              if !crlf then some .invalid else frameLoop s argc need

def parseFrameLength (s : Bytes) : Option FrameLength :=
  if s = [] then some .needMore
  else if s.head? ≠ some 42 then some .invalid
  else do
    match ← parseIntCrlf s 1 with
    | .needMore => some .needMore
    | .invalid => some .invalid
    | .ok argc pos => if argc ≤ 0 then some .invalid else frameLoop s argc.toNat pos

abbrev Parsed := Except String (List Bytes)

def fail (msg : String) : Parsed := .error ("RESP error: " ++ msg)

def maxArgs : ℤ := 1024
def maxBulk : ℤ := 64 * 1024 * 1024

/-- The strings that are left, from `pos` on, after `argv`. -/
def commandLoop (s : Bytes) : ℕ → ℕ → List Bytes → Option Parsed
  | 0, _, argv => some (.ok argv)
  | argc + 1, pos, argv =>
    if s.length ≤ pos then some (fail "expected bulk string '$' in array")
    else do
      let b ← s[pos]?
      if b ≠ 36 then some (fail "expected bulk string '$' in array")
      else do
        match ← parseIntCrlf s (pos + 1) with
        | .needMore => some (fail "invalid bulk length")
        | .invalid => some (fail "invalid bulk length")
        | .ok len pos =>
          if len < 0 then some (fail "invalid bulk length")
          else if maxBulk < len then some (fail "bulk string too large")
          else
            let need := (pos + len.toNat + 2) % 2 ^ 64
            if s.length < need then some (fail "invalid bulk payload")
            else do
              let crlf ← crlfAt s (pos + len.toNat)
              if !crlf then some (fail "invalid bulk payload")
              else do
                let x ← substr s pos len.toNat
                commandLoop s argc need (argv ++ [x])

def parseCommandFromFrame (s : Bytes) : Option Parsed :=
  if s = [] ∨ s.head? ≠ some 42 then some (fail "expected array '*'")
  else do
    match ← parseIntCrlf s 1 with
    | .needMore => some (fail "invalid array length")
    | .invalid => some (fail "invalid array length")
    | .ok argc pos =>
      if argc ≤ 0 then some (fail "invalid array length")
      else if maxArgs < argc then some (fail "too many arguments")
      else commandLoop s argc.toNat pos []

/-! ### Headers -/

lemma mem_header {t : Bytes} {b : UInt8} (ht : IsHeader t) (hb : b ∈ t) : b = 45 ∨ IsDigit b := by
  by_cases hneg : t.head? = some 45
  · obtain ⟨u, rfl⟩ : ∃ u, t = 45 :: u := by
      cases t with
      | nil => simp at hneg
      | cons c u => exact ⟨u, by simpa using hneg⟩
    rcases List.mem_cons.mp hb with rfl | hb
    · exact .inl rfl
    · exact .inr (ht.2 b (by simpa [digitsOf] using hb))
  · exact .inr (ht.2 b (by simpa [digitsOf, hneg] using hb))

lemma not_mem_header {t : Bytes} {b : UInt8} (ht : IsHeader t) (hne : b ≠ 45) (hb : ¬ IsDigit b) :
    b ∉ t := fun hmem => (mem_header ht hmem).elim hne hb

def IsInt64 (v : ℤ) : Prop := -(2 ^ 63) ≤ v ∧ v < 2 ^ 63

/-- The integer of the digits `ds` under the sign of `t`. -/
def signed (t ds : Bytes) : ℤ := if t.head? = some 45 then -(value 0 ds : ℤ) else value 0 ds

lemma fromChars_eq (t : Bytes) : fromChars t =
    if (digitsOf t).takeWhile (IsDigit ·) = [] then none
    else if signed t ((digitsOf t).takeWhile (IsDigit ·)) < -(2 ^ 63) ∨
      2 ^ 63 ≤ signed t ((digitsOf t).takeWhile (IsDigit ·)) then none
    else some (signed t ((digitsOf t).takeWhile (IsDigit ·)),
      (digitsOf t).dropWhile (IsDigit ·)) := rfl

lemma fromChars_eq_some_iff {t : Bytes} {v : ℤ} :
    fromChars t = some (v, []) ↔ IsHeader t ∧ denoted t = v ∧ IsInt64 v := by
  have hall : (digitsOf t).dropWhile (IsDigit ·) = [] ↔ ∀ b ∈ digitsOf t, IsDigit b := by
    simp [List.dropWhile_eq_nil_iff]
  have hself (h : ∀ b ∈ digitsOf t, IsDigit b) :
      (digitsOf t).takeWhile (IsDigit ·) = digitsOf t := by
    simpa [List.takeWhile_eq_self_iff] using h
  have hden : signed t (digitsOf t) = denoted t := rfl
  rw [fromChars_eq]
  constructor
  · intro h
    split at h
    · cases h
    · next hne =>
      split at h
      · cases h
      · next hrange =>
        rw [Option.some.injEq, Prod.mk.injEq] at h
        obtain ⟨rfl, hnil⟩ := h
        have hd := hall.mp hnil
        rw [hself hd] at hne hrange ⊢
        rw [hden] at hrange ⊢
        exact ⟨⟨hne, hd⟩, rfl, by unfold IsInt64; omega⟩
  · rintro ⟨⟨hne, hd⟩, rfl, hlo, hhi⟩
    rw [hself hd, hall.mpr hd, hden, if_neg hne, if_neg (by omega)]

lemma find_cases (s : Bytes) (b : UInt8) (pos : ℕ) :
    (b ∉ s.drop pos ∧ find s b pos = none) ∨
      ∃ l r, s.drop pos = l ++ b :: r ∧ b ∉ l ∧ find s b pos = some (pos + l.length) := by
  unfold find
  by_cases hmem : b ∈ s.drop pos
  · obtain ⟨l, r, hlr, hl⟩ := List.eq_append_cons_of_mem hmem
    refine .inr ⟨l, r, hlr, hl, ?_⟩
    simp only [hlr, takeWhile_ne_append hl]
    exact if_neg (by simp)
  · exact .inl ⟨hmem, by simp only [takeWhile_ne_self hmem, if_true]⟩

/-- A header is what comes before the first CR, and its end must be a CRLF. -/
lemma parseIntCrlf_line {s l r : Bytes} {b : UInt8} {pos : ℕ}
    (h : s.drop pos = l ++ 13 :: b :: r) (hl : 13 ∉ l) :
    parseIntCrlf s pos = if b ≠ 10 then some .invalid else
      match fromChars l with
      | some (v, []) => some (.ok v (pos + l.length + 2))
      | _ => some .invalid := by
  have hlen : s.length = pos + (l.length + (r.length + 2)) := by
    have := congrArg List.length h
    simp only [List.length_drop, List.length_append, List.length_cons] at this
    omega
  have hget : s[pos + l.length + 1]? = some b := by
    have := congrArg (fun a => a[l.length + 1]?) h
    simpa [List.getElem?_drop, Nat.add_assoc] using this
  have hfind : find s 13 pos = some (pos + l.length) := by
    unfold find
    simp only [h, takeWhile_ne_append hl]
    exact if_neg (by simp)
  unfold parseIntCrlf
  simp only [hfind, Nat.add_sub_cancel_left, h, List.take_left']
  rw [if_neg (by omega), hget]
  rfl

lemma parseIntCrlf_cases (s : Bytes) (pos : ℕ) : parseIntCrlf s pos = some .needMore ∨
    ∃ l b r, s.drop pos = l ++ 13 :: b :: r ∧ (13 : UInt8) ∉ l := by
  rcases find_cases s 13 pos with ⟨-, hfind⟩ | ⟨l, _ | ⟨b, r⟩, hlr, hl, hfind⟩
  · exact .inl (by simp only [parseIntCrlf, hfind])
  · have hlen : s.length ≤ pos + l.length + 1 := by
      have := congrArg List.length hlr
      simp only [List.length_drop, List.length_append, List.length_singleton] at this
      omega
    exact .inl (by simp only [parseIntCrlf, hfind, if_pos hlen])
  · exact .inr ⟨l, b, r, hlr, hl⟩

lemma parseIntCrlf_eq_ok_iff {s : Bytes} {pos pos' : ℕ} {v : ℤ} :
    parseIntCrlf s pos = some (.ok v pos') ↔ ∃ t rest, s.drop pos = t ++ writeCrlf ++ rest ∧
      IsHeader t ∧ denoted t = v ∧ IsInt64 v ∧ pos' = pos + t.length + 2 := by
  constructor
  · intro h
    rcases parseIntCrlf_cases s pos with hmore | ⟨l, b, r, hlr, hl⟩
    · rw [hmore] at h
      cases h
    · rw [parseIntCrlf_line hlr hl] at h
      split at h
      · cases h
      · next hb =>
        obtain rfl : b = 10 := not_not.mp hb
        split at h
        · next hfrom =>
          cases h
          obtain ⟨ht, hv, hrange⟩ := fromChars_eq_some_iff.mp hfrom
          exact ⟨l, r, by simp [hlr, writeCrlf_eq], ht, hv, hrange, rfl⟩
        · cases h
  · rintro ⟨t, rest, hs, ht, hv, hrange, rfl⟩
    have hcr : (13 : UInt8) ∉ t := not_mem_header ht (by decide) (by decide)
    have hline : s.drop pos = t ++ 13 :: 10 :: rest := by simp [hs, writeCrlf_eq]
    rw [parseIntCrlf_line hline hcr, if_neg (by simp),
      fromChars_eq_some_iff.mpr ⟨ht, hv, hrange⟩]

/-- A header is read without a look past the end of the text. -/
lemma parseIntCrlf_reads (s : Bytes) (pos : ℕ) : ∃ r, parseIntCrlf s pos = some r := by
  rcases parseIntCrlf_cases s pos with hmore | ⟨l, b, r, hlr, hl⟩
  · exact ⟨_, hmore⟩
  · rw [parseIntCrlf_line hlr hl]
    split
    · exact ⟨_, rfl⟩
    · split
      · exact ⟨_, rfl⟩
      · exact ⟨_, rfl⟩

lemma parseIntCrlf_bounds {s : Bytes} {pos pos' : ℕ} {v : ℤ}
    (h : parseIntCrlf s pos = some (.ok v pos')) : pos' ≤ s.length ∧ v < 2 ^ 63 := by
  obtain ⟨t, rest, hs, -, -, hrange, rfl⟩ := parseIntCrlf_eq_ok_iff.mp h
  have := congrArg List.length hs
  simp only [List.length_drop, List.length_append, writeCrlf_eq, List.length_cons,
    List.length_nil] at this
  exact ⟨by omega, hrange.2⟩

/-! ### Strings -/

lemma crlfAt_eq {s : Bytes} {i : ℕ} (hi : i + 2 ≤ s.length) (hs : s.length < 2 ^ 32) :
    crlfAt s i = some (decide ((s.drop i).take 2 = writeCrlf)) := by
  obtain ⟨b, b', r, hbr⟩ : ∃ b b' r, s.drop i = b :: b' :: r := by
    rcases hd : s.drop i with _ | ⟨b, _ | ⟨b', r⟩⟩
    · have := congrArg List.length hd
      simp only [List.length_drop, List.length_nil] at this
      omega
    · have := congrArg List.length hd
      simp only [List.length_drop, List.length_singleton] at this
      omega
    · exact ⟨b, b', r, rfl⟩
  have hget (j : ℕ) : s[i + j]? = (b :: b' :: r)[j]? := by rw [← hbr, List.getElem?_drop]
  have h0 : s[i]? = some b := hget 0
  have h1 : s[i + 1]? = some b' := hget 1
  unfold crlfAt
  rw [Nat.mod_eq_of_lt (by omega), Nat.mod_eq_of_lt (by omega), h0, h1, hbr, writeCrlf_eq]
  by_cases hb : b = 13
  · simp [hb]
  · simp [hb]

/-- A string stands at `pos`, under a header that denotes its length. -/
structure StringAt (s : Bytes) (pos : ℕ) (t x : Bytes) : Prop where
  bytes : ∃ rest, s.drop pos = item t x ++ rest
  header : IsHeader t
  length : denoted t = x.length

lemma item_length (t x : Bytes) : (item t x).length = t.length + x.length + 5 := by
  have h1 : (ascii "$").length = 1 := by decide
  simp only [item, List.length_append, writeCrlf_eq, h1, List.length_cons, List.length_nil]
  omega

/-- What is found where a string stands. -/
structure Reads (s : Bytes) (pos : ℕ) (t x : Bytes) : Prop where
  dollar : s[pos]? = some 36
  header : parseIntCrlf s (pos + 1) = some (.ok x.length (pos + t.length + 3))
  fits : pos + t.length + 3 + x.length + 2 ≤ s.length
  crlf : (s.drop (pos + t.length + 3 + x.length)).take 2 = writeCrlf
  payload : substr s (pos + t.length + 3) x.length = some x

lemma StringAt.reads {s t x : Bytes} {pos : ℕ} (h : StringAt s pos t x)
    (hs : s.length < 2 ^ 32) : Reads s pos t x := by
  obtain ⟨rest, hbytes⟩ := h.bytes
  have hitem := item_length t x
  have hlen : s.length = pos + ((item t x).length + rest.length) := by
    have := congrArg List.length hbytes
    rw [List.length_drop, List.length_append] at this
    omega
  have hdrop (j : ℕ) : s.drop (pos + j) = (item t x ++ rest).drop j := by
    rw [← hbytes, List.drop_drop]
  have hdollar : ascii "$" = [36] := by decide
  -- the bytes after the sign, after the header and after the string
  have htext : s.drop (pos + 1) = t ++ writeCrlf ++ (x ++ writeCrlf ++ rest) := by
    rw [hdrop]
    simp [item, hdollar]
  have hpayload : s.drop (pos + t.length + 3) = x ++ (writeCrlf ++ rest) := by
    have : pos + t.length + 3 = pos + (ascii "$" ++ t ++ writeCrlf).length := by
      simp [hdollar, writeCrlf_eq]
      omega
    rw [this, hdrop, show item t x ++ rest =
      (ascii "$" ++ t ++ writeCrlf) ++ (x ++ (writeCrlf ++ rest)) by simp [item], List.drop_left]
  refine ⟨?_, ?_, by omega, ?_, ?_⟩
  · have := congrArg List.head? hbytes
    rwa [List.head?_drop] at this
  · rw [parseIntCrlf_eq_ok_iff]
    refine ⟨t, _, htext, h.header, h.length, ⟨by omega, by omega⟩, by omega⟩
  · rw [← List.drop_drop, hpayload, List.drop_left, List.take_left' (by decide)]
  · rw [substr, if_neg (by omega), hpayload, List.take_left' rfl]

lemma stringAt_of_reads {s : Bytes} {pos p : ℕ} {len : ℤ} (hb : s[pos]? = some 36)
    (hint : parseIntCrlf s (pos + 1) = some (.ok len p)) (hlen : ¬ len < 0)
    (hneed : p + len.toNat + 2 ≤ s.length)
    (hcrlf : (s.drop (p + len.toNat)).take 2 = writeCrlf) : ∃ t x, StringAt s pos t x := by
  obtain ⟨t, rest, htext, ht, hden, -, rfl⟩ := parseIntCrlf_eq_ok_iff.mp hint
  obtain ⟨hlt, hget⟩ := List.getElem?_eq_some_iff.mp hb
  have hafter : s.drop (pos + 1 + t.length + 2) = rest := by
    have : pos + 1 + t.length + 2 = pos + 1 + (t ++ writeCrlf).length := by
      simp [writeCrlf_eq]
      omega
    rw [this, ← List.drop_drop, htext, List.drop_left]
  rw [← List.drop_drop, hafter] at hcrlf
  have hrest : rest.length = s.length - (pos + 1 + t.length + 2) := by
    rw [← hafter, List.length_drop]
  refine ⟨t, rest.take len.toNat, ⟨(rest.drop len.toNat).drop 2, ?_⟩, ht, ?_⟩
  · have hsplit : rest = rest.take len.toNat ++ (writeCrlf ++ (rest.drop len.toNat).drop 2) := by
      rw [← hcrlf, List.take_append_drop, List.take_append_drop]
    rw [List.drop_eq_getElem_cons hlt, hget, htext]
    nth_rewrite 1 [hsplit]
    simp [item, ascii]
  · rw [hden, List.length_take]
    omega

section Loops

variable {s : Bytes} (hs : s.length < 2 ^ 32)

include hs

lemma frameLoop_string {t x : Bytes} {pos : ℕ} (h : StringAt s pos t x) (argc : ℕ) :
    frameLoop s (argc + 1) pos = frameLoop s argc (pos + (item t x).length) := by
  obtain ⟨hdollar, hheader, hfits, hcrlf, -⟩ := h.reads hs
  have hneed : (pos + t.length + 3 + x.length + 2) % 2 ^ 64 = pos + (item t x).length := by
    rw [Nat.mod_eq_of_lt (by omega), item_length]
    omega
  rw [frameLoop, if_neg (by omega), hdollar]
  simp only [Option.bind_eq_bind, Option.bind_some, ne_eq, not_true_eq_false, if_false, hheader,
    Int.toNat_natCast, crlfAt_eq (show pos + t.length + 3 + x.length + 2 ≤ s.length by omega) hs,
    hcrlf, hneed]
  rw [if_neg (by omega), if_neg (by rw [item_length]; omega)]
  rfl

/-- Where no string stands the measuring ends, and not with a length. -/
lemma frameLoop_other {pos : ℕ} (h : ∀ t x, ¬ StringAt s pos t x) (argc : ℕ) :
    frameLoop s (argc + 1) pos = some .needMore ∨ frameLoop s (argc + 1) pos = some .invalid := by
  rw [frameLoop]
  split
  · exact .inl rfl
  · next hlt =>
    have hget := List.getElem?_eq_getElem (show pos < s.length by omega)
    simp only [hget, Option.bind_eq_bind, Option.bind_some]
    split
    · exact .inr rfl
    · next hb =>
      obtain ⟨r, hr⟩ := parseIntCrlf_reads s (pos + 1)
      rw [hr]
      cases r with
      | needMore => exact .inl rfl
      | invalid => exact .inr rfl
      | ok len p =>
        obtain ⟨hp, hlen⟩ := parseIntCrlf_bounds hr
        simp only [Option.bind_some]
        split
        · exact .inr rfl
        · next hneg =>
          rw [Nat.mod_eq_of_lt (by omega)]
          split
          · exact .inl rfl
          · next hneed =>
            rw [crlfAt_eq (by omega) hs, Option.bind_some]
            split
            · exact .inr rfl
            · next hcrlf =>
              obtain ⟨t, x, hx⟩ := stringAt_of_reads (by rw [hget, not_not.mp hb]) hr hneg
                (by omega) (by simpa using hcrlf)
              exact absurd hx (h t x)

lemma commandLoop_string {t x : Bytes} {pos : ℕ} (h : StringAt s pos t x)
    (hx : x.length ≤ kMaxBulk) (argc : ℕ) (argv : List Bytes) :
    commandLoop s (argc + 1) pos argv =
      commandLoop s argc (pos + (item t x).length) (argv ++ [x]) := by
  obtain ⟨hdollar, hheader, hfits, hcrlf, hpayload⟩ := h.reads hs
  have hneed : (pos + t.length + 3 + x.length + 2) % 2 ^ 64 = pos + (item t x).length := by
    rw [Nat.mod_eq_of_lt (by omega), item_length]
    omega
  have hmax : ¬ maxBulk < x.length := by
    unfold kMaxBulk at hx
    unfold maxBulk
    omega
  rw [commandLoop, if_neg (by omega), hdollar]
  simp only [Option.bind_eq_bind, Option.bind_some, ne_eq, not_true_eq_false, if_false, hheader,
    Int.toNat_natCast, crlfAt_eq (show pos + t.length + 3 + x.length + 2 ≤ s.length by omega) hs,
    hcrlf, hneed, hpayload, if_neg hmax]
  rw [if_neg (by omega), if_neg (by rw [item_length]; omega)]
  rfl

/-- Where no string stands, or one that is too long, the reader throws. -/
lemma commandLoop_other {pos : ℕ} (h : ∀ t x, StringAt s pos t x → kMaxBulk < x.length)
    (argc : ℕ) (argv : List Bytes) :
    ∃ msg, commandLoop s (argc + 1) pos argv = some (fail msg) := by
  rw [commandLoop]
  split
  · exact ⟨_, rfl⟩
  · next hlt =>
    have hget := List.getElem?_eq_getElem (show pos < s.length by omega)
    simp only [hget, Option.bind_eq_bind, Option.bind_some]
    split
    · exact ⟨_, rfl⟩
    · next hb =>
      obtain ⟨r, hr⟩ := parseIntCrlf_reads s (pos + 1)
      rw [hr]
      cases r with
      | needMore => exact ⟨_, rfl⟩
      | invalid => exact ⟨_, rfl⟩
      | ok len p =>
        obtain ⟨hp, hlen⟩ := parseIntCrlf_bounds hr
        simp only [Option.bind_some]
        split
        · exact ⟨_, rfl⟩
        · next hneg =>
          split
          · exact ⟨_, rfl⟩
          · next hmax =>
            rw [Nat.mod_eq_of_lt (by omega)]
            split
            · exact ⟨_, rfl⟩
            · next hneed =>
              rw [crlfAt_eq (by omega) hs, Option.bind_some]
              split
              · exact ⟨_, rfl⟩
              · next hcrlf =>
                obtain ⟨t, x, hx⟩ := stringAt_of_reads (by rw [hget, not_not.mp hb]) hr hneg
                  (by omega) (by simpa using hcrlf)
                have hlong := h t x hx
                have hheader := (hx.reads hs).header
                rw [hr] at hheader
                cases hheader
                unfold kMaxBulk at hlong
                unfold maxBulk at hmax
                omega

/-! ### No read past the end -/

lemma StringAt.pos_le {t x : Bytes} {pos : ℕ} (h : StringAt s pos t x) :
    pos + (item t x).length ≤ s.length := by
  have := (h.reads hs).fits
  rw [item_length]
  omega

lemma frameLoop_reads (argc pos : ℕ) : ∃ r, frameLoop s argc pos = some r := by
  induction argc generalizing pos with
  | zero => exact ⟨_, rfl⟩
  | succ argc ih =>
    by_cases h : ∃ t x, StringAt s pos t x
    · obtain ⟨t, x, h⟩ := h
      rw [frameLoop_string hs h]
      exact ih _
    · simp only [not_exists] at h
      exact (frameLoop_other hs h argc).elim (⟨_, ·⟩) (⟨_, ·⟩)

lemma commandLoop_reads (argc pos : ℕ) (argv : List Bytes) :
    ∃ r, commandLoop s argc pos argv = some r := by
  induction argc generalizing pos argv with
  | zero => exact ⟨_, rfl⟩
  | succ argc ih =>
    by_cases h : ∃ t x, StringAt s pos t x ∧ x.length ≤ kMaxBulk
    · obtain ⟨t, x, h, hx⟩ := h
      rw [commandLoop_string hs h hx]
      exact ih _ _
    · simp only [not_exists, not_and, Nat.not_le] at h
      obtain ⟨msg, hmsg⟩ := commandLoop_other hs h argc argv
      exact ⟨_, hmsg⟩

lemma parseFrameLength_reads : ∃ r, parseFrameLength s = some r := by
  unfold parseFrameLength
  split
  · exact ⟨_, rfl⟩
  · split
    · exact ⟨_, rfl⟩
    · obtain ⟨r, hr⟩ := parseIntCrlf_reads s 1
      rw [hr]
      cases r with
      | needMore => exact ⟨_, rfl⟩
      | invalid => exact ⟨_, rfl⟩
      | ok argc pos =>
        simp only [Option.bind_eq_bind, Option.bind_some]
        split
        · exact ⟨_, rfl⟩
        · exact frameLoop_reads hs _ _

lemma parseCommandFromFrame_reads : ∃ r, parseCommandFromFrame s = some r := by
  unfold parseCommandFromFrame
  split
  · exact ⟨_, rfl⟩
  · obtain ⟨r, hr⟩ := parseIntCrlf_reads s 1
    rw [hr]
    cases r with
    | needMore => exact ⟨_, rfl⟩
    | invalid => exact ⟨_, rfl⟩
    | ok argc pos =>
      simp only [Option.bind_eq_bind, Option.bind_some]
      split
      · exact ⟨_, rfl⟩
      · split
        · exact ⟨_, rfl⟩
        · exact commandLoop_reads hs _ _ _

end Loops

end ShunyaKV.Resp.Whole
