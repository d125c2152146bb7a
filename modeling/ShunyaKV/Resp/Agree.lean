import ShunyaKV.Resp.Whole

/-!
The extractor and the decoders of whole frames agree.

Both take the bytes that spell a command: a header for the number of its strings, and before
each string a header for its length. The decoders of whole frames refuse a header that does not
fit; the extractor takes it for another number, so that its headers are bounded here.
-/

namespace ShunyaKV.Resp

open ShunyaKV.Lib.Decimal ShunyaKV.Lib.Words ShunyaKV.Shard

namespace Whole

/-- A string under a header that denotes its length, which is within the limit. -/
structure Sized (t x : Bytes) : Prop where
  header : IsHeader t
  length : denoted t = x.length
  le : x.length ≤ kMaxBulk

lemma StringAt.take {s t x : Bytes} {pos n : ℕ} (h : StringAt s pos t x)
    (hn : pos + (item t x).length ≤ n) : StringAt (s.take n) pos t x := by
  obtain ⟨rest, hbytes⟩ := h.bytes
  refine ⟨⟨rest.take (n - pos - (item t x).length), ?_⟩, h.header, h.length⟩
  rw [List.drop_take, hbytes, List.take_append, List.take_of_length_le (by omega)]

/-- The strings at a place have one length. -/
lemma StringAt.length_unique {s t x t' x' : Bytes} {pos : ℕ} (h : StringAt s pos t x)
    (h' : StringAt s pos t' x') (hs : s.length < 2 ^ 32) : x.length = x'.length := by
  have e := (h.reads hs).header.symm.trans (h'.reads hs).header
  simp only [Option.some.injEq, IntParse.ok.injEq, Nat.cast_inj] at e
  exact e.1

lemma frameLoop_bounds {s : Bytes} (hs : s.length < 2 ^ 32) {argc pos n : ℕ}
    (hpos : pos ≤ s.length) (h : frameLoop s argc pos = some (.ok n)) : pos ≤ n ∧ n ≤ s.length := by
  induction argc generalizing pos with
  | zero =>
    cases h
    exact ⟨Nat.le_refl _, hpos⟩
  | succ argc ih =>
    by_cases hstr : ∃ t x, StringAt s pos t x
    · obtain ⟨t, x, hstr⟩ := hstr
      rw [frameLoop_string hs hstr] at h
      have := ih (hstr.pos_le hs) h
      omega
    · simp only [not_exists] at hstr
      rcases frameLoop_other hs hstr argc with h' | h'
      · rw [h'] at h
        cases h
      · rw [h'] at h
        cases h

lemma length_take_lt {s : Bytes} (hs : s.length < 2 ^ 32) (n : ℕ) :
    (s.take n).length < 2 ^ 32 := by
  rw [List.length_take]
  omega

def items (ts xs : List Bytes) : Bytes := (List.zipWith item ts xs).flatten

@[simp] lemma items_nil (ts : List Bytes) : items ts [] = [] := by simp [items]
@[simp] lemma items_cons (t x : Bytes) (ts xs : List Bytes) :
    items (t :: ts) (x :: xs) = item t x ++ items ts xs := by simp [items]

/-- **What both loops go through is strings with exact headers.** -/
lemma strings_of_loops {s : Bytes} (hs : s.length < 2 ^ 32) {argc pos n : ℕ}
    {argv argv' : List Bytes} (hpos : pos ≤ s.length) (h : frameLoop s argc pos = some (.ok n))
    (h' : commandLoop (s.take n) argc pos argv = some (.ok argv')) :
    ∃ ts xs rest, s.drop pos = items ts xs ++ rest ∧ List.Forall₂ Sized ts xs ∧
      xs.length = argc ∧ n = pos + (items ts xs).length ∧ argv' = argv ++ xs := by
  induction argc generalizing pos argv with
  | zero =>
    cases h
    cases h'
    exact ⟨[], [], s.drop n, by simp, .nil, rfl, by simp, by simp⟩
  | succ argc ih =>
    by_cases hstr : ∃ t x, StringAt s pos t x
    · obtain ⟨t, x, hstr⟩ := hstr
      rw [frameLoop_string hs hstr] at h
      have hcut := hstr.take (frameLoop_bounds hs (hstr.pos_le hs) h).1
      by_cases hx : x.length ≤ kMaxBulk
      · rw [commandLoop_string (length_take_lt hs n) hcut hx] at h'
        obtain ⟨ts, xs, rest, hdrop, hsized, rfl, rfl, rfl⟩ := ih (hstr.pos_le hs) h h'
        obtain ⟨rest', hbytes⟩ := hstr.bytes
        rw [← List.drop_drop, hbytes, List.drop_left] at hdrop
        refine ⟨t :: ts, x :: xs, rest, ?_, .cons ⟨hstr.header, hstr.length, hx⟩ hsized, rfl, ?_,
          by simp⟩
        · rw [hbytes, hdrop, items_cons, List.append_assoc]
        · rw [items_cons, List.length_append, Nat.add_assoc]
      · -- a string that is too long is measured, but not read
        have hlong (t' x' : Bytes) (hx' : StringAt (s.take n) pos t' x') :
            kMaxBulk < x'.length := by
          have := hcut.length_unique hx' (length_take_lt hs n)
          omega
        obtain ⟨msg, hmsg⟩ := commandLoop_other (length_take_lt hs n) hlong argc argv
        rw [hmsg] at h'
        cases h'
    · simp only [not_exists] at hstr
      rcases frameLoop_other hs hstr argc with h₁ | h₁
      · rw [h₁] at h
        cases h
      · rw [h₁] at h
        cases h

lemma loops_of_strings {s : Bytes} (hs : s.length < 2 ^ 32) {pos : ℕ} {ts xs : List Bytes}
    {rest : Bytes} (argv : List Bytes) (hdrop : s.drop pos = items ts xs ++ rest)
    (hsized : List.Forall₂ Sized ts xs) :
    frameLoop s xs.length pos = some (.ok (pos + (items ts xs).length)) ∧
      commandLoop (s.take (pos + (items ts xs).length)) xs.length pos argv =
        some (.ok (argv ++ xs)) := by
  induction hsized generalizing pos argv with
  | nil => exact ⟨rfl, by simp [commandLoop]⟩
  | @cons t x ts xs hx _ ih =>
    rw [items_cons, List.append_assoc] at hdrop
    have hstr : StringAt s pos t x := ⟨⟨_, hdrop⟩, hx.header, hx.length⟩
    have hnext : s.drop (pos + (item t x).length) = items ts xs ++ rest := by
      rw [← List.drop_drop, hdrop, List.drop_left]
    obtain ⟨hframe, hcommand⟩ := ih (argv ++ [x]) hnext
    rw [items_cons, List.length_append, ← Nat.add_assoc, List.length_cons,
      frameLoop_string hs hstr,
      commandLoop_string (length_take_lt hs _) (hstr.take (Nat.le_add_right _ _)) hx.le]
    rw [List.append_assoc, List.singleton_append] at hcommand
    exact ⟨hframe, hcommand⟩

/-- The bytes `f` spell the command `argv`, with whatever zeros or sign in their headers. -/
def Spells (f : Bytes) (argv : List Bytes) : Prop :=
  ∃ t ts, f = ascii "*" ++ t ++ writeCrlf ++ items ts argv ∧ IsHeader t ∧
    denoted t = argv.length ∧ 1 ≤ argv.length ∧ argv.length ≤ kMaxArgs ∧
    List.Forall₂ Sized ts argv

lemma parseIntCrlf_take {s : Bytes} {pos pos' n : ℕ} {v : ℤ}
    (h : parseIntCrlf s pos = some (.ok v pos')) (hn : pos' ≤ n) :
    parseIntCrlf (s.take n) pos = some (.ok v pos') := by
  rw [parseIntCrlf_eq_ok_iff] at h ⊢
  obtain ⟨t, rest, hdrop, ht, hv, hrange, rfl⟩ := h
  refine ⟨t, rest.take (n - pos - (t ++ writeCrlf).length), ?_, ht, hv, hrange, rfl⟩
  rw [List.drop_take, hdrop, List.take_append, List.take_of_length_le]
  simp only [List.length_append, writeCrlf_eq, List.length_cons, List.length_nil]
  omega

lemma parseFrameLength_eq_ok {s : Bytes} {n : ℕ} (h : parseFrameLength s = some (.ok n)) :
    s.head? = some 42 ∧ ∃ argc pos, parseIntCrlf s 1 = some (.ok argc pos) ∧ 0 < argc ∧
      frameLoop s argc.toNat pos = some (.ok n) := by
  unfold parseFrameLength at h
  split at h
  · cases h
  · split at h
    · cases h
    · next hstar =>
      obtain ⟨r, hr⟩ := parseIntCrlf_reads s 1
      rw [hr] at h
      cases r with
      | needMore => cases h
      | invalid => cases h
      | ok argc pos =>
        simp only [Option.bind_eq_bind, Option.bind_some] at h
        split at h
        · cases h
        · exact ⟨not_not.mp hstar, argc, pos, hr, by omega, h⟩

lemma parseFrameLength_eq {s : Bytes} {argc : ℤ} {pos : ℕ} (hstar : s.head? = some 42)
    (hint : parseIntCrlf s 1 = some (.ok argc pos)) (hargc : 0 < argc) :
    parseFrameLength s = frameLoop s argc.toNat pos := by
  have hne : s ≠ [] := by
    rintro rfl
    simp at hstar
  rw [parseFrameLength, if_neg hne, if_neg (by simp [hstar]), hint]
  simp only [Option.bind_eq_bind, Option.bind_some]
  rw [if_neg (by omega)]

lemma parseCommandFromFrame_eq {s : Bytes} {argc : ℤ} {pos : ℕ} (hstar : s.head? = some 42)
    (hint : parseIntCrlf s 1 = some (.ok argc pos)) (hargc : 0 < argc) :
    parseCommandFromFrame s =
      if maxArgs < argc then some (fail "too many arguments")
      else commandLoop s argc.toNat pos [] := by
  have hne : s ≠ [] := by
    rintro rfl
    simp at hstar
  rw [parseCommandFromFrame, if_neg (by simp [hne, hstar]), hint]
  simp only [Option.bind_eq_bind, Option.bind_some]
  rw [if_neg (by omega)]

lemma ascii_star : ascii "*" = [42] := by decide

lemma star_header_iff {s t rest : Bytes} :
    s.head? = some 42 ∧ s.drop 1 = t ++ writeCrlf ++ rest ↔
      s = ascii "*" ++ t ++ writeCrlf ++ rest := by
  rw [ascii_star]
  cases s with
  | nil => simp
  | cons b s => simp

lemma drop_header (t rest : Bytes) :
    (ascii "*" ++ t ++ writeCrlf ++ rest).drop (1 + t.length + 2) = rest := by
  refine List.drop_left' ?_
  simp only [List.length_append, writeCrlf_eq, ascii_star, List.length_cons, List.length_nil]

lemma spells_of_decoded {s : Bytes} (hs : s.length < 2 ^ 32) {n : ℕ} {argv : List Bytes}
    (h : parseFrameLength s = some (.ok n))
    (h' : parseCommandFromFrame (s.take n) = some (.ok argv)) :
    n ≤ s.length ∧ Spells (s.take n) argv := by
  obtain ⟨hstar, argc, pos, hint, hargc, hframe⟩ := parseFrameLength_eq_ok h
  obtain ⟨t, rest, hdrop, ht, hden, -, hpos⟩ := parseIntCrlf_eq_ok_iff.mp hint
  have hbytes := star_header_iff.mp ⟨hstar, hdrop⟩
  have hle := frameLoop_bounds hs (parseIntCrlf_bounds hint).1 hframe
  have hstar' : (s.take n).head? = some 42 := by
    rw [List.head?_take, if_neg (by omega), hstar]
  rw [parseCommandFromFrame_eq hstar' (parseIntCrlf_take hint hle.1) hargc] at h'
  split at h'
  · cases h'
  · next hmax =>
    obtain ⟨ts, xs, rest', hitems, hsized, hlen, hn, hargv⟩ :=
      strings_of_loops hs (parseIntCrlf_bounds hint).1 hframe h'
    rw [List.nil_append] at hargv
    subst hargv
    rw [hpos, hbytes, drop_header] at hitems
    refine ⟨hle.2, t, ts, ?_, ht, by omega, by omega, ?_, hsized⟩
    · rw [hbytes, hitems, ← List.append_assoc, List.take_left']
      rw [hn, hpos, List.length_append]
      simp only [List.length_append, writeCrlf_eq, ascii_star, List.length_cons, List.length_nil]
    · unfold maxArgs at hmax
      unfold kMaxArgs
      omega

/-- A header with a small number is found at the front. -/
lemma parseIntCrlf_header {t : Bytes} {argc : ℕ} (ht : IsHeader t) (hden : denoted t = argc)
    (hargc : argc < 2 ^ 63) (rest : Bytes) :
    parseIntCrlf (ascii "*" ++ t ++ writeCrlf ++ rest) 1 = some (.ok argc (1 + t.length + 2)) :=
  parseIntCrlf_eq_ok_iff.mpr ⟨t, rest, (star_header_iff.mpr rfl).2, ht, hden, by
    unfold IsInt64
    omega, rfl⟩

lemma decoded_of_spells {f rest : Bytes} (hs : (f ++ rest).length < 2 ^ 32) {argv : List Bytes}
    (h : Spells f argv) :
    parseFrameLength (f ++ rest) = some (.ok f.length) ∧
      parseCommandFromFrame f = some (.ok argv) := by
  obtain ⟨t, ts, rfl, ht, hden, hpos, hle, hsized⟩ := h
  unfold kMaxArgs at hle
  have hint := parseIntCrlf_header ht hden (by omega)
  have hbytes := List.append_assoc (ascii "*" ++ t ++ writeCrlf) (items ts argv) rest
  have hitems : (ascii "*" ++ t ++ writeCrlf ++ items ts argv ++ rest).drop (1 + t.length + 2) =
      items ts argv ++ rest := by rw [hbytes, drop_header]
  obtain ⟨hframe, hcommand⟩ := loops_of_strings hs [] hitems hsized
  have hn : 1 + t.length + 2 + (items ts argv).length =
      (ascii "*" ++ t ++ writeCrlf ++ items ts argv).length := by
    simp only [List.length_append, writeCrlf_eq, ascii_star, List.length_cons, List.length_nil]
  rw [hn] at hframe hcommand
  rw [List.take_left' rfl] at hcommand
  constructor
  · rw [hbytes] at hframe ⊢
    rw [parseFrameLength_eq (star_header_iff.mpr rfl).1 (hint _) (by omega)]
    exact hframe
  · rw [parseCommandFromFrame_eq (star_header_iff.mpr rfl).1 (hint _) (by omega),
      if_neg (by unfold maxArgs; omega)]
    exact hcommand

example : parseFrameLength (ascii "*1\r\n$4\r\nQUIT\r\n*") = some (.ok 14) ∧
    parseCommandFromFrame (ascii "*1\r\n$4\r\nQUIT\r\n") = some (.ok [ascii "QUIT"]) := by
  decide +kernel

end Whole

open Whole

/-! ### The extractor on a command -/

lemma readInt_of_header {t : Bytes} (ht : IsHeader t) (hfit : InInt64 t) :
    readInt t = some (denoted t) := by
  have hread : readInt t = if digitsOf t = [] then none else
      (readDigits 0 (digitsOf t)).map fun v => if t.head? = some 45 then wrap64 (-v) else v := rfl
  rw [hread, if_neg ht.1, readDigits_value ht.2 hfit, Option.map_some]
  unfold denoted InInt64 at *
  split
  · rw [wrap64, Int.bmod_eq_of_le] <;> push_cast <;> omega
  · rfl

lemma parseIntCrlf_of_header {t : Bytes} (ht : IsHeader t) (hfit : InInt64 t) (rest : Bytes) :
    parseIntCrlf (t ++ writeCrlf ++ rest) 0 = .ok (denoted t) (t ++ writeCrlf).length := by
  have hnl : (10 : UInt8) ∉ t := not_mem_header ht (by decide) (by decide)
  rw [parseIntCrlf_line List.drop_zero hnl, readInt_of_header ht hfit, Nat.zero_add]

/-- The moves from a place on, up to the one that ends the call. -/
inductive Scans : Place → Bytes → Output → Bytes → Prop
  | done {pl : Place} {a a' : Bytes} {o : Output} (h : scan pl a = .done o a') : Scans pl a o a'
  | go {pl pl' : Place} {a a' a'' : Bytes} {o : Output} (h : scan pl a = .go pl' a')
      (hs : Scans pl' a' o a'') : Scans pl a o a''

lemma Scans.of_go {pl pl' : Place} {a a' a'' : Bytes} {o : Output} (h : Scans pl a o a'')
    (hgo : scan pl a = .go pl' a') : Scans pl' a' o a'' := by
  cases h with
  | done h => rw [h] at hgo; cases hgo
  | go h hs =>
    rw [h] at hgo
    cases hgo
    exact hs

/-- A call makes the moves of the scan. -/
lemma Rep.scans {buf a a' : Bytes} {p : Processor} {pl : Place} {o : Output}
    (h : Rep buf p pl a) (hs : Scans pl a o a') (hbuf : buf.length < 2 ^ 32) :
    (tryExtractRequest p buf).2.2 = .request o.request := by
  obtain ⟨pl₁, a₁, p', buf', hs₁, -, hend⟩ :=
    h.call (I := fun pl a => Scans pl a o a') (fun _ _ _ _ hI hgo => hI.of_go hgo) hs hbuf
  rcases hend with ⟨hwait, -, -⟩ | ⟨o', a'', hdone, -, hcall⟩
  · cases hs₁ with
    | done h => rw [h] at hwait; cases hwait
    | go h => rw [h] at hwait; cases hwait
  · cases hs₁ with
    | done h =>
      rw [h] at hdone
      cases hdone
      rw [hcall]
    | go h => rw [h] at hdone; cases hdone

lemma fits_of_denoted {t : Bytes} {n m : ℕ} (hden : denoted t = n) (hn : n ≤ m)
    (hm : m < 2 ^ 63) : InInt64 t := by
  unfold denoted InInt64 at *
  split at hden <;> omega

lemma scan_header {t rest : Bytes} {n : ℕ} {bad : ℤ → Bool} (ht : IsHeader t)
    (hden : denoted t = n) (hfit : InInt64 t) (hbad : bad n = false) (msg : String)
    (next : Bytes → ℤ → Place) :
    Move.header (t ++ writeCrlf ++ rest) bad msg next = .go (next (t ++ writeCrlf) n) rest := by
  rw [Move.header, parseIntCrlf_of_header ht hfit]
  simp only [hden, hbad, Bool.false_eq_true, if_false, List.take_left', List.drop_left']

lemma scan_star (a : Bytes) : scan .between (42 :: a) = .go (.argc (ascii "*")) a := rfl

lemma scan_dollar (seen a : Bytes) (argc : ℕ) (argv : List Bytes) :
    scan (.dollar seen argc argv) (36 :: a) = .go (.bulkLen (seen ++ ascii "$") argc argv) a := rfl

lemma scan_payload (seen x a : Bytes) (argc : ℕ) (argv : List Bytes) :
    scan (.bulkData seen argc argv x.length) (x ++ a) =
      .go (.bulkCrlf (seen ++ x) argc (argv ++ [x])) a := by
  simp [scan]

lemma scan_crlf (seen a : Bytes) (argc : ℕ) (argv : List Bytes) :
    scan (.bulkCrlf seen argc argv) (writeCrlf ++ a) =
      if argv.length = argc then .done (.command ⟨seen ++ writeCrlf, argv⟩) a
      else .go (.dollar (seen ++ writeCrlf) argc argv) a := by
  simp [scan, writeCrlf_eq]

lemma Scans.string {seen t x a a' : Bytes} {argc : ℕ} {argv : List Bytes} {o : Output}
    (hx : Sized t x)
    (h : Scans (.bulkCrlf (seen ++ ascii "$" ++ (t ++ writeCrlf) ++ x) argc (argv ++ [x]))
      (writeCrlf ++ a) o a') :
    Scans (.dollar seen argc argv) (item t x ++ a) o a' := by
  have hle := hx.le
  have hbytes : item t x ++ a = 36 :: (t ++ writeCrlf ++ (x ++ (writeCrlf ++ a))) := by
    simp [item, ascii]
  have hfit : InInt64 t := fits_of_denoted hx.length hx.le (by decide)
  have hheader : scan (.bulkLen (seen ++ ascii "$") argc argv)
      (t ++ writeCrlf ++ (x ++ (writeCrlf ++ a))) =
      .go (.bulkData (seen ++ ascii "$" ++ (t ++ writeCrlf)) argc argv x.length)
        (x ++ (writeCrlf ++ a)) := by
    simp only [scan]
    rw [scan_header hx.header hx.length hfit]
    · simp
    · simpa using hle
  rw [hbytes]
  exact .go (scan_dollar _ _ _ _) (.go hheader (.go (scan_payload _ _ _ _ _) h))

lemma scans_strings (seen rest : Bytes) {argc : ℕ} (argv : List Bytes) {ts xs : List Bytes}
    (hsized : List.Forall₂ Sized ts xs) (hne : xs ≠ []) (hargc : argv.length + xs.length = argc) :
    Scans (.dollar seen argc argv) (items ts xs ++ rest)
      (.command ⟨seen ++ items ts xs, argv ++ xs⟩) rest := by
  induction hsized generalizing seen argv with
  | nil => exact absurd rfl hne
  | @cons t x ts xs hx hsized ih =>
    have hseen : seen ++ ascii "$" ++ (t ++ writeCrlf) ++ x ++ writeCrlf = seen ++ item t x := by
      simp [item]
    have hcrlf := scan_crlf (seen ++ ascii "$" ++ (t ++ writeCrlf) ++ x) (items ts xs ++ rest)
      argc (argv ++ [x])
    rw [items_cons, List.append_assoc]
    refine .string hx ?_
    by_cases hlast : xs = []
    · -- the line end of the last string ends the command
      subst hlast
      rw [if_pos (by simpa using hargc), hseen] at hcrlf
      refine .done ?_
      simpa using hcrlf
    · have hpos := List.length_pos_iff.mpr hlast
      rw [List.length_cons] at hargc
      rw [if_neg (by simp only [List.length_append, List.length_singleton]; omega), hseen] at hcrlf
      have hnext := ih (seen ++ item t x) (argv ++ [x]) hlast
        (by simp only [List.length_append, List.length_singleton]; omega)
      rw [List.append_assoc, List.append_assoc, List.singleton_append] at hnext
      exact .go hcrlf hnext

lemma scans_command {f : Bytes} {argv : List Bytes} (h : Spells f argv) (rest : Bytes) :
    Scans .between (f ++ rest) (.command ⟨f, argv⟩) rest := by
  obtain ⟨t, ts, rfl, ht, hden, hpos, hle, hsized⟩ := h
  have hbytes : ascii "*" ++ t ++ writeCrlf ++ items ts argv ++ rest =
      42 :: (t ++ writeCrlf ++ (items ts argv ++ rest)) := by simp [ascii]
  have hfit : InInt64 t := fits_of_denoted hden hle (by decide)
  have hstrings := scans_strings (ascii "*" ++ t ++ writeCrlf) rest [] hsized
    (List.length_pos_iff.mp hpos) (Nat.zero_add argv.length)
  have hheader : scan (.argc (ascii "*")) (t ++ writeCrlf ++ (items ts argv ++ rest)) =
      .go (.dollar (ascii "*" ++ (t ++ writeCrlf)) argv.length []) (items ts argv ++ rest) := by
    simp only [scan]
    rw [scan_header ht hden hfit]
    · simp
    · simp only [decide_eq_false_iff_not]
      omega
  rw [List.append_assoc (ascii "*")] at hstrings
  rw [hbytes, List.append_assoc (ascii "*")]
  exact .go (scan_star _) (.go hheader hstrings)

/-! ### What the extractor takes for a command -/

/-- A header of the frame at the front of `s`: that of the number of its strings, or that of a
string after as many strings with exact headers, as long as there are strings to come. -/
inductive LengthHeader (s : Bytes) : Bytes → Prop
  | count {t rest : Bytes} (hs : s = ascii "*" ++ t ++ writeCrlf ++ rest) (ht : IsHeader t) :
    LengthHeader s t
  | bulk {t₀ t rest : Bytes} {ts xs : List Bytes}
      (hs : s = ascii "*" ++ t₀ ++ writeCrlf ++ items ts xs ++ ascii "$" ++ t ++ writeCrlf ++ rest)
      (h₀ : IsHeader t₀) (hsized : List.Forall₂ Sized ts xs) (hlt : xs.length < denoted t₀)
      (ht : IsHeader t) : LengthHeader s t

lemma fits_of_digits {t : Bytes} (ht : IsHeader t) (hlen : (digitsOf t).length ≤ 18) :
    InInt64 t := by
  have hlt := value_lt ht.2 0
  have hpow : 10 ^ (digitsOf t).length ≤ 10 ^ 18 := Nat.pow_le_pow_right (by decide) hlen
  unfold InInt64
  omega

lemma sized_of_read {s t₀ rest : Bytes} (h₀ : IsHeader t₀)
    (hdigits : ∀ t, LengthHeader s t → (digitsOf t).length ≤ 18) {ts xs ts' xs' : List Bytes}
    (hs : s = ascii "*" ++ t₀ ++ writeCrlf ++ items ts xs ++ items ts' xs' ++ rest)
    (hsized : List.Forall₂ Sized ts xs) (hcount : (xs.length + xs'.length : ℕ) ≤ denoted t₀)
    (hread : List.Forall₂ (fun t x => readInt t = some (x.length : ℤ) ∧ x.length ≤ kMaxBulk)
      ts' xs') : List.Forall₂ Sized ts' xs' := by
  induction hread generalizing ts xs with
  | nil => exact .nil
  | @cons t x ts' xs' hx _ ih =>
    obtain ⟨ht, hden⟩ := isHeader_of_readInt hx.1
    rw [List.length_cons] at hcount
    have hbytes : s = ascii "*" ++ t₀ ++ writeCrlf ++ items ts xs ++ ascii "$" ++ t ++ writeCrlf ++
        (x ++ writeCrlf ++ items ts' xs' ++ rest) := by
      rw [hs]
      simp [item]
    have hheader : LengthHeader s t := .bulk hbytes h₀ hsized (by omega) ht
    have hsx : Sized t x := ⟨ht, (hden (fits_of_digits ht (hdigits t hheader))).symm, hx.2⟩
    have hnext : s = ascii "*" ++ t₀ ++ writeCrlf ++ items (ts ++ [t]) (xs ++ [x]) ++
        items ts' xs' ++ rest := by
      rw [hs]
      simp [items, List.zipWith_append hsized.length_eq]
    refine .cons hsx (ih hnext (List.rel_append hsized (.cons hsx .nil)) ?_)
    simp only [List.length_append, List.length_singleton]
    omega

lemma rep_fresh (s : Bytes) : Rep s {} .between s := .between rfl (Nat.zero_le _)

lemma argv_of_call {s : Bytes} {r : ParsedRequest}
    (h : (tryExtractRequest {} s).2.2 = .request r) (herr : ¬ ProtocolError r) : r.argv ≠ [] := by
  have hsliced : Sliced {} s := ⟨Nat.zero_le _, nofun⟩
  rcases hcall : tryExtractRequest {} s with ⟨p', buf', r'⟩
  rw [hcall] at h
  exact ((hsliced.call hcall).2 r h).resolve_left herr

/-- The command that a first call returns is at the front of the bytes. -/
lemma frame_of_call {s : Bytes} (hs : s.length < 2 ^ 32) {r : ParsedRequest}
    (h : (tryExtractRequest {} s).2.2 = .request r) (hargv : r.argv ≠ []) :
    IsFrame r ∧ ∃ rest, s = r.frame ++ rest := by
  obtain ⟨pl, a, p', buf', ⟨hseen, hbegun⟩, -, hend⟩ :=
    (rep_fresh s).call (I := fun pl a => s = pl.seen ++ a ∧ pl.Begun) (by
      rintro pl a pl' a' ⟨hseen, hb⟩ hgo
      have hstep := steps_of_scan hgo
      obtain ⟨d, rfl, hd⟩ := hstep.consumes
      exact ⟨by rw [hseen, hd, List.append_assoc], hstep.begun hb⟩) ⟨rfl, trivial⟩ hs
  rcases hend with ⟨-, -, hcall⟩ | ⟨o, a', hdone, -, hcall⟩
  · rw [hcall] at h
    cases h
  · rw [hcall] at h
    cases h
    cases ends_of_scan hdone with
    | badLine | badFrame => exact absurd rfl hargv
    | command seen a argv =>
      obtain ⟨s₀, u, rfl, argv', x, rfl, hopened, hx⟩ := hbegun
      refine ⟨?_, a', by simp [hseen, Place.seen, Output.request]⟩
      have := hopened.snoc hx
      rwa [← List.append_assoc] at this

lemma spells_of_call {s : Bytes} (hs : s.length < 2 ^ 32)
    (hdigits : ∀ t, LengthHeader s t → (digitsOf t).length ≤ 18) {r : ParsedRequest}
    (h : (tryExtractRequest {} s).2.2 = .request r) (hargv : r.argv ≠ []) :
    Spells r.frame r.argv ∧ ∃ rest, s = r.frame ++ rest := by
  obtain ⟨⟨t, its, hframe, ⟨-, hread⟩, hpos, hle, hitems⟩, rest, hrest⟩ := frame_of_call hs h hargv
  obtain ⟨ts, rfl, hts⟩ := headers_of_items hitems
  obtain ⟨ht, hden⟩ := isHeader_of_readInt hread
  have hbytes : r.frame = ascii "*" ++ t ++ writeCrlf ++ items ts r.argv := hframe
  have hs' : s = ascii "*" ++ t ++ writeCrlf ++ (items ts r.argv ++ rest) := by
    rw [hrest, hbytes, List.append_assoc]
  have hden := hden (fits_of_digits ht (hdigits t (.count hs' ht)))
  refine ⟨⟨t, ts, hbytes, ht, hden.symm, hpos, hle, ?_⟩, rest, hrest⟩
  have hs'' : s = ascii "*" ++ t ++ writeCrlf ++ items [] [] ++ items ts r.argv ++ rest := by
    rw [hs']
    simp
  refine sized_of_read ht hdigits hs'' .nil ?_ hts
  rw [← hden]
  simp

/-- **The extractor and the decoders of whole frames agree.** On bytes without a header of more
than 18 digits, the first call of an extractor returns a command exactly if the bytes begin
with a frame that both decoders take; its frame and its arguments are theirs. No decoder of
whole frames looks past the end of the bytes, whatever the headers are. -/
theorem decoders_agree {s : Bytes} (hs : s.length < 2 ^ 32) :
    ((∀ t, LengthHeader s t → (digitsOf t).length ≤ 18) → ∀ r : ParsedRequest,
      (tryExtractRequest {} s).2.2 = .request r ∧ ¬ ProtocolError r ↔
        ∃ n, parseFrameLength s = some (.ok n) ∧
          parseCommandFromFrame (s.take n) = some (.ok r.argv) ∧ r.frame = s.take n) ∧
      parseFrameLength s ≠ none ∧ parseCommandFromFrame s ≠ none := by
  refine ⟨fun hdigits r => ⟨?_, ?_⟩, ?_, ?_⟩
  · rintro ⟨h, herr⟩
    obtain ⟨hspells, rest, rfl⟩ := spells_of_call hs hdigits h (argv_of_call h herr)
    obtain ⟨hlength, hcommand⟩ := decoded_of_spells hs hspells
    refine ⟨r.frame.length, hlength, ?_, ?_⟩ <;> rw [List.take_left' rfl]
    exact hcommand
  · rintro ⟨n, hlength, hcommand, hframe⟩
    obtain ⟨hn, hspells⟩ := spells_of_decoded hs hlength hcommand
    have hscans := scans_command hspells (s.drop n)
    rw [List.take_append_drop, ← hframe] at hscans
    refine ⟨(rep_fresh s).scans hscans hs, fun herr => ?_⟩
    obtain ⟨t, ts, -, -, -, hpos, -⟩ := hspells
    rw [herr.argv] at hpos
    exact absurd hpos (by decide)
  · obtain ⟨r, hr⟩ := parseFrameLength_reads hs
    simp [hr]
  · obtain ⟨r, hr⟩ := parseCommandFromFrame_reads hs
    simp [hr]

lemma LengthHeader.length_le {s t : Bytes} (h : LengthHeader s t) :
    (digitsOf t).length ≤ s.length := by
  have hdigits : (digitsOf t).length ≤ t.length := by
    unfold digitsOf
    split
    · simp
    · exact Nat.le_refl _
  refine Nat.le_trans hdigits ?_
  cases h with
  | count hs => rw [hs]; simp only [List.length_append]; omega
  | bulk hs => rw [hs]; simp only [List.length_append]; omega

/-- A command, and the beginning of another. -/
theorem decoders_agree_quit :
    ((tryExtractRequest {} (ascii "*01\r\n$4\r\nQUIT\r\n*")).2.2 =
        .request ⟨ascii "*01\r\n$4\r\nQUIT\r\n", [ascii "QUIT"]⟩ ∧
      ¬ ProtocolError ⟨ascii "*01\r\n$4\r\nQUIT\r\n", [ascii "QUIT"]⟩) ∧
    parseFrameLength (ascii "*01\r\n$4\r\nQUIT\r\n*") ≠ none := by
  have hs : (ascii "*01\r\n$4\r\nQUIT\r\n*").length = 16 := by decide
  have h := decoders_agree (s := ascii "*01\r\n$4\r\nQUIT\r\n*") (by omega)
  refine ⟨(h.1 (fun t ht => ?_) _).mpr ⟨15, ?_, ?_, ?_⟩, h.2.1⟩
  · have := ht.length_le
    omega
  · decide +kernel
  · decide +kernel
  · decide +kernel

end ShunyaKV.Resp
