import ShunyaKV.Resp.Calls

/-!
Requests survive the trip: the extractor gives back the commands whose encodings it is fed,
however the bytes are cut into chunks.

The invariant says what part of the current command has been consumed. It is read off the
state, and together with the bytes ahead in the buffer and those still to come it makes up
the encodings of the commands not yet returned.
-/

namespace ShunyaKV.Resp

open ShunyaKV.Lib.Decimal ShunyaKV.Lib.Words ShunyaKV.Shard

/-! ### Numerals -/

lemma readDigits_eq {l : Bytes} (hl : ∀ b ∈ l, IsDigit b) {v : ℕ} (hv : value v l < 2 ^ 63) :
    readDigits v l = some (value v l : ℤ) := by
  induction l generalizing v with
  | nil => rfl
  | cons b l ih =>
    have hle := le_value (v * 10 + digit b) l
    rw [value_cons] at hv ⊢
    have hwrap : wrap64 ((v : ℤ) * 10 + digit b) = ((v * 10 + digit b : ℕ) : ℤ) := by
      rw [wrap64, Int.bmod_eq_of_le] <;> push_cast <;> omega
    rw [readDigits, if_pos (hl b (by simp)), hwrap]
    exact ih (fun c hc => hl c (by simp [hc])) hv

lemma writeCrlf_eq : writeCrlf = [13, 10] := by decide

def readInt (t : Bytes) : Option ℤ :=
  let neg := t.head? = some 45
  let digits := if neg then t.tail else t
  if digits = [] then none
  else (readDigits 0 digits).map fun v => if neg then wrap64 (-v) else v

lemma parseIntCrlf_line {buf t r : Bytes} {pos : ℕ} (h : buf.drop pos = t ++ writeCrlf ++ r)
    (hnl : 10 ∉ t) :
    parseIntCrlf buf pos =
      match readInt t with
      | none => .invalid
      | some v => .ok v (pos + (t ++ writeCrlf).length) := by
  have hline : (buf.drop pos).takeWhile (· ≠ 10) = t ++ [13] := by
    have e : t ++ writeCrlf ++ r = (t ++ [13]) ++ 10 :: r := by simp [writeCrlf_eq]
    rw [h, e, takeWhile_ne_append (by simp [hnl])]
  have hlen : (t ++ writeCrlf).length = (t ++ [13]).length + 1 := by simp [writeCrlf_eq]
  have hrest : (t ++ [13]).length ≠ (buf.drop pos).length := by
    have htotal : (t ++ writeCrlf ++ r).length = (t ++ writeCrlf).length + r.length :=
      List.length_append
    rw [h, htotal, hlen]
    omega
  simp only [parseIntCrlf, hline, readInt, List.dropLast_concat, hlen]
  rw [if_neg hrest, if_neg (by simp), if_neg (by simp)]
  by_cases hdigits : (if t.head? = some 45 then t.tail else t) = []
  · rw [if_pos hdigits, if_pos hdigits]
  · rw [if_neg hdigits, if_neg hdigits]
    rcases readDigits 0 (if t.head? = some 45 then t.tail else t) with _ | v
    · rfl
    · rfl

lemma parseIntCrlf_of_notMem {buf : Bytes} {pos : ℕ} (h : 10 ∉ buf.drop pos) :
    parseIntCrlf buf pos = .needMore := by
  simp only [parseIntCrlf, takeWhile_ne_self h, if_true]

lemma readInt_decimal {n : ℕ} (hn : n < 2 ^ 63) : readInt (decimal n) = some (n : ℤ) := by
  have hneg : (decimal n).head? ≠ some 45 := by
    intro hh
    exact not_mem_decimal (by decide) (List.mem_of_mem_head? hh)
  have hval : value 0 (decimal n) < 2 ^ 63 := by rw [value_decimal]; exact hn
  have hread : readDigits 0 (decimal n) = some (n : ℤ) := by
    have := readDigits_eq (v := 0) (fun b hb => isDigit_of_mem_decimal hb) hval
    rw [value_decimal] at this
    exact_mod_cast this
  simp only [readInt, hneg, if_false, decimal_ne_nil, hread, Option.map_some]

/-- A whole numeral and its CRLF. -/
lemma parseIntCrlf_ok {buf tail : Bytes} {pos n : ℕ} (hn : n < 2 ^ 63)
    (h : buf.drop pos = decimal n ++ writeCrlf ++ tail) :
    parseIntCrlf buf pos = .ok n (pos + (decimal n ++ writeCrlf).length) := by
  rw [parseIntCrlf_line h (not_mem_decimal (by decide)), readInt_decimal hn]

lemma parseIntCrlf_needMore {buf y : Bytes} {pos n : ℕ} (hy : y ≠ [])
    (h : decimal n ++ writeCrlf = buf.drop pos ++ y) : parseIntCrlf buf pos = .needMore := by
  have h10 : (10 : UInt8) ∉ buf.drop pos := by
    have e : (decimal n ++ [13]) ++ [10] = buf.drop pos ++ y := by
      rw [← h]; simp [writeCrlf, ascii]
    obtain ⟨y', b, rfl⟩ := List.eq_nil_or_concat y |>.resolve_left hy
    rw [List.concat_eq_append, ← List.append_assoc] at e
    have e' := (List.append_inj' e rfl).1
    intro hm
    have : (10 : UInt8) ∈ decimal n ++ [13] := by rw [e']; simp [hm]
    simp only [List.mem_append, List.mem_singleton] at this
    rcases this with h1 | h1
    · exact not_mem_decimal (by decide) h1
    · exact absurd h1 (by decide)
  exact parseIntCrlf_of_notMem h10

/-! ### Slices -/

def header (c : List Bytes) : Bytes := ascii "*" ++ decimal c.length ++ writeCrlf

def bulkHeader (x : Bytes) : Bytes := ascii "$" ++ decimal x.length ++ writeCrlf

lemma writeBulk_eq (x : Bytes) : writeBulk x = bulkHeader x ++ x ++ writeCrlf := rfl

lemma writeArrayBulk_eq (c : List Bytes) : writeArrayBulk c = header c ++ c.flatMap writeBulk :=
  rfl

/-- Where the strings lie whose encodings start at `o`. -/
def slicesAt : ℕ → List Bytes → List Slice
  | _, [] => []
  | o, x :: xs => ⟨o + (bulkHeader x).length, x.length⟩ :: slicesAt (o + (writeBulk x).length) xs

lemma slicesAt_concat (o : ℕ) (xs : List Bytes) (x : Bytes) :
    slicesAt o (xs ++ [x]) =
      slicesAt o xs ++ [⟨o + (xs.flatMap writeBulk).length + (bulkHeader x).length, x.length⟩] := by
  induction xs generalizing o with
  | nil => simp [slicesAt]
  | cons y ys ih =>
    rw [List.cons_append, slicesAt, slicesAt, ih, List.cons_append, List.flatMap_cons,
      List.length_append, Nat.add_assoc o]

lemma substr_append (w x r : Bytes) : substr (w ++ x ++ r) w.length x.length = some x := by
  simp [substr, List.append_assoc]

lemma mapM_substr (base : ℕ) (w : Bytes) (xs : List Bytes)
    (hlen : base + (w ++ xs.flatMap writeBulk).length < 2 ^ 32) :
    (slicesAt (base + w.length) xs).mapM (fun sl =>
      substr (w ++ xs.flatMap writeBulk) ((sl.off + 2 ^ 64 - base) % 2 ^ 64) sl.len) = some xs := by
  induction xs generalizing w with
  | nil => rfl
  | cons x xs ih =>
    have hw : w ++ (x :: xs).flatMap writeBulk = (w ++ writeBulk x) ++ xs.flatMap writeBulk := by
      simp
    have hx : w ++ (x :: xs).flatMap writeBulk =
        (w ++ bulkHeader x) ++ x ++ (writeCrlf ++ xs.flatMap writeBulk) := by
      simp [writeBulk_eq]
    have hlen' : (w ++ bulkHeader x).length ≤ (w ++ (x :: xs).flatMap writeBulk).length := by
      rw [hx]; simp only [List.length_append]; omega
    have hoff : (base + w.length + (bulkHeader x).length + 2 ^ 64 - base) % 2 ^ 64 =
        (w ++ bulkHeader x).length := by
      rw [List.length_append] at hlen' ⊢; omega
    have hhead : substr (w ++ (x :: xs).flatMap writeBulk)
        ((base + w.length + (bulkHeader x).length + 2 ^ 64 - base) % 2 ^ 64) x.length = some x := by
      rw [hoff, hx, substr_append]
    have htail := ih (w ++ writeBulk x) (by rw [← hw]; exact hlen)
    rw [← hw, List.length_append, ← Nat.add_assoc] at htail
    simp only [slicesAt, List.mapM_cons, hhead, htail]
    rfl

/-! ### Stages of a command -/

/-- A command the extractor takes: 1 to 1024 strings of at most 64 MiB. -/
structure Command (c : List Bytes) : Prop where
  pos : 1 ≤ c.length
  le : c.length ≤ kMaxArgs
  bulk : ∀ x ∈ c, x.length ≤ kMaxBulk

/-- What the processor remembers of the strings it has gone through. -/
structure Args (base : ℕ) (c done cut : List Bytes) (p : Processor) : Prop where
  argc : p.argc = c.length
  argi : p.argi = done.length
  slices : p.slices = slicesAt (base + (header c).length) cut

/-- The encoding of `c` in three parts: the bytes consumed in this state, the bytes it waits
for and the rest. -/
inductive Stage (base : ℕ) (c : List Bytes) (p : Processor) : Bytes → Bytes → Bytes → Prop
  | argc (hst : p.st = .needArgc) :
    Stage base c p (ascii "*") (decimal c.length ++ writeCrlf) (c.flatMap writeBulk)
  | dollar {done todo : List Bytes} {x : Bytes} (hst : p.st = .needDollar)
      (hc : c = done ++ x :: todo) (hp : Args base c done done p) :
    Stage base c p (header c ++ done.flatMap writeBulk) (ascii "$")
      (decimal x.length ++ writeCrlf ++ x ++ writeCrlf ++ todo.flatMap writeBulk)
  | bulkLen {done todo : List Bytes} {x : Bytes} (hst : p.st = .needBulkLen)
      (hc : c = done ++ x :: todo) (hp : Args base c done done p) :
    Stage base c p (header c ++ done.flatMap writeBulk ++ ascii "$")
      (decimal x.length ++ writeCrlf) (x ++ writeCrlf ++ todo.flatMap writeBulk)
  | bulkData {done todo : List Bytes} {x : Bytes} (hst : p.st = .needBulkData)
      (hc : c = done ++ x :: todo) (hp : Args base c done done p) (hlen : p.bulkLen = x.length) :
    Stage base c p (header c ++ done.flatMap writeBulk ++ bulkHeader x) x
      (writeCrlf ++ todo.flatMap writeBulk)
  | bulkCrlf {done todo : List Bytes} {x : Bytes} (hst : p.st = .needBulkCrlf)
      (hc : c = done ++ x :: todo) (hp : Args base c done (done ++ [x]) p) :
    Stage base c p (header c ++ done.flatMap writeBulk ++ bulkHeader x ++ x) writeCrlf
      (todo.flatMap writeBulk)

lemma Stage.eq {base : ℕ} {c : List Bytes} {p : Processor} {seen u v : Bytes}
    (h : Stage base c p seen u v) : writeArrayBulk c = seen ++ u ++ v := by
  cases h with
  | argc => simp [writeArrayBulk]
  | dollar _ hc => rw [writeArrayBulk_eq]; nth_rewrite 2 [hc]; simp [writeBulk]
  | bulkLen _ hc => rw [writeArrayBulk_eq]; nth_rewrite 2 [hc]; simp [writeBulk]
  | bulkData _ hc => rw [writeArrayBulk_eq]; nth_rewrite 2 [hc]; simp [writeBulk_eq]
  | bulkCrlf _ hc => rw [writeArrayBulk_eq]; nth_rewrite 2 [hc]; simp [writeBulk_eq]

lemma Stage.congr {base : ℕ} {c : List Bytes} {p : Processor} {seen seen' u v : Bytes}
    (h : Stage base c p seen u v) (e : seen = seen') : Stage base c p seen' u v := e ▸ h

/-- The processor stands in the buffer after the bytes `seen` of a command that starts after
`pre`. -/
structure At (buf pre seen ahead : Bytes) (p : Processor) : Prop where
  buf : buf = pre ++ seen ++ ahead
  start : p.cmdStart = pre.length
  pos : p.pos = pre.length + seen.length

lemma At.drop {buf pre seen ahead : Bytes} {p : Processor} (h : At buf pre seen ahead p) :
    buf.drop p.pos = ahead := by
  rw [h.buf, h.pos, ← List.length_append, List.drop_left]

lemma At.length {buf pre seen ahead : Bytes} {p : Processor} (h : At buf pre seen ahead p) :
    buf.length = p.pos + ahead.length := by
  rw [h.buf, h.pos]; simp only [List.length_append]

/-- Too few bytes: the call ends and nothing changes. -/
lemma Stage.short {base : ℕ} {c : List Bytes} {p : Processor} {buf pre seen ahead u v y : Bytes}
    (h : Stage base c p seen u v) (hat : At buf pre seen ahead p) (hy : y ≠ [])
    (hu : u = ahead ++ y) : turn buf p = .done p buf .nullopt := by
  have hdrop := hat.drop
  have hlen := hat.length
  have hylen := List.length_pos_iff.mpr hy
  have hulen : u.length = ahead.length + y.length := by rw [hu, List.length_append]
  cases h with
  | argc hst =>
    rw [turn, hst]
    rw [← hdrop] at hu
    simp only [parseIntCrlf_needMore hy hu]
  | dollar hst =>
    have h1 : (ascii "$").length = 1 := by decide
    have hnone : buf[p.pos]? = none := List.getElem?_eq_none (by omega)
    rw [turn, hst]
    simp only [hnone]
  | bulkLen hst =>
    rw [turn, hst]
    rw [← hdrop] at hu
    simp only [parseIntCrlf_needMore hy hu]
  | bulkData hst _ _ hbl =>
    rw [turn, hst]
    simp only [hbl, Int.toNat_natCast]
    rw [if_pos (by omega)]
  | bulkCrlf hst =>
    have h2 : writeCrlf.length = 2 := by decide
    rw [turn, hst]
    simp only
    rw [if_pos (by omega)]

lemma At.step {buf pre seen a u : Bytes} {p q : Processor} (h : At buf pre seen (u ++ a) p)
    (hstart : q.cmdStart = p.cmdStart) (hpos : q.pos = p.pos + u.length) :
    At buf pre (seen ++ u) a q where
  buf := by rw [h.buf]; simp
  start := by rw [hstart, h.start]
  pos := by rw [hpos, h.pos, List.length_append, Nat.add_assoc]

lemma At.append {buf pre seen ahead : Bytes} {p : Processor} (h : At buf pre seen ahead p)
    (chunk : Bytes) : At (buf ++ chunk) pre seen (ahead ++ chunk) p where
  buf := by rw [h.buf, List.append_assoc]
  start := h.start
  pos := h.pos

lemma At.first {buf : Bytes} {p : Processor} {b : UInt8} (hb : buf[p.pos]? = some b) :
    At buf (buf.take p.pos) [b] (buf.drop (p.pos + 1))
      { p with cmdStart := p.pos, pos := p.pos + 1, st := .needArgc } := by
  obtain ⟨hlt, hget⟩ := List.getElem?_eq_some_iff.mp hb
  have hlen : (buf.take p.pos).length = p.pos := by rw [List.length_take]; omega
  refine ⟨?_, hlen.symm, by simp [hlen]⟩
  rw [List.append_assoc, List.singleton_append, ← hget, ← List.drop_eq_getElem_cons hlt,
    List.take_append_drop]

lemma At.get {buf pre seen a : Bytes} {b : UInt8} {p : Processor}
    (h : At buf pre seen (b :: a) p) : buf[p.pos]? = some b := by
  have := congrArg List.head? h.drop
  rwa [List.head?_drop] at this

lemma cut_eq {buf pre ahead : Bytes} {c : List Bytes} {p : Processor}
    (hat : At buf pre (writeArrayBulk c) ahead p)
    (hsl : p.slices = slicesAt (pre.length + (header c).length) c) (hbuf : buf.length < 2 ^ 32) :
    p.cut buf = some ⟨writeArrayBulk c, c⟩ := by
  have hlen := hat.length
  have hpos := hat.pos
  have hframe : substr buf p.cmdStart (p.pos - p.cmdStart) = some (writeArrayBulk c) := by
    rw [hat.start, hpos, Nat.add_sub_cancel_left, hat.buf, substr_append]
  have hargs := mapM_substr pre.length (header c) c (by rw [← writeArrayBulk_eq]; omega)
  rw [← writeArrayBulk_eq] at hargs
  rw [Processor.cut, hframe, hsl, hat.start]
  simp only [Option.bind_eq_bind, Option.bind_some, hargs]
  rfl

lemma turn_bulkCrlf {buf : Bytes} {p : Processor} (hst : p.st = .needBulkCrlf)
    (h0 : buf[p.pos]? = some 13) (h1 : buf[p.pos + 1]? = some 10) (hlen : p.pos + 2 ≤ buf.length) :
    turn buf p =
      if p.argi + 1 = p.argc then
        match { p with pos := p.pos + 2, argi := p.argi + 1 }.cut buf with
        | none => .done { p with pos := p.pos + 2, argi := p.argi + 1 } buf .outOfRange
        | some out =>
          let q : Processor := { p with pos := p.pos + 2, argi := p.argi + 1, st := .needStar }
          .done (q.compact buf q.pos).1 (q.compact buf q.pos).2 (.request out)
      else .go { p with pos := p.pos + 2, argi := p.argi + 1, st := .needDollar } := by
  obtain ⟨st, pos, cmdStart, argc, argi, bulkLen, slices⟩ := p
  subst hst
  have hcrlf : ¬ (buf[pos]? ≠ some 13 ∨ buf[pos + 1]? ≠ some 10) := by simp [h0, h1]
  rw [turn]
  exact (if_neg (Nat.not_lt.mpr hlen)).trans (if_neg hcrlf)

lemma turn_argc {buf : Bytes} {p : Processor} {n pos : ℕ} (hst : p.st = .needArgc)
    (hint : parseIntCrlf buf p.pos = .ok n pos) (hpos : 1 ≤ n) (hle : n ≤ kMaxArgs) :
    turn buf p =
      .go { p with pos := pos, argc := n, argi := 0, slices := [], st := .needDollar } := by
  have hrange : ¬ ((n : ℤ) ≤ 0 ∨ (kMaxArgs : ℤ) < n) := by omega
  rw [turn, hst]
  simp only [hint]
  rw [if_neg hrange]

lemma turn_bulkLen {buf : Bytes} {p : Processor} {n pos : ℕ} (hst : p.st = .needBulkLen)
    (hint : parseIntCrlf buf p.pos = .ok n pos) (hle : n ≤ kMaxBulk) :
    turn buf p = .go { p with pos := pos, bulkLen := n, st := .needBulkData } := by
  have hrange : ¬ ((n : ℤ) < 0 ∨ (kMaxBulk : ℤ) < n) := by omega
  rw [turn, hst]
  simp only [hint]
  rw [if_neg hrange]

lemma turn_bulkData {buf : Bytes} {p : Processor} {n : ℕ} (hst : p.st = .needBulkData)
    (hbl : p.bulkLen = n) (hlen : p.pos + n ≤ buf.length) :
    turn buf p =
      .go { p with slices := p.slices ++ [⟨p.pos % 2 ^ 32, n % 2 ^ 32⟩], pos := p.pos + n,
                   st := .needBulkCrlf } := by
  rw [turn, hst]
  simp only [hbl, Int.toNat_natCast]
  rw [if_neg (Nat.not_lt.mpr hlen)]

/-- What a round comes to when the bytes `u` that it waits for are there: it goes on to the
next stage, or the command is complete. -/
def Advances (buf pre : Bytes) (c : List Bytes) (p : Processor) (seen u v a : Bytes) : Prop :=
  (∃ q u' v', turn buf p = .go q ∧ At buf pre (seen ++ u) a q ∧
    Stage pre.length c q (seen ++ u) u' v') ∨
  u ≠ [] ∧ v = [] ∧ ∃ q : Processor, q.pos = p.pos + u.length ∧ q.st = .needStar ∧
    turn buf p = .done (q.compact buf q.pos).1 (q.compact buf q.pos).2
      (.request ⟨writeArrayBulk c, c⟩)

/-- The line end after a string: the next string, or the end of the command. -/
lemma advances_bulkCrlf {c done todo : List Bytes} {x : Bytes} {p : Processor} {buf pre a : Bytes}
    (hst : p.st = .needBulkCrlf) (hx : c = done ++ x :: todo)
    (hp : Args pre.length c done (done ++ [x]) p)
    (hat : At buf pre (header c ++ done.flatMap writeBulk ++ bulkHeader x ++ x) (writeCrlf ++ a) p)
    (hbuf : buf.length < 2 ^ 32) :
    Advances buf pre c p (header c ++ done.flatMap writeBulk ++ bulkHeader x ++ x) writeCrlf
      (todo.flatMap writeBulk) a := by
  have hdrop := hat.drop
  have hlen := hat.length
  rw [writeCrlf_eq] at hdrop hlen
  have h0 : buf[p.pos]? = some 13 := At.get (by rw [writeCrlf_eq] at hat; exact hat)
  have h1 : buf[p.pos + 1]? = some 10 := by
    have := congrArg (fun l => l[1]?) hdrop
    simpa [List.getElem?_drop] using this
  have hargc : (c.length : ℤ) = done.length + (todo.length + 1) := by
    rw [hx]; simp
  have hturn := turn_bulkCrlf hst h0 h1 (by rw [hlen]; simp)
  rcases todo with _ | ⟨y, todo⟩
  · have hseen : header c ++ done.flatMap writeBulk ++ bulkHeader x ++ x ++ writeCrlf =
        writeArrayBulk c := by
      rw [(Stage.bulkCrlf hst hx hp).eq]; simp
    have hcut := cut_eq (p := { p with pos := p.pos + 2, argi := p.argi + 1 }) (c := c)
      (by rw [← hseen]; exact hat.step rfl rfl) (by rw [← hx] at hp; exact hp.slices) hbuf
    refine .inr ⟨by decide, rfl,
      { p with pos := p.pos + 2, argi := p.argi + 1, st := .needStar }, rfl, rfl, ?_⟩
    rw [hturn, if_pos (by rw [hp.argi, hp.argc, hargc]; simp), hcut]
  · refine .inl ⟨{ p with pos := p.pos + 2, argi := p.argi + 1, st := .needDollar }, _, _, ?_,
      hat.step rfl rfl,
      Stage.congr (.dollar rfl (show c = (done ++ [x]) ++ y :: todo by simpa using hx)
        ⟨hp.argc, by simp [hp.argi], hp.slices⟩) (by simp [writeBulk_eq])⟩
    rw [hturn, if_neg]
    rw [hp.argi, hp.argc, hargc, List.length_cons]
    omega

lemma Stage.advance {c : List Bytes} {p : Processor} {buf pre seen u v a : Bytes}
    (h : Stage pre.length c p seen u v) (hat : At buf pre seen (u ++ a) p) (hc : Command c)
    (hbuf : buf.length < 2 ^ 32) : Advances buf pre c p seen u v a := by
  have hdrop := hat.drop
  cases h with
  | argc hst =>
    have hle := hc.le
    have hint := parseIntCrlf_ok (n := c.length) (by unfold kMaxArgs at hle; omega) hdrop
    obtain ⟨x, todo, hx⟩ := List.exists_cons_of_length_pos hc.pos
    exact .inl ⟨_, _, _, turn_argc hst hint hc.pos hle, hat.step rfl rfl,
      Stage.congr (.dollar rfl (show c = [] ++ x :: todo from hx) ⟨rfl, rfl, rfl⟩)
        (by simp [header])⟩
  | dollar hst hx hp =>
    refine .inl ⟨{ p with pos := p.pos + 1, st := .needBulkLen }, _, _, ?_, hat.step rfl rfl,
      .bulkLen rfl hx ⟨hp.argc, hp.argi, hp.slices⟩⟩
    have hget : buf[p.pos]? = some 36 := hat.get
    rw [turn, hst]
    simp only [hget, ne_eq, not_true_eq_false, if_false]
  | @bulkLen done todo x hst hx hp =>
    have hle := hc.bulk x (by simp [hx])
    have hint := parseIntCrlf_ok (n := x.length) (by unfold kMaxBulk at hle; omega) hdrop
    exact .inl ⟨_, _, _, turn_bulkLen hst hint hle, hat.step rfl rfl,
      Stage.congr (.bulkData rfl hx ⟨hp.argc, hp.argi, hp.slices⟩ rfl) (by simp [bulkHeader])⟩
  | @bulkData done todo _ hst hx hp hbl =>
    have hlen := hat.length
    have hpos := hat.pos
    simp only [List.length_append] at hlen hpos
    refine .inl ⟨_, _, _, turn_bulkData hst hbl (by omega), hat.step rfl rfl,
      .bulkCrlf rfl hx ⟨hp.argc, hp.argi, ?_⟩⟩
    dsimp only
    rw [slicesAt_concat, hp.slices, Nat.mod_eq_of_lt (by omega), Nat.mod_eq_of_lt (by omega),
      hpos]
    simp only [Nat.add_assoc]
  | bulkCrlf hst hx hp => exact advances_bulkCrlf hst hx hp hat hbuf

/-! ### Calls and chunks -/

/-- The commands `cs` are still to be returned: their encodings, less what is consumed of the
first one, lie ahead in the buffer and in the bytes `rest` to come. -/
inductive Pending (buf rest : Bytes) (p : Processor) : List (List Bytes) → Prop
  | between {cs : List (List Bytes)} (hst : p.st = .needStar) (hpos : p.pos ≤ buf.length)
      (h : buf.drop p.pos ++ rest = cs.flatMap writeArrayBulk) : Pending buf rest p cs
  | within {c : List Bytes} {cs : List (List Bytes)} {pre seen ahead u v : Bytes}
      (hat : At buf pre seen ahead p) (hstage : Stage pre.length c p seen u v)
      (h : ahead ++ rest = u ++ (v ++ cs.flatMap writeArrayBulk)) : Pending buf rest p (c :: cs)

lemma Pending.pos_le {buf rest : Bytes} {p : Processor} {cs : List (List Bytes)}
    (h : Pending buf rest p cs) : p.pos ≤ buf.length := by
  cases h with
  | between _ hpos => exact hpos
  | within hat => rw [hat.length]; exact Nat.le_add_right _ _

lemma Pending.append {buf chunk rest : Bytes} {p : Processor} {cs : List (List Bytes)}
    (h : Pending buf (chunk ++ rest) p cs) : Pending (buf ++ chunk) rest p cs := by
  cases h with
  | between hst hpos h =>
    refine .between hst (by rw [List.length_append]; omega) ?_
    rw [List.drop_append_of_le_length hpos, List.append_assoc, h]
  | within hat hstage h =>
    exact .within (hat.append chunk) hstage (by rw [List.append_assoc, h])

lemma Pending.nil {buf rest : Bytes} {p : Processor} (h : Pending buf rest p []) :
    p.st = .needStar ∧ p.pos = buf.length := by
  cases h with
  | between hst hpos h =>
    have hnil := (List.append_eq_nil_iff.mp h).1
    rw [List.drop_eq_nil_iff] at hnil
    exact ⟨hst, Nat.le_antisymm hpos hnil⟩

lemma Pending.compact {buf rest : Bytes} {q : Processor} {cs : List (List Bytes)}
    (hst : q.st = .needStar) (hpos : q.pos ≤ buf.length)
    (h : buf.drop q.pos ++ rest = cs.flatMap writeArrayBulk) :
    Pending (q.compact buf q.pos).2 rest (q.compact buf q.pos).1 cs := by
  obtain ⟨hle, hdrop, -⟩ := compact_drop q hpos
  exact .between hst hle (by rw [hdrop, h])

/-- What a call returns on pending commands: nothing, and then bytes are missing; or the
first command, and then bytes have been consumed. -/
inductive Returned (buf rest : Bytes) (p : Processor) (cs : List (List Bytes)) :
    Processor → Bytes → Extracted → Prop
  | nullopt {p' : Processor} {buf' : Bytes} (h : Pending buf' rest p' cs)
      (hrest : rest = [] → cs = []) : Returned buf rest p cs p' buf' .nullopt
  | request {c : List Bytes} {cs' : List (List Bytes)} {p' : Processor} {buf' : Bytes}
      (hcs : cs = c :: cs') (h : Pending buf' rest p' cs') (hlen : buf'.length ≤ buf.length)
      (hleft : (buf'.drop p'.pos).length < (buf.drop p.pos).length) :
    Returned buf rest p cs p' buf' (.request ⟨writeArrayBulk c, c⟩)

lemma Pending.turn {buf rest : Bytes} {p : Processor} {cs : List (List Bytes)}
    (h : Pending buf rest p cs) (hcs : ∀ c ∈ cs, Command c) (hbuf : buf.length < 2 ^ 32) :
    (∃ q, Resp.turn buf p = .go q ∧ Pending buf rest q cs) ∨
      ∃ p' buf' r, Resp.turn buf p = .done p' buf' r ∧ Returned buf rest p cs p' buf' r := by
  cases h with
  | between hst hpos h =>
    rcases hb : buf[p.pos]? with _ | b
    · -- the buffer is used up
      have hdrop : buf.drop p.pos = [] := by
        rw [List.drop_eq_nil_iff, ← List.getElem?_eq_none_iff]; exact hb
      refine .inr ⟨_, _, _, by rw [Resp.turn, hst]; simp only [hb],
        .nullopt (.compact hst hpos h) ?_⟩
      intro hrest
      rw [hdrop, hrest] at h
      rcases cs with _ | ⟨c, cs⟩
      · rfl
      · simp [writeArrayBulk, ascii] at h
    · obtain ⟨hlt, hget⟩ := List.getElem?_eq_some_iff.mp hb
      rw [List.drop_eq_getElem_cons hlt, hget] at h
      rcases cs with _ | ⟨c, cs⟩
      · simp at h
      · have hstar : b = 42 ∧ buf.drop (p.pos + 1) ++ rest =
            decimal c.length ++ writeCrlf ++
              (c.flatMap writeBulk ++ cs.flatMap writeArrayBulk) := by
          simpa [writeArrayBulk, ascii] using h
        obtain ⟨rfl, hrest⟩ := hstar
        refine .inl ⟨_, ?_, .within (At.first hb) (.argc rfl) hrest⟩
        rw [Resp.turn, hst]
        simp only [hb, ne_eq, not_true_eq_false, if_false]
  | @within c cs pre seen ahead u v hat hstage h =>
    rcases append_eq_append_cases h with ⟨a, rfl, ha⟩ | ⟨y, hy, hu, hrest⟩
    · rcases hstage.advance hat (hcs c (by simp)) hbuf with
        ⟨q, u', v', hturn, hat', hstage'⟩ | ⟨hu, rfl, q, hpos, hst, hturn⟩
      · refine .inl ⟨q, hturn, .within hat' hstage' ?_⟩
        have heq : seen ++ u ++ v = seen ++ u ++ u' ++ v' := by rw [← hstage.eq, hstage'.eq]
        rw [List.append_assoc (seen ++ u), List.append_cancel_left_eq] at heq
        rw [ha, heq, List.append_assoc]
      · have hle : q.pos ≤ buf.length := by
          rw [hat.length, hpos, List.length_append]; omega
        have hdrop : buf.drop q.pos = a := by
          rw [hpos, ← List.drop_drop, hat.drop, List.drop_left]
        obtain ⟨-, hcompact, hlen⟩ := compact_drop q hle
        refine .inr ⟨_, _, _, hturn, .request rfl (.compact hst hle ?_) hlen ?_⟩
        · rw [hdrop, ha, List.nil_append]
        · have hu := List.length_pos_iff.mpr hu
          rw [hcompact, hdrop, hat.drop, List.length_append]
          omega
    · refine .inr ⟨_, _, _, hstage.short hat hy hu, .nullopt (.within hat hstage h) ?_⟩
      rintro rfl
      simp [hy] at hrest

lemma Returned.of_left {buf rest : Bytes} {p q : Processor} {cs : List (List Bytes)}
    {p' : Processor} {buf' : Bytes} {r : Extracted} (h : Returned buf rest q cs p' buf' r)
    (hleft : (buf.drop q.pos).length ≤ (buf.drop p.pos).length) :
    Returned buf rest p cs p' buf' r := by
  cases h with
  | nullopt h hrest => exact .nullopt h hrest
  | request hcs h hlen hlt => exact .request hcs h hlen (by omega)

/-- One call on pending commands. -/
lemma Pending.call {buf rest : Bytes} {p : Processor} {cs : List (List Bytes)}
    (h : Pending buf rest p cs) (hcs : ∀ c ∈ cs, Command c) (hbuf : buf.length < 2 ^ 32) :
    ∃ p' buf' r, tryExtractRequest p buf = (p', buf', r) ∧ Returned buf rest p cs p' buf' r := by
  have hkeep (q q' : Processor) (hq : Pending buf rest q cs ∧ q.left buf ≤ p.left buf)
      (hpos : q.pos ≤ buf.length) (hgo : Resp.turn buf q = .go q') :
      Pending buf rest q' cs ∧ q'.left buf ≤ p.left buf := by
    have hlt := (turn_go hgo hpos).2
    rcases hq.1.turn hcs hbuf with ⟨q₁, hq₁, hpend⟩ | ⟨p₁, buf₁, r₁, hdone, -⟩
    · rw [hgo] at hq₁
      cases hq₁
      exact ⟨hpend, by omega⟩
    · rw [hgo] at hdone
      cases hdone
  obtain ⟨q, p', buf', r, ⟨hq, hleft⟩, -, hturn, hcall⟩ :=
    tryExtractRequest_rule _ hkeep ⟨h, Nat.le_refl _⟩ h.pos_le
  refine ⟨p', buf', r, hcall, ?_⟩
  rcases hq.turn hcs hbuf with ⟨q', hgo, -⟩ | ⟨p₁, buf₁, r₁, hdone, hr⟩
  · rw [hturn] at hgo
    cases hgo
  · rw [hturn] at hdone
    cases hdone
    refine hr.of_left ?_
    simp only [List.length_drop]
    unfold Processor.left at hleft
    split at hleft <;> split at hleft <;> omega

def parsed (c : List Bytes) : ParsedRequest := ⟨writeArrayBulk c, c⟩

/-- Calls until there is no request return the first of the pending commands, and all of them
once no byte is to come. -/
lemma Pending.drain {buf rest : Bytes} {p : Processor} {cs : List (List Bytes)} (fuel : ℕ)
    (h : Pending buf rest p cs) (hcs : ∀ c ∈ cs, Command c) (hbuf : buf.length < 2 ^ 32)
    (hfuel : (buf.drop p.pos).length < fuel) :
    ∃ out todo p' buf', Resp.drain fuel p buf = some (out.map parsed, p', buf') ∧
      cs = out ++ todo ∧ Pending buf' rest p' todo ∧ (rest = [] → todo = []) := by
  induction fuel generalizing p buf cs with
  | zero => omega
  | succ fuel ih =>
    obtain ⟨p', buf', r, hcall, hr⟩ := h.call hcs hbuf
    cases hr with
    | nullopt h' hrest =>
      exact ⟨[], cs, p', buf', by simp only [Resp.drain, hcall, List.map_nil], rfl, h', hrest⟩
    | @request c cs' _ _ hcons h' hlen hleft =>
      subst hcons
      obtain ⟨out, todo, p₁, buf₁, hdrain, rfl, hpend, hrest⟩ :=
        ih h' (fun c hc => hcs c (by simp [hc])) (by omega) (by omega)
      refine ⟨c :: out, todo, p₁, buf₁, ?_, rfl, hpend, hrest⟩
      simp only [Resp.drain, hcall, hdrain, Option.bind_eq_bind, Option.bind_some]
      rfl

/-- The buffer stays below the size limit of a string. -/
def Fits : List Bytes → Processor → Bytes → Bool
  | [], _, _ => true
  | chunk :: chunks, p, buf =>
    decide ((buf ++ chunk).length < 2 ^ 32) &&
      match readChunk p buf chunk with
      | some (_, p, buf) => Fits chunks p buf
      | none => true

/-- Reading the chunks returns the pending commands. -/
lemma Pending.readLoop {buf : Bytes} {p : Processor} {cs : List (List Bytes)}
    (chunks : List Bytes) (h : Pending buf chunks.flatten p cs) (hcs : ∀ c ∈ cs, Command c)
    (hfits : Fits chunks p buf) (hnil : chunks = [] → cs = []) :
    ∃ p' buf', Resp.readLoop chunks p buf = some (cs.map parsed, p', buf') ∧
      p'.st = .needStar ∧ p'.pos = buf'.length := by
  induction chunks generalizing p buf cs with
  | nil =>
    rw [hnil rfl] at h ⊢
    exact ⟨p, buf, rfl, h.nil⟩
  | cons chunk chunks ih =>
    rw [List.flatten_cons] at h
    rw [Fits, Bool.and_eq_true, decide_eq_true_eq] at hfits
    obtain ⟨out, todo, p₁, buf₁, hdrain, rfl, hpend, hrest⟩ :=
      h.append.drain ((buf ++ chunk).length + 1) hcs hfits.1
        (by rw [List.length_drop]; omega)
    have hchunk : readChunk p buf chunk = some (out.map parsed, p₁, buf₁) := hdrain
    have hfits₁ := hfits.2
    rw [hchunk] at hfits₁
    obtain ⟨p', buf', hloop, hend⟩ := ih hpend (fun c hc => hcs c (by simp [hc])) hfits₁ fun hc =>
      hrest (by simp [hc])
    refine ⟨p', buf', ?_, hend⟩
    simp only [Resp.readLoop, hchunk, hloop, Option.bind_eq_bind, Option.bind_some, List.map_append]
    rfl

/-- **Commands come back whole and in order** from any cut of their encodings into chunks:
one request a command, with its encoding as frame and its strings as arguments, and no byte
is left over. -/
theorem readLoop_commands (cmds : List (List Bytes)) (chunks : List Bytes)
    (hcmds : ∀ c ∈ cmds, Command c) (hcut : chunks.flatten = cmds.flatMap writeArrayBulk)
    (hfits : Fits chunks {} []) :
    ∃ p buf, readLoop chunks {} [] =
        some (cmds.map fun c => { frame := writeArrayBulk c, argv := c }, p, buf) ∧
      p.st = .needStar ∧ p.pos = buf.length := by
  have hpend : Pending [] chunks.flatten {} cmds :=
    .between rfl (Nat.le_refl 0) (by simpa using hcut)
  refine hpend.readLoop chunks hcmds hfits fun hnil => ?_
  rcases cmds with _ | ⟨c, cmds⟩
  · rfl
  · simp [hnil, writeArrayBulk, ascii] at hcut

/-- Two commands in three chunks, the second of which ends between a CR and its LF. -/
theorem readLoop_twoCommands :
    ∃ p buf, readLoop
        [ascii "*2\r\n$3\r\nGET\r\n$1", ascii "\r\n*\r\n*1\r\n$4\r", ascii "\nQUIT\r\n"]
        {} [] =
      some ([⟨ascii "*2\r\n$3\r\nGET\r\n$1\r\n*\r\n", [ascii "GET", ascii "*"]⟩,
        ⟨ascii "*1\r\n$4\r\nQUIT\r\n", [ascii "QUIT"]⟩], p, buf) ∧
      p.st = .needStar ∧ p.pos = buf.length :=
  readLoop_commands [[ascii "GET", ascii "*"], [ascii "QUIT"]] _
    (by intro c hc; simp only [List.mem_cons, List.not_mem_nil, or_false] at hc
        rcases hc with rfl | rfl <;> exact ⟨by decide, by decide, by decide⟩)
    (by decide) (by decide +kernel)

end ShunyaKV.Resp
