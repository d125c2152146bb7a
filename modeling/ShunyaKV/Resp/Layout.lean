import Mathlib.Logic.Relation
import ShunyaKV.Resp.Frames

/-!
Where the processor stands in the buffer.

The buffer is appended to by the reader and cut by the processor, while the processor keeps
offsets into it. The guarded extractor makes every access of the source conditional on being in
range, and every conversion on losing nothing. It takes the rounds of the extractor.
-/

namespace ShunyaKV.Resp

open ShunyaKV.Lib.Decimal ShunyaKV.Lib.Words ShunyaKV.Shard

/-! ### The guarded extractor -/

namespace Guarded

/-- `std::string_view(buf.data() + pos, buf.size() - pos)`, for a position in the buffer. -/
def view (buf : Bytes) (pos : ℕ) : Option Bytes :=
  if pos ≤ buf.length then some (buf.drop pos) else none

def substr (b : Bytes) (off len : ℕ) : Option Bytes :=
  if off + len ≤ b.length then some ((b.drop off).take len) else none

def sub (m n : ℕ) : Option ℕ := if n ≤ m then some (m - n) else none

def toUint32 (n : ℕ) : Option ℕ := if n < 2 ^ 32 then some n else none

def toSize (v : ℤ) : Option ℕ := if 0 ≤ v then some v.toNat else none

def compactIfNeeded (buf : Bytes) (pos : ℕ) : Option (Bytes × ℕ) :=
  if pos = 0 then some (buf, pos)
  else if buf.length ≤ pos then some ([], 0)
  else if 4096 ≤ pos ∨ buf.length ≤ pos * 2 then do
    let buf ← substr buf pos (buf.length - pos)
    some (buf, 0)
  else some (buf, pos)

def compact (p : Processor) (buf : Bytes) (pos : ℕ) : Option (Processor × Bytes) := do
  let r ← compactIfNeeded buf pos
  some ({ p with pos := r.2 }, r.1)

def resetAndResync (p : Processor) (buf : Bytes) : Option (Processor × Bytes) :=
  let p := { p with st := .needStar }
  if buf.length ≤ p.pos then compact p buf p.pos
  else do
    let v ← view buf p.pos
    let star := (v.takeWhile (· ≠ 42)).length
    compact p buf (if star = v.length then buf.length else p.pos + star)

/-- The number in the `i` bytes of `v` before its line end. -/
def readInt (v : Bytes) (i : ℕ) : Option (Option ℤ) := do
  let first ← v[0]?
  let q := if first = 45 then 1 else 0
  if q = i then some none
  else do
    let n ← sub i q
    let digits ← substr v q n
    some ((readDigits 0 digits).map fun w => if first = 45 then wrap64 (-w) else w)

/-- The line end is looked for among the bytes from `pos` on, and the byte before it is one of
them. -/
def parseIntCrlf (buf : Bytes) (pos : ℕ) : Option IntParse :=
  if buf.length ≤ pos then some .needMore
  else do
    let v ← view buf pos
    let nl := (v.takeWhile (· ≠ 10)).length
    if nl = v.length then some .needMore
    else if nl = 0 then some .invalid
    else do
      let i ← sub nl 1
      let cr ← v[i]?
      if cr ≠ 13 then some .invalid
      else do
        match ← readInt v i with
        | none => some .invalid
        | some w => some (.ok w (pos + nl + 1))

def fail (p : Processor) (buf : Bytes) (msg : String) : Option Turn := do
  let r ← resetAndResync p buf
  some (.done r.1 r.2 (errorRequest msg))

def cut (p : Processor) (buf : Bytes) : Option ParsedRequest := do
  let frameLen ← sub p.pos p.cmdStart
  let frame ← substr buf p.cmdStart frameLen
  let argv ← p.slices.mapM fun sl => do
    let relOff ← sub sl.off p.cmdStart
    substr frame relOff sl.len
  some ⟨frame, argv⟩

def turn (buf : Bytes) (p : Processor) : Option Turn :=
  match p.st with
  | .needStar =>
    if buf.length ≤ p.pos then do
      let r ← compact p buf p.pos
      some (.done r.1 r.2 .nullopt)
    else do
      let b ← buf[p.pos]?
      if b ≠ 42 then do
        let v ← view buf p.pos
        let nl := (v.takeWhile (· ≠ 10)).length
        let r ← compact p buf (if nl = v.length then buf.length else p.pos + nl + 1)
        some (.done r.1 r.2 (errorRequest "-ERR protocol error\r\n"))
      else some (.go { p with cmdStart := p.pos, pos := p.pos + 1, st := .needArgc })
  | .needArgc => do
    match ← parseIntCrlf buf p.pos with
    | .needMore => some (.done p buf .nullopt)
    | .invalid => fail p buf "-ERR protocol error\r\n"
    | .ok argc pos =>
      let p := { p with pos := pos }
      if argc ≤ 0 ∨ (kMaxArgs : ℤ) < argc then fail p buf "-ERR invalid argc\r\n"
      else some (.go { p with argc := argc, argi := 0, slices := [], st := .needDollar })
  | .needDollar =>
    if buf.length ≤ p.pos then some (.done p buf .nullopt)
    else do
      let b ← buf[p.pos]?
      if b ≠ 36 then fail p buf "-ERR protocol error\r\n"
      else some (.go { p with pos := p.pos + 1, st := .needBulkLen })
  | .needBulkLen => do
    match ← parseIntCrlf buf p.pos with
    | .needMore => some (.done p buf .nullopt)
    | .invalid => fail p buf "-ERR protocol error\r\n"
    | .ok bl pos =>
      let p := { p with pos := pos }
      if bl < 0 ∨ (kMaxBulk : ℤ) < bl then fail p buf "-ERR invalid bulk length\r\n"
      else some (.go { p with bulkLen := bl, st := .needBulkData })
  | .needBulkData => do
    let bl ← toSize p.bulkLen
    if buf.length < p.pos + bl then some (.done p buf .nullopt)
    else do
      let off ← toUint32 p.pos
      let len ← toUint32 bl
      some (.go { p with slices := p.slices ++ [⟨off, len⟩], pos := p.pos + bl,
                         st := .needBulkCrlf })
  | .needBulkCrlf =>
    if buf.length < p.pos + 2 then some (.done p buf .nullopt)
    else do
      let cr ← buf[p.pos]?
      let lf ← buf[p.pos + 1]?
      if cr ≠ 13 ∨ lf ≠ 10 then fail p buf "-ERR protocol error\r\n"
      else
        let p := { p with pos := p.pos + 2, argi := p.argi + 1 }
        if p.argi = p.argc then do
          let out ← cut p buf
          let r ← compact { p with st := .needStar } buf p.pos
          some (.done r.1 r.2 (.request out))
        else some (.go { p with st := .needDollar })

end Guarded

/-! ### The layout -/

/-- Where the processor stands between two rounds. -/
structure WellPlaced (p : Processor) (buf : Bytes) : Prop where
  pos : p.pos ≤ buf.length
  /-- Between two commands, what is consumed is cut off in time. -/
  star : p.st = .needStar → p.pos < 4096
  /-- Within a command, its first byte is still there. -/
  start : p.st ≠ .needStar → p.cmdStart < 4096 ∧ p.cmdStart < p.pos ∧ buf[p.cmdStart]? = some 42
  argi : p.st ≠ .needStar → p.st ≠ .needArgc →
    0 ≤ p.argi ∧ p.argi < p.argc ∧ p.argc ≤ kMaxArgs
  slices : p.st ≠ .needStar → p.st ≠ .needArgc →
    p.slices.length = p.argi + (if p.st = .needBulkCrlf then 1 else 0) ∧
      ∀ sl ∈ p.slices, p.cmdStart ≤ sl.off ∧ sl.off + sl.len ≤ p.pos
  bulk : p.st = .needBulkData → 0 ≤ p.bulkLen ∧ p.bulkLen ≤ kMaxBulk

lemma compact_lt (q : Processor) (buf : Bytes) (pos : ℕ) : (q.compact buf pos).1.pos < 4096 := by
  simp only [Processor.compact, compactIfNeeded]
  split_ifs <;> simp_all

lemma wellPlaced_compact {q : Processor} {buf : Bytes} {pos : ℕ} (hq : q.st = .needStar)
    (hpos : pos ≤ buf.length) :
    WellPlaced (q.compact buf pos).1 (q.compact buf pos).2 := by
  have hst : (q.compact buf pos).1.st = .needStar := hq
  exact ⟨(compact_drop q hpos).1, fun _ => compact_lt q buf pos, fun h => absurd hst h,
    fun h => absurd hst h, fun h => absurd hst h, fun h => by rw [hst] at h; cases h⟩

lemma WellPlaced.append {p : Processor} {buf : Bytes} (h : WellPlaced p buf) (chunk : Bytes) :
    WellPlaced p (buf ++ chunk) := by
  have hpos := h.pos
  refine ⟨by rw [List.length_append]; omega, h.star, fun hst => ?_, h.argi, h.slices, h.bulk⟩
  obtain ⟨hlt, hstart, hget⟩ := h.start hst
  exact ⟨hlt, hstart, by rw [List.getElem?_append_left (by omega), hget]⟩

/-- The first byte of a command stays where it is as the position moves on. -/
lemma WellPlaced.start_le {p : Processor} {buf : Bytes} (h : WellPlaced p buf)
    (hst : p.st ≠ .needStar) {pos : ℕ} (hle : p.pos ≤ pos) :
    p.cmdStart < 4096 ∧ p.cmdStart < pos ∧ buf[p.cmdStart]? = some 42 := by
  obtain ⟨hlt, hstart, hget⟩ := h.start hst
  exact ⟨hlt, by omega, hget⟩

lemma WellPlaced.slices_le {p : Processor} {buf : Bytes} (h : WellPlaced p buf)
    (hst : p.st ≠ .needStar) (hargc : p.st ≠ .needArgc) {pos : ℕ} (hle : p.pos ≤ pos) :
    ∀ sl ∈ p.slices, p.cmdStart ≤ sl.off ∧ sl.off + sl.len ≤ pos := by
  intro sl hmem
  obtain ⟨hoff, hend⟩ := (h.slices hst hargc).2 sl hmem
  exact ⟨hoff, by omega⟩

/-- **A round that goes on keeps the layout.** -/
lemma WellPlaced.go {p q : Processor} {buf : Bytes} (h : WellPlaced p buf) (hg : Goes buf p q)
    (hbuf : buf.length < 2 ^ 32) : WellPlaced q buf := by
  cases hg with
  | star hst hb =>
    have hlt := (List.getElem?_eq_some_iff.mp hb).1
    exact ⟨hlt, nofun, fun _ => ⟨h.star hst, Nat.lt_succ_self _, hb⟩, fun _ hne => absurd rfl hne,
      fun _ hne => absurd rfl hne, nofun⟩
  | argc hst hint hv =>
    obtain ⟨hlt, hle⟩ := parseIntCrlf_pos hint
    have hne : p.st ≠ .needStar := by simp [hst]
    refine ⟨hle, nofun, fun _ => h.start_le hne (Nat.le_of_lt hlt), fun _ _ => ?_,
      fun _ _ => ⟨rfl, by simp⟩, nofun⟩
    dsimp only
    omega
  | dollar hst hb =>
    have hlt := (List.getElem?_eq_some_iff.mp hb).1
    have hne : p.st ≠ .needStar ∧ p.st ≠ .needArgc := by simp [hst]
    have hlen := (h.slices hne.1 hne.2).1
    exact ⟨hlt, nofun, fun _ => h.start_le hne.1 (Nat.le_succ _), fun _ _ => h.argi hne.1 hne.2,
      fun _ _ => ⟨by simpa [hst] using hlen, h.slices_le hne.1 hne.2 (Nat.le_succ _)⟩, nofun⟩
  | bulkLen hst hint hv =>
    obtain ⟨hlt, hle⟩ := parseIntCrlf_pos hint
    have hne : p.st ≠ .needStar ∧ p.st ≠ .needArgc := by simp [hst]
    have hlen := (h.slices hne.1 hne.2).1
    refine ⟨hle, nofun, fun _ => h.start_le hne.1 (Nat.le_of_lt hlt),
      fun _ _ => h.argi hne.1 hne.2,
      fun _ _ => ⟨by simpa [hst] using hlen, h.slices_le hne.1 hne.2 (Nat.le_of_lt hlt)⟩,
      fun _ => ?_⟩
    dsimp only
    omega
  | bulkData hst hle =>
    have hne : p.st ≠ .needStar ∧ p.st ≠ .needArgc := by simp [hst]
    have hlen := (h.slices hne.1 hne.2).1
    refine ⟨hle, nofun, fun _ => h.start_le hne.1 (Nat.le_add_right _ _),
      fun _ _ => h.argi hne.1 hne.2, fun _ _ => ⟨by simpa [hst] using hlen, ?_⟩, nofun⟩
    -- the new slice ends at the new position
    intro sl hmem
    rw [Nat.mod_eq_of_lt (by omega), Nat.mod_eq_of_lt (by omega)] at hmem
    rcases List.mem_append.mp hmem with hmem | hmem
    · exact h.slices_le hne.1 hne.2 (Nat.le_add_right _ _) sl hmem
    · obtain rfl := List.mem_singleton.mp hmem
      exact ⟨Nat.le_of_lt (h.start hne.1).2.1, Nat.le_refl _⟩
  | bulkCrlf hst hle _ hargi =>
    have hne : p.st ≠ .needStar ∧ p.st ≠ .needArgc := by simp [hst]
    obtain ⟨hnonneg, hlt, hmax⟩ := h.argi hne.1 hne.2
    have hlen := (h.slices hne.1 hne.2).1
    refine ⟨hle, nofun, fun _ => h.start_le hne.1 (Nat.le_add_right _ _), fun _ _ => ?_,
      fun _ _ => ⟨by simpa [hst] using hlen, h.slices_le hne.1 hne.2 (Nat.le_add_right _ _)⟩, nofun⟩
    dsimp only
    omega

/-! ### The guarded rounds -/

namespace Guarded

lemma substr_eq (b : Bytes) (off len : ℕ) (h : off + len ≤ b.length) :
    substr b off len = some ((b.drop off).take len) ∧
      Resp.substr b off len = some ((b.drop off).take len) :=
  ⟨if_pos h, if_neg (by omega)⟩

lemma compactIfNeeded_eq (buf : Bytes) (pos : ℕ) :
    compactIfNeeded buf pos = some (Resp.compactIfNeeded buf pos) := by
  unfold compactIfNeeded Resp.compactIfNeeded
  split
  · rfl
  · split
    · rfl
    · split
      · rw [(substr_eq _ _ _ (by omega)).1, List.take_of_length_le (by rw [List.length_drop])]
        rfl
      · rfl

lemma compact_eq (p : Processor) (buf : Bytes) (pos : ℕ) :
    compact p buf pos = some (p.compact buf pos) := by
  rw [compact, compactIfNeeded_eq]
  rfl

lemma view_eq {buf : Bytes} {pos : ℕ} (h : pos ≤ buf.length) : view buf pos = some (buf.drop pos) :=
  if_pos h

lemma resetAndResync_eq (p : Processor) (buf : Bytes) :
    resetAndResync p buf = some (p.resetAndResync buf) := by
  unfold resetAndResync Processor.resetAndResync
  dsimp only
  split
  · exact compact_eq _ _ _
  · next hlt =>
    have hle := (List.takeWhile_sublist (l := buf.drop p.pos) (p := (· ≠ (42 : UInt8)))).length_le
    rw [view_eq (by omega), Option.bind_eq_bind, Option.bind_some, compact_eq]
    -- without a star the search ends at the end of the buffer
    congr 2
    split
    · next hall =>
      rw [List.length_drop] at hall
      omega
    · rfl

lemma fail_eq (p : Processor) (buf : Bytes) (msg : String) :
    fail p buf msg = some (p.fail buf msg) := by
  rw [fail, resetAndResync_eq]
  rfl

/-- The number of a header, by position and as what follows its sign. -/
lemma readInt_eq (t r : Bytes) : readInt (t ++ 13 :: r) t.length = some (Resp.readInt t) := by
  rcases t with _ | ⟨b, t⟩
  · rfl
  · have hget : (b :: t ++ 13 :: r)[0]? = some b := rfl
    rw [readInt, hget, Option.bind_eq_bind, Option.bind_some]
    by_cases hb : b = 45
    · subst hb
      rcases t with _ | ⟨c, t⟩
      · rfl
      · have hsub : sub (45 :: c :: t).length 1 = some (c :: t).length := rfl
        have hcut : substr (45 :: c :: t ++ 13 :: r) 1 (c :: t).length = some (c :: t) := by
          rw [(substr_eq _ _ _ (by simp; omega)).1]
          simp
        rw [if_pos rfl, if_neg (by simp), hsub]
        simp only [Option.bind_eq_bind, Option.bind_some, hcut]
        rfl
    · have hsub : sub (b :: t).length 0 = some (b :: t).length := rfl
      have hcut : substr (b :: t ++ 13 :: r) 0 (b :: t).length = some (b :: t) := by
        rw [(substr_eq _ _ _ (by simp)).1]
        simp
      rw [if_neg hb, if_neg (by simp), hsub]
      simp only [Option.bind_eq_bind, Option.bind_some, hcut]
      simp [Resp.readInt, hb]

lemma parseIntCrlf_eq (buf : Bytes) (pos : ℕ) :
    parseIntCrlf buf pos = some (Resp.parseIntCrlf buf pos) := by
  unfold parseIntCrlf
  split
  · next hle => simp [Resp.parseIntCrlf, List.drop_eq_nil_of_le hle]
  · next hlt =>
    rw [view_eq (by omega), Option.bind_eq_bind, Option.bind_some]
    by_cases hmem : (10 : UInt8) ∈ buf.drop pos
    · obtain ⟨line, r, hv, hnl⟩ := List.eq_append_cons_of_mem hmem
      simp only [hv, takeWhile_ne_append hnl]
      rw [if_neg (by simp)]
      rcases List.eq_nil_or_concat line with rfl | ⟨t, b, rfl⟩
      · rw [parseIntCrlf_invalid hv (by simp) (by simp)]
        rfl
      · simp only [List.concat_eq_append] at hv hnl ⊢
        have hlen : (t ++ [b]).length = t.length + 1 := by simp
        have hsub : sub (t.length + 1) 1 = some t.length := if_pos (by omega)
        have hget : (t ++ [b] ++ 10 :: r)[t.length]? = some b := by simp
        rw [hlen, if_neg (by omega), hsub]
        simp only [Option.bind_eq_bind, Option.bind_some, hget]
        by_cases hb : b = 13
        · subst hb
          have hline := parseIntCrlf_line (t := t) (r := r) (by rw [hv]; simp [writeCrlf_eq])
            (fun hm => hnl (by simp [hm]))
          have hread := readInt_eq t (10 :: r)
          rw [hline, if_neg (by simp), List.append_assoc, List.singleton_append, hread]
          rcases Resp.readInt t with _ | w
          · rfl
          · simp [writeCrlf_eq, Nat.add_assoc]
        · rw [if_pos hb, parseIntCrlf_invalid hv hnl (by simpa using hb)]
    · rw [parseIntCrlf_of_notMem hmem, takeWhile_ne_self hmem, if_pos rfl]

lemma cut_eq {p : Processor} {buf : Bytes} (hstart : p.cmdStart ≤ p.pos)
    (hpos : p.pos ≤ buf.length) (hbuf : buf.length < 2 ^ 32)
    (hsl : ∀ sl ∈ p.slices, p.cmdStart ≤ sl.off ∧ sl.off + sl.len ≤ p.pos) :
    ∃ out, cut p buf = some out ∧ p.cut buf = some out := by
  have hframe := substr_eq buf p.cmdStart (p.pos - p.cmdStart) (by omega)
  have hlen : ((buf.drop p.cmdStart).take (p.pos - p.cmdStart)).length = p.pos - p.cmdStart := by
    rw [List.length_take, List.length_drop]
    omega
  generalize (buf.drop p.cmdStart).take (p.pos - p.cmdStart) = frame at hframe hlen
  have hslice (sl : Slice) (hmem : sl ∈ p.slices) :=
    substr_eq frame (sl.off - p.cmdStart) sl.len (by
      have := hsl sl hmem
      omega)
  have hsub (sl : Slice) (hmem : sl ∈ p.slices) :
      sub sl.off p.cmdStart = some (sl.off - p.cmdStart) ∧
        (sl.off + 2 ^ 64 - p.cmdStart) % 2 ^ 64 = sl.off - p.cmdStart := by
    have := hsl sl hmem
    exact ⟨if_pos this.1, by omega⟩
  have hguarded : p.slices.mapM (fun sl => (do
      let relOff ← sub sl.off p.cmdStart
      substr frame relOff sl.len : Option Bytes)) =
      some (p.slices.map fun sl => (frame.drop (sl.off - p.cmdStart)).take sl.len) :=
    mapM_eq_map fun sl hmem => by rw [(hsub sl hmem).1]; exact (hslice sl hmem).1
  have hargv : p.slices.mapM (fun sl =>
      Resp.substr frame ((sl.off + 2 ^ 64 - p.cmdStart) % 2 ^ 64) sl.len) =
      some (p.slices.map fun sl => (frame.drop (sl.off - p.cmdStart)).take sl.len) :=
    mapM_eq_map fun sl hmem => by rw [(hsub sl hmem).2]; exact (hslice sl hmem).2
  have hlen' : sub p.pos p.cmdStart = some (p.pos - p.cmdStart) := if_pos hstart
  refine ⟨⟨frame, p.slices.map fun sl => (frame.drop (sl.off - p.cmdStart)).take sl.len⟩, ?_, ?_⟩
  · rw [cut, hlen']
    simp only [Option.bind_eq_bind, Option.bind_some, hframe.1] at hguarded ⊢
    rw [hguarded, Option.bind_some]
  · rw [Processor.cut, hframe.2, Option.bind_eq_bind, Option.bind_some, hargv]
    rfl

end Guarded

lemma WellPlaced.cut {p : Processor} {buf : Bytes} (h : WellPlaced p buf)
    (hst : p.st = .needBulkCrlf) (hle : p.pos + 2 ≤ buf.length) (hbuf : buf.length < 2 ^ 32) :
    ∃ out, Guarded.cut { p with pos := p.pos + 2, argi := p.argi + 1 } buf = some out ∧
      { p with pos := p.pos + 2, argi := p.argi + 1 }.cut buf = some out := by
  obtain ⟨-, hstart, -⟩ := h.start (by simp [hst])
  obtain ⟨-, hsl⟩ := h.slices (by simp [hst]) (by simp [hst])
  refine Guarded.cut_eq (by dsimp only; omega) hle hbuf fun sl hmem => ?_
  have := hsl sl hmem
  dsimp only
  omega

lemma Guarded.line_end {buf : Bytes} {pos : ℕ} (hpos : pos < buf.length) :
    (if ((buf.drop pos).takeWhile (· ≠ 10)).length = (buf.drop pos).length then buf.length
      else pos + ((buf.drop pos).takeWhile (· ≠ 10)).length + 1) =
      min buf.length (pos + ((buf.drop pos).takeWhile (· ≠ 10)).length + 1) := by
  have hle := (List.takeWhile_sublist (l := buf.drop pos) (p := (· ≠ (10 : UInt8)))).length_le
  rw [List.length_drop] at hle ⊢
  split <;> omega

/-- **The guarded extractor takes the rounds of the extractor.** -/
lemma WellPlaced.turn {p : Processor} {buf : Bytes} (h : WellPlaced p buf)
    (hbuf : buf.length < 2 ^ 32) : Guarded.turn buf p = some (Resp.turn buf p) := by
  have hpos := h.pos
  unfold Guarded.turn Resp.turn
  cases hst : p.st with
  | needStar =>
    simp only [Guarded.compact_eq, Option.bind_eq_bind, Option.bind_some]
    split
    · next hle => simp [List.getElem?_eq_none hle]
    · next hlt =>
      rw [Guarded.view_eq hpos]
      simp only [List.getElem?_eq_getElem (Nat.not_le.mp hlt), Option.bind_some,
        Guarded.line_end (Nat.not_le.mp hlt)]
      split <;> rfl
  | needArgc | needBulkLen =>
    simp only [Guarded.parseIntCrlf_eq, Option.bind_eq_bind, Option.bind_some, Guarded.fail_eq]
    cases parseIntCrlf buf p.pos with
    | needMore => rfl
    | invalid => rfl
    | ok v pos =>
      dsimp only
      split <;> rfl
  | needDollar =>
    simp only [Guarded.fail_eq, Option.bind_eq_bind]
    split
    · next hle => simp [List.getElem?_eq_none hle]
    · next hlt =>
      simp only [List.getElem?_eq_getElem (Nat.not_le.mp hlt), Option.bind_some]
      split <;> rfl
  | needBulkData =>
    have hbl : Guarded.toSize p.bulkLen = some p.bulkLen.toNat := if_pos (h.bulk hst).1
    simp only [hbl, Option.bind_eq_bind, Option.bind_some]
    split
    · rfl
    · next hle =>
      have hoff : Guarded.toUint32 p.pos = some (p.pos % 2 ^ 32) := by
        rw [Nat.mod_eq_of_lt (by omega)]
        exact if_pos (by omega)
      have hlen : Guarded.toUint32 p.bulkLen.toNat = some (p.bulkLen.toNat % 2 ^ 32) := by
        rw [Nat.mod_eq_of_lt (by omega)]
        exact if_pos (by omega)
      rw [hoff, hlen]
      rfl
  | needBulkCrlf =>
    simp only [Option.bind_eq_bind]
    split
    · rfl
    · next hle =>
      obtain ⟨out, hguarded, hcut⟩ := h.cut hst (by omega) hbuf
      rw [hst] at hguarded hcut
      have hcrlf : (buf[p.pos]? ≠ some 13 ∨ buf[p.pos + 1]? ≠ some 10) ↔
          (buf[p.pos] ≠ 13 ∨ buf[p.pos + 1] ≠ 10) := by
        rw [List.getElem?_eq_getElem (by omega), List.getElem?_eq_getElem (by omega)]
        simp only [ne_eq, Option.some.injEq]
      simp only [hcrlf, hguarded, hcut, Guarded.fail_eq, Guarded.compact_eq]
      rw [List.getElem?_eq_getElem (by omega), List.getElem?_eq_getElem (by omega)]
      simp only [Option.bind_some]
      split
      · rfl
      · split <;> rfl

/-- A round that ends the call keeps the layout, and does not throw. -/
lemma WellPlaced.finish {p p' : Processor} {buf buf' : Bytes} {r : Extracted}
    (h : WellPlaced p buf) (hf : Finishes buf p p' buf' r) (hbuf : buf.length < 2 ^ 32) :
    WellPlaced p' buf' ∧ r ≠ .outOfRange := by
  cases hf with
  | empty hst => exact ⟨wellPlaced_compact hst h.pos, nofun⟩
  | wait => exact ⟨h, nofun⟩
  | badLine hst _ hle => exact ⟨wellPlaced_compact hst hle, nofun⟩
  | badFrame _ hq _ hle => exact ⟨wellPlaced_compact hq hle, nofun⟩
  | command _ hle _ hq => exact ⟨wellPlaced_compact hq hle, nofun⟩
  | thrown hst hle _ hcut =>
    obtain ⟨out, -, hout⟩ := h.cut hst hle hbuf
    rw [hcut] at hout
    cases hout

lemma WellPlaced.call {p p' : Processor} {buf buf' : Bytes} {r : Extracted}
    (h : WellPlaced p buf) (hbuf : buf.length < 2 ^ 32)
    (hcall : tryExtractRequest p buf = (p', buf', r)) : WellPlaced p' buf' ∧ r ≠ .outOfRange := by
  obtain ⟨q, p₁, buf₁, r₁, hq, hqpos, hturn, hcall₁⟩ := tryExtractRequest_rule
    (fun q => WellPlaced q buf) (fun _ _ hq _ hgo => hq.go (goes_of_turn hgo) hbuf) h h.pos
  rw [hcall] at hcall₁
  cases hcall₁
  exact hq.finish (finishes_of_turn hturn hqpos) hbuf

lemma Fed.wellPlaced {w buf : Bytes} {rs : List ParsedRequest} {p : Processor}
    (h : Fed sizeLimit w rs p buf) : WellPlaced p buf := by
  induction h with
  | start => exact ⟨Nat.le_refl 0, fun _ => by decide, nofun, nofun, nofun, nofun⟩
  | append _ chunk _ ih => exact ih.append chunk
  | call hfed hcall ih => exact (ih.call (Fed.found hfed).1 hcall).1

def Rounds (buf : Bytes) : Processor → Processor → Prop :=
  Relation.ReflTransGen fun p q => turn buf p = .go q

/-- **The layout holds in every state.** Whatever a connection is fed, in whatever chunks, the
processor is well placed between two calls. In every round of the next call it is well placed
too; the round makes every access within its string, no difference wraps, and no conversion
loses anything. -/
theorem fed_wellPlaced {w buf : Bytes} {rs : List ParsedRequest} {p : Processor}
    (h : Fed sizeLimit w rs p buf) :
    WellPlaced p buf ∧ ∀ q, Rounds buf p q →
      WellPlaced q buf ∧ Guarded.turn buf q = some (turn buf q) := by
  have hbuf := h.found.1
  refine ⟨h.wellPlaced, fun q hq => ?_⟩
  have hplaced : WellPlaced q buf := by
    induction hq with
    | refl => exact h.wellPlaced
    | tail _ hgo ih => exact ih.go (goes_of_turn hgo) hbuf
  exact ⟨hplaced, hplaced.turn hbuf⟩

/-- Half a command in the buffer. -/
theorem fed_wellPlaced_half :
    ∃ rs p, Fed sizeLimit (ascii "*2\r\n$3\r\nGET\r\n$1") rs p (ascii "*2\r\n$3\r\nGET\r\n$1") ∧
      p.st = .needBulkLen ∧ p.argi = 1 ∧ p.slices = [⟨8, 3⟩] ∧
      WellPlaced p (ascii "*2\r\n$3\r\nGET\r\n$1") := by
  have hchunk : (ascii "*2\r\n$3\r\nGET\r\n$1").length < 2 ^ 32 := by decide
  have hfed := (fed_chunk hchunk).call rfl
  exact ⟨_, _, hfed, rfl, rfl, rfl, (fed_wellPlaced hfed).1⟩

end ShunyaKV.Resp
