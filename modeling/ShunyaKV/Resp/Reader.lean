import ShunyaKV.Lib.Simulate
import ShunyaKV.Resp.Whole

/-!
The reader of commands from an input stream.

It reads a command by its bytes, lines and strings, and asks the stream for more when its buffer
has too little. What it returns depends on the bytes only, and not on the chunks they come in: it
does what a reader does that has all of them before it.
-/

namespace ShunyaKV.Resp

open ShunyaKV.Lib.Decimal ShunyaKV.Lib.Words ShunyaKV.Lib.Simulate ShunyaKV.Shard
open ShunyaKV.Resp.Whole (fromChars maxArgs maxBulk)

/-! ### Commands -/

structure Source (m : Type → Type) where
  /-- The next byte, or 0 at the end. -/
  readByte : m UInt8
  /-- The next line without its CRLF, and an empty one at the end. -/
  readLineCrlf : m Bytes
  /-- That many bytes, which CRLF follows. -/
  readPayload : ℕ → m Bytes

section

variable {m : Type → Type} [Monad m] [MonadExcept String m]

def fail {α : Type} (msg : String) : m α := throw ("RESP error: " ++ msg)

namespace Source

variable (src : Source m)

def readIntLine : m ℤ := do
  let line ← src.readLineCrlf
  if line = [] then pure 0
  else
    match fromChars line with
    | some (n, []) => pure n
    | _ => fail "invalid integer"

def readBulk : m Bytes := do
  let lenLine ← src.readLineCrlf
  if lenLine = [] then fail "unexpected EOF reading bulk length"
  else
    match fromChars lenLine with
    | some (len, []) =>
      if len = -1 then pure []
      else if len < 0 then fail "negative bulk length"
      else if maxBulk < len then fail "bulk string too large"
      else src.readPayload len.toNat
    | _ => fail "invalid bulk length"

def readStrings : ℕ → m (List Bytes)
  | 0 => pure []
  | n + 1 => do
    let bt ← src.readByte
    if bt = 0 then fail "unexpected EOF inside array"
    else if bt ≠ 36 then fail "expected bulk string '$' in array"
    else do
      let s ← src.readBulk
      let argv ← readStrings n
      pure (s :: argv)

/-- No string at all is the end of the input. -/
def readCommand : m (List Bytes) := do
  let t ← src.readByte
  if t = 0 then pure []
  else if t ≠ 42 then fail "expected array '*'"
  else do
    let n ← src.readIntLine
    if n ≤ 0 then fail "array length must be positive"
    else if maxArgs < n then fail "too many arguments"
    else src.readStrings n.toNat

end Source

end

/-! ### The reader -/

/-- What is left of an input stream. A chunk that is read is not empty before the end. -/
abbrev Stream := List { chunk : Bytes // chunk ≠ [] }

def Stream.bytes (s : Stream) : Bytes := s.flatMap (·.val)

structure Reader where
  buf : Bytes := []
  off : ℕ := 0

namespace Reader

def size (r : Reader) : ℕ := r.buf.length - r.off

def view (r : Reader) : Bytes := r.buf.drop r.off

def compactIfNeeded (r : Reader) : Reader :=
  if r.off = 0 then r
  else if r.buf.length ≤ r.off then {}
  else if 4096 ≤ r.off ∨ r.buf.length ≤ r.off * 2 then { buf := r.view }
  else r

/-- An `sstring` has less than `2 ^ 32` bytes. -/
def append (r : Reader) (chunk : Bytes) : Except String Reader :=
  if (r.buf ++ chunk).length < 2 ^ 32 then .ok { r with buf := r.buf ++ chunk }
  else .error "sstring overflow"

/-- Chunks are read until there are `n` bytes, or to the end. -/
def ensure (n : ℕ) : Reader → Stream → Except String (Reader × Stream)
  | r, [] => .ok (r, [])
  | r, chunk :: s =>
    if r.size < n then do
      let r ← r.compactIfNeeded.append chunk.val
      ensure n r s
    else .ok (r, chunk :: s)

def advance (r : Reader) (n : ℕ) : Reader := { r with off := r.off + n }.compactIfNeeded

def findCrlf : Bytes → Option ℕ
  | [] => none
  | b :: l => if b = 13 ∧ l.head? = some 10 then some 0 else (findCrlf l).map (· + 1)

abbrev Io := StateT (Reader × Stream) (Except String)

def readByte : Io UInt8 := fun st => do
  let (r, s) ← st.1.ensure 1 st.2
  match r.view with
  | [] => pure (0, r, s)
  | c :: _ => pure (c, r.advance 1, s)

def readLine : Reader → Stream → Except String (Bytes × Reader × Stream)
  | r, [] =>
    match findCrlf r.view with
    | some pos => pure (r.view.take pos, r.advance (pos + 2), [])
    | none => if r.size = 0 then pure ([], r, []) else fail "unexpected EOF while reading line"
  | r, chunk :: s =>
    match findCrlf r.view with
    | some pos => pure (r.view.take pos, r.advance (pos + 2), chunk :: s)
    | none => do
      let r ← r.compactIfNeeded.append chunk.val
      readLine r s

def readPayload (len : ℕ) : Io Bytes := fun st => do
  let (r, s) ← st.1.ensure (len + 2) st.2
  if r.size < len + 2 then fail "unexpected EOF reading bulk payload"
  else
    let sv := r.view
    if sv[len]? ≠ some 13 ∨ sv[len + 1]? ≠ some 10 then fail "missing CRLF after bulk payload"
    else pure (sv.take len, r.advance (len + 2), s)

def source : Source Io := ⟨readByte, fun st => readLine st.1 st.2, readPayload⟩

def readCommand : Io (List Bytes) := source.readCommand

end Reader

/-! ### The bytes themselves -/

namespace Text

abbrev Io := StateT Bytes (Except String)

def readByte : Io UInt8
  | [] => pure (0, [])
  | c :: w => pure (c, w)

def readLine : Io Bytes := fun w =>
  match Reader.findCrlf w with
  | some pos => pure (w.take pos, w.drop (pos + 2))
  | none => if w = [] then pure ([], []) else fail "unexpected EOF while reading line"

def readPayload (len : ℕ) : Io Bytes := fun w =>
  if w.length < len + 2 then fail "unexpected EOF reading bulk payload"
  else if w[len]? ≠ some 13 ∨ w[len + 1]? ≠ some 10 then fail "missing CRLF after bulk payload"
  else pure (w.take len, w.drop (len + 2))

def source : Source Io := ⟨readByte, readLine, readPayload⟩

def readCommand : Io (List Bytes) := source.readCommand

end Text

/-! ### Refinement -/

/-- The sources agree, and so do the commands that are read from them. -/
structure Agree {σ : Type} (I : σ → Prop) (abs : σ → Bytes)
    (src : Source (StateT σ (Except String))) : Prop where
  byte : Simulates I abs src.readByte Text.readByte
  line : Simulates I abs src.readLineCrlf Text.readLine
  payload : ∀ len, Simulates I abs (src.readPayload len) (Text.readPayload len)

section

variable {σ : Type} {I : σ → Prop} {abs : σ → Bytes} {src : Source (StateT σ (Except String))}

lemma simulates_fail {α : Type} (msg : String) :
    Simulates I abs (fail msg : StateT σ (Except String) α) (fail msg) := simulates_throw _

lemma Agree.readIntLine (h : Agree I abs src) :
    Simulates I abs src.readIntLine Text.source.readIntLine := by
  refine h.line.bind fun line => .ite (simulates_pure 0) ?_
  split
  · exact simulates_pure _
  · exact simulates_fail _

lemma Agree.readBulk (h : Agree I abs src) :
    Simulates I abs src.readBulk Text.source.readBulk := by
  refine h.line.bind fun line => .ite (simulates_fail _) ?_
  split
  · next len _ =>
    refine .ite (simulates_pure _) (.ite (simulates_fail _) (.ite (simulates_fail _) ?_))
    exact h.payload len.toNat
  · exact simulates_fail _

lemma Agree.readStrings (h : Agree I abs src) (n : ℕ) :
    Simulates I abs (src.readStrings n) (Text.source.readStrings n) := by
  induction n with
  | zero => exact simulates_pure _
  | succ n ih =>
    refine h.byte.bind fun bt => .ite (simulates_fail _) (.ite (simulates_fail _) ?_)
    exact h.readBulk.bind fun s => ih.bind fun argv => simulates_pure _

lemma Agree.readCommand (h : Agree I abs src) :
    Simulates I abs src.readCommand Text.readCommand := by
  refine h.byte.bind fun t => .ite (simulates_pure _) (.ite (simulates_fail _) ?_)
  refine h.readIntLine.bind fun n => .ite (simulates_fail _) (.ite (simulates_fail _) ?_)
  exact h.readStrings n.toNat

end

namespace Reader

/-- The buffer has room for all that is to come. -/
structure Fits (st : Reader × Stream) : Prop where
  off : st.1.off ≤ st.1.buf.length
  room : st.1.buf.length + st.2.bytes.length < 2 ^ 32

def rest (st : Reader × Stream) : Bytes := st.1.view ++ st.2.bytes

lemma rest_eq (r : Reader) (s : Stream) : rest (r, s) = r.view ++ s.bytes := rfl

lemma length_view (r : Reader) : r.view.length = r.size := List.length_drop

lemma bytes_cons (chunk : { chunk : Bytes // chunk ≠ [] }) (s : Stream) :
    Stream.bytes (chunk :: s) = chunk.val ++ Stream.bytes s := List.flatMap_cons

/-- Nothing is lost when the buffer is compacted. -/
lemma compact_spec {r : Reader} (h : r.off ≤ r.buf.length) :
    r.compactIfNeeded.view = r.view ∧ r.compactIfNeeded.off ≤ r.compactIfNeeded.buf.length ∧
      r.compactIfNeeded.buf.length ≤ r.buf.length := by
  unfold compactIfNeeded
  split
  · exact ⟨rfl, h, Nat.le_refl _⟩
  · split
    · next hall =>
      have hnil : r.view = [] := List.drop_eq_nil_of_le hall
      exact ⟨hnil.symm, Nat.le_refl _, Nat.zero_le _⟩
    · split
      · exact ⟨rfl, Nat.zero_le _, by rw [view, List.length_drop]; exact Nat.sub_le _ _⟩
      · exact ⟨rfl, h, Nat.le_refl _⟩

lemma advance_spec {r : Reader} {s : Stream} {n : ℕ} (h : Fits (r, s)) (hn : n ≤ r.size) :
    Fits (r.advance n, s) ∧ (r.advance n).view = r.view.drop n := by
  have hoff : r.off + n ≤ r.buf.length := by
    have := h.off
    rw [size] at hn
    dsimp only at this
    omega
  obtain ⟨hview, hoff', hlen⟩ := compact_spec (r := { r with off := r.off + n }) hoff
  refine ⟨⟨hoff', ?_⟩, ?_⟩
  · have := h.room
    dsimp only [advance] at this hlen ⊢
    omega
  · rw [advance, hview, view, view, List.drop_drop]

lemma append_spec {r : Reader} {chunk : { chunk : Bytes // chunk ≠ [] }} {s : Stream}
    (h : Fits (r, chunk :: s)) :
    ∃ r', r.compactIfNeeded.append chunk.val = .ok r' ∧ Fits (r', s) ∧
      rest (r', s) = rest (r, chunk :: s) := by
  obtain ⟨hview, hoff, hlen⟩ := compact_spec h.off
  have hroom := h.room
  rw [bytes_cons, List.length_append] at hroom
  dsimp only at hview hoff hlen hroom
  have hfits : (r.compactIfNeeded.buf ++ chunk.val).length < 2 ^ 32 := by
    rw [List.length_append]
    omega
  refine ⟨_, if_pos hfits, ⟨?_, ?_⟩, ?_⟩
  · dsimp only
    rw [List.length_append]
    omega
  · dsimp only
    rw [List.length_append]
    omega
  · unfold rest
    rw [bytes_cons]
    dsimp only
    rw [← hview, view, List.drop_append_of_le_length hoff, List.append_assoc, view]

/-- After `ensure` there are enough bytes, or there is no more to come. -/
lemma ensure_spec (n : ℕ) {r : Reader} {s : Stream} (h : Fits (r, s)) :
    ∃ r' s', r.ensure n s = .ok (r', s') ∧ Fits (r', s') ∧ rest (r', s') = rest (r, s) ∧
      (n ≤ r'.size ∨ s' = []) := by
  induction s generalizing r with
  | nil => exact ⟨r, [], rfl, h, rfl, .inr rfl⟩
  | cons chunk s ih =>
    unfold ensure
    split
    · obtain ⟨r₁, happ, hfits, hrest⟩ := append_spec h
      obtain ⟨r', s', hrun, hfits', hrest', hend⟩ := ih hfits
      exact ⟨r', s', by rw [happ]; exact hrun, hfits', hrest'.trans hrest, hend⟩
    · next hge => exact ⟨r, chunk :: s, rfl, h, rfl, .inl (Nat.le_of_not_lt hge)⟩

lemma simulates_readByte : Simulates Fits rest readByte Text.readByte := by
  rintro ⟨r, s⟩ hfits
  obtain ⟨r', s', hrun, hfits', hrest, hend⟩ := ensure_spec 1 hfits
  rw [← hrest]
  unfold readByte
  dsimp only
  rw [hrun]
  refine .inr ?_
  cases hview : r'.view with
  | nil =>
    -- the end of the input
    have hnil : s' = [] := hend.resolve_left fun h => by
      rw [← length_view, hview] at h
      exact absurd h (by decide)
    have hempty : rest (r', s') = [] := by rw [rest, hview, hnil]; rfl
    refine ⟨0, (r', s'), by simp [hview, bind, Except.bind, pure, Except.pure], hfits', ?_⟩
    rw [hempty]
    rfl
  | cons c l =>
    have hsize : 1 ≤ r'.size := by rw [← length_view, hview]; simp
    obtain ⟨hfits'', hview'⟩ := advance_spec hfits' hsize
    refine ⟨c, (r'.advance 1, s'), by simp [hview, bind, Except.bind, pure, Except.pure],
      hfits'', ?_⟩
    have hcons : rest (r', s') = c :: rest (r'.advance 1, s') := by
      rw [rest, rest, hview', hview]
      rfl
    rw [hcons]
    rfl

lemma findCrlf_eq_some {w : Bytes} {pos : ℕ} (h : findCrlf w = some pos) :
    ∃ l r, w = l ++ 13 :: 10 :: r ∧ l.length = pos := by
  induction w generalizing pos with
  | nil => cases h
  | cons b w ih =>
    unfold findCrlf at h
    split at h
    · next hcrlf =>
      cases h
      obtain ⟨rfl, hhead⟩ := hcrlf
      cases w with
      | nil => cases hhead
      | cons c r => exact ⟨[], r, by rw [Option.some.inj hhead]; rfl, rfl⟩
    · obtain ⟨p, hp, rfl⟩ := Option.map_eq_some_iff.mp h
      obtain ⟨l, r, rfl, rfl⟩ := ih hp
      exact ⟨b :: l, r, rfl, rfl⟩

/-- A CRLF that is found stays the first one when more bytes come. -/
lemma findCrlf_append {w : Bytes} {pos : ℕ} (h : findCrlf w = some pos) (v : Bytes) :
    findCrlf (w ++ v) = some pos := by
  induction w generalizing pos with
  | nil => cases h
  | cons b w ih =>
    rw [List.cons_append]
    unfold findCrlf at h ⊢
    cases w with
    | nil => simp [findCrlf] at h
    | cons c w =>
      rw [List.cons_append, List.head?_cons] at *
      split at h
      · next hcrlf =>
        rw [if_pos hcrlf]
        exact h
      · next hcrlf =>
        obtain ⟨p, hp, rfl⟩ := Option.map_eq_some_iff.mp h
        rw [if_neg hcrlf, ih hp]
        rfl

lemma findCrlf_line {t : Bytes} (h : 13 ∉ t) (r : Bytes) :
    findCrlf (t ++ 13 :: 10 :: r) = some t.length := by
  induction t with
  | nil => simp [findCrlf]
  | cons b t ih =>
    rw [List.mem_cons, not_or] at h
    rw [List.cons_append, findCrlf, if_neg (fun hb => h.1 hb.1.symm), ih h.2]
    rfl

lemma text_readLine {w : Bytes} {pos : ℕ} (h : findCrlf w = some pos) :
    Text.readLine w = .ok (w.take pos, w.drop (pos + 2)) := by
  unfold Text.readLine
  rw [h]
  rfl

lemma advance_line {r : Reader} {s : Stream} {pos : ℕ} (h : Fits (r, s))
    (hpos : findCrlf r.view = some pos) :
    Fits (r.advance (pos + 2), s) ∧
      Text.readLine (rest (r, s)) = .ok (r.view.take pos, rest (r.advance (pos + 2), s)) := by
  obtain ⟨l, w, hview, rfl⟩ := findCrlf_eq_some hpos
  have hlen : l.length + 2 ≤ r.view.length := by
    rw [hview, List.length_append]
    simp
  obtain ⟨hfits, hview'⟩ := advance_spec h (length_view r ▸ hlen)
  refine ⟨hfits, ?_⟩
  rw [rest_eq, text_readLine (findCrlf_append hpos _), rest_eq, hview',
    List.take_append_of_le_length (by omega), List.drop_append_of_le_length hlen]

lemma simulates_readLine :
    Simulates Fits rest (fun st => readLine st.1 st.2) Text.readLine := by
  rintro ⟨r, s⟩ hfits
  dsimp only
  induction s generalizing r with
  | nil =>
    unfold readLine
    cases hpos : findCrlf r.view with
    | some pos =>
      obtain ⟨hfits', htext⟩ := advance_line hfits hpos
      exact .inr ⟨_, (_, []), rfl, hfits', htext⟩
    | none =>
      have hrest : rest (r, []) = r.view := List.append_nil _
      have hnil : r.size = 0 ↔ r.view = [] := by
        rw [← length_view, List.length_eq_zero_iff]
      rw [hrest]
      unfold Text.readLine
      rw [hpos]
      dsimp only
      by_cases hempty : r.view = []
      · rw [if_pos (hnil.mpr hempty), if_pos hempty]
        exact .inr ⟨[], (r, []), rfl, hfits, by rw [hrest, hempty]; rfl⟩
      · rw [if_neg (mt hnil.mp hempty), if_neg hempty]
        exact .inl ⟨_, rfl, rfl⟩
  | cons chunk s ih =>
    unfold readLine
    cases hpos : findCrlf r.view with
    | some pos =>
      obtain ⟨hfits', htext⟩ := advance_line hfits hpos
      exact .inr ⟨_, (_, chunk :: s), rfl, hfits', htext⟩
    | none =>
      obtain ⟨r', happ, hfits', hrest⟩ := append_spec hfits
      dsimp only
      rw [happ, ← hrest]
      exact ih r' hfits'

lemma readPayload_eq {len : ℕ} {st st' : Reader × Stream}
    (h : st.1.ensure (len + 2) st.2 = .ok st') :
    readPayload len st =
      if st'.1.size < len + 2 then fail "unexpected EOF reading bulk payload"
      else if st'.1.view[len]? ≠ some 13 ∨ st'.1.view[len + 1]? ≠ some 10 then
        fail "missing CRLF after bulk payload"
      else .ok (st'.1.view.take len, st'.1.advance (len + 2), st'.2) := by
  unfold readPayload
  rw [h]
  rfl

lemma simulates_readPayload (len : ℕ) :
    Simulates Fits rest (readPayload len) (Text.readPayload len) := by
  rintro ⟨r, s⟩ hfits
  obtain ⟨r', s', hrun, hfits', hrest, hend⟩ := ensure_spec (len + 2) hfits
  rw [← hrest, readPayload_eq hrun]
  dsimp only
  have hlength : (rest (r', s')).length < len + 2 ↔ r'.size < len + 2 := by
    rcases hend with hend | rfl
    · rw [rest_eq, List.length_append, length_view]
      omega
    · rw [rest_eq, Stream.bytes, List.flatMap_nil, List.append_nil, length_view]
  unfold Text.readPayload
  by_cases hshort : r'.size < len + 2
  · rw [if_pos hshort, if_pos (hlength.mpr hshort)]
    exact .inl ⟨_, rfl, rfl⟩
  · rw [if_neg hshort, if_neg (mt hlength.mp hshort)]
    have hge : len + 2 ≤ r'.size := Nat.le_of_not_lt hshort
    have hget (i : ℕ) (hi : i < len + 2) : (rest (r', s'))[i]? = r'.view[i]? := by
      rw [rest_eq, List.getElem?_append_left (by rw [length_view]; omega)]
    rw [hget len (by omega), hget (len + 1) (by omega)]
    by_cases hcrlf : r'.view[len]? ≠ some 13 ∨ r'.view[len + 1]? ≠ some 10
    · rw [if_pos hcrlf, if_pos hcrlf]
      exact .inl ⟨_, rfl, rfl⟩
    · obtain ⟨hfits'', hview'⟩ := advance_spec hfits' hge
      rw [if_neg hcrlf, if_neg hcrlf]
      refine .inr ⟨_, (_, s'), rfl, hfits'', ?_⟩
      rw [rest_eq, rest_eq, hview', List.take_append_of_le_length (by rw [length_view]; omega),
        List.drop_append_of_le_length (by rw [length_view]; omega)]
      rfl

lemma agree_source : Agree Fits rest source :=
  ⟨simulates_readByte, simulates_readLine, simulates_readPayload⟩

/-- **Reading a command from a stream** is reading it from the bytes that are left. -/
lemma simulates_readCommand : Simulates Fits rest readCommand Text.readCommand :=
  agree_source.readCommand

end Reader

end ShunyaKV.Resp
