import ShunyaKV.Resp.Agree
import ShunyaKV.Resp.Reader

/-!
What the reader accepts, and what it reads in a session.
-/

namespace ShunyaKV.Resp

open ShunyaKV.Lib.Decimal ShunyaKV.Lib.Words ShunyaKV.Lib.Simulate ShunyaKV.Shard
open ShunyaKV.Resp.Whole (fromChars maxArgs maxBulk)

/-! ### Frames -/

/-- A bulk string and its bytes. A length of `-1` stands for the empty string. -/
inductive IsBulk : Bytes → Bytes → Prop
  | null {t : Bytes} (ht : fromChars t = some (-1, [])) : IsBulk [] (36 :: t ++ writeCrlf)
  | string {t x : Bytes} (ht : fromChars t = some ((x.length : ℤ), []))
    (hx : (x.length : ℤ) ≤ maxBulk) : IsBulk x (36 :: t ++ writeCrlf ++ (x ++ writeCrlf))

inductive AreBulks : List Bytes → Bytes → Prop
  | nil : AreBulks [] []
  | cons {x u : Bytes} {argv : List Bytes} {v : Bytes} (hx : IsBulk x u) (h : AreBulks argv v) :
    AreBulks (x :: argv) (u ++ v)

structure IsArray (argv : List Bytes) (frame : Bytes) : Prop where
  pos : 1 ≤ argv.length
  le : (argv.length : ℤ) ≤ maxArgs
  frame : ∃ t v, fromChars t = some ((argv.length : ℤ), []) ∧ AreBulks argv v ∧
    frame = 42 :: t ++ writeCrlf ++ v

namespace Text

lemma readByte_iff {w w' : Bytes} {b : UInt8} :
    source.readByte w = .ok (b, w') ↔ (w = [] ∧ b = 0 ∧ w' = []) ∨ w = b :: w' := by
  cases w with
  | nil =>
    constructor
    · intro h
      cases h
      exact .inl ⟨rfl, rfl, rfl⟩
    · rintro (⟨-, rfl, rfl⟩ | h)
      · rfl
      · cases h
  | cons c w =>
    constructor
    · intro h
      cases h
      exact .inr rfl
    · rintro (⟨h, -⟩ | h)
      · cases h
      · cases h
        rfl

lemma readLine_number {t : Bytes} {n : ℤ} (ht : fromChars t = some (n, [])) (w : Bytes) :
    readLine (t ++ writeCrlf ++ w) = .ok (t, w) := by
  have hheader := (Whole.fromChars_eq_some_iff.mp ht).1
  have h13 : (13 : UInt8) ∉ t := Whole.not_mem_header hheader (by decide) (by decide)
  have heq : t ++ writeCrlf ++ w = t ++ 13 :: 10 :: w := by simp [writeCrlf, ascii]
  rw [heq, Reader.text_readLine (Reader.findCrlf_line h13 w), List.take_left,
    ← List.drop_drop, List.drop_left]
  rfl

/-- What is read as a line, unless it is empty, stands before a CRLF. -/
lemma readLine_eq_ok {w l w' : Bytes} (h : readLine w = .ok (l, w')) (hl : l ≠ []) :
    w = l ++ writeCrlf ++ w' := by
  unfold readLine at h
  split at h
  · next pos hpos =>
    cases h
    obtain ⟨l, r, rfl, rfl⟩ := Reader.findCrlf_eq_some hpos
    rw [List.take_left, ← List.drop_drop, List.drop_left]
    simp [writeCrlf, ascii]
  · split at h
    · cases h
      exact absurd rfl hl
    · cases h

lemma fromChars_ne_nil {t : Bytes} {n : ℤ} (ht : fromChars t = some (n, [])) : t ≠ [] := by
  rintro rfl
  cases ht

lemma readIntLine_iff {w w' : Bytes} {n : ℤ} (hn : n ≠ 0) :
    source.readIntLine w = .ok (n, w') ↔
      ∃ t, fromChars t = some (n, []) ∧ w = t ++ writeCrlf ++ w' := by
  unfold Source.readIntLine
  rw [bind_eq_ok_iff]
  constructor
  · rintro ⟨line, v, hline, h⟩
    split at h
    · cases h
      exact absurd rfl hn
    · next hne =>
      rcases hm : fromChars line with _ | ⟨m, _ | ⟨b, r⟩⟩ <;> rw [hm] at h <;> cases h
      exact ⟨line, hm, readLine_eq_ok hline hne⟩
  · rintro ⟨t, ht, rfl⟩
    refine ⟨t, w', readLine_number ht w', ?_⟩
    rw [if_neg (fromChars_ne_nil ht), ht]
    rfl

lemma readPayload_iff {len : ℕ} {w w' x : Bytes} :
    readPayload len w = .ok (x, w') ↔ x.length = len ∧ w = x ++ writeCrlf ++ w' := by
  unfold readPayload
  constructor
  · intro h
    split at h
    · cases h
    · next hlen =>
      split at h
      · cases h
      · next hcrlf =>
        cases h
        rw [not_or, not_not, not_not] at hcrlf
        refine ⟨by rw [List.length_take]; omega, ?_⟩
        have hdrop : w.drop len = 13 :: 10 :: w.drop (len + 2) := by
          rw [List.drop_eq_getElem_cons (by omega), List.drop_eq_getElem_cons (by omega)]
          rw [List.getElem?_eq_getElem (by omega), Option.some.injEq] at hcrlf
          rw [List.getElem?_eq_getElem (by omega), Option.some.injEq] at hcrlf
          rw [hcrlf.1, hcrlf.2]
        nth_rewrite 1 [← List.take_append_drop len w]
        rw [hdrop]
        simp [writeCrlf, ascii]
  · rintro ⟨rfl, rfl⟩
    have heq : x ++ writeCrlf ++ w' = x ++ 13 :: 10 :: w' := by simp [writeCrlf, ascii]
    rw [heq, if_neg (by simp), if_neg (by simp), List.take_left, ← List.drop_drop, List.drop_left]
    rfl

/-- What is read as a bulk string is one. -/
lemma isBulk_of_readBulk {w w' x : Bytes} (h : source.readBulk w = .ok (x, w')) :
    ∃ u, IsBulk x (36 :: u) ∧ w = u ++ w' := by
  unfold Source.readBulk at h
  rw [bind_eq_ok_iff] at h
  obtain ⟨line, v, hline, h⟩ := h
  split at h
  · cases h
  · next hne =>
    have hw := readLine_eq_ok hline hne
    rcases hm : fromChars line with _ | ⟨len, _ | ⟨b, r⟩⟩ <;> rw [hm] at h
    · cases h
    · dsimp only at h
      split at h
      · next hnull =>
        cases h
        subst hnull
        exact ⟨line ++ writeCrlf, .null hm, hw⟩
      · split at h
        · cases h
        · next hneg =>
          split at h
          · cases h
          · next hmax =>
            obtain ⟨hlen, hv⟩ := readPayload_iff.mp h
            have hlen' : (x.length : ℤ) = len := by omega
            rw [← hlen'] at hm hmax
            refine ⟨line ++ writeCrlf ++ (x ++ writeCrlf), ?_, ?_⟩
            · exact .string hm (Int.not_lt.mp hmax)
            · rw [hw, hv]
              simp
    · cases h

lemma readBulk_of_isBulk {x u : Bytes} (h : IsBulk x (36 :: u)) (w : Bytes) :
    source.readBulk (u ++ w) = .ok (x, w) := by
  generalize hu : 36 :: u = u' at h
  unfold Source.readBulk
  rw [bind_eq_ok_iff]
  cases h with
  | @null t ht =>
    obtain rfl : u = t ++ writeCrlf := by simpa using hu
    refine ⟨t, w, readLine_number ht w, ?_⟩
    rw [if_neg (fromChars_ne_nil ht), ht]
    rfl
  | @string t _ ht hx =>
    obtain rfl : u = t ++ writeCrlf ++ (x ++ writeCrlf) := by simpa using hu
    refine ⟨t, x ++ writeCrlf ++ w, ?_, ?_⟩
    · have hline : source.readLineCrlf (t ++ writeCrlf ++ (x ++ writeCrlf ++ w)) =
          .ok (t, x ++ writeCrlf ++ w) := readLine_number ht _
      simpa only [List.append_assoc] using hline
    · rw [if_neg (fromChars_ne_nil ht), ht]
      dsimp only
      rw [if_neg (by omega), if_neg (by omega), if_neg (by omega), Int.toNat_natCast]
      exact readPayload_iff.mpr ⟨rfl, rfl⟩

lemma cons_of_isBulk {x u : Bytes} (h : IsBulk x u) : ∃ v, u = 36 :: v := by
  cases h <;> exact ⟨_, rfl⟩

lemma readStrings_iff {n : ℕ} {w w' : Bytes} {argv : List Bytes} :
    source.readStrings n w = .ok (argv, w') ↔
      argv.length = n ∧ ∃ v, AreBulks argv v ∧ w = v ++ w' := by
  induction n generalizing w argv with
  | zero =>
    unfold Source.readStrings
    constructor
    · intro h
      cases h
      exact ⟨rfl, [], .nil, rfl⟩
    · rintro ⟨hlen, v, hv, rfl⟩
      obtain rfl := List.length_eq_zero_iff.mp hlen
      cases hv
      rfl
  | succ n ih =>
    unfold Source.readStrings
    rw [bind_eq_ok_iff]
    constructor
    · rintro ⟨bt, w₁, hbyte, h⟩
      split at h
      · cases h
      · next hzero =>
        split at h
        · cases h
        · next hbt =>
          rw [bind_eq_ok_iff] at h
          obtain ⟨x, w₂, hbulk, h⟩ := h
          rw [bind_eq_ok_iff] at h
          obtain ⟨argv', w₃, hrest, h⟩ := h
          cases h
          obtain ⟨hlen, v, hv, rfl⟩ := ih.mp hrest
          obtain ⟨u, hu, rfl⟩ := isBulk_of_readBulk hbulk
          rcases readByte_iff.mp hbyte with ⟨-, rfl, -⟩ | rfl
          · exact absurd rfl hzero
          · rw [not_not.mp hbt]
            exact ⟨by simp [hlen], 36 :: u ++ v, .cons hu hv, by simp⟩
    · rintro ⟨hlen, v, hv, rfl⟩
      cases hv with
      | nil => cases hlen
      | @cons x u argv v hx hv =>
        obtain ⟨u, rfl⟩ := cons_of_isBulk hx
        refine ⟨36, u ++ (v ++ w'), readByte_iff.mpr (.inr (by simp)), ?_⟩
        rw [if_neg (by decide), if_neg (by decide), bind_eq_ok_iff]
        refine ⟨x, v ++ w', readBulk_of_isBulk hx _, ?_⟩
        rw [bind_eq_ok_iff]
        exact ⟨argv, w', ih.mpr ⟨by simpa using hlen, v, hv, rfl⟩, rfl⟩

/-- **The language of the reader**: it reads a command exactly where one stands, and takes the end
of the bytes, or a byte 0, for the end of the input. -/
lemma readCommand_iff {w w' : Bytes} {argv : List Bytes} :
    readCommand w = .ok (argv, w') ↔
      (argv = [] ∧ (w = [] ∧ w' = [] ∨ w = 0 :: w')) ∨
        ∃ frame, IsArray argv frame ∧ w = frame ++ w' := by
  unfold readCommand Source.readCommand
  rw [bind_eq_ok_iff]
  constructor
  · rintro ⟨t, w₁, hbyte, h⟩
    split at h
    · next hzero =>
      cases h
      refine .inl ⟨rfl, ?_⟩
      rcases readByte_iff.mp hbyte with ⟨rfl, -, rfl⟩ | rfl
      · exact .inl ⟨rfl, rfl⟩
      · exact .inr (by rw [hzero])
    · next hzero =>
      split at h
      · cases h
      · next hstar =>
        rw [bind_eq_ok_iff] at h
        obtain ⟨n, w₂, hint, h⟩ := h
        split at h
        · cases h
        · next hpos =>
          split at h
          · cases h
          · next hmax =>
            obtain ⟨hlen, v, hv, rfl⟩ := readStrings_iff.mp h
            obtain ⟨s, hs, rfl⟩ := (readIntLine_iff (by omega)).mp hint
            have hn : (argv.length : ℤ) = n := by omega
            rw [← hn] at hs hmax
            refine .inr ⟨42 :: s ++ writeCrlf ++ v, ⟨by omega, by omega, s, v, hs, hv, rfl⟩, ?_⟩
            rcases readByte_iff.mp hbyte with ⟨-, rfl, -⟩ | rfl
            · exact absurd rfl hzero
            · rw [not_not.mp hstar]
              simp
  · rintro (⟨rfl, ⟨rfl, rfl⟩ | rfl⟩ | ⟨frame, ⟨hpos, hle, t, v, ht, hv, rfl⟩, rfl⟩)
    · exact ⟨0, [], rfl, rfl⟩
    · exact ⟨0, w', rfl, rfl⟩
    · refine ⟨42, t ++ writeCrlf ++ (v ++ w'), readByte_iff.mpr (.inr (by simp)), ?_⟩
      rw [if_neg (by decide), if_neg (by decide), bind_eq_ok_iff]
      refine ⟨argv.length, v ++ w', (readIntLine_iff (by omega)).mpr ⟨t, ht, rfl⟩, ?_⟩
      rw [if_neg (by omega), if_neg (by omega), Int.toNat_natCast]
      exact readStrings_iff.mpr ⟨rfl, v, hv, rfl⟩

end Text

/-! ### Sessions -/

section

variable {σ τ : Type}

/-- The commands that are read one after the other, and how the reading ends. -/
def session (read : StateT σ (Except String) (List Bytes)) :
    ℕ → σ → List (List Bytes) × Except String Unit
  | 0, _ => ([], .ok ())
  | fuel + 1, st =>
    match read st with
    | .error e => ([], .error e)
    | .ok ([], _) => ([], .ok ())
    | .ok (arg :: args, st) =>
      let r := session read fuel st
      ((arg :: args) :: r.1, r.2)

lemma session_simulates {I : σ → Prop} {abs : σ → τ} {x : StateT σ (Except String) (List Bytes)}
    {y : StateT τ (Except String) (List Bytes)} (h : Simulates I abs x y) (fuel : ℕ) {s : σ}
    (hs : I s) : session x fuel s = session y fuel (abs s) := by
  induction fuel generalizing s with
  | zero => rfl
  | succ fuel ih =>
    unfold session
    rcases h s hs with ⟨e, hx, hy⟩ | ⟨argv, t, hx, ht, hy⟩
    · rw [hx, hy]
    · rw [hx, hy]
      cases argv with
      | nil => rfl
      | cons arg args =>
        dsimp only
        rw [ih ht]

end

/-- The bytes of a session: frames, and then the end or what the reader takes for it, or what it
cannot read. -/
inductive Transcript : Bytes → List (List Bytes) → Except String Unit → Prop
  | ended {w : Bytes} (h : w = [] ∨ w.head? = some 0) : Transcript w [] (.ok ())
  | failed {w : Bytes} {e : String} (h : Text.readCommand w = .error e) : Transcript w [] (.error e)
  | command {argv : List Bytes} {frame w : Bytes} {cmds : List (List Bytes)}
    {r : Except String Unit} (hframe : IsArray argv frame) (h : Transcript w cmds r) :
    Transcript (frame ++ w) (argv :: cmds) r

lemma IsArray.length_pos {argv : List Bytes} {frame : Bytes} (h : IsArray argv frame) :
    0 < frame.length := by
  obtain ⟨t, v, -, -, rfl⟩ := h.frame
  simp

lemma transcript_session {fuel : ℕ} {w : Bytes} (h : w.length < fuel) :
    Transcript w (session Text.readCommand fuel w).1 (session Text.readCommand fuel w).2 := by
  induction fuel generalizing w with
  | zero => omega
  | succ fuel ih =>
    unfold session
    cases hread : Text.readCommand w with
    | error e => exact .failed hread
    | ok p =>
      obtain ⟨argv, w'⟩ := p
      have hw := Text.readCommand_iff.mp hread
      cases argv with
      | nil =>
        refine .ended ?_
        rcases hw with ⟨-, ⟨rfl, -⟩ | rfl⟩ | ⟨frame, hframe, -⟩
        · exact .inl rfl
        · exact .inr rfl
        · exact absurd hframe.pos (by decide)
      | cons arg args =>
        rcases hw with ⟨hnil, -⟩ | ⟨frame, hframe, rfl⟩
        · cases hnil
        · have hpos := hframe.length_pos
          rw [List.length_append] at h
          exact .command hframe (ih (by omega))

/-- A transcript is that of the session. -/
lemma Transcript.session {fuel : ℕ} {w : Bytes} {cmds : List (List Bytes)} {r : Except String Unit}
    (h : Transcript w cmds r) (hfuel : w.length < fuel) :
    session Text.readCommand fuel w = (cmds, r) := by
  induction h generalizing fuel with
  | @ended w hw =>
    cases fuel with
    | zero => omega
    | succ fuel =>
      have hread : ∃ w', Text.readCommand w = .ok ([], w') := by
        rcases hw with rfl | hw
        · exact ⟨[], Text.readCommand_iff.mpr (.inl ⟨rfl, .inl ⟨rfl, rfl⟩⟩)⟩
        · cases w with
          | nil => cases hw
          | cons b w =>
            refine ⟨w, Text.readCommand_iff.mpr (.inl ⟨rfl, .inr ?_⟩)⟩
            rw [Option.some.inj hw]
      obtain ⟨w', hread⟩ := hread
      rw [Resp.session, hread]
  | failed hw =>
    cases fuel with
    | zero => omega
    | succ fuel => rw [Resp.session, hw]
  | @command argv frame w cmds r hframe _ ih =>
    cases fuel with
    | zero => omega
    | succ fuel =>
      have hpos := hframe.length_pos
      rw [List.length_append] at hfuel
      have hread : Text.readCommand (frame ++ w) = .ok (argv, w) :=
        Text.readCommand_iff.mpr (.inr ⟨frame, hframe, rfl⟩)
      rw [Resp.session, hread]
      cases argv with
      | nil => exact absurd hframe.pos (by decide)
      | cons arg args =>
        dsimp only
        rw [ih (by omega)]

/-! ### Written commands -/

lemma fromChars_decimal {n : ℕ} (h : (n : ℤ) < 2 ^ 63) :
    fromChars (decimal n) = some ((n : ℤ), []) := by
  have hhead : (decimal n).head? ≠ some 45 := by
    intro hd
    exact not_mem_decimal (n := n) (b := 45) (by decide) (List.mem_of_mem_head? hd)
  have hdigits : digitsOf (decimal n) = decimal n := by rw [digitsOf, if_neg hhead]
  refine Whole.fromChars_eq_some_iff.mpr ⟨⟨?_, ?_⟩, ?_, ?_⟩
  · rw [hdigits]
    exact decimal_ne_nil n
  · rw [hdigits]
    exact fun b hb => isDigit_of_mem_decimal hb
  · rw [denoted, if_neg hhead, hdigits, value_decimal]
  · unfold Whole.IsInt64
    omega

lemma isBulk_writeBulk {x : Bytes} (h : x.length ≤ kMaxBulk) : IsBulk x (writeBulk x) := by
  have hmax : (x.length : ℤ) ≤ maxBulk := by
    have hk : (kMaxBulk : ℤ) = maxBulk := by decide
    omega
  have hbulk := IsBulk.string (x := x) (fromChars_decimal (by
    have hk : maxBulk < 2 ^ 63 := by decide
    omega)) hmax
  have heq : writeBulk x = 36 :: decimal x.length ++ writeCrlf ++ (x ++ writeCrlf) := by
    simp [writeBulk, ascii]
  rwa [heq]

lemma isArray_writeArrayBulk {c : List Bytes} (h : Command c) : IsArray c (writeArrayBulk c) := by
  have hk : (kMaxArgs : ℤ) = maxArgs := by decide
  have hle := h.le
  refine ⟨h.pos, by omega, decimal c.length, c.flatMap writeBulk, ?_, ?_, ?_⟩
  · refine fromChars_decimal ?_
    have hk' : maxArgs < 2 ^ 63 := by decide
    omega
  · have hbulk := h.bulk
    clear h hle hk
    induction c with
    | nil => exact .nil
    | cons x c ih =>
      rw [List.flatMap_cons]
      exact .cons (isBulk_writeBulk (hbulk x (by simp))) (ih fun y hy => hbulk y (by simp [hy]))
  · simp [writeArrayBulk, ascii]

lemma transcript_commands {cmds : List (List Bytes)} (h : ∀ cmd ∈ cmds, Command cmd) :
    Transcript (cmds.flatMap writeArrayBulk) cmds (.ok ()) := by
  induction cmds with
  | nil => exact .ended (.inl rfl)
  | cons cmd cmds ih =>
    rw [List.flatMap_cons]
    exact .command (isArray_writeArrayBulk (h cmd (by simp))) (ih fun c hc => h c (by simp [hc]))

/-- **A session of the reader.** Whatever chunks its input comes in, the commands a reader gets
and the way it ends are those of the bytes: it reads the frames that stand there one after the
other, and stops at the end, at a byte 0, or with the error of what is no frame; and commands that
were written are read back. -/
theorem session_transcript (s : Stream) (hs : s.bytes.length < 2 ^ 32) (fuel : ℕ)
    (hfuel : s.bytes.length < fuel) :
    (∀ cmds r, session Reader.readCommand fuel ({}, s) = (cmds, r) ↔ Transcript s.bytes cmds r) ∧
    ∀ cmds : List (List Bytes), (∀ cmd ∈ cmds, Command cmd) →
      s.bytes = cmds.flatMap writeArrayBulk →
        session Reader.readCommand fuel ({}, s) = (cmds, .ok ()) := by
  have hfits : Reader.Fits ({}, s) := ⟨Nat.le_refl 0, by simpa using hs⟩
  have heq : session Reader.readCommand fuel ({}, s) = session Text.readCommand fuel s.bytes :=
    session_simulates Reader.simulates_readCommand fuel hfits
  rw [heq]
  refine ⟨fun cmds r => ⟨fun h => ?_, fun h => h.session hfuel⟩, fun cmds hcmds hbytes => ?_⟩
  · have htranscript := transcript_session hfuel
    rwa [h] at htranscript
  · rw [hbytes] at hfuel ⊢
    exact (transcript_commands hcmds).session hfuel

/-- A null string, in chunks cut within a length and within a CRLF. -/
def nullArray : Stream :=
  [⟨ascii "*2\r\n$-", by decide⟩, ⟨ascii "1\r\n$1\r\nx\r", by decide⟩, ⟨[10], by decide⟩]

theorem session_transcript_null :
    session Reader.readCommand 100 ({}, nullArray) = ([[[], [120]]], .ok ()) ∧
      Transcript nullArray.bytes [[[], [120]]] (.ok ()) := by
  have hrun : session Reader.readCommand 100 ({}, nullArray) = ([[[], [120]]], .ok ()) := rfl
  exact ⟨hrun, ((session_transcript nullArray (by decide) 100 (by decide)).1 _ _).mp hrun⟩

end ShunyaKV.Resp
