import ShunyaKV.Lib.Words
import ShunyaKV.Resp.Extract

/-!
Calls of the extractor on arbitrary bytes: that each one ends, how it can leave the
processor, and what requests a connection can get.
-/

namespace ShunyaKV.Resp

open ShunyaKV.Lib.Decimal ShunyaKV.Lib.Words ShunyaKV.Shard

/-! ### Every call ends -/

lemma parseIntCrlf_pos {buf : Bytes} {pos pos' : ℕ} {v : ℤ}
    (h : parseIntCrlf buf pos = .ok v pos') : pos < pos' ∧ pos' ≤ buf.length := by
  have hle := (List.takeWhile_sublist (l := buf.drop pos) (p := (· ≠ (10 : UInt8)))).length_le
  have hlen : (buf.drop pos).length = buf.length - pos := List.length_drop
  simp only [parseIntCrlf] at h
  repeat' split at h
  all_goals cases h
  all_goals omega

/-- What is left of the buffer, twice, with a round to spare where a round may consume
nothing. -/
def Processor.left (p : Processor) (buf : Bytes) : ℕ :=
  2 * (buf.length - p.pos) + if p.st = .needBulkData then 1 else 0

lemma left_lt_of_pos {p q : Processor} {buf : Bytes} (h : p.pos < q.pos)
    (hq : q.pos ≤ buf.length) : q.left buf < p.left buf := by
  unfold Processor.left
  split <;> split <;> omega

/-- The rounds that go on, one for each state. -/
inductive Goes (buf : Bytes) (p : Processor) : Processor → Prop
  | star (hst : p.st = .needStar) (hb : buf[p.pos]? = some 42) :
    Goes buf p { p with cmdStart := p.pos, pos := p.pos + 1, st := .needArgc }
  | argc (hst : p.st = .needArgc) {v : ℤ} {pos : ℕ} (hint : parseIntCrlf buf p.pos = .ok v pos)
      (hv : ¬ (v ≤ 0 ∨ (kMaxArgs : ℤ) < v)) :
    Goes buf p { p with pos := pos, argc := v, argi := 0, slices := [], st := .needDollar }
  | dollar (hst : p.st = .needDollar) (hb : buf[p.pos]? = some 36) :
    Goes buf p { p with pos := p.pos + 1, st := .needBulkLen }
  | bulkLen (hst : p.st = .needBulkLen) {v : ℤ} {pos : ℕ}
      (hint : parseIntCrlf buf p.pos = .ok v pos) (hv : ¬ (v < 0 ∨ (kMaxBulk : ℤ) < v)) :
    Goes buf p { p with pos := pos, bulkLen := v, st := .needBulkData }
  | bulkData (hst : p.st = .needBulkData) (hle : p.pos + p.bulkLen.toNat ≤ buf.length) :
    Goes buf p { p with slices := p.slices ++ [⟨p.pos % 2 ^ 32, p.bulkLen.toNat % 2 ^ 32⟩],
                        pos := p.pos + p.bulkLen.toNat, st := .needBulkCrlf }
  | bulkCrlf (hst : p.st = .needBulkCrlf) (hle : p.pos + 2 ≤ buf.length)
      (hcrlf : ¬ (buf[p.pos]? ≠ some 13 ∨ buf[p.pos + 1]? ≠ some 10))
      (hargi : p.argi + 1 ≠ p.argc) :
    Goes buf p { p with pos := p.pos + 2, argi := p.argi + 1, st := .needDollar }

structure ProtocolError (r : ParsedRequest) : Prop where
  argv : r.argv = []
  frame : r.frame ∈ [ascii "-ERR protocol error\r\n", ascii "-ERR invalid argc\r\n",
    ascii "-ERR invalid bulk length\r\n"]

lemma compact_drop (p : Processor) {buf : Bytes} {pos : ℕ} (hpos : pos ≤ buf.length) :
    (p.compact buf pos).1.pos ≤ (p.compact buf pos).2.length ∧
      (p.compact buf pos).2.drop (p.compact buf pos).1.pos = buf.drop pos ∧
      (p.compact buf pos).2.length ≤ buf.length := by
  simp only [Processor.compact, compactIfNeeded]
  split_ifs with h1 h2 h3
  · exact ⟨hpos, rfl, Nat.le_refl _⟩
  · exact ⟨Nat.le_refl 0, by simp [List.drop_eq_nil_of_le h2], Nat.zero_le _⟩
  · exact ⟨Nat.zero_le _, rfl, by simp⟩
  · exact ⟨hpos, rfl, Nat.le_refl _⟩

lemma cut_length {p : Processor} {buf : Bytes} {r : ParsedRequest} (h : p.cut buf = some r) :
    r.argv.length = p.slices.length := by
  simp only [Processor.cut, Option.bind_eq_bind, Option.bind_eq_some_iff] at h
  obtain ⟨frame, -, argv, hargv, hr⟩ := h
  cases hr
  exact length_of_mapM hargv

/-- How a round can end the call: between two commands or where it was, with an error or
with the strings that the slices cut out. -/
structure Ended (p p' : Processor) (buf' : Bytes) (r : Extracted) : Prop where
  pos : p'.pos ≤ buf'.length
  place : p'.st = .needStar ∨ p'.st = p.st ∧ p'.slices = p.slices
  request {q : ParsedRequest} (hq : r = .request q) :
    ProtocolError q ∨ p.st = .needBulkCrlf ∧ q.argv.length = p.slices.length

/-- The rounds that end the call: between two commands, with too few bytes of one, with an
error that moves on in the buffer, or with a command. -/
inductive Finishes (buf : Bytes) (p : Processor) : Processor → Bytes → Extracted → Prop
  | empty (hst : p.st = .needStar) (hpos : buf.length ≤ p.pos) :
    Finishes buf p (p.compact buf p.pos).1 (p.compact buf p.pos).2 .nullopt
  | wait (hst : p.st ≠ .needStar) : Finishes buf p p buf .nullopt
  | badLine (hst : p.st = .needStar) {pos : ℕ} (hlt : p.pos < pos) (hle : pos ≤ buf.length) :
    Finishes buf p (p.compact buf pos).1 (p.compact buf pos).2
      (errorRequest "-ERR protocol error\r\n")
  | badFrame (hst : p.st ≠ .needStar) {q : Processor} {pos : ℕ} {msg : String}
      (hq : q.st = .needStar) (hge : p.pos ≤ pos) (hle : pos ≤ buf.length)
      (hmsg : ascii msg ∈ [ascii "-ERR protocol error\r\n", ascii "-ERR invalid argc\r\n",
        ascii "-ERR invalid bulk length\r\n"]) :
    Finishes buf p (q.compact buf pos).1 (q.compact buf pos).2 (errorRequest msg)
  | command (hst : p.st = .needBulkCrlf) (hle : p.pos + 2 ≤ buf.length)
      (hargi : p.argi + 1 = p.argc) {q : Processor} (hq : q.st = .needStar) {out : ParsedRequest}
      (hcut : { p with pos := p.pos + 2, argi := p.argi + 1 }.cut buf = some out) :
    Finishes buf p (q.compact buf (p.pos + 2)).1 (q.compact buf (p.pos + 2)).2 (.request out)
  | thrown (hst : p.st = .needBulkCrlf) (hle : p.pos + 2 ≤ buf.length)
      (hargi : p.argi + 1 = p.argc)
      (hcut : { p with pos := p.pos + 2, argi := p.argi + 1 }.cut buf = none) :
    Finishes buf p { p with pos := p.pos + 2, argi := p.argi + 1 } buf .outOfRange

def Does (buf : Bytes) (p : Processor) : Turn → Prop
  | .go q => Goes buf p q
  | .done p' buf' r => p.pos ≤ buf.length → Finishes buf p p' buf' r

lemma does_fail {p q : Processor} {buf : Bytes} {msg : String} (hst : p.st ≠ .needStar)
    (hge : p.pos ≤ q.pos) (hpos : p.pos ≤ buf.length → q.pos ≤ buf.length)
    (hmsg : ascii msg ∈ [ascii "-ERR protocol error\r\n", ascii "-ERR invalid argc\r\n",
      ascii "-ERR invalid bulk length\r\n"]) : Does buf p (q.fail buf msg) := by
  intro hp
  have hle := (List.takeWhile_sublist (l := buf.drop q.pos) (p := (· ≠ (42 : UInt8)))).length_le
  rw [List.length_drop] at hle
  have hq := hpos hp
  unfold Processor.resetAndResync
  dsimp only
  split
  · exact .badFrame hst rfl hge hq hmsg
  · exact .badFrame hst rfl (by omega) (by omega) hmsg

/-- **One round, by the state and by what is found there.** -/
lemma does_turn (buf : Bytes) (p : Processor) : Does buf p (turn buf p) := by
  unfold turn
  split <;> rename_i hst
  · split
    · next hnone => exact fun _ => .empty hst (List.getElem?_eq_none_iff.mp hnone)
    · next hb =>
      have hlt : p.pos < buf.length := (List.getElem?_eq_some_iff.mp hb).1
      split
      · exact fun _ => .badLine hst (by omega) (Nat.min_le_left _ _)
      · next h42 => exact .star hst (by rw [hb, not_not.mp h42])
  · have hne : p.st ≠ .needStar := by simp [hst]
    split
    · exact fun _ => .wait hne
    · exact does_fail hne (Nat.le_refl _) id (by simp)
    · next hint =>
      have hread := parseIntCrlf_pos hint
      dsimp only
      split
      · exact does_fail hne (Nat.le_of_lt hread.1) (fun _ => hread.2) (by simp)
      · next hv => exact .argc hst hint hv
  · have hne : p.st ≠ .needStar := by simp [hst]
    split
    · exact fun _ => .wait hne
    · next hb =>
      split
      · exact does_fail hne (Nat.le_refl _) id (by simp)
      · next h36 => exact .dollar hst (by rw [hb, not_not.mp h36])
  · have hne : p.st ≠ .needStar := by simp [hst]
    split
    · exact fun _ => .wait hne
    · exact does_fail hne (Nat.le_refl _) id (by simp)
    · next hint =>
      have hread := parseIntCrlf_pos hint
      dsimp only
      split
      · exact does_fail hne (Nat.le_of_lt hread.1) (fun _ => hread.2) (by simp)
      · next hv => exact .bulkLen hst hint hv
  · dsimp only
    split
    · exact fun _ => .wait (by simp [hst])
    · next hle => exact .bulkData hst (Nat.not_lt.mp hle)
  · have hne : p.st ≠ .needStar := by simp [hst]
    split
    · exact fun _ => .wait hne
    · next hle =>
      have hle := Nat.not_lt.mp hle
      split
      · exact does_fail hne (Nat.le_refl _) id (by simp)
      · next hcrlf =>
        dsimp only
        split
        · next hargi =>
          split
          · next hcut => exact fun _ => .thrown hst hle hargi hcut
          · next hcut => exact fun _ => .command hst hle hargi rfl hcut
        · next hargi => exact .bulkCrlf hst hle hcrlf hargi

lemma goes_of_turn {buf : Bytes} {p q : Processor} (h : turn buf p = .go q) : Goes buf p q := by
  have hdoes := does_turn buf p
  rwa [h] at hdoes

lemma finishes_of_turn {buf buf' : Bytes} {p p' : Processor} {r : Extracted}
    (h : turn buf p = .done p' buf' r) (hpos : p.pos ≤ buf.length) : Finishes buf p p' buf' r := by
  have hdoes := does_turn buf p
  rw [h] at hdoes
  exact hdoes hpos

lemma turn_go {buf : Bytes} {p q : Processor} (h : turn buf p = .go q)
    (hpos : p.pos ≤ buf.length) : q.pos ≤ buf.length ∧ q.left buf < p.left buf := by
  have hget {b : UInt8} (hb : buf[p.pos]? = some b) : p.pos < buf.length :=
    (List.getElem?_eq_some_iff.mp hb).1
  -- all rounds but one move the position forward
  suffices q.pos ≤ buf.length ∧ (p.pos < q.pos ∨ q.left buf < p.left buf) from
    ⟨this.1, this.2.elim (left_lt_of_pos · this.1) id⟩
  cases goes_of_turn h with
  | star hst hb => exact ⟨hget hb, .inl (Nat.lt_succ_self _)⟩
  | argc hst hint => exact ⟨(parseIntCrlf_pos hint).2, .inl (parseIntCrlf_pos hint).1⟩
  | dollar hst hb => exact ⟨hget hb, .inl (Nat.lt_succ_self _)⟩
  | bulkLen hst hint => exact ⟨(parseIntCrlf_pos hint).2, .inl (parseIntCrlf_pos hint).1⟩
  | bulkData hst hle =>
    refine ⟨hle, .inr ?_⟩
    simp only [Processor.left, hst, if_true, reduceCtorEq, if_false]
    omega
  | bulkCrlf hst hle => exact ⟨hle, .inl (by dsimp only; omega)⟩

lemma turn_done {buf buf' : Bytes} {p p' : Processor} {r : Extracted}
    (h : turn buf p = .done p' buf' r) (hpos : p.pos ≤ buf.length) : Ended p p' buf' r := by
  cases finishes_of_turn h hpos with
  | empty hst => exact ⟨(compact_drop p hpos).1, .inl hst, nofun⟩
  | wait hst => exact ⟨hpos, .inr ⟨rfl, rfl⟩, nofun⟩
  | badLine hst _ hle =>
    refine ⟨(compact_drop p hle).1, .inl hst, fun hq => ?_⟩
    cases hq
    exact .inl ⟨rfl, by simp⟩
  | badFrame _ hq _ hle hmsg =>
    refine ⟨(compact_drop _ hle).1, .inl hq, fun hq => ?_⟩
    cases hq
    exact .inl ⟨rfl, hmsg⟩
  | command hst hle _ hq hcut =>
    refine ⟨(compact_drop _ hle).1, .inl hq, fun hq => ?_⟩
    cases hq
    exact .inr ⟨hst, (cut_length hcut :)⟩
  | thrown hst hle => exact ⟨hle, .inr ⟨rfl, rfl⟩, nofun⟩

/-- **A call ends with a round that does not go on**, reached through rounds that keep what
every round keeps. -/
lemma tryExtractRequest_rule {buf : Bytes} {p : Processor} (I : Processor → Prop)
    (hgo : ∀ q q', I q → q.pos ≤ buf.length → turn buf q = .go q' → I q') (hp : I p)
    (hpos : p.pos ≤ buf.length) :
    ∃ q p' buf' r, I q ∧ q.pos ≤ buf.length ∧ turn buf q = .done p' buf' r ∧
      tryExtractRequest p buf = (p', buf', r) := by
  have loop (fuel : ℕ) (p : Processor) (hp : I p) (hpos : p.pos ≤ buf.length)
      (hfuel : p.left buf < fuel) :
      ∃ q p' buf' r, I q ∧ q.pos ≤ buf.length ∧ turn buf q = .done p' buf' r ∧
        extractLoop fuel buf p = (p', buf', r) := by
    induction fuel generalizing p with
    | zero => omega
    | succ fuel ih =>
      rw [extractLoop]
      rcases ht : turn buf p with q | ⟨p', buf', r⟩
      · obtain ⟨hq, hlt⟩ := turn_go ht hpos
        exact ih q (hgo p q hp hpos ht) hq (by omega)
      · exact ⟨p, p', buf', r, hp, hpos, ht, rfl⟩
  rw [tryExtractRequest, if_neg (by omega)]
  apply loop _ p hp hpos
  unfold Processor.left
  split <;> omega

/-! ### What a connection can produce -/

def Extracted.requests : Extracted → List ParsedRequest
  | .request r => [r]
  | _ => []

/-- An extractor that has been given the bytes of a stream, in whatever chunks and with whatever
calls between them, and has returned requests; with a limit, the buffer has stayed below it. -/
inductive Drawn {H : Type} (extract : H → Bytes → H × Bytes × Extracted) (h₀ : H)
    (limit : Option ℕ) : Bytes → List ParsedRequest → H → Bytes → Prop
  | start : Drawn extract h₀ limit [] [] h₀ []
  | append {w buf : Bytes} {rs : List ParsedRequest} {h : H}
      (hd : Drawn extract h₀ limit w rs h buf) (chunk : Bytes)
      (hlen : ∀ n ∈ limit, (buf ++ chunk).length < n) :
    Drawn extract h₀ limit (w ++ chunk) rs h (buf ++ chunk)
  | call {w buf buf' : Bytes} {rs : List ParsedRequest} {h h' : H} {r : Extracted}
      (hd : Drawn extract h₀ limit w rs h buf) (hcall : extract h buf = (h', buf', r)) :
    Drawn extract h₀ limit w (rs ++ r.requests) h' buf'

/-- A string of `2 ^ 32` bytes or more cannot be made; appending to a buffer would throw. -/
abbrev sizeLimit : Option ℕ := some (2 ^ 32)

/-- The processor of a connection that has been given a stream. -/
abbrev Fed : Option ℕ → Bytes → List ParsedRequest → Processor → Bytes → Prop :=
  Drawn tryExtractRequest {}

def Produced (r : ParsedRequest) : Prop := ∃ w rs p buf, Fed none w rs p buf ∧ r ∈ rs

lemma produced_of_call {buf : Bytes} {p : Processor} {r : ParsedRequest}
    (h : tryExtractRequest {} r.frame = (p, buf, .request r)) : Produced r := by
  have hfed : Fed none r.frame [] {} r.frame := Drawn.start.append r.frame nofun
  exact ⟨r.frame, [r], p, buf, hfed.call h, List.mem_singleton_self r⟩

/-- A slice is there when its CRLF is awaited. -/
structure Sliced (p : Processor) (buf : Bytes) : Prop where
  pos : p.pos ≤ buf.length
  slices : p.st = .needBulkCrlf → p.slices ≠ []

lemma turn_go_slices {buf : Bytes} {p q : Processor} (h : turn buf p = .go q) :
    q.st = .needBulkCrlf → q.slices ≠ [] := by
  cases goes_of_turn h with
  | bulkData => simp
  | star | argc | dollar | bulkLen | bulkCrlf => nofun

/-- A call keeps the slices and returns an error or a command with arguments. -/
lemma Sliced.call {p p' : Processor} {buf buf' : Bytes} {r : Extracted} (h : Sliced p buf)
    (hcall : tryExtractRequest p buf = (p', buf', r)) :
    Sliced p' buf' ∧ ∀ q, r = .request q → ProtocolError q ∨ q.argv ≠ [] := by
  obtain ⟨q, p₁, buf₁, r₁, hq, hpos, hturn, hcall₁⟩ := tryExtractRequest_rule
    (fun q => q.st = .needBulkCrlf → q.slices ≠ []) (fun _ _ _ _ hgo => turn_go_slices hgo)
    h.slices h.pos
  rw [hcall] at hcall₁
  cases hcall₁
  have hend := turn_done hturn hpos
  refine ⟨⟨hend.pos, fun hst => ?_⟩, fun req hreq => ?_⟩
  · rcases hend.place with hstar | ⟨hst', hsl⟩
    · rw [hstar] at hst
      cases hst
    · rw [hsl]
      exact hq (hst' ▸ hst)
  · rcases hend.request hreq with herr | ⟨hst, hlen⟩
    · exact .inl herr
    · right
      rw [← List.length_pos_iff, hlen, List.length_pos_iff]
      exact hq hst

/-- **A connection gets errors and commands with arguments.** -/
lemma Fed.sliced {limit : Option ℕ} {w buf : Bytes} {rs : List ParsedRequest} {p : Processor}
    (h : Fed limit w rs p buf) : Sliced p buf ∧ ∀ r ∈ rs, ProtocolError r ∨ r.argv ≠ [] := by
  induction h with
  | start => exact ⟨⟨Nat.le_refl 0, nofun⟩, by simp⟩
  | append _ chunk _ ih =>
    obtain ⟨⟨hpos, hslices⟩, hrs⟩ := ih
    exact ⟨⟨by rw [List.length_append]; omega, hslices⟩, hrs⟩
  | @call w buf buf' rs p p' r _ hcall ih =>
    obtain ⟨hsliced, hreturned⟩ := ih.1.call hcall
    refine ⟨hsliced, fun q hq => ?_⟩
    rcases List.mem_append.mp hq with hq | hq
    · exact ih.2 q hq
    · cases r with
      | request r =>
        obtain rfl := List.mem_singleton.mp hq
        exact hreturned q rfl
      | nullopt | outOfRange => simp [Extracted.requests] at hq

lemma Produced.cases {r : ParsedRequest} (h : Produced r) : ProtocolError r ∨ r.argv ≠ [] := by
  obtain ⟨w, rs, p, buf, hfed, hr⟩ := h
  exact hfed.sliced.2 r hr

end ShunyaKV.Resp
