import ShunyaKV.Resp.RoundTrip

/-!
The extractor without its buffer.

What a round does depends on the bytes ahead and on what has been read of the command under
way, not on where these lie in the buffer. The scan says so: it goes from place to place and
takes bytes from the front. The rounds of the extractor are those of the scan.
-/

namespace ShunyaKV.Resp

open ShunyaKV.Lib.Decimal ShunyaKV.Lib.Words ShunyaKV.Shard

/-- Between two commands, or within one: the bytes seen of it, the number of its strings and
the strings read. -/
inductive Place
  | between
  | argc (seen : Bytes)
  | dollar (seen : Bytes) (argc : ℕ) (argv : List Bytes)
  | bulkLen (seen : Bytes) (argc : ℕ) (argv : List Bytes)
  | bulkData (seen : Bytes) (argc : ℕ) (argv : List Bytes) (len : ℕ)
  | bulkCrlf (seen : Bytes) (argc : ℕ) (argv : List Bytes)
  deriving DecidableEq

/-- A command; or an error, with the bytes ahead when it was found. -/
inductive Output
  | command (r : ParsedRequest)
  | badLine (ahead : Bytes)
  | badFrame (msg : String) (ahead : Bytes)
  deriving DecidableEq

def Output.request : Output → ParsedRequest
  | .command r => r
  | .badLine _ => ⟨ascii "-ERR protocol error\r\n", []⟩
  | .badFrame msg _ => ⟨ascii msg, []⟩

inductive Move
  | wait
  | go (pl : Place) (ahead : Bytes)
  | done (o : Output) (ahead : Bytes)
  deriving DecidableEq

def skipLine (a : Bytes) : Bytes := (a.dropWhile (· ≠ 10)).tail

def resync (a : Bytes) : Bytes := a.dropWhile (· ≠ 42)

def Move.fail (msg : String) (a : Bytes) : Move := .done (.badFrame msg a) (resync a)

/-- A header line: its number is refused, or the scan goes on after it. -/
def Move.header (a : Bytes) (bad : ℤ → Bool) (msg : String) (next : Bytes → ℤ → Place) : Move :=
  match parseIntCrlf a 0 with
  | .needMore => .wait
  | .invalid => .fail "-ERR protocol error\r\n" a
  | .ok v n => if bad v then .fail msg (a.drop n) else .go (next (a.take n) v) (a.drop n)

def scan : Place → Bytes → Move
  | .between, [] => .wait
  | .between, b :: a =>
    if b ≠ 42 then .done (.badLine (b :: a)) (skipLine (b :: a)) else .go (.argc [b]) a
  | .argc seen, a =>
    .header a (fun v => v ≤ 0 ∨ (kMaxArgs : ℤ) < v) "-ERR invalid argc\r\n"
      fun line v => .dollar (seen ++ line) v.toNat []
  | .dollar _ _ _, [] => .wait
  | .dollar seen argc argv, b :: a =>
    if b ≠ 36 then .fail "-ERR protocol error\r\n" (b :: a)
    else .go (.bulkLen (seen ++ [b]) argc argv) a
  | .bulkLen seen argc argv, a =>
    .header a (fun v => v < 0 ∨ (kMaxBulk : ℤ) < v) "-ERR invalid bulk length\r\n"
      fun line v => .bulkData (seen ++ line) argc argv v.toNat
  | .bulkData seen argc argv len, a =>
    if a.length < len then .wait
    else .go (.bulkCrlf (seen ++ a.take len) argc (argv ++ [a.take len])) (a.drop len)
  | .bulkCrlf seen argc argv, a =>
    if a.length < 2 then .wait
    else if a.take 2 ≠ writeCrlf then .fail "-ERR protocol error\r\n" a
    else if argv.length = argc then .done (.command ⟨seen ++ writeCrlf, argv⟩) (a.drop 2)
    else .go (.dollar (seen ++ writeCrlf) argc argv) (a.drop 2)

inductive Steps : Place → Bytes → Place → Bytes → Prop
  | star (a : Bytes) : Steps .between (42 :: a) (.argc [42]) a
  | argc {seen a : Bytes} {v : ℤ} {n : ℕ} (hint : parseIntCrlf a 0 = .ok v n)
      (hv : ¬ (v ≤ 0 ∨ (kMaxArgs : ℤ) < v)) :
    Steps (.argc seen) a (.dollar (seen ++ a.take n) v.toNat []) (a.drop n)
  | dollar (seen a : Bytes) (argc : ℕ) (argv : List Bytes) :
    Steps (.dollar seen argc argv) (36 :: a) (.bulkLen (seen ++ [36]) argc argv) a
  | bulkLen {seen a : Bytes} {argc : ℕ} {argv : List Bytes} {v : ℤ} {n : ℕ}
      (hint : parseIntCrlf a 0 = .ok v n) (hv : ¬ (v < 0 ∨ (kMaxBulk : ℤ) < v)) :
    Steps (.bulkLen seen argc argv) a (.bulkData (seen ++ a.take n) argc argv v.toNat) (a.drop n)
  | bulkData {seen a : Bytes} {argc len : ℕ} {argv : List Bytes} (hlen : len ≤ a.length) :
    Steps (.bulkData seen argc argv len) a
      (.bulkCrlf (seen ++ a.take len) argc (argv ++ [a.take len])) (a.drop len)
  | bulkCrlf (seen a : Bytes) {argc : ℕ} {argv : List Bytes} (hargc : argv.length ≠ argc) :
    Steps (.bulkCrlf seen argc argv) (writeCrlf ++ a) (.dollar (seen ++ writeCrlf) argc argv) a

inductive Ends : Place → Bytes → Output → Bytes → Prop
  | badLine {b : UInt8} (a : Bytes) (hb : b ≠ 42) :
    Ends .between (b :: a) (.badLine (b :: a)) (skipLine (b :: a))
  | badFrame {pl : Place} (hpl : pl ≠ .between) (msg : String) (d a : Bytes) :
    Ends pl (d ++ a) (.badFrame msg a) (resync a)
  | command (seen a : Bytes) (argv : List Bytes) :
    Ends (.bulkCrlf seen argv.length argv) (writeCrlf ++ a) (.command ⟨seen ++ writeCrlf, argv⟩) a

lemma take_crlf {a : Bytes} (h : ¬ a.take 2 ≠ writeCrlf) : a = writeCrlf ++ a.drop 2 := by
  rw [← not_not.mp h, List.take_append_drop]

lemma header_go {a a' : Bytes} {bad : ℤ → Bool} {msg : String} {next : Bytes → ℤ → Place}
    {pl : Place} (h : Move.header a bad msg next = .go pl a') :
    ∃ v n, parseIntCrlf a 0 = .ok v n ∧ bad v = false ∧ pl = next (a.take n) v ∧
      a' = a.drop n := by
  unfold Move.header at h
  split at h
  · cases h
  · cases h
  · rename_i hint
    split at h
    · cases h
    · rename_i hv
      cases h
      exact ⟨_, _, hint, by simpa using hv, rfl, rfl⟩

lemma header_done {a a' : Bytes} {bad : ℤ → Bool} {msg : String} {next : Bytes → ℤ → Place}
    {o : Output} (h : Move.header a bad msg next = .done o a') :
    ∃ msg' d b, a = d ++ b ∧ Move.fail msg' b = .done o a' := by
  unfold Move.header at h
  split at h
  · cases h
  · exact ⟨_, [], a, rfl, h⟩
  · split at h
    · exact ⟨_, _, _, (List.take_append_drop _ a).symm, h⟩
    · cases h

lemma steps_of_scan {pl pl' : Place} {a a' : Bytes} (h : scan pl a = .go pl' a') :
    Steps pl a pl' a' := by
  unfold scan at h
  split at h
  · cases h
  · split at h
    · cases h
    · rename_i hb
      cases h
      rw [not_not.mp hb]
      exact .star _
  · obtain ⟨v, n, hint, hv, rfl, rfl⟩ := header_go h
    exact .argc hint (by simpa using hv)
  · cases h
  · split at h
    · cases h
    · rename_i hb
      cases h
      rw [not_not.mp hb]
      exact .dollar _ _ _ _
  · obtain ⟨v, n, hint, hv, rfl, rfl⟩ := header_go h
    exact .bulkLen hint (by simpa using hv)
  · split at h
    · cases h
    · rename_i hlen
      cases h
      exact .bulkData (Nat.not_lt.mp hlen)
  · split at h
    · cases h
    · split at h
      · cases h
      · rename_i seen argc argv _ hcrlf
        split at h
        · cases h
        · rename_i hargc
          cases h
          have hstep := Steps.bulkCrlf seen (a.drop 2) hargc
          rwa [← take_crlf hcrlf] at hstep

lemma ends_of_scan {pl : Place} {a a' : Bytes} {o : Output} (h : scan pl a = .done o a') :
    Ends pl a o a' := by
  have hfail {pl : Place} {a : Bytes} (hpl : pl ≠ .between)
      (h : ∃ msg d b, a = d ++ b ∧ Move.fail msg b = .done o a') : Ends pl a o a' := by
    obtain ⟨msg, d, b, rfl, h⟩ := h
    cases h
    exact .badFrame hpl msg d b
  unfold scan at h
  split at h
  · cases h
  · split at h
    · rename_i hb
      cases h
      exact .badLine _ hb
    · cases h
  · exact hfail (by simp) (header_done h)
  · cases h
  · split at h
    · exact hfail (by simp) ⟨_, [], _, rfl, h⟩
    · cases h
  · exact hfail (by simp) (header_done h)
  · split at h
    · cases h
    · cases h
  · split at h
    · cases h
    · split at h
      · exact hfail (by simp) ⟨_, [], _, rfl, h⟩
      · rename_i seen argc argv _ hcrlf
        split at h
        · rename_i hargc
          subst hargc
          cases h
          have hend := Ends.command seen (a.drop 2) argv
          rwa [← take_crlf hcrlf] at hend
        · cases h

/-! ### The rounds of the extractor -/

def Cut (base : ℕ) (seen : Bytes) (sl : Slice) (x : Bytes) : Prop :=
  ∃ u v, seen = u ++ x ++ v ∧ sl = ⟨base + u.length, x.length⟩

/-- What the processor remembers of the command under way. -/
structure Remembers (base : ℕ) (seen : Bytes) (argc argi : ℕ) (argv : List Bytes)
    (p : Processor) : Prop where
  begun : seen ≠ []
  argc : p.argc = argc
  argi : p.argi = argi
  slices : List.Forall₂ (Cut base seen) p.slices argv

/-- The processor stands at a place, with some bytes ahead. -/
inductive Rep (buf : Bytes) (p : Processor) : Place → Bytes → Prop
  | between (hst : p.st = .needStar) (hpos : p.pos ≤ buf.length) :
    Rep buf p .between (buf.drop p.pos)
  | argc {pre seen a : Bytes} (hst : p.st = .needArgc) (hat : At buf pre seen a p)
      (hseen : seen ≠ []) : Rep buf p (.argc seen) a
  | dollar {pre seen a : Bytes} {argc : ℕ} {argv : List Bytes} (hst : p.st = .needDollar)
      (hat : At buf pre seen a p) (hp : Remembers pre.length seen argc argv.length argv p) :
    Rep buf p (.dollar seen argc argv) a
  | bulkLen {pre seen a : Bytes} {argc : ℕ} {argv : List Bytes} (hst : p.st = .needBulkLen)
      (hat : At buf pre seen a p) (hp : Remembers pre.length seen argc argv.length argv p) :
    Rep buf p (.bulkLen seen argc argv) a
  | bulkData {pre seen a : Bytes} {argc len : ℕ} {argv : List Bytes}
      (hst : p.st = .needBulkData) (hat : At buf pre seen a p)
      (hp : Remembers pre.length seen argc argv.length argv p) (hlen : p.bulkLen = len) :
    Rep buf p (.bulkData seen argc argv len) a
  | bulkCrlf {pre seen a : Bytes} {argc argi : ℕ} {argv : List Bytes}
      (hst : p.st = .needBulkCrlf) (hat : At buf pre seen a p)
      (hp : Remembers pre.length seen argc argi argv p) (hargi : argv.length = argi + 1) :
    Rep buf p (.bulkCrlf seen argc argv) a

lemma Rep.pos_le {buf a : Bytes} {p : Processor} {pl : Place} (h : Rep buf p pl a) :
    p.pos ≤ buf.length := by
  cases h with
  | between _ hpos => exact hpos
  | argc _ hat | dollar _ hat | bulkLen _ hat | bulkData _ hat | bulkCrlf _ hat =>
    rw [hat.length]
    exact Nat.le_add_right _ _

lemma Rep.drop {buf a : Bytes} {p : Processor} {pl : Place} (h : Rep buf p pl a) :
    buf.drop p.pos = a := by
  cases h with
  | between => rfl
  | argc _ hat | dollar _ hat | bulkLen _ hat | bulkData _ hat | bulkCrlf _ hat => exact hat.drop

lemma Rep.append {buf a : Bytes} {p : Processor} {pl : Place} (h : Rep buf p pl a)
    (chunk : Bytes) : Rep (buf ++ chunk) p pl (a ++ chunk) := by
  cases h with
  | between hst hpos =>
    rw [← List.drop_append_of_le_length hpos]
    exact .between hst (by rw [List.length_append]; omega)
  | argc hst hat hseen => exact .argc hst (hat.append chunk) hseen
  | dollar hst hat hp => exact .dollar hst (hat.append chunk) hp
  | bulkLen hst hat hp => exact .bulkLen hst (hat.append chunk) hp
  | bulkData hst hat hp hlen => exact .bulkData hst (hat.append chunk) hp hlen
  | bulkCrlf hst hat hp hargi => exact .bulkCrlf hst (hat.append chunk) hp hargi

/-- A round of the extractor does what the scan does. -/
inductive Mirrors (buf : Bytes) (pl : Place) (a : Bytes) : Move → Turn → Prop
  | wait {p' : Processor} {buf' : Bytes} (h : Rep buf' p' pl a)
      (hlen : buf'.length ≤ buf.length) : Mirrors buf pl a .wait (.done p' buf' .nullopt)
  | go {pl' : Place} {a' : Bytes} {q : Processor} (h : Rep buf q pl' a') :
    Mirrors buf pl a (.go pl' a') (.go q)
  | done {o : Output} {a' : Bytes} {p' : Processor} {buf' : Bytes}
      (h : Rep buf' p' .between a') (hlen : buf'.length ≤ buf.length) :
    Mirrors buf pl a (.done o a') (.done p' buf' (.request o.request))

lemma Cut.append {base : ℕ} {seen x : Bytes} {sl : Slice} (h : Cut base seen sl x) (u : Bytes) :
    Cut base (seen ++ u) sl x := by
  obtain ⟨l, r, rfl, hsl⟩ := h
  exact ⟨l, r ++ u, by simp, hsl⟩

lemma Remembers.step {base argc argi argi' : ℕ} {seen : Bytes} {argv : List Bytes}
    {p q : Processor} (h : Remembers base seen argc argi argv p) (u : Bytes)
    (hargc : q.argc = p.argc) (hargi : q.argi = argi') (hsl : q.slices = p.slices) :
    Remembers base (seen ++ u) argc argi' argv q :=
  ⟨by simp [h.begun], hargc.trans h.argc, hargi, hsl ▸ h.slices.imp fun _ _ hc => hc.append u⟩

/-- The strings are where the slices say. -/
lemma mapM_cuts {base : ℕ} {seen : Bytes} {sls : List Slice} {argv : List Bytes}
    (h : List.Forall₂ (Cut base seen) sls argv) (hlen : base + seen.length < 2 ^ 32) :
    sls.mapM (fun sl => substr seen ((sl.off + 2 ^ 64 - base) % 2 ^ 64) sl.len) = some argv := by
  induction h with
  | nil => rfl
  | cons hcut _ ih =>
    obtain ⟨u, v, rfl, rfl⟩ := hcut
    have hoff : (base + u.length + 2 ^ 64 - base) % 2 ^ 64 = u.length := by
      simp only [List.length_append] at hlen
      omega
    rw [List.mapM_cons]
    simp only [hoff, substr_append, ih]
    rfl

lemma cut_command {buf pre seen a : Bytes} {argv : List Bytes} {p : Processor}
    (hat : At buf pre seen a p) (hsl : List.Forall₂ (Cut pre.length seen) p.slices argv)
    (hbuf : buf.length < 2 ^ 32) : p.cut buf = some ⟨seen, argv⟩ := by
  have hlen := hat.length
  have hframe : substr buf p.cmdStart (p.pos - p.cmdStart) = some seen := by
    rw [hat.start, hat.pos, Nat.add_sub_cancel_left, hat.buf, substr_append]
  have hargs := mapM_cuts hsl (by have := hat.pos; omega)
  rw [Processor.cut, hframe, hat.start]
  simp only [Option.bind_eq_bind, Option.bind_some, hargs]
  rfl

lemma parseIntCrlf_drop (buf : Bytes) (pos : ℕ) :
    parseIntCrlf buf pos =
      match parseIntCrlf (buf.drop pos) 0 with
      | .ok v n => .ok v (pos + n)
      | .needMore => .needMore
      | .invalid => .invalid := by
  simp only [parseIntCrlf, List.drop_zero]
  repeat' split
  all_goals simp_all
  all_goals omega

lemma rep_compact {q : Processor} {buf : Bytes} {pos : ℕ} (hst : q.st = .needStar)
    (hpos : pos ≤ buf.length) :
    Rep (q.compact buf pos).2 (q.compact buf pos).1 .between (buf.drop pos) := by
  obtain ⟨hle, hdrop, -⟩ := compact_drop q hpos
  rw [← hdrop]
  exact .between hst hle

lemma mirrors_compact {q : Processor} {buf a' : Bytes} {pos : ℕ} (pl : Place) (a : Bytes)
    (o : Output) (hst : q.st = .needStar) (hpos : pos ≤ buf.length) (ha : buf.drop pos = a') :
    Mirrors buf pl a (.done o a')
      (.done (q.compact buf pos).1 (q.compact buf pos).2 (.request o.request)) := by
  subst ha
  exact .done (rep_compact hst hpos) (compact_drop q hpos).2.2

lemma mirrors_fail {buf : Bytes} {q : Processor} (pl : Place) (a : Bytes) (msg : String)
    (hpos : q.pos ≤ buf.length) :
    Mirrors buf pl a (.fail msg (buf.drop q.pos)) (q.fail buf msg) := by
  have hle := (List.takeWhile_sublist (l := buf.drop q.pos) (p := (· ≠ (42 : UInt8)))).length_le
  rw [List.length_drop] at hle
  simp only [Processor.fail, Processor.resetAndResync, Move.fail]
  split
  · refine mirrors_compact pl a (.badFrame msg _) rfl hpos ?_
    simp [resync, List.drop_eq_nil_of_le (by assumption)]
  · refine mirrors_compact pl a (.badFrame msg _) rfl (by omega) ?_
    rw [← List.drop_drop, drop_length_takeWhile]
    rfl

lemma At.take {buf pre seen a : Bytes} {p q : Processor} {n : ℕ} (h : At buf pre seen a p)
    (hn : n ≤ a.length) (hstart : q.cmdStart = p.cmdStart) (hpos : q.pos = p.pos + n) :
    At buf pre (seen ++ a.take n) (a.drop n) q := by
  refine At.step (p := p) ?_ hstart (by rw [hpos, List.length_take, Nat.min_eq_left hn])
  rwa [List.take_append_drop]

section

variable {buf pre seen a : Bytes} {p : Processor} {argc argi : ℕ} {argv : List Bytes}

lemma mirrors_between (hst : p.st = .needStar) (hpos : p.pos ≤ buf.length) :
    Mirrors buf .between (buf.drop p.pos) (scan .between (buf.drop p.pos)) (turn buf p) := by
  rw [turn, hst]
  simp only [← List.head?_drop]
  rcases ha : buf.drop p.pos with _ | ⟨b, a⟩
  · refine .wait ?_ (compact_drop p hpos).2.2
    rw [← ha]
    exact rep_compact hst hpos
  · simp only [List.head?_cons, scan]
    split
    · refine mirrors_compact _ _ (.badLine (b :: a)) hst (Nat.min_le_left _ _) ?_
      -- past the end of the line, or of the buffer
      have hdrop (n : ℕ) : buf.drop (min buf.length n) = buf.drop n := by
        rcases Nat.le_total buf.length n with h | h
        · rw [Nat.min_eq_left h, List.drop_eq_nil_of_le h, List.drop_length]
        · rw [Nat.min_eq_right h]
      rw [hdrop, Nat.add_assoc, ← List.drop_drop, ha, ← List.drop_drop, drop_length_takeWhile,
        List.drop_one]
      rfl
    · rename_i hb
      obtain rfl : b = 42 := not_not.mp hb
      have hget : buf[p.pos]? = some 42 := by rw [← List.head?_drop, ha]; rfl
      have hat := At.first hget
      rw [← List.drop_drop, ha, List.drop_one, List.tail_cons] at hat
      exact .go (.argc rfl hat (by simp))

/-- A header line, in the buffer and among the bytes ahead. -/
lemma mirrors_header {pl : Place} {bad : ℤ → Bool} {msg : String} {next : Bytes → ℤ → Place}
    {t : Turn} (hat : At buf pre seen a p) (hwait : Rep buf p pl a)
    (hmore : parseIntCrlf buf p.pos = .needMore → t = .done p buf .nullopt)
    (hinvalid : parseIntCrlf buf p.pos = .invalid → t = p.fail buf "-ERR protocol error\r\n")
    (hbad : ∀ v pos, parseIntCrlf buf p.pos = .ok v pos → bad v = true →
      t = { p with pos := pos }.fail buf msg)
    (hok : ∀ v n, parseIntCrlf buf p.pos = .ok v (p.pos + n) → bad v = false → n ≤ a.length →
      ∃ q, t = .go q ∧ Rep buf q (next (a.take n) v) (a.drop n)) :
    Mirrors buf pl a (.header a bad msg next) t := by
  have hdrop := hat.drop
  have hlen := hat.length
  have hparse := parseIntCrlf_drop buf p.pos
  rw [hdrop] at hparse
  unfold Move.header
  cases hint : parseIntCrlf a 0 with
  | needMore =>
    rw [hint] at hparse
    rw [hmore hparse]
    exact .wait hwait (Nat.le_refl _)
  | invalid =>
    rw [hint] at hparse
    have := mirrors_fail pl a "-ERR protocol error\r\n" (show p.pos ≤ buf.length by omega)
    rwa [hdrop, ← hinvalid hparse] at this
  | ok v n =>
    rw [hint] at hparse
    have hn := (parseIntCrlf_pos hint).2
    simp only
    cases hv : bad v with
    | true =>
      have := mirrors_fail (q := { p with pos := p.pos + n }) pl a msg
        (show p.pos + n ≤ buf.length by omega)
      rwa [show buf.drop (p.pos + n) = a.drop n by rw [← List.drop_drop, hdrop],
        ← hbad v (p.pos + n) hparse hv] at this
    | false =>
      obtain ⟨q, rfl, hrep⟩ := hok v n hparse hv hn
      exact .go hrep

lemma mirrors_argc (hst : p.st = .needArgc) (hat : At buf pre seen a p) (hseen : seen ≠ []) :
    Mirrors buf (.argc seen) a (scan (.argc seen) a) (turn buf p) := by
  simp only [scan]
  refine mirrors_header hat (.argc hst hat hseen) ?_ ?_ ?_ ?_
  · intro h
    simp only [turn, hst, h]
  · intro h
    simp only [turn, hst, h]
  · intro v pos h hv
    simp only [turn, hst, h]
    exact if_pos (by simpa using hv)
  · intro v n h hv hn
    rw [decide_eq_false_iff_not] at hv
    refine ⟨{ p with
      pos := p.pos + n, argc := v, argi := 0, slices := [], st := .needDollar }, ?_,
      .dollar rfl (hat.take hn rfl rfl) ⟨by simp [hseen], ?_, rfl, .nil⟩⟩
    · simp only [turn, hst, h]
      exact if_neg hv
    · simp only
      omega

lemma mirrors_dollar (hst : p.st = .needDollar) (hat : At buf pre seen a p)
    (hp : Remembers pre.length seen argc argv.length argv p) :
    Mirrors buf (.dollar seen argc argv) a (scan (.dollar seen argc argv) a) (turn buf p) := by
  have hdrop := hat.drop
  have hlen := hat.length
  rw [turn, hst]
  simp only [← List.head?_drop, hdrop]
  cases a with
  | nil => exact .wait (.dollar hst hat hp) (Nat.le_refl _)
  | cons b a =>
    simp only [List.head?_cons, scan]
    split
    · have := mirrors_fail (.dollar seen argc argv) (b :: a) "-ERR protocol error\r\n"
        (show p.pos ≤ buf.length by omega)
      rwa [hdrop] at this
    · exact .go (.bulkLen rfl (hat.step (u := [b]) rfl rfl) (hp.step [b] rfl hp.argi rfl))

lemma mirrors_bulkLen (hst : p.st = .needBulkLen) (hat : At buf pre seen a p)
    (hp : Remembers pre.length seen argc argv.length argv p) :
    Mirrors buf (.bulkLen seen argc argv) a (scan (.bulkLen seen argc argv) a) (turn buf p) := by
  simp only [scan]
  refine mirrors_header hat (.bulkLen hst hat hp) ?_ ?_ ?_ ?_
  · intro h
    simp only [turn, hst, h]
  · intro h
    simp only [turn, hst, h]
  · intro v pos h hv
    simp only [turn, hst, h]
    exact if_pos (by simpa using hv)
  · intro v n h hv hn
    rw [decide_eq_false_iff_not] at hv
    refine ⟨{ p with pos := p.pos + n, bulkLen := v, st := .needBulkData }, ?_,
      .bulkData rfl (hat.take hn rfl rfl) (hp.step _ rfl hp.argi rfl) ?_⟩
    · simp only [turn, hst, h]
      exact if_neg hv
    · simp only
      omega

lemma mirrors_bulkData {len : ℕ} (hst : p.st = .needBulkData) (hat : At buf pre seen a p)
    (hp : Remembers pre.length seen argc argv.length argv p) (hbl : p.bulkLen = len)
    (hbuf : buf.length < 2 ^ 32) :
    Mirrors buf (.bulkData seen argc argv len) a (scan (.bulkData seen argc argv len) a)
      (turn buf p) := by
  have hlen := hat.length
  have hpos := hat.pos
  rw [turn, hst]
  simp only [hbl, Int.toNat_natCast, scan]
  split
  · rw [if_pos (by omega)]
    exact .wait (.bulkData hst hat hp hbl) (Nat.le_refl _)
  · rw [if_neg (by omega)]
    have htake : (a.take len).length = len := by
      rw [List.length_take]
      omega
    have hargi : (argv ++ [a.take len]).length = argv.length + 1 := by simp
    refine .go (.bulkCrlf rfl (hat.take (by omega) rfl rfl)
      ⟨by simp [hp.begun], hp.argc, hp.argi, ?_⟩ hargi)
    refine List.rel_append (hp.slices.imp fun _ _ hc => hc.append _) (.cons ?_ .nil)
    refine ⟨seen, [], by simp, ?_⟩
    rw [Nat.mod_eq_of_lt (by omega), Nat.mod_eq_of_lt (by omega), htake, hpos]

/-- The line end after a string: the command is complete, or there is another string. -/
lemma mirrors_bulkCrlf_end (hst : p.st = .needBulkCrlf) (hat : At buf pre seen (13 :: 10 :: a) p)
    (hp : Remembers pre.length seen argc argi argv p) (hargi : argv.length = argi + 1)
    (hbuf : buf.length < 2 ^ 32) :
    Mirrors buf (.bulkCrlf seen argc argv) (13 :: 10 :: a)
      (scan (.bulkCrlf seen argc argv) (13 :: 10 :: a)) (turn buf p) := by
  have hdrop := hat.drop
  have hget (i : ℕ) : buf[p.pos + i]? = (13 :: 10 :: a)[i]? := by
    rw [← hdrop, List.getElem?_drop]
  have hle : p.pos + 2 ≤ buf.length := by
    rw [hat.length]
    simp
  have hstep := hat.step (q := { p with pos := p.pos + 2, argi := p.argi + 1 })
    (u := [13, 10]) (a := a) rfl rfl
  have hargi' : p.argi + 1 = argi + 1 := by rw [hp.argi]
  have hrem := hp.step (q := { p with pos := p.pos + 2, argi := p.argi + 1 }) [13, 10] rfl
    hargi' rfl
  have hscan : scan (.bulkCrlf seen argc argv) (13 :: 10 :: a) =
      if argv.length = argc then .done (.command ⟨seen ++ [13, 10], argv⟩) a
      else .go (.dollar (seen ++ [13, 10]) argc argv) a := by
    simp [scan, writeCrlf_eq]
  have hargs : p.argi + 1 = p.argc ↔ argv.length = argc := by
    rw [hp.argc, hp.argi, hargi]
    omega
  rw [turn_bulkCrlf hst (hget 0) (hget 1) hle, hscan, cut_command hstep hrem.slices hbuf]
  by_cases hc : argv.length = argc
  · rw [if_pos hc, if_pos (hargs.mpr hc)]
    refine mirrors_compact _ _ (.command ⟨seen ++ [13, 10], argv⟩) rfl hle ?_
    rw [← List.drop_drop, hdrop]
    rfl
  · rw [if_neg hc, if_neg (mt hargs.mp hc)]
    exact .go (.dollar rfl ⟨hstep.1, hstep.2, hstep.3⟩
      ⟨hrem.begun, hrem.argc, by rw [hargi]; exact hrem.argi, hrem.slices⟩)

lemma mirrors_bulkCrlf_bad {b b' : UInt8} (hst : p.st = .needBulkCrlf)
    (hat : At buf pre seen (b :: b' :: a) p) (hcrlf : ¬ (b = 13 ∧ b' = 10)) :
    Mirrors buf (.bulkCrlf seen argc argv) (b :: b' :: a)
      (scan (.bulkCrlf seen argc argv) (b :: b' :: a)) (turn buf p) := by
  have hdrop := hat.drop
  have hget (i : ℕ) : buf[p.pos + i]? = (b :: b' :: a)[i]? := by rw [← hdrop, List.getElem?_drop]
  have h0 : buf[p.pos]? = some b := hget 0
  have h1 : buf[p.pos + 1]? = some b' := hget 1
  have hle : p.pos + 2 ≤ buf.length := by
    rw [hat.length]
    simp
  have hne : (b :: b' :: a).take 2 ≠ writeCrlf := by
    simpa [writeCrlf_eq] using hcrlf
  have hne' : buf[p.pos]? ≠ some 13 ∨ buf[p.pos + 1]? ≠ some 10 := by
    rw [h0, h1]
    simpa [or_iff_not_imp_left] using hcrlf
  have := mirrors_fail (.bulkCrlf seen argc argv) (b :: b' :: a) "-ERR protocol error\r\n"
    (show p.pos ≤ buf.length by omega)
  rw [hdrop] at this
  rw [turn, hst]
  simp only [scan]
  rw [if_neg (by simp), if_pos hne, if_neg (by omega), if_pos hne']
  exact this

lemma mirrors_bulkCrlf (hst : p.st = .needBulkCrlf) (hat : At buf pre seen a p)
    (hp : Remembers pre.length seen argc argi argv p) (hargi : argv.length = argi + 1)
    (hbuf : buf.length < 2 ^ 32) :
    Mirrors buf (.bulkCrlf seen argc argv) a (scan (.bulkCrlf seen argc argv) a)
      (turn buf p) := by
  have hlen := hat.length
  rcases Nat.lt_or_ge a.length 2 with hlt | hge
  · rw [turn, hst]
    simp only [scan]
    rw [if_pos (by omega), if_pos (by omega)]
    exact .wait (.bulkCrlf hst hat hp hargi) (Nat.le_refl _)
  · obtain ⟨b, b', a, rfl⟩ : ∃ b b' a', a = b :: b' :: a' := by
      rcases a with _ | ⟨b, _ | ⟨b', a⟩⟩
      · simp at hge
      · simp at hge
      · exact ⟨b, b', a, rfl⟩
    by_cases hcrlf : b = 13 ∧ b' = 10
    · obtain ⟨rfl, rfl⟩ := hcrlf
      exact mirrors_bulkCrlf_end hst hat hp hargi hbuf
    · exact mirrors_bulkCrlf_bad hst hat hcrlf

end

/-- **A round of the extractor is a move of the scan.** -/
lemma Rep.turn {buf a : Bytes} {p : Processor} {pl : Place} (h : Rep buf p pl a)
    (hbuf : buf.length < 2 ^ 32) : Mirrors buf pl a (scan pl a) (Resp.turn buf p) := by
  cases h with
  | between hst hpos => exact mirrors_between hst hpos
  | argc hst hat hseen => exact mirrors_argc hst hat hseen
  | dollar hst hat hp => exact mirrors_dollar hst hat hp
  | bulkLen hst hat hp => exact mirrors_bulkLen hst hat hp
  | bulkData hst hat hp hlen => exact mirrors_bulkData hst hat hp hlen hbuf
  | bulkCrlf hst hat hp hargi => exact mirrors_bulkCrlf hst hat hp hargi hbuf

/-! ### Calls -/

/-- **A call ends with a move that does not go on**, reached through moves that keep what every
move keeps. -/
lemma Rep.call {I : Place → Bytes → Prop}
    (hgo : ∀ pl a pl' a', I pl a → scan pl a = .go pl' a' → I pl' a') {buf a : Bytes}
    {p : Processor} {pl : Place} (h : Rep buf p pl a) (hI : I pl a) (hbuf : buf.length < 2 ^ 32) :
    ∃ pl' a' p' buf', I pl' a' ∧ buf'.length ≤ buf.length ∧
      (scan pl' a' = .wait ∧ Rep buf' p' pl' a' ∧
          tryExtractRequest p buf = (p', buf', .nullopt) ∨
        ∃ o a'', scan pl' a' = .done o a'' ∧ Rep buf' p' .between a'' ∧
          tryExtractRequest p buf = (p', buf', .request o.request)) := by
  have hround (q q' : Processor) (hq : ∃ pl a, Rep buf q pl a ∧ I pl a)
      (_ : q.pos ≤ buf.length) (hturn : Resp.turn buf q = .go q') :
      ∃ pl a, Rep buf q' pl a ∧ I pl a := by
    obtain ⟨pl, a, hrep, hI⟩ := hq
    have hm := hrep.turn hbuf
    rw [hturn] at hm
    generalize hs : scan pl a = m at hm
    cases hm with
    | go hrep' => exact ⟨_, _, hrep', hgo _ _ _ _ hI hs⟩
  obtain ⟨q, p', buf', r, ⟨pl', a', hrep, hI'⟩, hpos, hturn, hcall⟩ :=
    tryExtractRequest_rule (fun q => ∃ pl a, Rep buf q pl a ∧ I pl a) hround ⟨pl, a, h, hI⟩
      h.pos_le
  have hm := hrep.turn hbuf
  rw [hturn] at hm
  generalize hs : scan pl' a' = m at hm
  cases hm with
  | wait hrep' hlen => exact ⟨pl', a', p', buf', hI', hlen, .inl ⟨hs, hrep', hcall⟩⟩
  | done hrep' hlen => exact ⟨pl', a', p', buf', hI', hlen, .inr ⟨_, _, hs, hrep', hcall⟩⟩

end ShunyaKV.Resp
