import ShunyaKV.Resp.Frames
import ShunyaKV.Resp.Recovery

/-!
How a stream is cut into chunks.

An error is answered from the bytes at hand: when the end of the line, or the next `*`, is not
among them, the bytes to come are looked at afresh. The commands found do not depend on the
cuts as long as this makes no difference.
-/

namespace ShunyaKV.Resp

open ShunyaKV.Lib.Decimal ShunyaKV.Lib.Words ShunyaKV.Shard

/-! ### Scanning all bytes at hand -/

/-- The rounds left: an error may consume nothing, but leaves the command under way. -/
def Place.left (pl : Place) (a : Bytes) : ℕ :=
  3 * a.length +
    match pl with
    | .between => 0
    | .bulkData _ _ _ _ => 2
    | _ => 1

def Place.calls (pl : Place) (a : Bytes) : ℕ := a.length + if pl = .between then 0 else 1

lemma writeCrlf_length : writeCrlf.length = 2 := by decide

lemma Steps.left {pl pl' : Place} {a a' : Bytes} (h : Steps pl a pl' a') :
    pl'.left a' < pl.left a ∧ pl'.calls a' ≤ pl.calls a := by
  cases h with
  | star a =>
    simp only [Place.left, Place.calls, List.length_cons, reduceCtorEq, if_true, if_false]
    omega
  | argc hint | bulkLen hint =>
    have hpos := parseIntCrlf_pos hint
    simp only [Place.left, Place.calls, List.length_drop, reduceCtorEq, if_false]
    omega
  | dollar seen a argc argv =>
    simp only [Place.left, Place.calls, List.length_cons, reduceCtorEq, if_false]
    omega
  | bulkData hlen =>
    simp only [Place.left, Place.calls, List.length_drop, reduceCtorEq, if_false]
    omega
  | bulkCrlf seen a =>
    simp only [Place.left, Place.calls, List.length_append, writeCrlf_length, reduceCtorEq,
      if_false]
    omega

lemma Ends.left {pl : Place} {a a' : Bytes} {o : Output} (h : Ends pl a o a') :
    Place.between.left a' < pl.left a ∧ Place.between.calls a' < pl.calls a := by
  cases h with
  | @badLine b a hb =>
    have hlt := skipLine_lt b a
    simp only [Place.left, Place.calls, if_true]
    omega
  | badFrame hpl msg d a =>
    have hle := (resync_suffix a).length_le
    have hw : 3 * (d ++ a).length + 1 ≤ pl.left (d ++ a) := by
      cases pl <;> simp_all [Place.left]
    simp only [Place.left, Place.calls, if_neg hpl, if_true, List.length_append] at hw ⊢
    omega
  | command seen a argv =>
    simp only [Place.left, Place.calls, List.length_append, writeCrlf_length, reduceCtorEq, if_true,
      if_false]
    omega

def scanLoop : ℕ → Place → Bytes → List Output × Place × Bytes
  | 0, pl, a => ([], pl, a)
  | fuel + 1, pl, a =>
    match scan pl a with
    | .wait => ([], pl, a)
    | .go pl a => scanLoop fuel pl a
    | .done o a => (o :: (scanLoop fuel .between a).1, (scanLoop fuel .between a).2)

/-- The scan up to where it waits for more bytes. -/
def scanAll (pl : Place) (a : Bytes) : List Output × Place × Bytes :=
  scanLoop (pl.left a + 1) pl a

lemma scanLoop_eq {fuel : ℕ} {pl : Place} {a : Bytes} (h : pl.left a < fuel) :
    scanLoop fuel pl a = scanAll pl a := by
  have key (fuel : ℕ) : ∀ fuel' pl a, Place.left pl a < fuel → pl.left a < fuel' →
      scanLoop fuel pl a = scanLoop fuel' pl a := by
    induction fuel with
    | zero => omega
    | succ fuel ih =>
      intro fuel' pl a h h'
      cases fuel' with
      | zero => omega
      | succ fuel' =>
        simp only [scanLoop]
        split
        · rfl
        · rename_i hs
          have := (steps_of_scan hs).left.1
          exact ih fuel' _ _ (by omega) (by omega)
        · rename_i hs
          have := (ends_of_scan hs).left.1
          rw [ih fuel' _ _ (by omega) (by omega)]
  exact key fuel _ pl a h (Nat.lt_succ_self _)

section

variable {pl pl' : Place} {a a' : Bytes} {o : Output}

lemma scanAll_wait (h : scan pl a = .wait) : scanAll pl a = ([], pl, a) := by
  simp only [scanAll, scanLoop, h]

lemma scanAll_go (h : scan pl a = .go pl' a') : scanAll pl a = scanAll pl' a' := by
  rw [scanAll, scanLoop, h]
  exact scanLoop_eq (steps_of_scan h).left.1

lemma scanAll_done (h : scan pl a = .done o a') :
    scanAll pl a = (o :: (scanAll .between a').1, (scanAll .between a').2) := by
  rw [scanAll, scanLoop, h]
  simp only [scanLoop_eq (ends_of_scan h).left.1]

end

/-- Induction along the scan. -/
lemma scan_induction {P : Place → Bytes → Prop}
    (wait : ∀ pl a, scan pl a = .wait → P pl a)
    (go : ∀ pl a pl' a', scan pl a = .go pl' a' → P pl' a' → P pl a)
    (done : ∀ pl a o a', scan pl a = .done o a' → P .between a' → P pl a) (pl : Place)
    (a : Bytes) : P pl a := by
  induction hn : pl.left a using Nat.strong_induction_on generalizing pl a with
  | _ n ih =>
    subst hn
    rcases hs : scan pl a with _ | ⟨pl', a'⟩ | ⟨o, a'⟩
    · exact wait pl a hs
    · exact go pl a pl' a' hs (ih _ (steps_of_scan hs).left.1 pl' a' rfl)
    · exact done pl a o a' hs (ih _ (ends_of_scan hs).left.1 .between a' rfl)

/-! ### More bytes -/

lemma parseIntCrlf_append {a : Bytes} (h : parseIntCrlf a 0 ≠ .needMore) (w : Bytes) :
    parseIntCrlf (a ++ w) 0 = parseIntCrlf a 0 := by
  by_cases hmem : (10 : UInt8) ∈ a
  · obtain ⟨l, r, rfl, hl⟩ := List.eq_append_cons_of_mem hmem
    have hlen (r : Bytes) : l.length ≠ (l ++ 10 :: r).length := by simp
    rw [List.append_assoc, List.cons_append]
    simp only [parseIntCrlf, List.drop_zero, takeWhile_ne_append hl, if_neg (hlen _)]
  · exact absurd (parseIntCrlf_of_notMem (by rwa [List.drop_zero])) h

lemma scan_go_append {pl pl' : Place} {a a' : Bytes} (h : scan pl a = .go pl' a') (w : Bytes) :
    scan pl (a ++ w) = .go pl' (a' ++ w) := by
  cases steps_of_scan h with
  | star a => rfl
  | argc hint hv | bulkLen hint hv =>
    have hle := (parseIntCrlf_pos hint).2
    have hint' := (parseIntCrlf_append (a := a) (by simp [hint]) w).trans hint
    simp only [scan, Move.header, hint', decide_eq_true_eq, if_neg hv,
      List.take_append_of_le_length hle, List.drop_append_of_le_length hle]
  | dollar seen a argc argv => rfl
  | bulkData hlen =>
    have hlt : ¬ (a ++ w).length < _ := Nat.not_lt.mpr (hlen.trans (by simp))
    simp only [scan, if_neg hlt, List.take_append_of_le_length hlen,
      List.drop_append_of_le_length hlen]
  | bulkCrlf seen a hargc =>
    simp only [scan, List.append_assoc, List.length_append, writeCrlf_length]
    rw [if_neg (by omega), if_neg (by simp [writeCrlf_eq]), if_neg hargc]
    simp [writeCrlf_eq]

def Output.append (w : Bytes) : Output → Output
  | .command r => .command r
  | .badLine a => .badLine (a ++ w)
  | .badFrame msg a => .badFrame msg (a ++ w)

lemma fail_append {msg : String} {a a' : Bytes} {o : Output} (w : Bytes)
    (h : Move.fail msg a = .done o a') :
    ∃ a'', Move.fail msg (a ++ w) = .done (o.append w) a'' := by
  cases h
  exact ⟨_, rfl⟩

lemma header_append {a a' : Bytes} {o : Output} {bad : ℤ → Bool} {msg : String}
    {next : Bytes → ℤ → Place} (w : Bytes) (h : Move.header a bad msg next = .done o a') :
    ∃ a'', Move.header (a ++ w) bad msg next = .done (o.append w) a'' := by
  unfold Move.header at h ⊢
  cases hint : parseIntCrlf a 0 with
  | needMore => simp [hint] at h
  | invalid =>
    rw [(parseIntCrlf_append (a := a) (by simp [hint]) w).trans hint]
    rw [hint] at h
    exact fail_append w h
  | ok v n =>
    have hle := (parseIntCrlf_pos hint).2
    rw [(parseIntCrlf_append (a := a) (by simp [hint]) w).trans hint]
    rw [hint] at h
    cases hv : bad v with
    | true =>
      simp only [hv, if_true, List.drop_append_of_le_length hle] at h ⊢
      exact fail_append w h
    | false => simp [hv] at h

/-- An error or a command stays one when more bytes are at hand. -/
lemma scan_done_append {pl : Place} {a a' : Bytes} {o : Output} (h : scan pl a = .done o a')
    (w : Bytes) : ∃ a'', scan pl (a ++ w) = .done (o.append w) a'' := by
  cases pl with
  | between =>
    cases ends_of_scan h with
    | badLine a hb => exact ⟨_, if_pos hb⟩
    | badFrame hpl => exact absurd rfl hpl
  | argc seen =>
    simp only [scan] at h ⊢
    exact header_append w h
  | dollar seen argc argv =>
    cases a with
    | nil => cases h
    | cons b a =>
      by_cases hb : b ≠ 36
      · simp only [scan, List.cons_append, if_pos hb] at h ⊢
        exact fail_append w h
      · simp only [scan, if_neg hb] at h
        cases h
  | bulkLen seen argc argv =>
    simp only [scan] at h ⊢
    exact header_append w h
  | bulkData seen argc argv len =>
    simp only [scan] at h
    split at h <;> cases h
  | bulkCrlf seen argc argv =>
    simp only [scan] at h ⊢
    split at h
    · cases h
    · rename_i hlen
      rw [if_neg (by rw [List.length_append]; omega), List.take_append_of_le_length (by omega)]
      split at h
      · rename_i hcrlf
        rw [if_pos hcrlf]
        exact fail_append w h
      · rename_i hcrlf
        rw [if_neg hcrlf]
        split at h
        · rename_i hargc
          rw [if_pos hargc]
          cases h
          exact ⟨_, rfl⟩
        · cases h

/-! ### Cuts -/

def commandsOf (os : List Output) : List ParsedRequest := commands (os.map Output.request)

lemma commandsOf_error {o : Output} (os : List Output) (h : o.request.argv = []) :
    commandsOf (o :: os) = commandsOf os := by
  simp [commandsOf, commands, h]

lemma commandsOf_cons (o : Output) (os : List Output) :
    commandsOf (o :: os) = commands [o.request] ++ commandsOf os :=
  commands_append [o.request] (os.map Output.request)

/-- Bytes that start with no `*` lose their first line. -/
lemma commandsOf_skipLine {w : Bytes} (h : w.head? ≠ some 42) :
    commandsOf (scanAll .between (skipLine w)).1 = commandsOf (scanAll .between w).1 := by
  cases w with
  | nil => rfl
  | cons b w =>
    have hb : b ≠ 42 := fun e => h (by simp [e])
    have hs : scan .between (b :: w) = .done (.badLine (b :: w)) (skipLine (b :: w)) := if_pos hb
    rw [scanAll_done hs, commandsOf_error _ rfl]

lemma commandsOf_junk {j : Bytes} (hj : Junk j) (w : Bytes) :
    commandsOf (scanAll .between (j ++ w)).1 = commandsOf (scanAll .between w).1 := by
  induction hn : j.length using Nat.strong_induction_on generalizing j with
  | _ n ih =>
    subst hn
    rcases j with _ | ⟨b, j⟩
    · rfl
    · have hb : b ≠ 42 := by
        rintro rfl
        exact hj.star (by simp)
      have happ : b :: j ++ w ++ [] = b :: j ++ w := List.append_nil _
      obtain ⟨j', hj', hskip⟩ := hj.skip (by simp) happ
      rw [List.append_nil] at hskip
      have hlt := skipLine_lt b (j ++ w)
      rw [← List.cons_append, hskip] at hlt
      rw [← commandsOf_skipLine (w := b :: j ++ w) (by simpa using hb), hskip]
      refine ih j'.length ?_ hj' rfl
      simp only [List.length_append] at hlt ⊢
      omega

lemma commandsOf_starless {w : Bytes} (h : 42 ∉ w) :
    commandsOf (scanAll .between w).1 = [] := by
  induction hn : w.length using Nat.strong_induction_on generalizing w with
  | _ n ih =>
    subst hn
    rcases w with _ | ⟨b, w⟩
    · rfl
    · have hb : b ≠ 42 := by
        rintro rfl
        exact h (by simp)
      rw [← commandsOf_skipLine (by simpa using hb)]
      exact ih _ (skipLine_lt b w) (fun hm => h ((skipLine_suffix _).mem hm)) rfl

/-- After an error that found no end among the bytes at hand, the bytes to come are those the
search would have come to: they do not start with a `*` that belongs to the line, and there is
nothing but whole lines before their next `*`. -/
def Output.Resumes (rest : Bytes) : Output → Prop
  | .command _ => True
  | .badLine a => 10 ∉ a → rest.head? ≠ some 42
  | .badFrame _ a => 42 ∉ a → 42 ∈ rest →
    rest.takeWhile (· ≠ 42) = [] ∨ (rest.takeWhile (· ≠ 42)).getLast? = some 10

instance (rest : Bytes) (o : Output) : Decidable (o.Resumes rest) := by
  cases o <;> unfold Output.Resumes <;> infer_instance

lemma badLine_resumes {a w : Bytes} (h : Output.Resumes w (.badLine a)) :
    commandsOf (scanAll .between (skipLine (a ++ w))).1 =
      commandsOf (scanAll .between (skipLine a ++ w)).1 := by
  by_cases hmem : (10 : UInt8) ∈ a
  · obtain ⟨l, r, rfl, hl⟩ := List.eq_append_cons_of_mem hmem
    rw [List.append_assoc, List.cons_append, skipLine_append hl, skipLine_append hl]
  · have hskip : skipLine (a ++ w) = skipLine w := by
      rw [skipLine, dropWhile_ne_append hmem]
      rfl
    rw [hskip, skipLine_eq_nil hmem, List.nil_append, commandsOf_skipLine (h hmem)]

lemma badFrame_resumes {a w : Bytes} {msg : String} (h : Output.Resumes w (.badFrame msg a)) :
    commandsOf (scanAll .between (resync (a ++ w))).1 =
      commandsOf (scanAll .between (resync a ++ w)).1 := by
  by_cases hmem : (42 : UInt8) ∈ a
  · obtain ⟨l, r, rfl, hl⟩ := List.eq_append_cons_of_mem hmem
    have hsync (r : Bytes) : resync (l ++ 42 :: r) = 42 :: r := by
      rw [resync, dropWhile_ne_append hl]
      simp
    rw [List.append_assoc, List.cons_append, hsync, hsync, List.cons_append]
  · have hnil : resync a = [] := dropWhile_ne_eq_nil hmem
    have hsync : resync (a ++ w) = resync w := dropWhile_ne_append hmem w
    rw [hnil, hsync, List.nil_append]
    by_cases hw : (42 : UInt8) ∈ w
    · -- whole lines before the next command
      have hj : Junk (w.takeWhile (· ≠ 42)) :=
        ⟨fun hm => by simpa using List.mem_takeWhile_imp hm, h hmem hw⟩
      have hjunk := commandsOf_junk hj (w.dropWhile (· ≠ 42))
      rw [List.takeWhile_append_dropWhile] at hjunk
      exact hjunk.symm
    · have hnil : resync w = [] := dropWhile_ne_eq_nil hw
      rw [hnil, commandsOf_starless hw]
      rfl

lemma Ends.next {pl : Place} {a a' : Bytes} {o : Output} (h : Ends pl a o a') :
    match o with
    | .command _ => a = writeCrlf ++ a'
    | .badLine b => a' = skipLine b
    | .badFrame _ b => a' = resync b := by
  cases h <;> rfl

/-- **Where every search resumes, more bytes change nothing** of the commands already found. -/
lemma scanAll_append (w : Bytes) (pl : Place) (a : Bytes)
    (h : ∀ o ∈ (scanAll pl a).1, o.Resumes w) :
    commandsOf (scanAll pl (a ++ w)).1 =
      commandsOf (scanAll pl a).1 ++
        commandsOf (scanAll (scanAll pl a).2.1 ((scanAll pl a).2.2 ++ w)).1 := by
  induction pl, a using scan_induction with
  | wait pl a hs => simp [scanAll_wait hs, commandsOf, commands]
  | go pl a pl' a' hs ih =>
    rw [scanAll_go hs] at h ⊢
    rw [scanAll_go (scan_go_append hs w)]
    exact ih h
  | done pl a o a' hs ih =>
    obtain ⟨a'', hs'⟩ := scan_done_append hs w
    rw [scanAll_done hs] at h ⊢
    simp only [List.mem_cons, forall_eq_or_imp] at h
    have hreq : (o.append w).request = o.request := by cases o <;> rfl
    have hnext : commandsOf (scanAll .between a'').1 =
        commandsOf (scanAll .between (a' ++ w)).1 := by
      have hend := (ends_of_scan hs).next
      have hend' := (ends_of_scan hs').next
      cases o with
      | command r =>
        simp only [Output.append] at hend hend'
        rw [hend, List.append_assoc] at hend'
        rw [← List.append_cancel_left hend']
      | badLine b =>
        simp only [Output.append] at hend hend'
        rw [hend, hend', badLine_resumes h.1]
      | badFrame msg b =>
        simp only [Output.append] at hend hend'
        rw [hend, hend', badFrame_resumes h.1]
    rw [scanAll_done hs', commandsOf_cons, hreq, hnext, ih h.2, commandsOf_cons o,
      List.append_assoc]

/-! ### Chunks -/

def scanChunks : List Bytes → Place → Bytes → List Output × Place × Bytes
  | [], pl, a => ([], pl, a)
  | chunk :: chunks, pl, a =>
    let r := scanAll pl (a ++ chunk)
    let r' := scanChunks chunks r.2.1 r.2.2
    (r.1 ++ r'.1, r'.2)

/-- Every search for the end of an error resumes. -/
def Clean : List Bytes → Place → Bytes → Prop
  | [], _, _ => True
  | chunk :: chunks, pl, a =>
    let r := scanAll pl (a ++ chunk)
    (∀ o ∈ r.1, o.Resumes chunks.flatten) ∧ Clean chunks r.2.1 r.2.2

instance : ∀ (chunks : List Bytes) (pl : Place) (a : Bytes), Decidable (Clean chunks pl a)
  | [], _, _ => .isTrue trivial
  | chunk :: chunks, pl, a =>
    have := instDecidableClean chunks (scanAll pl (a ++ chunk)).2.1 (scanAll pl (a ++ chunk)).2.2
    inferInstanceAs (Decidable (_ ∧ _))

lemma scanAll_waits (pl : Place) (a : Bytes) :
    scan (scanAll pl a).2.1 (scanAll pl a).2.2 = .wait := by
  induction pl, a using scan_induction with
  | wait pl a hs => rwa [scanAll_wait hs]
  | go pl a pl' a' hs ih => rwa [scanAll_go hs]
  | done pl a o a' hs ih => rwa [scanAll_done hs]

lemma Clean.commands {chunks : List Bytes} {pl : Place} {a : Bytes} (h : Clean chunks pl a)
    (hwait : scan pl a = .wait) :
    commandsOf (scanChunks chunks pl a).1 = commandsOf (scanAll pl (a ++ chunks.flatten)).1 := by
  induction chunks generalizing pl a with
  | nil => simp [scanChunks, scanAll_wait hwait]
  | cons chunk chunks ih =>
    have happ := scanAll_append chunks.flatten pl (a ++ chunk) h.1
    rw [List.append_assoc] at happ
    rw [List.flatten_cons, happ, ← ih h.2 (scanAll_waits _ _)]
    simp [scanChunks, commandsOf, commands_append]

/-! ### The calls of the extractor -/

lemma Rep.calls_le {buf a : Bytes} {p : Processor} {pl : Place} (h : Rep buf p pl a) :
    pl.calls a ≤ buf.length := by
  have hin {pre seen : Bytes} (hat : At buf pre seen a p) (hseen : seen ≠ []) :
      a.length + 1 ≤ buf.length := by
    have hlen := hat.length
    have hpos := hat.pos
    have := List.length_pos_iff.mpr hseen
    omega
  cases h with
  | between => simp [Place.calls]
  | argc _ hat hseen => exact hin hat hseen
  | dollar _ hat hp | bulkLen _ hat hp | bulkData _ hat hp | bulkCrlf _ hat hp =>
    exact hin hat hp.begun

lemma Rep.drain {buf a : Bytes} {p : Processor} {pl : Place} (fuel : ℕ) (h : Rep buf p pl a)
    (hbuf : buf.length < 2 ^ 32) (hfuel : pl.calls a < fuel) :
    ∃ p' buf', Resp.drain fuel p buf = some ((scanAll pl a).1.map Output.request, p', buf') ∧
      Rep buf' p' (scanAll pl a).2.1 (scanAll pl a).2.2 := by
  induction fuel generalizing p buf pl a with
  | zero => omega
  | succ fuel ih =>
    obtain ⟨pl', a', p', buf', ⟨hall, hcalls⟩, hlen, hend⟩ :=
      h.call (I := fun pl' a' => scanAll pl a = scanAll pl' a' ∧ pl'.calls a' ≤ pl.calls a)
        (fun pl₁ a₁ pl₂ a₂ hI hs =>
          ⟨hI.1.trans (scanAll_go hs), (steps_of_scan hs).left.2.trans hI.2⟩)
        ⟨rfl, Nat.le_refl _⟩ hbuf
    rcases hend with ⟨hs, hrep, hcall⟩ | ⟨o, a'', hs, hrep, hcall⟩
    · rw [hall, scanAll_wait hs]
      exact ⟨p', buf', by simp [Resp.drain, hcall], hrep⟩
    · have hlt := (ends_of_scan hs).left.2
      obtain ⟨p'', buf'', hdrain, hrep'⟩ := ih hrep (by omega) (by omega)
      rw [hall, scanAll_done hs]
      exact ⟨p'', buf'', by simp [Resp.drain, hcall, hdrain], hrep'⟩

lemma Rep.readLoop {buf a : Bytes} {p : Processor} {pl : Place} (chunks : List Bytes)
    (h : Rep buf p pl a) (hfits : Fits chunks p buf) :
    ∃ p' buf', Resp.readLoop chunks p buf =
      some ((scanChunks chunks pl a).1.map Output.request, p', buf') := by
  induction chunks generalizing p buf pl a with
  | nil => exact ⟨p, buf, rfl⟩
  | cons chunk chunks ih =>
    simp only [Fits, Bool.and_eq_true, decide_eq_true_eq] at hfits
    have hrep := h.append chunk
    obtain ⟨p₁, buf₁, hdrain, hrep₁⟩ := hrep.drain ((buf ++ chunk).length + 1) hfits.1
      (Nat.lt_succ_of_le hrep.calls_le)
    have hchunk : readChunk p buf chunk = some (_, p₁, buf₁) := hdrain
    have hfits₁ := hfits.2
    rw [hchunk] at hfits₁
    obtain ⟨p', buf', hloop⟩ := ih hrep₁ hfits₁
    refine ⟨p', buf', ?_⟩
    simp only [Resp.readLoop, hchunk, hloop, Option.bind_eq_bind, Option.bind_some, scanChunks,
      List.map_append]
    rfl

lemma readLoop_clean {chunks : List Bytes} (hfits : Fits chunks {} [])
    (hclean : Clean chunks .between []) :
    ∃ rs p buf, readLoop chunks {} [] = some (rs, p, buf) ∧
      commands rs = commandsOf (scanAll .between chunks.flatten).1 := by
  have hrep : Rep [] {} .between [] := .between rfl (Nat.le_refl 0)
  obtain ⟨p, buf, hloop⟩ := Rep.readLoop chunks hrep hfits
  exact ⟨_, p, buf, hloop, hclean.commands rfl⟩

/-- **The commands of a stream do not depend on its cuts**, as long as the cuts are such that
every search for the end of an error resumes. -/
theorem commands_of_cuts {chunks chunks' : List Bytes} (hcut : chunks.flatten = chunks'.flatten)
    (hfits : Fits chunks {} []) (hfits' : Fits chunks' {} []) (hclean : Clean chunks .between [])
    (hclean' : Clean chunks' .between []) :
    ∃ rs p buf rs' p' buf', readLoop chunks {} [] = some (rs, p, buf) ∧
      readLoop chunks' {} [] = some (rs', p', buf') ∧ commands rs = commands rs' := by
  obtain ⟨rs, p, buf, hloop, hrs⟩ := readLoop_clean hfits hclean
  obtain ⟨rs', p', buf', hloop', hrs'⟩ := readLoop_clean hfits' hclean'
  exact ⟨rs, p, buf, rs', p', buf', hloop, hloop', by rw [hrs, hrs', hcut]⟩

/-- A line that is no command and a frame that breaks off, cut in the line and in the frame. -/
theorem commands_of_quit :
    ∃ rs p buf rs' p' buf',
      readLoop [ascii "foo\r\n*1\r\n?\r\n*1\r\n$4\r\nQUIT\r\n"] {} [] = some (rs, p, buf) ∧
      readLoop [ascii "fo", ascii "o\r\n*1\r\n?\r", ascii "\n*1\r\n$4\r\nQUIT\r\n"] {} [] =
        some (rs', p', buf') ∧ commands rs = commands rs' :=
  commands_of_cuts (by decide) (by decide +kernel) (by decide +kernel) (by decide +kernel)
    (by decide +kernel)

/-- A line that is no command and goes on with what looks like one: cut before the `*`, it is
one. -/
theorem commands_cut_before_star :
    ((readLoop [ascii "foo", ascii "*1\r\n$4\r\nQUIT\r\n"] {} []).map fun r =>
        commands r.1) = some [⟨ascii "*1\r\n$4\r\nQUIT\r\n", [ascii "QUIT"]⟩] ∧
      ((readLoop [ascii "foo*1\r\n$4\r\nQUIT\r\n"] {} []).map fun r => commands r.1) =
        some [] := by
  decide +kernel

end ShunyaKV.Resp
