import ShunyaKV.Resp.Scan

/-!
After an error: bytes without a `*` that end their last line cost errors, and the commands
behind them come out as if nothing had been there.
-/

namespace ShunyaKV.Resp

open ShunyaKV.Lib.Decimal ShunyaKV.Lib.Words ShunyaKV.Shard

/-- Bytes that no command starts in, up to the end of a line. -/
structure Junk (j : Bytes) : Prop where
  star : 42 ∉ j
  line : j = [] ∨ j.getLast? = some 10

lemma skipLine_append {l : Bytes} (h : 10 ∉ l) (r : Bytes) : skipLine (l ++ 10 :: r) = r := by
  rw [skipLine, dropWhile_ne_append h]
  simp

lemma skipLine_eq_nil {l : Bytes} (h : 10 ∉ l) : skipLine l = [] := by
  rw [skipLine, dropWhile_ne_eq_nil h]
  rfl

/-- Skipping a line takes bytes off the junk only. -/
lemma Junk.skip {j a rest e : Bytes} (hj : Junk j) (hne : j ≠ []) (h : a ++ rest = j ++ e) :
    ∃ j', Junk j' ∧ skipLine a ++ rest = j' ++ e := by
  obtain ⟨hstar, hline⟩ := hj
  have hlast := hline.resolve_left hne
  obtain ⟨l, r, rfl, hl⟩ := List.eq_append_cons_of_mem (List.mem_of_getLast? hlast)
  have hr : r = [] ∨ r.getLast? = some 10 := by
    rcases r with _ | ⟨b, r⟩
    · exact .inl rfl
    · right
      rwa [List.append_cons, List.getLast?_append_of_ne_nil _ (by simp)] at hlast
  rw [List.append_cons, List.append_assoc] at h
  rcases append_eq_append_cases h with ⟨a', rfl, ha'⟩ | ⟨y, hy, hy', rfl⟩
  · -- the line ends in the bytes at hand
    refine ⟨r, ⟨fun hm => hstar (by simp [hm]), hr⟩, ?_⟩
    rw [List.append_assoc, List.singleton_append, skipLine_append hl, ha']
  · -- the line goes on
    obtain ⟨y', b, rfl⟩ := (List.eq_nil_or_concat y).resolve_left hy
    rw [List.concat_eq_append, ← List.append_assoc] at hy'
    obtain ⟨rfl, hb⟩ := List.append_inj' hy' rfl
    obtain rfl : b = 10 := by simpa using hb.symm
    refine ⟨y'.concat 10 ++ r, ⟨fun hm => hstar ?_, .inr ?_⟩, ?_⟩
    · simp only [List.concat_eq_append, List.mem_append, List.mem_cons] at hm ⊢
      tauto
    · rcases hr with rfl | hr
      · simp
      · rw [List.getLast?_append_of_ne_nil _ (by rintro rfl; simp at hr), hr]
    · rw [skipLine_eq_nil fun hm => hl (by simp [hm])]
      simp

/-- The processor is between two commands, with junk before the commands to come. -/
inductive Awaits (buf rest : Bytes) (p : Processor) (cs : List (List Bytes)) : Prop
  | mk {a j : Bytes} (hrep : Rep buf p .between a) (hj : Junk j)
      (h : a ++ rest = j ++ cs.flatMap writeArrayBulk)

lemma Awaits.append {buf chunk rest : Bytes} {p : Processor} {cs : List (List Bytes)}
    (h : Awaits buf (chunk ++ rest) p cs) : Awaits (buf ++ chunk) rest p cs := by
  obtain ⟨hrep, hj, h⟩ := h
  exact ⟨hrep.append chunk, hj, by rw [List.append_assoc, h]⟩

/-- A call between two commands, where no command starts. -/
lemma Rep.badLine {buf a : Bytes} {p : Processor} {b : UInt8} (h : Rep buf p .between (b :: a))
    (hb : b ≠ 42) (hbuf : buf.length < 2 ^ 32) :
    ∃ p' buf' r, tryExtractRequest p buf = (p', buf', .request r) ∧ ProtocolError r ∧
      Rep buf' p' .between (skipLine (b :: a)) ∧ buf'.length ≤ buf.length := by
  have hscan : scan .between (b :: a) = .done (.badLine (b :: a)) (skipLine (b :: a)) :=
    if_pos hb
  obtain ⟨pl, a', p', buf', ⟨rfl, rfl⟩, hlen, hend⟩ :=
    h.call (I := fun pl a' => pl = .between ∧ a' = b :: a) (by
      rintro _ _ pl' a' ⟨rfl, rfl⟩ hgo
      simp [hscan] at hgo) ⟨rfl, rfl⟩ hbuf
  rcases hend with ⟨hwait, -⟩ | ⟨o, a'', hdone, hrep, hcall⟩
  · simp [hscan] at hwait
  · rw [hscan] at hdone
    cases hdone
    exact ⟨p', buf', _, hcall, ⟨rfl, by simp [Output.request]⟩, hrep, hlen⟩

lemma Rep.empty {buf : Bytes} {p : Processor} (h : Rep buf p .between [])
    (hbuf : buf.length < 2 ^ 32) :
    ∃ p' buf', tryExtractRequest p buf = (p', buf', .nullopt) ∧ Rep buf' p' .between [] := by
  obtain ⟨pl, a', p', buf', ⟨rfl, rfl⟩, -, hend⟩ :=
    h.call (I := fun pl a => pl = .between ∧ a = []) (by
      rintro _ _ pl' a' ⟨rfl, rfl⟩ hgo
      cases hgo) ⟨rfl, rfl⟩ hbuf
  rcases hend with ⟨-, hrep, hcall⟩ | ⟨o, a'', hdone, -⟩
  · exact ⟨p', buf', hcall, hrep⟩
  · cases hdone

lemma skipLine_lt (b : UInt8) (a : Bytes) : (skipLine (b :: a)).length < (b :: a).length := by
  have hle := (List.dropWhile_suffix (l := b :: a) (· ≠ (10 : UInt8))).length_le
  rw [skipLine, List.length_tail]
  simp only [List.length_cons] at hle ⊢
  omega

/-- What a drain can come to: errors and junk left, or errors and commands. -/
inductive Recovers (rest : Bytes) (cs : List (List Bytes)) :
    List ParsedRequest → Processor → Bytes → Prop
  | junk {errs : List ParsedRequest} {p : Processor} {buf : Bytes}
      (herrs : ∀ e ∈ errs, ProtocolError e) (h : Awaits buf rest p cs)
      (hrest : rest = [] → cs = []) : Recovers rest cs errs p buf
  | commands {errs : List ParsedRequest} {out todo : List (List Bytes)} {p : Processor}
      {buf : Bytes} (herrs : ∀ e ∈ errs, ProtocolError e) (hcs : cs = out ++ todo)
      (h : Pending buf rest p todo) (hrest : rest = [] → todo = []) :
    Recovers rest cs (errs ++ out.map parsed) p buf

lemma Recovers.cons {rest : Bytes} {cs : List (List Bytes)} {rs : List ParsedRequest}
    {p : Processor} {buf : Bytes} {e : ParsedRequest} (h : Recovers rest cs rs p buf)
    (he : ProtocolError e) : Recovers rest cs (e :: rs) p buf := by
  have hall {errs : List ParsedRequest} (herrs : ∀ e ∈ errs, ProtocolError e) :
      ∀ e' ∈ e :: errs, ProtocolError e' := by
    simpa using ⟨he, herrs⟩
  cases h with
  | junk herrs h hrest => exact .junk (hall herrs) h hrest
  | commands herrs hcs h hrest =>
    rw [← List.cons_append]
    exact .commands (hall herrs) hcs h hrest

lemma Awaits.drain {buf rest : Bytes} {p : Processor} {cs : List (List Bytes)} (fuel : ℕ)
    (h : Awaits buf rest p cs) (hcs : ∀ c ∈ cs, Command c) (hbuf : buf.length < 2 ^ 32)
    (hfuel : (buf.drop p.pos).length < fuel) :
    ∃ rs p' buf', Resp.drain fuel p buf = some (rs, p', buf') ∧ Recovers rest cs rs p' buf' := by
  induction fuel generalizing p buf with
  | zero => omega
  | succ fuel ih =>
    obtain @⟨a, j, hrep, hj, h⟩ := h
    by_cases hne : j = []
    · subst hne
      cases hrep with
      | between hst hpos =>
        obtain ⟨out, todo, p', buf', hdrain, hout, hpend, hrest⟩ :=
          (Pending.between hst hpos h).drain (fuel + 1) hcs hbuf hfuel
        have hno : ∀ e ∈ ([] : List ParsedRequest), ProtocolError e := by simp
        exact ⟨_, p', buf', hdrain, .commands hno hout hpend hrest⟩
    · rcases a with _ | ⟨b, a⟩
      · obtain ⟨p', buf', hcall, hrep'⟩ := hrep.empty hbuf
        refine ⟨[], p', buf', by simp [Resp.drain, hcall], .junk (by simp) ⟨hrep', hj, h⟩ ?_⟩
        rintro rfl
        simp [hne] at h
      · have hb : b ≠ 42 := by
          rintro rfl
          obtain ⟨b', j', rfl⟩ := List.exists_cons_of_ne_nil hne
          have hstar := hj.star
          simp only [List.cons_append, List.cons.injEq] at h
          simp [h.1] at hstar
        obtain ⟨p', buf', r, hcall, herr, hrep', hlen⟩ := hrep.badLine hb hbuf
        obtain ⟨j', hj', h'⟩ := hj.skip hne h
        have hlt : (buf'.drop p'.pos).length < fuel := by
          have hskip := skipLine_lt b a
          rw [hrep.drop] at hfuel
          rw [hrep'.drop]
          omega
        obtain ⟨rs, p'', buf'', hdrain, hrec⟩ := ih ⟨hrep', hj', h'⟩ (by omega) hlt
        exact ⟨r :: rs, p'', buf'', by simp [Resp.drain, hcall, hdrain], hrec.cons herr⟩

lemma Awaits.readLoop {buf : Bytes} {p : Processor} {cs : List (List Bytes)}
    (chunks : List Bytes) (h : Awaits buf chunks.flatten p cs) (hcs : ∀ c ∈ cs, Command c)
    (hfits : Fits chunks p buf) (hnil : chunks = [] → cs = []) :
    ∃ errs p' buf', Resp.readLoop chunks p buf = some (errs ++ cs.map parsed, p', buf') ∧
      ∀ e ∈ errs, ProtocolError e := by
  induction chunks generalizing p buf cs with
  | nil =>
    obtain rfl := hnil rfl
    exact ⟨[], p, buf, rfl, by simp⟩
  | cons chunk chunks ih =>
    rw [List.flatten_cons] at h
    simp only [Fits, Bool.and_eq_true, decide_eq_true_eq] at hfits
    obtain ⟨rs, p₁, buf₁, hdrain, hrec⟩ := h.append.drain ((buf ++ chunk).length + 1) hcs hfits.1
      (by rw [List.length_drop]; omega)
    have hchunk : readChunk p buf chunk = some (rs, p₁, buf₁) := hdrain
    have hfits₁ := hfits.2
    rw [hchunk] at hfits₁
    have hloop {rs' : List ParsedRequest} {p' : Processor} {buf' : Bytes}
        (h : Resp.readLoop chunks p₁ buf₁ = some (rs', p', buf')) :
        Resp.readLoop (chunk :: chunks) p buf = some (rs ++ rs', p', buf') := by
      simp only [Resp.readLoop, hchunk, h, Option.bind_eq_bind, Option.bind_some]
      rfl
    cases hrec with
    | junk herrs h hrest =>
      obtain ⟨errs, p', buf', hrun, herrs'⟩ := ih h hcs hfits₁ fun hc => hrest (by simp [hc])
      refine ⟨rs ++ errs, p', buf', by rw [hloop hrun, List.append_assoc], fun e he => ?_⟩
      exact (List.mem_append.mp he).elim (herrs e) (herrs' e)
    | @commands errs out todo _ _ herrs hout hpend hrest =>
      subst hout
      obtain ⟨p', buf', hrun, -⟩ := hpend.readLoop chunks (fun c hc => hcs c (by simp [hc])) hfits₁
        fun hc => hrest (by simp [hc])
      exact ⟨errs, p', buf', by rw [hloop hrun]; simp, herrs⟩

/-- **Recovery.** Between two commands, bytes with no `*` that are none or end in LF cost some
errors, however what is still to come is cut into chunks; after the errors come the commands
behind those bytes, each of them whole, and nothing else. -/
theorem readLoop_recovers {w buf j : Bytes} {rs : List ParsedRequest} {p : Processor}
    {cmds : List (List Bytes)} {chunks : List Bytes} (h : Fed none w rs p buf)
    (hst : p.st = .needStar) (hstar : 42 ∉ j)
    (hline : j = [] ∨ j.getLast? = some 10) (hcmds : ∀ c ∈ cmds, Command c)
    (hstream : buf.drop p.pos ++ chunks.flatten = j ++ cmds.flatMap writeArrayBulk)
    (hfits : Fits ([] :: chunks) p buf) :
    ∃ errs p' buf', readLoop ([] :: chunks) p buf =
        some (errs ++ cmds.map (fun c => { frame := writeArrayBulk c, argv := c }), p', buf') ∧
      ∀ e ∈ errs, ProtocolError e :=
  Awaits.readLoop ([] :: chunks) ⟨.between hst h.sliced.1.pos, ⟨hstar, hline⟩, hstream⟩ hcmds hfits
    (by simp)

/-- An error leaves half a line; the rest of it and a command follow. -/
theorem readLoop_recovers_quit :
    ∃ errs p' buf', readLoop [[], ascii "o\r\n*1\r\n$4\r", ascii "\nQUIT\r\n"]
        (tryExtractRequest {} (ascii "fo")).1 (tryExtractRequest {} (ascii "fo")).2.1 =
        some (errs ++ [⟨ascii "*1\r\n$4\r\nQUIT\r\n", [ascii "QUIT"]⟩], p', buf') ∧
      ∀ e ∈ errs, ProtocolError e :=
  have hcmds : ∀ c ∈ [[ascii "QUIT"]], Command c := by
    intro c hc
    obtain rfl := List.mem_singleton.mp hc
    exact ⟨by decide, by decide, by decide⟩
  readLoop_recovers (j := ascii "o\r\n") (.call (Drawn.start.append (ascii "fo") nofun) rfl)
    (by decide +kernel) (by decide) (by decide) hcmds (by decide +kernel) (by decide +kernel)

end ShunyaKV.Resp
