import ShunyaKV.Resp.Scan

/-!
What the extractor takes for a command, in whatever bytes.

The bytes of a stream that are consumed lie before the command under way, or are the bytes
seen of it; those bytes have the form of a frame as far as they go. An error drops them.
-/

namespace ShunyaKV.Resp

open ShunyaKV.Lib.Decimal ShunyaKV.Lib.Words ShunyaKV.Shard

/-! ### The form of a frame -/

def Numeral (n : ℕ) (t : Bytes) : Prop := 10 ∉ t ∧ readInt t = some (n : ℤ)

def Item (x item : Bytes) : Prop :=
  ∃ t, item = ascii "$" ++ t ++ writeCrlf ++ x ++ writeCrlf ∧ Numeral x.length t ∧
    x.length ≤ kMaxBulk

/-- A header that announces `argc` strings, and the strings `argv`. -/
def Opened (s : Bytes) (argc : ℕ) (argv : List Bytes) : Prop :=
  ∃ t items, s = ascii "*" ++ t ++ writeCrlf ++ items.flatten ∧ Numeral argc t ∧
    1 ≤ argc ∧ argc ≤ kMaxArgs ∧ List.Forall₂ Item argv items

/-- A frame has as many strings as it announces. -/
def IsFrame (r : ParsedRequest) : Prop := Opened r.frame r.argv.length r.argv

lemma parseIntCrlf_invalid {buf line r : Bytes} {pos : ℕ} (h : buf.drop pos = line ++ 10 :: r)
    (hnl : 10 ∉ line) (hcr : line.getLast? ≠ some 13) : parseIntCrlf buf pos = .invalid := by
  have hline : (buf.drop pos).takeWhile (· ≠ 10) = line := by rw [h, takeWhile_ne_append hnl]
  simp only [parseIntCrlf, hline]
  rw [if_neg (by rw [h]; simp), if_pos hcr]
  split <;> rfl

lemma readInt_of_parse {a : Bytes} {v : ℤ} {n : ℕ} (h : parseIntCrlf a 0 = .ok v n) :
    ∃ t, a.take n = t ++ writeCrlf ∧ 10 ∉ t ∧ readInt t = some v := by
  by_cases hmem : (10 : UInt8) ∈ a
  · obtain ⟨line, r, rfl, hnl⟩ := List.eq_append_cons_of_mem hmem
    by_cases hcr : line.getLast? = some 13
    · obtain ⟨t, rfl⟩ := List.getLast?_eq_some_iff.mp hcr
      have hnl' : (10 : UInt8) ∉ t := fun hm => hnl (by simp [hm])
      have e : t ++ [13] ++ 10 :: r = t ++ writeCrlf ++ r := by simp [writeCrlf_eq]
      rw [e] at h ⊢
      rw [parseIntCrlf_line List.drop_zero hnl'] at h
      rcases hread : readInt t with _ | v'
      · rw [hread] at h
        cases h
      · rw [hread] at h
        cases h
        exact ⟨t, by rw [Nat.zero_add, List.take_left' rfl], hnl', hread⟩
    · rw [parseIntCrlf_invalid List.drop_zero hnl hcr] at h
      cases h
  · rw [parseIntCrlf_of_notMem (by rwa [List.drop_zero])] at h
    cases h

lemma Opened.snoc {s item x : Bytes} {argc : ℕ} {argv : List Bytes} (h : Opened s argc argv)
    (hx : Item x item) : Opened (s ++ item) argc (argv ++ [x]) := by
  obtain ⟨t, items, rfl, ht, hpos, hle, hitems⟩ := h
  exact ⟨t, items ++ [item], by simp, ht, hpos, hle, List.rel_append hitems (.cons hx .nil)⟩

/-- The bytes seen of a command have the form of a frame. -/
def Place.Begun : Place → Prop
  | .between => True
  | .argc seen => seen = ascii "*"
  | .dollar seen n argv => Opened seen n argv
  | .bulkLen seen n argv => ∃ s, seen = s ++ ascii "$" ∧ Opened s n argv
  | .bulkData seen n argv len =>
    ∃ s t, seen = s ++ ascii "$" ++ t ++ writeCrlf ∧ Opened s n argv ∧ Numeral len t ∧
      len ≤ kMaxBulk
  | .bulkCrlf seen n argv =>
    ∃ s u, seen = s ++ u ∧ ∃ argv' x, argv = argv' ++ [x] ∧ Opened s n argv' ∧
      Item x (u ++ writeCrlf)

def Place.seen : Place → Bytes
  | .between => []
  | .argc seen => seen
  | .dollar seen _ _ => seen
  | .bulkLen seen _ _ => seen
  | .bulkData seen _ _ _ => seen
  | .bulkCrlf seen _ _ => seen

lemma Steps.consumes {pl pl' : Place} {a a' : Bytes} (h : Steps pl a pl' a') :
    ∃ d, a = d ++ a' ∧ pl'.seen = pl.seen ++ d := by
  cases h with
  | star a => exact ⟨[42], rfl, rfl⟩
  | argc | bulkLen | bulkData => exact ⟨_, (List.take_append_drop _ _).symm, rfl⟩
  | dollar seen a => exact ⟨[36], rfl, rfl⟩
  | bulkCrlf seen a => exact ⟨writeCrlf, rfl, rfl⟩

lemma Steps.begun {pl pl' : Place} {a a' : Bytes} (h : Steps pl a pl' a') (hb : pl.Begun) :
    pl'.Begun := by
  cases h with
  | star a => rfl
  | @argc seen a v n hint hv =>
    obtain ⟨t, ht, hnl, hread⟩ := readInt_of_parse hint
    obtain rfl : seen = ascii "*" := hb
    unfold kMaxArgs at hv
    refine ⟨t, [], by simp [ht], ⟨hnl, ?_⟩, by omega, by unfold kMaxArgs; omega, .nil⟩
    rw [hread]
    congr 1
    omega
  | dollar seen a argc argv => exact ⟨seen, rfl, hb⟩
  | @bulkLen seen a argc argv v n hint hv =>
    obtain ⟨t, ht, hnl, hread⟩ := readInt_of_parse hint
    obtain ⟨s, rfl, hs⟩ := hb
    unfold kMaxBulk at hv
    refine ⟨s, t, by simp [ht], hs, ⟨hnl, ?_⟩, by unfold kMaxBulk; omega⟩
    rw [hread]
    congr 1
    omega
  | @bulkData seen a argc len argv hlen =>
    obtain ⟨s, t, rfl, hs, ht, hle⟩ := hb
    have htake : (a.take len).length = len := by
      rw [List.length_take]
      omega
    refine ⟨s, ascii "$" ++ t ++ writeCrlf ++ a.take len, by simp, argv, a.take len, rfl, hs, t,
      rfl, ?_, ?_⟩
    · rwa [htake]
    · rwa [htake]
  | bulkCrlf seen a hargc =>
    obtain ⟨s, u, rfl, argv', x, rfl, hs, hx⟩ := hb
    have := hs.snoc hx
    rwa [← List.append_assoc] at this

/-! ### Streams -/

def commands (rs : List ParsedRequest) : List ParsedRequest := rs.filter fun r => r.argv ≠ []

lemma fed_chunk {chunk : Bytes} (h : chunk.length < 2 ^ 32) : Fed sizeLimit chunk [] {} chunk :=
  Drawn.start.append chunk (by simpa using h)

/-- The commands found lie in the consumed part of the stream. -/
structure Found (w : Bytes) (frames : List Bytes) (pl : Place) (a : Bytes) : Prop where
  frames : ∃ u, w = u ++ pl.seen ++ a ∧ InOrder frames u
  begun : pl.Begun

lemma Found.go {w a a' : Bytes} {frames : List Bytes} {pl pl' : Place}
    (h : Found w frames pl a) (hs : scan pl a = .go pl' a') : Found w frames pl' a' := by
  have hstep := steps_of_scan hs
  obtain ⟨⟨u, rfl, hu⟩, hb⟩ := h
  obtain ⟨d, rfl, hseen⟩ := hstep.consumes
  exact ⟨⟨u, by simp [hseen], hu⟩, hstep.begun hb⟩

lemma skipLine_suffix (a : Bytes) : skipLine a <:+ a :=
  (List.tail_suffix _).trans (List.dropWhile_suffix _)

lemma resync_suffix (a : Bytes) : resync a <:+ a := List.dropWhile_suffix _

/-- An error drops bytes; a command is made of the bytes seen of it. -/
lemma Found.done {w a a' : Bytes} {frames : List Bytes} {pl : Place} {o : Output}
    (h : Found w frames pl a) (hs : scan pl a = .done o a') :
    Found w (frames ++ (commands [o.request]).map (·.frame)) .between a' ∧
      ∀ r ∈ commands [o.request], IsFrame r := by
  obtain ⟨⟨u, rfl, hu⟩, hb⟩ := h
  cases ends_of_scan hs with
  | @badLine b a hb =>
    obtain ⟨d, hd⟩ := skipLine_suffix (b :: a)
    refine ⟨⟨⟨u ++ d, by simp [Place.seen, hd], ?_⟩, trivial⟩, by simp [commands, Output.request]⟩
    simpa [commands, Output.request] using hu.append d
  | badFrame hpl msg d a =>
    obtain ⟨d', hd'⟩ := resync_suffix a
    refine ⟨⟨⟨u ++ (pl.seen ++ d ++ d'), ?_, ?_⟩, trivial⟩, by simp [commands, Output.request]⟩
    · nth_rewrite 1 [← hd']
      simp [Place.seen]
    · simpa [commands, Output.request] using hu.append (pl.seen ++ d ++ d')
  | command seen a argv =>
    obtain ⟨s, v, rfl, argv', x, rfl, hs, hx⟩ := hb
    have hframe : IsFrame ⟨s ++ v ++ writeCrlf, argv' ++ [x]⟩ := by
      rw [List.append_assoc]
      exact hs.snoc hx
    refine ⟨⟨⟨u ++ (s ++ v ++ writeCrlf), by simp [Place.seen], ?_⟩, trivial⟩, ?_⟩
    · simpa [commands, Output.request] using hu.concat (s ++ v ++ writeCrlf)
    · simpa [commands, Output.request] using hframe

lemma commands_append (rs rs' : List ParsedRequest) :
    commands (rs ++ rs') = commands rs ++ commands rs' := List.filter_append _ _

lemma Fed.found {w buf : Bytes} {rs : List ParsedRequest} {p : Processor}
    (h : Fed sizeLimit w rs p buf) :
    buf.length < 2 ^ 32 ∧ (∀ r ∈ commands rs, IsFrame r) ∧
      ∃ pl a, Rep buf p pl a ∧ Found w ((commands rs).map (·.frame)) pl a := by
  induction h with
  | start =>
    refine ⟨by simp, by simp [commands], .between, [], .between rfl (Nat.le_refl 0), ?_⟩
    exact ⟨⟨[], rfl, .nil _⟩, trivial⟩
  | append _ chunk hlen ih =>
    obtain ⟨-, hframes, pl, a, hrep, ⟨u, rfl, hu⟩, hb⟩ := ih
    exact ⟨hlen _ rfl, hframes, pl, a ++ chunk, hrep.append chunk, ⟨u, by simp, hu⟩, hb⟩
  | call _ hcall ih =>
    obtain ⟨hbuf, hframes, pl, a, hrep, hfound⟩ := ih
    obtain ⟨pl', a', p', buf', hfound', hlen, hend⟩ :=
      hrep.call (fun _ _ _ _ hI hs => Found.go hI hs) hfound hbuf
    rcases hend with ⟨-, hrep', hcall'⟩ | ⟨o, a'', hs, hrep', hcall'⟩
    · cases hcall.symm.trans hcall'
      refine ⟨by omega, ?_, pl', a', hrep', ?_⟩
      · simpa [Extracted.requests] using hframes
      · simpa [Extracted.requests] using hfound'
    · cases hcall.symm.trans hcall'
      obtain ⟨hdone, hframe⟩ := hfound'.done hs
      refine ⟨by omega, ?_, .between, a'', hrep', ?_⟩
      · intro r hr
        rw [Extracted.requests, commands_append, List.mem_append] at hr
        exact hr.elim (hframes r) (hframe r)
      · rw [Extracted.requests, commands_append, List.map_append]
        exact hdone

/-- **The commands of a stream are there.** Whatever bytes a connection is fed, in whatever
chunks, the frames of the commands it gets lie in the stream one after the other. What is not
an error has a header that is read as the number of its strings, from 1 to 1024, and for every
string a header that is read as its length, at most 64 MiB. -/
theorem frames_in_stream {w buf : Bytes} {rs : List ParsedRequest} {p : Processor}
    (h : Fed sizeLimit w rs p buf) :
    InOrder ((commands rs).map (·.frame)) w ∧ ∀ r ∈ rs, ProtocolError r ∨ IsFrame r := by
  obtain ⟨-, hframes, pl, a, -, ⟨u, rfl, hu⟩, -⟩ := h.found
  constructor
  · rw [List.append_assoc]
    exact hu.append _
  · intro r hr
    rcases h.sliced.2 r hr with herr | hargv
    · exact .inl herr
    · exact .inr (hframes r (by simp [commands, hr, hargv]))

/-- Bytes that are no command, then a command whose header is padded, then half a command. -/
theorem frames_in_padded :
    ∃ rs p buf, Fed sizeLimit (ascii "?\r\n*01\r\n$4\r\nQUIT\r\n*1\r\n") rs p buf ∧
      commands rs = [⟨ascii "*01\r\n$4\r\nQUIT\r\n", [ascii "QUIT"]⟩] ∧
      InOrder [ascii "*01\r\n$4\r\nQUIT\r\n"]
        (ascii "?\r\n*01\r\n$4\r\nQUIT\r\n*1\r\n") := by
  have hchunk : (ascii "?\r\n*01\r\n$4\r\nQUIT\r\n*1\r\n").length < 2 ^ 32 := by decide
  have hfed := ((fed_chunk hchunk).call rfl).call rfl
  refine ⟨_, _, _, hfed, ?_, ?_⟩
  · decide +kernel
  · exact (frames_in_stream hfed).1

end ShunyaKV.Resp
