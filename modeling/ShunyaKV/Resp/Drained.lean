import ShunyaKV.Resp.Calls

/-!
What the extractor costs and what it returns, against the bytes it is given.

A command under way has been paid for with its first byte, which is consumed when it is begun.
So every result takes a byte of its own: one that it consumes, or the first one of the command
it ends.
-/

namespace ShunyaKV.Resp

open ShunyaKV.Lib.Decimal ShunyaKV.Shard

/-- A call that goes round `n` times and then ends. -/
inductive Loops (buf : Bytes) : ℕ → Processor → Processor × Bytes × Extracted → Prop
  | done {p p' : Processor} {buf' : Bytes} {r : Extracted} (h : turn buf p = .done p' buf' r) :
    Loops buf 0 p (p', buf', r)
  | go {n : ℕ} {p q : Processor} {res : Processor × Bytes × Extracted} (h : turn buf p = .go q)
      (hl : Loops buf n q res) : Loops buf (n + 1) p res

/-- The bytes ahead, and one more for a command under way. -/
def Processor.credit (p : Processor) (buf : Bytes) : ℕ :=
  buf.length - p.pos + if p.st = .needStar then 0 else 1

/-- **A round that goes on costs nothing.** -/
lemma Goes.credit {buf : Bytes} {p q : Processor} (h : Goes buf p q) :
    q.credit buf ≤ p.credit buf := by
  have hget {b : UInt8} (hb : buf[p.pos]? = some b) : p.pos < buf.length :=
    (List.getElem?_eq_some_iff.mp hb).1
  cases h with
  | star hst hb =>
    have := hget hb
    simp only [Processor.credit, hst, reduceCtorEq, if_true, if_false]
    omega
  | argc hst hint | bulkLen hst hint =>
    have := parseIntCrlf_pos hint
    simp only [Processor.credit, hst, reduceCtorEq, if_false]
    omega
  | dollar hst | bulkData hst | bulkCrlf hst =>
    simp only [Processor.credit, hst, reduceCtorEq, if_false]
    omega

lemma credit_compact {q : Processor} {buf : Bytes} {pos : ℕ} (hq : q.st = .needStar)
    (hpos : pos ≤ buf.length) :
    (q.compact buf pos).1.credit (q.compact buf pos).2 = buf.length - pos := by
  obtain ⟨hle, hdrop, -⟩ := compact_drop q hpos
  have hst : (q.compact buf pos).1.st = .needStar := hq
  have hlen := congrArg List.length hdrop
  rw [List.length_drop, List.length_drop] at hlen
  rw [Processor.credit, hst, if_pos rfl, hlen, Nat.add_zero]

/-- **A round that ends the call pays for its result.** Only a call without a result leaves the
credit as it was. -/
lemma Finishes.credit {buf buf' : Bytes} {p p' : Processor} {r : Extracted}
    (h : Finishes buf p p' buf' r) (hpos : p.pos ≤ buf.length) :
    p'.credit buf' + r.requests.length ≤ p.credit buf ∧
      (r ≠ .nullopt → p'.credit buf' < p.credit buf) := by
  cases h with
  | empty hst =>
    rw [credit_compact hst hpos]
    exact ⟨Nat.le_add_right _ _, fun hr => absurd rfl hr⟩
  | wait => exact ⟨Nat.le_refl _, fun hr => absurd rfl hr⟩
  | badLine hst hlt hle =>
    rw [credit_compact hst hle, Processor.credit, hst, if_pos rfl]
    simp only [errorRequest, Extracted.requests, List.length_singleton]
    omega
  | badFrame hst hq hge hle =>
    rw [credit_compact hq hle, Processor.credit, if_neg hst]
    simp only [errorRequest, Extracted.requests, List.length_singleton]
    omega
  | command hst hle _ hq =>
    rw [credit_compact hq hle, Processor.credit, if_neg (by simp [hst])]
    simp only [Extracted.requests, List.length_singleton]
    omega
  | thrown hst hle =>
    simp only [Processor.credit, hst, reduceCtorEq, if_false, Extracted.requests, List.length_nil]
    omega

lemma loops_of_extractLoop {buf : Bytes} {p : Processor} (fuel : ℕ) (hpos : p.pos ≤ buf.length)
    (hfuel : p.left buf < fuel) :
    ∃ n ≤ p.left buf, Loops buf n p (extractLoop fuel buf p) := by
  induction fuel generalizing p with
  | zero => omega
  | succ fuel ih =>
    rw [extractLoop]
    rcases ht : turn buf p with q | ⟨p', buf', r⟩
    · obtain ⟨hq, hlt⟩ := turn_go ht hpos
      obtain ⟨n, hn, hl⟩ := ih hq (by omega)
      exact ⟨n + 1, by omega, .go ht hl⟩
    · exact ⟨0, Nat.zero_le _, .done ht⟩

/-- The rounds of a call are bounded by the bytes ahead. -/
lemma loops_of_call {buf : Bytes} {p : Processor} (hpos : p.pos ≤ buf.length) :
    ∃ n ≤ 2 * (buf.length - p.pos) + 1, Loops buf n p (tryExtractRequest p buf) := by
  have hleft : p.left buf ≤ 2 * (buf.length - p.pos) + 1 := by
    unfold Processor.left
    split <;> omega
  rw [tryExtractRequest, if_neg (by omega)]
  obtain ⟨n, hn, hl⟩ := loops_of_extractLoop (2 * buf.length + 2) hpos (by omega)
  exact ⟨n, by omega, hl⟩

lemma credit_call {buf buf' : Bytes} {p p' : Processor} {r : Extracted}
    (hpos : p.pos ≤ buf.length) (hcall : tryExtractRequest p buf = (p', buf', r)) :
    p'.pos ≤ buf'.length ∧ p'.credit buf' + r.requests.length ≤ p.credit buf ∧
      (r ≠ .nullopt → p'.credit buf' < p.credit buf) := by
  obtain ⟨q, p₁, buf₁, r₁, hq, hqpos, hturn, hcall₁⟩ := tryExtractRequest_rule
    (fun q => q.credit buf ≤ p.credit buf)
    (fun _ _ hle _ hgo => Nat.le_trans (goes_of_turn hgo).credit hle) (Nat.le_refl _) hpos
  rw [hcall] at hcall₁
  cases hcall₁
  have hend := (finishes_of_turn hturn hqpos).credit hqpos
  refine ⟨(turn_done hturn hqpos).pos, by omega, fun hr => ?_⟩
  have := hend.2 hr
  omega

def calls : ℕ → Processor → Bytes → Processor × Bytes
  | 0, p, buf => (p, buf)
  | k + 1, p, buf =>
    let r := tryExtractRequest p buf
    calls k r.1 r.2.1

/-- **Calls in a row come to one without a result.** -/
lemma calls_nullopt {p : Processor} {buf : Bytes} (hpos : p.pos ≤ buf.length) :
    ∃ k ≤ p.credit buf,
      (tryExtractRequest (calls k p buf).1 (calls k p buf).2).2.2 = .nullopt := by
  induction hc : p.credit buf using Nat.strong_induction_on generalizing p buf with
  | _ c ih =>
    rcases hcall : tryExtractRequest p buf with ⟨p', buf', r⟩
    obtain ⟨hpos', -, hlt⟩ := credit_call hpos hcall
    by_cases hr : r = .nullopt
    · exact ⟨0, Nat.zero_le _, by rw [calls, hcall, hr]⟩
    · have hlt := hlt hr
      obtain ⟨k, hk, hnull⟩ := ih (p'.credit buf') (by omega) hpos' rfl
      refine ⟨k + 1, by omega, ?_⟩
      rw [calls, hcall]
      exact hnull

/-- The results so far and the credit are covered by the bytes so far. -/
lemma Fed.covered {limit : Option ℕ} {w buf : Bytes} {rs : List ParsedRequest} {p : Processor}
    (h : Fed limit w rs p buf) : p.pos ≤ buf.length ∧ rs.length + p.credit buf ≤ w.length := by
  induction h with
  | start => exact ⟨Nat.le_refl 0, Nat.le_refl 0⟩
  | append _ chunk _ ih =>
    obtain ⟨hpos, hle⟩ := ih
    unfold Processor.credit at hle ⊢
    simp only [List.length_append]
    omega
  | call _ hcall ih =>
    obtain ⟨hpos, hle⟩ := ih
    obtain ⟨hpos', hcredit, -⟩ := credit_call hpos hcall
    refine ⟨hpos', ?_⟩
    rw [List.length_append]
    omega

/-- **Draining ends and cannot amplify.** Whatever a connection has been fed, in whatever
chunks, the next call ends after no more rounds than twice the bytes ahead, and one more; calls
in a row come to one without a result, after no more results than bytes ahead, and one more; and
no more results have been returned than bytes have been fed. -/
theorem served_bounded {w buf : Bytes} {rs : List ParsedRequest} {p : Processor}
    (h : Fed none w rs p buf) :
    (∃ n ≤ 2 * (buf.length - p.pos) + 1, Loops buf n p (tryExtractRequest p buf)) ∧
      (∃ k ≤ buf.length - p.pos + 1,
        (tryExtractRequest (calls k p buf).1 (calls k p buf).2).2.2 = .nullopt) ∧
      rs.length ≤ w.length := by
  obtain ⟨hpos, hle⟩ := h.covered
  refine ⟨loops_of_call hpos, ?_, by omega⟩
  obtain ⟨k, hk, hnull⟩ := calls_nullopt hpos
  refine ⟨k, Nat.le_trans hk ?_, hnull⟩
  unfold Processor.credit
  split <;> omega

/-- Two stars with empty headers get an error each; a third one is a command under way. -/
theorem served_stars :
    ∃ rs p buf, Fed none (ascii "*\n" ++ ascii "*\n" ++ ascii "*") rs p buf ∧ rs.length = 2 ∧
      rs.length ≤ (ascii "*\n" ++ ascii "*\n" ++ ascii "*").length := by
  have hstar : Fed none (ascii "*\n") [] {} (ascii "*\n") := Drawn.start.append (ascii "*\n") nofun
  have hfed := (((hstar.call rfl).append (ascii "*\n") nofun).call rfl).append (ascii "*") nofun
  exact ⟨_, _, _, hfed, by decide +kernel, (served_bounded hfed).2.2⟩

end ShunyaKV.Resp
