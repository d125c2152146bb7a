import ShunyaKV.Smp.Consistent

/-!
What a client sees of a key, whichever shards its connections are on.
-/

namespace ShunyaKV.Smp

open ShunyaKV.Lib.Decimal ShunyaKV.Lib.Ttl ShunyaKV.Lib.Steps ShunyaKV.Shard ShunyaKV.Cmd

def Request.result (req : Request) : Option Reply :=
  match req.phase with
  | .running (.done r) => some r
  | .returning r => some r
  | .acked r => some r
  | _ => none

section Runs

variable {M : Machine} {o : Observed}

lemma Request.Recorded.result {log : List Mark} {i : ℕ} {req : Request} {r : Reply}
    (h : req.Recorded log i) (hr : req.result = some r) :
    Once log i req r ∨ Refused log i req r := by
  obtain ⟨call, target, φ⟩ := req
  cases φ with
  | sent => cases hr
  | running pc =>
    cases pc with
    | done r' =>
      cases hr
      rcases h with ⟨r', honce, hends⟩ | ⟨r', hrefused, hpc⟩
      · exact .inl (honce.done hends)
      · rw [Pc.done.inj hpc]
        exact .inr hrefused
    | _ => cases hr
  | returning r' =>
    cases hr
    exact h
  | acked r' =>
    cases hr
    exact h

/-- A read, and a write that is stored, is in the log. -/
lemma Request.Recorded.once {log : List Mark} {i : ℕ} {req : Request} {r : Reply}
    (h : req.Recorded log i) (hr : req.result = some r)
    (hdone : (∃ k, req.call = .get k) ∨ r = .stored true) : Once log i req r := by
  rcases h.result hr with honce | ⟨-, hcall, e, he⟩
  · exact honce
  · rcases hdone with ⟨k, hk⟩ | hstored
    · exact absurd hk (hcall k)
    · rw [he] at hstored
      cases hstored

end Runs

end ShunyaKV.Smp
