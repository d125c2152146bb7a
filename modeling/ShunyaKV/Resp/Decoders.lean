import ShunyaKV.Resp.Sessions

/-!
The reader of a stream and the decoders of whole frames.
-/

namespace ShunyaKV.Resp

open ShunyaKV.Lib.Decimal ShunyaKV.Lib.Words ShunyaKV.Shard Whole

/-! ### Strings with a length, and absent ones -/

lemma Reader.readCommand_iff {st : Reader × Stream} (hst : Reader.Fits st) {argv : List Bytes}
    {w : Bytes} :
    (∃ st', Reader.readCommand st = .ok (argv, st') ∧ Reader.rest st' = w) ↔
      Text.readCommand (Reader.rest st) = .ok (argv, w) := by
  constructor
  · rintro ⟨st', h, rfl⟩
    rcases Reader.simulates_readCommand st hst with ⟨e, he, -⟩ | ⟨argv', st'', h', -, hy⟩
    · rw [h] at he
      cases he
    · rw [h] at h'
      cases h'
      exact hy
  · intro h
    rcases Reader.simulates_readCommand st hst with ⟨e, -, he⟩ | ⟨argv', st', h', -, hy⟩
    · rw [h] at he
      cases he
    · rw [h] at hy
      cases hy
      exact ⟨st', h', rfl⟩

end ShunyaKV.Resp
