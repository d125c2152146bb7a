import ShunyaKV.Net.Server

/-!
What a client gets from the server.

Each request of a connection has its call in the cluster, or none, and its future the reply to
that call. Since the calls are consistent across the shards and a connection writes the replies
in the order of its requests, the bytes it writes are the answers to the bytes it was sent.
-/

namespace ShunyaKV.Net

open ShunyaKV.Lib ShunyaKV.Lib.Decimal ShunyaKV.Lib.Ttl ShunyaKV.Shard ShunyaKV.Hash
  ShunyaKV.Resp ShunyaKV.Cmd ShunyaKV.Conn ShunyaKV.Smp

/-! ### One event -/

section

variable {M : Machine} {o o' : Observed}

structure Kept (r r' : Request) : Prop where
  call : r'.call = r.call
  acked : ∀ reply, r'.phase = .acked reply ↔ r.phase = .acked reply

lemma Kept.refl (r : Request) : Kept r r := ⟨rfl, fun _ => Iff.rfl⟩

/-- Request `j` moves on, and is not answered before or after. -/
lemma kept_set {requests : List Request} {j : ℕ} {r : Request} {φ : Phase}
    (hj : requests[j]? = some r) (hbefore : ∀ reply, r.phase ≠ .acked reply)
    (hafter : ∀ reply, φ ≠ .acked reply) {j' : ℕ} {r' : Request}
    (hr' : requests[j']? = some r') :
    ∃ r'', (requests.set j { r with phase := φ })[j']? = some r'' ∧ Kept r' r'' := by
  by_cases hjj : j = j'
  · subst hjj
    obtain rfl : r = r' := Option.some.inj (hj.symm.trans hr')
    refine ⟨_, List.getElem?_set_self (List.getElem?_eq_some_iff.mp hj).1, rfl, fun reply => ?_⟩
    exact iff_of_false (hafter reply) (hbefore reply)
  · exact ⟨r', by rw [List.getElem?_set_ne hjj, hr'], .refl r'⟩

lemma requests_run {j now later : ℕ} (h : o.act M (.run j now later) = some o') :
    o'.requests.length = o.requests.length ∧
      ∀ (j' : ℕ) (r : Request), o.requests[j']? = some r →
        ∃ r', o'.requests[j']? = some r' ∧ Kept r r' := by
  obtain ⟨c, hc, rfl⟩ := Option.map_eq_some_iff.mp h
  obtain ⟨r, hr, hc⟩ := Option.bind_eq_some_iff.mp hc
  obtain ⟨q, hq, rfl⟩ := Option.map_eq_some_iff.mp hc
  refine ⟨List.length_set, fun j' r' hr' => kept_set hr ?_ (by simp) hr'⟩
  intro reply hphase
  simp [Request.segment, hphase] at hq

lemma requests_finish {j : ℕ} (h : o.act M (.finish j) = some o') :
    o'.requests.length = o.requests.length ∧
      ∀ (j' : ℕ) (r : Request), o.requests[j']? = some r →
        ∃ r', o'.requests[j']? = some r' ∧ Kept r r' := by
  obtain ⟨c, hc, rfl⟩ := Option.map_eq_some_iff.mp h
  obtain ⟨r, hr, hc⟩ := Option.bind_eq_some_iff.mp hc
  obtain ⟨φ, hφ, rfl⟩ := Option.map_eq_some_iff.mp hc
  obtain ⟨reply, hphase, rfl⟩ := finish_eq_some hφ
  exact ⟨List.length_set, fun j' r' hr' => kept_set hr (by simp [hphase]) (by simp) hr'⟩

lemma requests_deliver {j : ℕ} (h : o.act M (.deliver j) = some o') :
    ∃ r reply, o.requests[j]? = some r ∧
      o'.requests = o.requests.set j { r with phase := .acked reply } := by
  obtain ⟨c, hc, rfl⟩ := Option.map_eq_some_iff.mp h
  obtain ⟨r, hr, hc⟩ := Option.bind_eq_some_iff.mp hc
  obtain ⟨φ, hφ, rfl⟩ := Option.map_eq_some_iff.mp hc
  obtain ⟨reply, hphase, rfl⟩ := deliver_eq_some hφ
  exact ⟨r, reply, hr, rfl⟩

lemma requests_issue {self : ℕ} {argv : List Bytes} (h : o.act M (.issue self argv) = some o') :
    o'.requests = o.requests ++ (route argv).toList.map (Request.issued M self) := by
  obtain ⟨c, hc, rfl⟩ := Option.map_eq_some_iff.mp h
  unfold Cluster.act at hc
  dsimp only at hc
  split at hc
  · next hroute =>
    cases hc
    simp [hroute]
  · next hroute =>
    cases hc
    simp [hroute]

end

inductive Does (H : Host) (P : Process) : Event → Process → Prop
  | connect (self : ℕ) :
    Does H P (.connect self) { P with links := P.links ++ [.accepted H self] }
  | greet {i : ℕ} {link link' : Link} {ok : Bool} (hi : P.links[i]? = some link)
    (h : link.greet H ok = some link') : Does H P (.greet i ok) (P.setLink i link')
  | loops {i : ℕ} {link : Link} {a : Conn.Action} {sock : Socket Processor}
    (hi : P.links[i]? = some link) (ha : link.sock.act respHandler a = some sock)
    (hloops : ofLoops a) (hnone : link.handing a = none) :
    Does H P (.loops i a) (P.setLink i { link with sock := sock })
  | handOver {i : ℕ} {link : Link} {req : ParsedRequest} {sock : Socket Processor}
    {cluster : Observed} (hi : P.links[i]? = some link)
    (ha : link.sock.act respHandler .readOn = some sock) (hr : link.sock.reader = .granted req)
    (hissue : P.cluster.act H.toMachine (.issue link.self req.argv) = some cluster) :
    Does H P (.loops i .readOn) ({ P with cluster := cluster }.setLink i
      { link with
        sock := sock
        calls := link.calls ++ [(route req.argv).map fun _ => P.cluster.requests.length] })
  | run {j now later : ℕ} {cluster : Observed}
    (h : P.cluster.act H.toMachine (.run j now later) = some cluster) :
    Does H P (.run j now later) { P with cluster := cluster }
  | finish {j : ℕ} {cluster : Observed}
    (h : P.cluster.act H.toMachine (.finish j) = some cluster) :
    Does H P (.finish j) { P with cluster := cluster }
  | deliver {i n j : ℕ} {link : Link} {cluster : Observed} {sock : Socket Processor} {r : Request}
    {reply : Reply} (hi : P.links[i]? = some link) (hn : link.calls[n]? = some (some j))
    (h : P.cluster.act H.toMachine (.deliver j) = some cluster)
    (hj : P.cluster.requests[j]? = some r)
    (hset : cluster.requests = P.cluster.requests.set j { r with phase := .acked reply })
    (ha : link.sock.act respHandler (.resolve n (.value (encode reply))) = some sock) :
    Does H P (.deliver i n) ({ P with cluster := cluster }.setLink i { link with sock := sock })
  | answer {i n : ℕ} {link : Link} {req : ParsedRequest} {sock : Socket Processor} {info : Bytes}
    {node : Node} (hi : P.links[i]? = some link) (hn : link.calls[n]? = some none)
    (hreq : link.sock.handed[n]? = some req)
    (ha : link.sock.act respHandler (.resolve n
      (.value (handleRequest (H.server link.self info) ⟨0, 0⟩ node req).2)) = some sock) :
    Does H P (.answer i n info) (P.setLink i { link with sock := sock })

lemma handing_eq_some {link : Link} {a : Conn.Action} {req : ParsedRequest}
    (h : link.handing a = some req) : a = .readOn ∧ link.sock.reader = .granted req := by
  unfold Link.handing at h
  split at h
  · next hr => exact ⟨rfl, by rw [hr, Option.some.inj h]⟩
  · cases h

lemma does_of_act {H : Host} {P P' : Process} {e : Event} (h : P.act H e = some P') :
    Does H P e P' := by
  cases e with
  | connect self =>
    cases h
    exact .connect self
  | greet i ok =>
    obtain ⟨link, hi, hlink⟩ := Option.bind_eq_some_iff.mp h
    obtain ⟨link', hgreet, rfl⟩ := Option.map_eq_some_iff.mp hlink
    exact .greet hi hgreet
  | loops i a =>
    obtain ⟨link, hi, hlink⟩ := Option.bind_eq_some_iff.mp h
    split at hlink
    · next hserving =>
      obtain ⟨sock, ha, hsock⟩ := Option.bind_eq_some_iff.mp hlink
      split at hsock
      · next hnone =>
        cases hsock
        exact .loops hi ha hserving.2 hnone
      · next req hreq =>
        obtain ⟨rfl, hr⟩ := handing_eq_some hreq
        obtain ⟨cluster, hissue, rfl⟩ := Option.map_eq_some_iff.mp hsock
        exact .handOver hi ha hr hissue
    · cases hlink
  | run j now later =>
    obtain ⟨cluster, hrun, rfl⟩ := Option.map_eq_some_iff.mp h
    exact .run hrun
  | finish j =>
    obtain ⟨cluster, hfinish, rfl⟩ := Option.map_eq_some_iff.mp h
    exact .finish hfinish
  | deliver i n =>
    obtain ⟨link, hi, hlink⟩ := Option.bind_eq_some_iff.mp h
    obtain ⟨j, hn, hj⟩ := Option.bind_eq_some_iff.mp hlink
    obtain ⟨cluster, hc, hcluster⟩ := Option.bind_eq_some_iff.mp hj
    obtain ⟨reply, hreply, hresolve⟩ := Option.bind_eq_some_iff.mp hcluster
    obtain ⟨sock, ha, rfl⟩ := Option.map_eq_some_iff.mp hresolve
    obtain ⟨r, reply', hr, hset⟩ := requests_deliver hc
    obtain rfl : reply' = reply := by
      rw [hset, List.getElem?_set_self (List.getElem?_eq_some_iff.mp hr).1] at hreply
      exact Option.some.inj hreply
    exact .deliver hi (Option.join_eq_some_iff.mp hn) hc hr hset ha
  | answer i n info =>
    obtain ⟨link, hi, hlink⟩ := Option.bind_eq_some_iff.mp h
    split at hlink
    · next hn =>
      obtain ⟨req, hreq, hresolve⟩ := Option.bind_eq_some_iff.mp hlink
      obtain ⟨sock, ha, rfl⟩ := Option.map_eq_some_iff.mp hresolve
      exact .answer hi hn hreq ha
    · cases hlink

/-! ### The requests and their calls -/

/-- What the future of a request has, given its call. -/
inductive Tracked (H : Host) (requests : List Request) (self : ℕ) (req : ParsedRequest) :
    Option ℕ → Future → Prop
  | unanswered (hroute : route req.argv = none) : Tracked H requests self req none .pending
  | answered (hroute : route req.argv = none) (info : Bytes) (node : Node) :
    Tracked H requests self req none
      (.value (handleRequest (H.server self info) ⟨0, 0⟩ node req).2)
  | underWay {j : ℕ} {r : Request} (hj : requests[j]? = some r)
    (hroute : route req.argv = some r.call) (hphase : ∀ reply, r.phase ≠ .acked reply) :
    Tracked H requests self req (some j) .pending
  | acked {j : ℕ} {r : Request} {reply : Reply} (hj : requests[j]? = some r)
    (hroute : route req.argv = some r.call) (hphase : r.phase = .acked reply) :
    Tracked H requests self req (some j) (.value (encode reply))

lemma Tracked.kept {H : Host} {requests requests' : List Request} {self : ℕ} {req : ParsedRequest}
    {call : Option ℕ} {f : Future} (h : Tracked H requests self req call f)
    (hkept : ∀ j ∈ call, ∀ r, requests[j]? = some r → ∃ r', requests'[j]? = some r' ∧ Kept r r') :
    Tracked H requests' self req call f := by
  cases h with
  | unanswered hroute => exact .unanswered hroute
  | answered hroute info node => exact .answered hroute info node
  | underWay hj hroute hphase =>
    obtain ⟨r', hj', hcall, hacked⟩ := hkept _ rfl _ hj
    exact .underWay hj' (by rw [hcall, hroute]) fun reply h => hphase reply ((hacked reply).mp h)
  | acked hj hroute hphase =>
    obtain ⟨r', hj', hcall, hacked⟩ := hkept _ rfl _ hj
    exact .acked hj' (by rw [hcall, hroute]) ((hacked _).mpr hphase)

/-- The requests that a connection has handed over have their calls and futures. -/
structure Tracks (H : Host) (requests : List Request) (link : Link) : Prop where
  calls : link.calls.length = link.sock.handed.length
  replies : link.sock.replies.length = link.sock.handed.length
  tracked : ∀ (n : ℕ) req call f, link.sock.handed[n]? = some req → link.calls[n]? = some call →
    link.sock.replies[n]? = some f → Tracked H requests link.self req call f

lemma tracks_accepted (H : Host) (requests : List Request) (self : ℕ) :
    Tracks H requests (.accepted H self) :=
  ⟨rfl, rfl, by simp [Link.accepted]⟩

lemma Tracks.kept {H : Host} {requests requests' : List Request} {link : Link}
    (h : Tracks H requests link)
    (hkept : ∀ j, some j ∈ link.calls → ∀ r, requests[j]? = some r →
      ∃ r', requests'[j]? = some r' ∧ Kept r r') : Tracks H requests' link :=
  ⟨h.calls, h.replies, fun n req call f hreq hcall hf => (h.tracked n req call f hreq hcall hf).kept
    fun j hj => hkept j (by rw [Option.mem_def] at hj; exact hj ▸ List.mem_of_getElem? hcall)⟩

lemma Tracks.future {H : Host} {requests : List Request} {link : Link} (h : Tracks H requests link)
    {n : ℕ} {req : ParsedRequest} {call : Option ℕ} (hreq : link.sock.handed[n]? = some req)
    (hcall : link.calls[n]? = some call) :
    ∃ f, link.sock.replies[n]? = some f ∧ Tracked H requests link.self req call f := by
  have hlt : n < link.sock.replies.length := h.replies ▸ (List.getElem?_eq_some_iff.mp hreq).1
  have hf := List.getElem?_eq_getElem hlt
  exact ⟨_, hf, h.tracked n req call _ hreq hcall hf⟩

lemma Tracks.routed {H : Host} {requests : List Request} {link : Link} (h : Tracks H requests link)
    {n j : ℕ} {req : ParsedRequest} {r : Request} (hreq : link.sock.handed[n]? = some req)
    (hcall : link.calls[n]? = some (some j)) (hj : requests[j]? = some r) :
    route req.argv = some r.call := by
  obtain ⟨f, -, htracked⟩ := h.future hreq hcall
  cases htracked with
  | underWay hj' hroute | acked hj' hroute => rwa [Option.some.inj (hj.symm.trans hj')]

lemma Tracks.same {H : Host} {requests : List Request} {link link' : Link}
    (h : Tracks H requests link) (hself : link'.self = link.self)
    (hcalls : link'.calls = link.calls)
    (hrec : link'.sock.record = link.sock.record) : Tracks H requests link' := by
  obtain ⟨hhanded, hreplies⟩ := Prod.mk.inj hrec
  refine ⟨by rw [hcalls, hhanded, h.calls], by rw [hreplies, hhanded, h.replies], ?_⟩
  rw [hself, hcalls, hhanded, hreplies]
  exact h.tracked

/-- A request is handed over. -/
lemma Tracks.handOver {H : Host} {requests : List Request} {link : Link} {req : ParsedRequest}
    {sock : Socket Processor} (h : Tracks H requests link)
    (hrec : sock.record = (link.sock.handed ++ [req], link.sock.replies ++ [.pending])) :
    Tracks H (requests ++ (route req.argv).toList.map (Request.issued H.toMachine link.self))
      { link with
        sock := sock
        calls := link.calls ++ [(route req.argv).map fun _ => requests.length] } := by
  obtain ⟨hhanded, hreplies⟩ := Prod.mk.inj hrec
  refine ⟨by simp [hhanded, h.calls], by simp [hhanded, hreplies, h.replies], ?_⟩
  intro n req' call f hreq hcall hf
  dsimp only at hreq hcall hf
  rw [hhanded] at hreq
  rw [hreplies] at hf
  rcases Nat.lt_or_ge n link.sock.handed.length with hn | hn
  · rw [List.getElem?_append_left hn] at hreq
    rw [List.getElem?_append_left (h.calls ▸ hn)] at hcall
    rw [List.getElem?_append_left (h.replies ▸ hn)] at hf
    refine (h.tracked n req' call f hreq hcall hf).kept fun j _ r hr => ⟨r, ?_, .refl r⟩
    rw [List.getElem?_append_left (List.getElem?_eq_some_iff.mp hr).1, hr]
  · -- the new one
    obtain ⟨rfl⟩ : n = link.sock.handed.length := by
      have hlt := (List.getElem?_eq_some_iff.mp hreq).1
      simp only [List.length_append, List.length_singleton] at hlt
      omega
    rw [List.getElem?_concat_length, Option.some.injEq] at hreq
    rw [← h.calls, List.getElem?_concat_length, Option.some.injEq] at hcall
    rw [← h.replies, List.getElem?_concat_length, Option.some.injEq] at hf
    subst hreq hcall hf
    rcases hroute : route req.argv with _ | call
    · exact .unanswered hroute
    · refine .underWay (r := .issued H.toMachine link.self call) ?_ hroute
        (by simp [Request.issued])
      simp

lemma Tracks.resolve {H : Host} {requests requests' : List Request} {link : Link} {n : ℕ}
    {resp : Bytes} {sock : Socket Processor} (h : Tracks H requests link)
    (ha : link.sock.act respHandler (.resolve n (.value resp)) = some sock)
    (hother : ∀ (n' j : ℕ), n' ≠ n → link.calls[n']? = some (some j) →
      ∀ r, requests[j]? = some r → ∃ r', requests'[j]? = some r' ∧ Kept r r')
    (hn : ∀ req call, link.sock.handed[n]? = some req → link.calls[n]? = some call →
      Tracked H requests' link.self req call (.value resp)) :
    Tracks H requests' { link with sock := sock } := by
  obtain ⟨hpending, rfl⟩ := act_resolve ha
  refine ⟨h.calls, by simp [h.replies], ?_⟩
  intro n' req call f hreq hcall hf
  dsimp only at hreq hcall hf
  by_cases hnn : n = n'
  · subst hnn
    rw [List.getElem?_set_self (List.getElem?_eq_some_iff.mp hpending).1, Option.some.injEq] at hf
    exact hf ▸ hn req call hreq hcall
  · rw [List.getElem?_set_ne hnn] at hf
    refine (h.tracked n' req call f hreq hcall hf).kept fun j hj => ?_
    rw [Option.mem_def] at hj
    exact hother n' j (Ne.symm hnn) (hj ▸ hcall)

/-! ### All connections -/

/-- Request `n` of connection `i` makes call `j`. -/
def Carries (P : Process) (i n j : ℕ) : Prop :=
  ∃ link, P.links[i]? = some link ∧ link.calls[n]? = some (some j)

/-- What holds in every state: the calls are those of the connections' requests, each of one
request, and the stores, connections and futures fit together. -/
structure Sound (H : Host) (P : Process) : Prop where
  consistent : Consistent H.toMachine P.cluster
  tracks : ∀ link ∈ P.links, Tracks H P.cluster.requests link
  carried : ∀ j, j < P.cluster.requests.length ↔ ∃ i n, Carries P i n j
  unique : ∀ i n i' n' j, Carries P i n j → Carries P i' n' j → i = i' ∧ n = n'

lemma sound_fresh (H : Host) : Sound H (.fresh H) where
  consistent := consistent_fresh H.toMachine
  tracks := by simp [Process.fresh]
  carried := by simp [Process.fresh, Carries, Observed.fresh, Cluster.fresh]
  unique := by simp [Process.fresh, Carries]

section

variable {H : Host} {P : Process}

lemma carries_setLink {P' : Process} {i : ℕ} {link link' : Link} (hi : P.links[i]? = some link)
    (hset : P'.links = P.links.set i link') (hcalls : link'.calls = link.calls) {i' n j : ℕ} :
    Carries P' i' n j ↔ Carries P i' n j := by
  unfold Carries
  rw [hset]
  by_cases hii : i = i'
  · subst hii
    rw [List.getElem?_set_self (List.getElem?_eq_some_iff.mp hi).1]
    simp [hi, hcalls]
  · rw [List.getElem?_set_ne hii]

lemma carries_concat {P' : Process} {i : ℕ} {link link' : Link} {call : Option ℕ}
    (hi : P.links[i]? = some link) (hset : P'.links = P.links.set i link')
    (hcalls : link'.calls = link.calls ++ [call]) {i' n j : ℕ} :
    Carries P' i' n j ↔ Carries P i' n j ∨ i' = i ∧ n = link.calls.length ∧ call = some j := by
  unfold Carries
  rw [hset]
  by_cases hii : i = i'
  · subst hii
    rw [List.getElem?_set_self (List.getElem?_eq_some_iff.mp hi).1]
    simp only [hi, Option.some.injEq, exists_eq_left', hcalls, true_and]
    rcases Nat.lt_trichotomy n link.calls.length with hn | rfl | hn
    · rw [List.getElem?_append_left hn]
      exact ⟨.inl, fun h => h.resolve_right fun h => by omega⟩
    · simp
    · rw [List.getElem?_eq_none (by simp; omega), List.getElem?_eq_none (by omega)]
      simp
      omega
  · rw [List.getElem?_set_ne hii]
    exact ⟨.inl, fun h => h.resolve_right fun h => hii h.1.symm⟩

lemma mem_setLink {i : ℕ} {link link' : Link} (h : link' ∈ (P.setLink i link).links) :
    link' ∈ P.links ∨ link' = link := List.mem_or_eq_of_mem_set h

lemma Sound.connect (h : Sound H P) (self : ℕ) :
    Sound H { P with links := P.links ++ [.accepted H self] } := by
  have hcarries {i n j : ℕ} :
      Carries { P with links := P.links ++ [.accepted H self] } i n j ↔ Carries P i n j := by
    unfold Carries
    dsimp only
    rcases Nat.lt_trichotomy i P.links.length with hi | rfl | hi
    · rw [List.getElem?_append_left hi]
    · simp [Link.accepted]
    · rw [List.getElem?_eq_none (by simp; omega), List.getElem?_eq_none (by omega)]
  refine ⟨h.consistent, fun link hlink => ?_, fun j => ?_, fun i n i' n' j h₁ h₂ => ?_⟩
  · rcases List.mem_append.mp hlink with hlink | hlink
    · exact h.tracks link hlink
    · rw [List.mem_singleton.mp hlink]
      exact tracks_accepted H _ self
  · rw [h.carried j]
    exact exists_congr fun i => exists_congr fun n => hcarries.symm
  · exact h.unique i n i' n' j (hcarries.mp h₁) (hcarries.mp h₂)

/-- An event that changes one connection and keeps the requests of the cluster. -/
lemma Sound.setLink (h : Sound H P) {i : ℕ} {link link' : Link} (hi : P.links[i]? = some link)
    (hcalls : link'.calls = link.calls) (htracks : Tracks H P.cluster.requests link') :
    Sound H (P.setLink i link') where
  consistent := h.consistent
  tracks l hl := by
    rcases mem_setLink hl with hl | rfl
    · exact h.tracks l hl
    · exact htracks
  carried j := by
    rw [show (P.setLink i link').cluster = P.cluster from rfl, h.carried j]
    exact exists_congr fun i' => exists_congr fun n =>
      (carries_setLink hi rfl hcalls).symm
  unique i' n i'' n' j h₁ h₂ :=
    h.unique i' n i'' n' j ((carries_setLink hi rfl hcalls).mp h₁)
      ((carries_setLink hi rfl hcalls).mp h₂)

lemma Sound.moves (h : Sound H P) {cluster : Observed} (hcons : Consistent H.toMachine cluster)
    (hlen : cluster.requests.length = P.cluster.requests.length)
    (hkept : ∀ (j : ℕ) (r : Request), P.cluster.requests[j]? = some r →
      ∃ r', cluster.requests[j]? = some r' ∧ Kept r r') :
    Sound H { P with cluster := cluster } where
  consistent := hcons
  tracks link hlink := (h.tracks link hlink).kept fun j _ r hr => hkept j r hr
  carried j := by
    rw [hlen]
    exact h.carried j
  unique := h.unique

/-- A request is handed over, and its call is a new one. -/
lemma Sound.handOver (h : Sound H P) {i : ℕ} {link : Link} {req : ParsedRequest}
    {sock : Socket Processor} {cluster : Observed} (hi : P.links[i]? = some link)
    (hrec : sock.record = (link.sock.handed ++ [req], link.sock.replies ++ [.pending]))
    (hissue : P.cluster.act H.toMachine (.issue link.self req.argv) = some cluster) :
    Sound H ({ P with cluster := cluster }.setLink i
      { link with
        sock := sock
        calls := link.calls ++ [(route req.argv).map fun _ => P.cluster.requests.length] }) := by
  set call := (route req.argv).map fun _ => P.cluster.requests.length with hcall
  have hrequests := requests_issue hissue
  have hcarries {i' n j : ℕ} : Carries ({ P with cluster := cluster }.setLink i
      { link with sock := sock, calls := link.calls ++ [call] }) i' n j ↔
        Carries P i' n j ∨ i' = i ∧ n = link.calls.length ∧ call = some j :=
    carries_concat hi rfl (by rfl)
  refine ⟨h.consistent.act hissue, fun l hl => ?_, fun j => ?_, fun i₁ n₁ i₂ n₂ j h₁ h₂ => ?_⟩
  · show Tracks H cluster.requests l
    rw [hrequests]
    rcases mem_setLink hl with hl | rfl
    · refine (h.tracks l hl).kept fun j _ r hr => ⟨r, ?_, .refl r⟩
      rw [List.getElem?_append_left (List.getElem?_eq_some_iff.mp hr).1, hr]
    · exact (h.tracks link (List.mem_of_getElem? hi)).handOver hrec
  · have hlen : cluster.requests.length =
        P.cluster.requests.length + (route req.argv).toList.length := by
      rw [hrequests, List.length_append, List.length_map]
    show j < cluster.requests.length ↔ _
    simp only [hcarries, exists_or, ← h.carried j]
    rw [hlen, hcall]
    cases route req.argv with
    | none => simp
    | some call =>
      simp
      omega
  · -- the number of the new call is that of no other
    have hnew (i' n' : ℕ) (hc : Carries P i' n' P.cluster.requests.length) : False :=
      Nat.lt_irrefl _ ((h.carried _).mpr ⟨i', n', hc⟩)
    have hnumber {j : ℕ} (hj : call = some j) : j = P.cluster.requests.length := by
      obtain ⟨_, -, rfl⟩ := Option.map_eq_some_iff.mp hj
      rfl
    rw [hcarries] at h₁ h₂
    rcases h₁ with h₁ | ⟨rfl, rfl, hj₁⟩ <;> rcases h₂ with h₂ | ⟨rfl, rfl, hj₂⟩
    · exact h.unique i₁ n₁ i₂ n₂ j h₁ h₂
    · exact (hnew i₁ n₁ (hnumber hj₂ ▸ h₁)).elim
    · exact (hnew i₂ n₂ (hnumber hj₁ ▸ h₂)).elim
    · exact ⟨rfl, rfl⟩

/-- The result of a call is back. -/
lemma Sound.deliver (h : Sound H P) {i n j : ℕ} {link : Link} {cluster : Observed}
    {sock : Socket Processor} {r : Request} {reply : Reply} (hi : P.links[i]? = some link)
    (hn : link.calls[n]? = some (some j))
    (hact : P.cluster.act H.toMachine (.deliver j) = some cluster)
    (hj : P.cluster.requests[j]? = some r)
    (hset : cluster.requests = P.cluster.requests.set j { r with phase := .acked reply })
    (ha : link.sock.act respHandler (.resolve n (.value (encode reply))) = some sock) :
    Sound H ({ P with cluster := cluster }.setLink i { link with sock := sock }) := by
  have hset' {i' n' j' : ℕ} : Carries ({ P with cluster := cluster }.setLink i
      { link with sock := sock }) i' n' j' ↔ Carries P i' n' j' := carries_setLink hi rfl (by rfl)
  -- no other request has this call
  have hkept (j' : ℕ) (hne : j ≠ j') (r' : Request) (hr' : P.cluster.requests[j']? = some r') :
      ∃ r'', cluster.requests[j']? = some r'' ∧ Kept r' r'' :=
    ⟨r', by rw [hset, List.getElem?_set_ne hne, hr'], .refl r'⟩
  have hlink := h.tracks link (List.mem_of_getElem? hi)
  have hcarries : Carries P i n j := ⟨link, hi, hn⟩
  refine ⟨h.consistent.act hact, fun l hl => ?_, fun j' => ?_, fun i₁ n₁ i₂ n₂ j' h₁ h₂ => ?_⟩
  · obtain ⟨i', hi'⟩ := List.mem_iff_getElem?.mp hl
    unfold Process.setLink at hi'
    dsimp only at hi'
    by_cases hii : i = i'
    · subst hii
      rw [List.getElem?_set_self (List.getElem?_eq_some_iff.mp hi).1, Option.some.injEq] at hi'
      subst hi'
      refine hlink.resolve ha (fun n' j' hnn hn' => hkept j' ?_) fun req call hreq hcall => ?_
      · rintro rfl
        exact hnn (h.unique i n' i n j ⟨link, hi, hn'⟩ hcarries).2
      · obtain rfl : some j = call := Option.some.inj (hn.symm.trans hcall)
        have hj' : cluster.requests[j]? = some { r with phase := .acked reply } := by
          rw [hset, List.getElem?_set_self (List.getElem?_eq_some_iff.mp hj).1]
        have hroute := hlink.routed hreq hn hj
        exact .acked hj' hroute rfl
    · rw [List.getElem?_set_ne hii] at hi'
      refine (h.tracks l (List.mem_of_getElem? hi')).kept fun j' hj' => hkept j' ?_
      rintro rfl
      obtain ⟨n', hn'⟩ := List.mem_iff_getElem?.mp hj'
      exact hii (h.unique i n i' n' j hcarries ⟨l, hi', hn'⟩).1
  · show j' < cluster.requests.length ↔ _
    rw [hset, List.length_set, h.carried j']
    exact exists_congr fun i' => exists_congr fun n' => hset'.symm
  · exact h.unique i₁ n₁ i₂ n₂ j' (hset'.mp h₁) (hset'.mp h₂)

/-- **Every event.** -/
lemma Sound.act (h : Sound H P) {e : Event} {P' : Process} (he : P.act H e = some P') :
    Sound H P' := by
  cases does_of_act he with
  | connect self => exact h.connect self
  | @greet i link link' ok hi hgreet =>
    have hsame : link'.self = link.self ∧ link'.calls = link.calls ∧ link'.sock = link.sock := by
      unfold Link.greet at hgreet
      split at hgreet <;> cases hgreet <;> exact ⟨rfl, rfl, rfl⟩
    obtain ⟨hself, hcalls, hsock⟩ := hsame
    refine h.setLink hi hcalls ?_
    exact (h.tracks link (List.mem_of_getElem? hi)).same hself hcalls (by rw [hsock])
  | @loops i link a sock hi ha hloops hnone =>
    refine h.setLink hi rfl ((h.tracks link (List.mem_of_getElem? hi)).same rfl rfl ?_)
    cases records_act ha with
    | none hrec => exact hrec
    | handOver hr => simp [Link.handing, hr] at hnone
    | resolve => cases hloops
  | handOver hi ha hr hissue =>
    refine h.handOver hi ?_ hissue
    simp only [Socket.act, hr, Option.some.injEq] at ha
    rw [← ha, handOver_record]
  | run hrun =>
    obtain ⟨hlen, hkept⟩ := requests_run hrun
    exact h.moves (h.consistent.act hrun) hlen hkept
  | finish hfinish =>
    obtain ⟨hlen, hkept⟩ := requests_finish hfinish
    exact h.moves (h.consistent.act hfinish) hlen hkept
  | deliver hi hn hact hj hset ha => exact h.deliver hi hn hact hj hset ha
  | @answer i n link req sock info node hi hn hreq ha =>
    have hlink := h.tracks link (List.mem_of_getElem? hi)
    refine h.setLink hi rfl (hlink.resolve ha (fun _ _ _ _ r hr => ⟨r, hr, .refl r⟩) ?_)
    intro req' call hreq' hcall
    obtain rfl : req = req' := Option.some.inj (hreq.symm.trans hreq')
    obtain rfl : none = call := Option.some.inj (hn.symm.trans hcall)
    obtain ⟨f, -, htracked⟩ := hlink.future hreq hn
    cases htracked with
    | unanswered hroute | answered hroute => exact .answered hroute info node

lemma sound_runs {events : List Event} (h : Steps.runs (Process.act H) (.fresh H) events = some P) :
    Sound H P :=
  Steps.runs_rule (fun _ _ _ hI he => Sound.act hI he) (sound_fresh H) h

/-! ### One connection -/

structure Greeted (H : Host) (link : Link) : Prop where
  waiting : link.stage = .greeting → H.sendShardDetails = true
  serving : link.stage = .serving →
    link.greeting = if H.sendShardDetails then H.shardDetails link.self else []

lemma greeted_accepted (H : Host) (self : ℕ) : Greeted H (.accepted H self) := by
  by_cases h : H.sendShardDetails = true <;> constructor <;> simp [Link.accepted, h]

lemma Greeted.greet {H : Host} {link link' : Link} {ok : Bool} (h : Greeted H link)
    (hgreet : link.greet H ok = some link') : Greeted H link' := by
  unfold Link.greet at hgreet
  split at hgreet <;> cases hgreet
  · next hstage => exact ⟨by simp, fun _ => by rw [if_pos (h.waiting hstage)]⟩
  · exact ⟨by simp, by simp⟩

structure Goes (H : Host) (i : ℕ) (e : Event) (link link' : Link) : Prop where
  calls : link.calls <+: link'.calls
  self : link'.self = link.self
  greeted : Greeted H link → Greeted H link'
  sock : link'.sock = link.sock ∧ e.input i = [] ∨
    ∃ a, link.sock.act respHandler a = some link'.sock ∧ e.input i = a.input

lemma Goes.refl (H : Host) {i : ℕ} {e : Event} (link : Link) (hinput : e.input i = []) :
    Goes H i e link link := ⟨List.prefix_rfl, rfl, id, .inl ⟨rfl, hinput⟩⟩

lemma goes_setLink {e : Event} {i i' : ℕ} {P' : Process} {link link' l' : Link}
    (hi : P.links[i]? = some link) (hset : P'.links = P.links.set i link')
    (hgoes : Goes H i e link link') (hother : i ≠ i' → e.input i' = [])
    (hl' : P'.links[i']? = some l') : ∃ l, P.links[i']? = some l ∧ Goes H i' e l l' := by
  rw [hset] at hl'
  by_cases hii : i = i'
  · subst hii
    rw [List.getElem?_set_self (List.getElem?_eq_some_iff.mp hi).1, Option.some.injEq] at hl'
    exact ⟨link, hi, hl' ▸ hgoes⟩
  · rw [List.getElem?_set_ne hii] at hl'
    exact ⟨l', hl', .refl H l' (hother hii)⟩

/-- **An event, as one connection sees it**: it is a new one, or takes a step or none. -/
lemma goes_of_act {e : Event} {P' : Process} (he : P.act H e = some P') {i : ℕ} {l' : Link}
    (hl' : P'.links[i]? = some l') :
    (P.links.length = i ∧ (∃ self, l' = .accepted H self) ∧ e.input i = []) ∨
      ∃ l, P.links[i]? = some l ∧ Goes H i e l l' := by
  cases does_of_act he with
  | connect self =>
    dsimp only at hl'
    rw [List.getElem?_append] at hl'
    split at hl'
    · exact .inr ⟨l', hl', .refl H l' rfl⟩
    · next hge =>
      rw [List.getElem?_singleton] at hl'
      split at hl'
      · next h0 =>
        cases hl'
        exact .inl ⟨by omega, ⟨self, rfl⟩, rfl⟩
      · cases hl'
  | @greet i₀ link link' ok hi hgreet =>
    refine .inr (goes_setLink hi rfl ?_ (fun _ => rfl) hl')
    have hgreeted (h : Greeted H link) := h.greet hgreet
    unfold Link.greet at hgreet
    split at hgreet <;> cases hgreet <;>
      exact ⟨List.prefix_rfl, rfl, hgreeted, .inl ⟨rfl, rfl⟩⟩
  | @loops i₀ link a sock hi ha hloops hnone =>
    refine .inr (goes_setLink hi rfl ?_ (fun hne => by simp [Event.input, hne]) hl')
    exact ⟨List.prefix_rfl, rfl, fun h => ⟨h.1, h.2⟩, .inr ⟨a, ha, by simp [Event.input]⟩⟩
  | @handOver i₀ link req sock cluster hi ha hr hissue =>
    refine .inr (goes_setLink hi rfl ?_ (fun hne => by simp [Event.input, hne]) hl')
    exact ⟨List.prefix_append _ _, rfl, fun h => ⟨h.1, h.2⟩,
      .inr ⟨.readOn, ha, by simp [Event.input]⟩⟩
  | run hrun => exact .inr ⟨l', hl', .refl H l' rfl⟩
  | finish hfinish => exact .inr ⟨l', hl', .refl H l' rfl⟩
  | deliver hi hn hact hj hset ha =>
    refine .inr (goes_setLink hi rfl ?_ (fun _ => rfl) hl')
    exact ⟨List.prefix_rfl, rfl, fun h => ⟨h.1, h.2⟩, .inr ⟨_, ha, rfl⟩⟩
  | answer hi hn hreq ha =>
    refine .inr (goes_setLink hi rfl ?_ (fun _ => rfl) hl')
    exact ⟨List.prefix_rfl, rfl, fun h => ⟨h.1, h.2⟩, .inr ⟨_, ha, rfl⟩⟩

/-- The connections have read what was sent to them. -/
structure Heard (H : Host) (events : List Event) (P : Process) : Prop where
  greeted : ∀ link ∈ P.links, Greeted H link
  reachable : ∀ link ∈ P.links, Reachable link.sock
  reads : ∀ (i : ℕ) link, P.links[i]? = some link →
    Reads respHandler {} (sentTo i events) link.sock
  unheard : ∀ i, P.links.length ≤ i → sentTo i events = []

lemma sentTo_concat (i : ℕ) (events : List Event) (e : Event) :
    sentTo i (events ++ [e]) = sentTo i events ++ e.input i := by simp [sentTo]

lemma length_le_of_act {e : Event} {P' : Process} (he : P.act H e = some P') :
    P.links.length ≤ P'.links.length := by
  cases does_of_act he <;> simp [Process.setLink]

lemma input_unconnected {e : Event} {P' : Process} (he : P.act H e = some P') {i : ℕ}
    (hi : P.links.length ≤ i) : e.input i = [] := by
  cases does_of_act he with
  | @loops i₀ _ _ _ hi₀ | @handOver i₀ _ _ _ _ hi₀ =>
    have hlt := (List.getElem?_eq_some_iff.mp hi₀).1
    simp [Event.input, show i₀ ≠ i by omega]
  | _ => rfl

lemma Heard.act {events : List Event} (h : Heard H events P) {e : Event} {P' : Process}
    (he : P.act H e = some P') : Heard H (events ++ [e]) P' := by
  refine ⟨fun link hlink => ?_, fun link hlink => ?_, fun i link hi => ?_, fun i hi => ?_⟩
  · obtain ⟨i, hi⟩ := List.mem_iff_getElem?.mp hlink
    rcases goes_of_act he hi with ⟨-, ⟨self, rfl⟩, -⟩ | ⟨l, hl, hgoes⟩
    · exact greeted_accepted H self
    · exact hgoes.greeted (h.greeted l (List.mem_of_getElem? hl))
  · obtain ⟨i, hi⟩ := List.mem_iff_getElem?.mp hlink
    rcases goes_of_act he hi with ⟨-, ⟨self, rfl⟩, -⟩ | ⟨l, hl, hgoes⟩
    · exact reachable_init _
    · have hreach := h.reachable l (List.mem_of_getElem? hl)
      rcases hgoes.sock with ⟨hsock, -⟩ | ⟨a, ha, -⟩
      · rwa [hsock]
      · exact hreach.act ha
  · rw [sentTo_concat]
    rcases goes_of_act he hi with ⟨hlen, ⟨self, rfl⟩, hinput⟩ | ⟨l, hl, hgoes⟩
    · rw [hinput, h.unheard i (Nat.le_of_eq hlen)]
      exact reads_init _ _
    · have hreads := h.reads i l hl
      rcases hgoes.sock with ⟨hsock, hinput⟩ | ⟨a, ha, hinput⟩
      · rwa [hinput, hsock, List.append_nil]
      · rw [hinput]
        exact hreads.act ha
  · have hle := length_le_of_act he
    rw [sentTo_concat, h.unheard i (by omega), input_unconnected he (by omega)]
    rfl

lemma heard_fresh (H : Host) : Heard H [] (.fresh H) where
  greeted := by simp [Process.fresh]
  reachable := by simp [Process.fresh]
  reads := by simp [Process.fresh]
  unheard _ _ := rfl

lemma heard_runs {events : List Event} (h : Steps.runs (Process.act H) (.fresh H) events = some P) :
    Heard H events P :=
  Steps.runs_history (I := Heard H) (fun _ _ _ _ hI he => hI.act he) (heard_fresh H) h

/-- A call stays with its request. -/
lemma Carries.act {e : Event} {P' : Process} (he : P.act H e = some P') {i n j : ℕ}
    (h : Carries P i n j) : Carries P' i n j := by
  obtain ⟨link, hi, hn⟩ := h
  have hlt := (List.getElem?_eq_some_iff.mp hi).1
  have hi' := List.getElem?_eq_getElem (Nat.lt_of_lt_of_le hlt (length_le_of_act he))
  refine ⟨_, hi', ?_⟩
  rcases goes_of_act he hi' with ⟨hlen, -⟩ | ⟨l, hl, hgoes⟩
  · omega
  · obtain rfl : link = l := Option.some.inj (hi.symm.trans hl)
    obtain ⟨more, hmore⟩ := hgoes.calls
    rw [← hmore, List.getElem?_append_left (List.getElem?_eq_some_iff.mp hn).1, hn]

lemma Carries.runs {events : List Event} {P' : Process}
    (h : Steps.runs (Process.act H) P events = some P') {i n j : ℕ} (hc : Carries P i n j) :
    Carries P' i n j :=
  Steps.runs_rule (I := fun Q => Carries Q i n j) (fun _ _ _ hI he => hI.act he) hc h

lemma log_runs {events : List Event} {P' : Process}
    (h : Steps.runs (Process.act H) P events = some P') : P.cluster.log <+: P'.cluster.log := by
  refine Steps.runs_rule (I := fun Q => P.cluster.log <+: Q.cluster.log) (fun Q e Q' hI he => ?_)
    List.prefix_rfl h
  refine hI.trans ?_
  cases does_of_act he with
  | handOver _ _ _ hact | run hact | finish hact | deliver _ _ hact => exact log_extends hact
  | _ => exact List.prefix_rfl

end

end ShunyaKV.Net
