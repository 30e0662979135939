import PolyQuery.Proofs.Protocol

/-! Dealings with the client of a transaction: what is said on it, and when it is given back to the
pool. Whatever a callback does, its dealings are a list of turns, and the client is completed exactly
if one of them ended the transaction: `Guest.deals` and, for callbacks that keep the client,
`Callback.deals`. -/
namespace PolyQuery

/-- What a callback may do with the client of its transaction when it may also give it back: it
calls, sees what comes of the call, releases the client, and returns a value or throws at last. -/
inductive Guest (α : Type) where
  | finish (outcome : Except Error α)
  | call (c : ClientCall) (next : Except Error ResultSet → Guest α)
  | release (next : Guest α)

def Guest.run {α : Type} : Guest α → Run α
  | finish outcome => Run.ofExcept outcome
  | call c next => do
    let r ← Run.outcome (Run.callClient c)
    (next r).run
  | release next => do
    Pool.releaseClient
    next.run

/-- A turn in the dealings with a client: an exchange, or its return to the pool. -/
inductive Turn where
  | said (x : Exchange)
  | released

namespace Turn

def event : Turn → Event
  | said x => x.event
  | released => .clientReleased

def exchange? : Turn → Option Exchange
  | said x => some x
  | released => none

end Turn

def exchanges (turns : List Turn) : List Exchange := turns.filterMap Turn.exchange?

theorem exchanges_append (turns more : List Turn) :
    exchanges (turns ++ more) = exchanges turns ++ exchanges more :=
  List.filterMap_append

theorem exchanges_cons (x : Exchange) (turns : List Turn) :
    exchanges (.said x :: turns) = x :: exchanges turns := rfl

theorem exchanges_said (xs : List Exchange) : exchanges (xs.map .said) = xs := by
  induction xs with
  | nil => rfl
  | cons x xs ih => rw [List.map_cons, exchanges_cons, ih]

namespace Session
variable {s t u : Session} {turns : List Turn}

/-- Dealings with a client that was open at first. It is completed once an exchange ended the
transaction. -/
structure Deals (s : Session) (turns : List Turn) (t : Session) : Prop where
  journal : t.journal = s.journal ++ turns.map Turn.event
  answered : s.Answered (exchanges turns) t
  client : ∃ d, t.client = some ⟨d, (exchanges turns).any Exchange.ends⟩

theorem Deals.refl {d : Dialect} (h : s.client = some ⟨d, false⟩) : s.Deals [] s :=
  ⟨(List.append_nil _).symm, ⟨fun _ _ hx => (nomatch hx), rfl⟩, ⟨d, h⟩⟩

/-- What does not concern the client, such as a line on the log, leaves the dealings as they are. -/
theorem Deals.congr (h : s.Deals turns t) (hjournal : u.journal = t.journal) (hpool : u.pool = t.pool)
    (hclient : u.client = t.client) : s.Deals turns u :=
  ⟨hjournal.trans h.journal, ⟨h.answered.answered, hpool ▸ h.answered.left⟩, hclient ▸ h.client⟩

/-- Exchanges that go on from a client that is open. -/
theorem Deals.said (h : s.Deals turns t) (hopen : (exchanges turns).any Exchange.ends = false)
    {xs : List Exchange} {d : Dialect} (hx : t.Exchanged xs u)
    (hclient : u.client = some ⟨d, xs.any Exchange.ends⟩) : s.Deals (turns ++ xs.map .said) u := by
  have hexchanges : exchanges (turns ++ xs.map .said) = exchanges turns ++ xs := by
    rw [exchanges_append, exchanges_said]
  refine ⟨?_, ?_, d, ?_⟩
  · rw [hx.journal, h.journal, List.map_append, List.append_assoc, List.map_map]
    rfl
  · rw [hexchanges]
    exact h.answered.append hx.isAnswered
  · rw [hclient, hexchanges, List.any_append, hopen, Bool.false_or]

/-- The client may be given back at any time, and is the same afterwards. -/
theorem Deals.released (h : s.Deals turns t) :
    s.Deals (turns ++ [.released]) (Transaction.released t) := by
  have hexchanges : exchanges (turns ++ [.released]) = exchanges turns := by
    rw [exchanges_append]
    exact List.append_nil _
  refine ⟨?_, ?_, ?_⟩
  · rw [List.map_append, ← List.append_assoc, ← h.journal]
    rfl
  · rw [hexchanges]
    exact ⟨h.answered.answered, h.answered.left⟩
  · rw [hexchanges]
    exact h.client

end Session

/-- A call is one more exchange, or nothing at all once the transaction has ended. -/
theorem Run.callClient_deals {s t : Session} {turns : List Turn} (h : s.Deals turns t)
    (c : ClientCall) :
    ((exchanges turns).any Exchange.ends = true ∧ callClient c t = (c.refusal, t)) ∨
      ((exchanges turns).any Exchange.ends = false ∧ ∃ (reply : Reply) (u : Session),
        callClient c t = (reply.result, u) ∧ s.Deals (turns ++ [.said (c.exchange reply)]) u) := by
  obtain ⟨d, hclient⟩ := h.client
  cases hends : (exchanges turns).any Exchange.ends with
  | true =>
    rw [hends] at hclient
    exact .inl ⟨rfl, callClient_completed hclient c⟩
  | false =>
    rw [hends] at hclient
    obtain ⟨reply, u, hcall, hexchanged, hclient'⟩ := callClient_open hclient c
    refine .inr ⟨rfl, reply, u, hcall, h.said hends hexchanged (d := d) ?_⟩
    rw [hclient', List.any_cons, List.any_nil, Bool.or_false]

/-- Whatever a callback does, it goes on with the dealings. -/
theorem Guest.deals {α : Type} (guest : Guest α) {s t : Session} {turns : List Turn}
    (h : s.Deals turns t) : ∃ own r u, guest.run t = (r, u) ∧ s.Deals (turns ++ own) u := by
  induction guest generalizing t turns with
  | finish outcome => exact ⟨[], outcome, t, rfl, (List.append_nil turns).symm ▸ h⟩
  | call c next ih =>
    obtain ⟨_, hcall⟩ | ⟨_, reply, t', hcall, ht'⟩ := Run.callClient_deals h c
    · obtain ⟨own, r, u, hnext, hu⟩ := ih c.refusal h
      exact ⟨own, r, u, by rw [run, Run.bind_ok (Run.outcome_apply hcall), hnext], hu⟩
    · obtain ⟨own, r, u, hnext, hu⟩ := ih reply.result ht'
      refine ⟨.said (c.exchange reply) :: own, r, u, ?_, ?_⟩
      · rw [run, Run.bind_ok (Run.outcome_apply hcall), hnext]
      · rwa [List.append_assoc, List.singleton_append] at hu
  | release next ih =>
    have hrelease : Pool.releaseClient t = (.ok (), Transaction.released t) := rfl
    obtain ⟨own, r, u, hnext, hu⟩ := ih h.released
    refine ⟨.released :: own, r, u, ?_, ?_⟩
    · rw [run, Run.bind_ok hrelease, hnext]
    · rwa [List.append_assoc, List.singleton_append] at hu

/-- A callback that keeps the client only talks. -/
theorem Callback.deals {α : Type} (callback : Callback α) {s t : Session} {turns : List Turn}
    (h : s.Deals turns t) (hopen : (exchanges turns).any Exchange.ends = false) :
    ∃ (own : List Exchange) (r : Except Error α) (u : Session),
      callback.run t = (r, u) ∧ s.Deals (turns ++ own.map .said) u := by
  obtain ⟨d, hclient⟩ := h.client
  rw [hopen] at hclient
  obtain ⟨own, r, u, hrun, htalks⟩ := callback.talks (Session.Talks.refl hclient)
  rw [List.nil_append] at htalks
  obtain ⟨d', hclient'⟩ := htalks.client
  exact ⟨own, r, u, hrun, h.said hopen htalks.exchanged hclient'⟩

end PolyQuery
