import PolyQuery.Proofs.Action
import PolyQuery.Transaction

/-! What is said on the client of a transaction. A dialogue is a list of exchanges, each a statement
and the server's reply to it. Nothing follows an exchange that ends the transaction, whatever a
callback asks of the client: `Callback.talks`. -/
namespace PolyQuery

/-- A statement that was sent on a client, and the server's reply. -/
structure Exchange where
  statement : String
  parameters : Option (List Value)
  reply : Reply

namespace Exchange

/-- The statement as the journal lists it. -/
def event (x : Exchange) : Event := .clientQuery x.statement x.parameters

/-- Whether the statement succeeded. -/
def succeeded (x : Exchange) : Bool := x.reply.result.isOk

/-- Whether the text of the statement is that of a commit or a rollback. -/
def saysEnd (x : Exchange) : Bool := x.statement == "COMMIT" || x.statement == "ROLLBACK"

/-- Whether the transaction ended: a commit or a rollback succeeded. These are sent without a list
of parameters, other than a text that a callback sends as a query. -/
def ends (x : Exchange) : Bool := x.parameters.isNone && x.saysEnd && x.succeeded

/-- Whether a commit or a rollback succeeded, by a call or by its text sent as a query. -/
def closes (x : Exchange) : Bool := x.saysEnd && x.succeeded

theorem closes_of_ends {x : Exchange} (h : x.ends = true) : x.closes = true := by
  rw [ends, Bool.and_assoc, Bool.and_eq_true] at h
  exact h.2

end Exchange

/-- The exchange of a call on an open client. -/
def ClientCall.exchange (reply : Reply) : ClientCall → Exchange
  | .query sql parameters => ⟨sql, some parameters, reply⟩
  | .commit => ⟨"COMMIT", none, reply⟩
  | .rollback => ⟨"ROLLBACK", none, reply⟩

/-- What comes of a call on a completed client. -/
def ClientCall.refusal : ClientCall → Except Error ResultSet
  | .rollback => .ok ⟨[], .int 0⟩
  | _ => .error .transactionClosed

/-- A completed client refuses queries and commits, and ignores rollbacks. -/
def ClientCall.silence : ClientCall → Client.Start
  | .rollback => .ignore
  | _ => .refuse .transactionClosed

theorem Client.start_completed (d : Dialect) (c : ClientCall) :
    Client.start ⟨d, true⟩ c = c.silence := by
  cases c with
  | query sql parameters => rfl
  | commit => rfl
  | rollback => rfl

theorem Client.start_open (d : Dialect) (c : ClientCall) :
    ∃ sql parameters, Client.start ⟨d, false⟩ c = .send sql parameters ∧
      ∀ reply, c.exchange reply = ⟨sql, parameters, reply⟩ := by
  cases c with
  | query sql parameters => exact ⟨sql, some parameters, rfl, fun _ => rfl⟩
  | commit => exact ⟨"COMMIT", none, rfl, fun _ => rfl⟩
  | rollback => exact ⟨"ROLLBACK", none, rfl, fun _ => rfl⟩

/-- A reply completes the client if its call ended the transaction. -/
theorem Client.settle_eq (now : Client) (c : ClientCall) (reply : Reply) :
    now.settle c reply.result.isOk = ⟨now.dialect, now.isCompleted || (c.exchange reply).ends⟩ := by
  obtain ⟨d, completed⟩ := now
  have hended : (if reply.result.isOk then Client.mk d true else ⟨d, completed⟩) =
      ⟨d, completed || reply.result.isOk⟩ := by
    cases reply.result.isOk <;> simp
  cases c with
  | query sql parameters => exact congrArg (Client.mk d) (Bool.or_false completed).symm
  | commit => exact hended
  | rollback => exact hended

namespace Session
variable {s t u : Session} {xs ys : List Exchange}

/-- These exchanges took the server's next replies, in order. -/
structure Answered (s : Session) (xs : List Exchange) (t : Session) : Prop where
  answered : ∀ (i : Nat) (x : Exchange), xs[i]? = some x →
    x.reply = (s.pool.replies[i]?).getD .nothing
  left : t.pool.replies = s.pool.replies.drop xs.length

theorem Answered.append (h : s.Answered xs t) (h' : t.Answered ys u) : s.Answered (xs ++ ys) u := by
  constructor
  · intro i x hx
    by_cases hi : i < xs.length
    · rw [List.getElem?_append_left hi] at hx
      exact h.answered i x hx
    · -- the replies to the later statements are those that the earlier ones left
      rw [List.getElem?_append_right (by omega)] at hx
      rw [h'.answered _ x hx, h.left, List.getElem?_drop]
      congr 2
      omega
  · rw [h'.left, h.left, List.drop_drop, List.length_append]

/-- From one session to another these statements were sent on the client, each answered by the next
reply of the server, and nothing else was. -/
structure Exchanged (s : Session) (xs : List Exchange) (t : Session) : Prop where
  journal : t.journal = s.journal ++ xs.map Exchange.event
  answered : ∀ (i : Nat) (x : Exchange), xs[i]? = some x →
    x.reply = (s.pool.replies[i]?).getD .nothing
  left : t.pool.replies = s.pool.replies.drop xs.length

theorem Exchanged.isAnswered (h : s.Exchanged xs t) : s.Answered xs t := ⟨h.answered, h.left⟩

theorem Exchanged.refl (s : Session) : s.Exchanged [] s :=
  ⟨(List.append_nil _).symm, fun _ _ h => (nomatch h), rfl⟩

theorem Exchanged.append (h : s.Exchanged xs t) (h' : t.Exchanged ys u) :
    s.Exchanged (xs ++ ys) u := by
  have hanswered := h.isAnswered.append h'.isAnswered
  refine ⟨?_, hanswered.answered, hanswered.left⟩
  rw [h'.journal, h.journal, List.map_append, List.append_assoc]

/-- A dialogue on a client that was open at first. Each exchange but the last one leaves the
transaction running, and the client is completed once it ended. -/
structure Talks (s : Session) (xs : List Exchange) (t : Session) : Prop where
  exchanged : s.Exchanged xs t
  client : ∃ d, t.client = some ⟨d, xs.any Exchange.ends⟩
  silent : xs.Pairwise fun x _ => x.ends = false

theorem Talks.refl {d : Dialect} (h : s.client = some ⟨d, false⟩) : s.Talks [] s :=
  ⟨.refl s, ⟨d, h⟩, .nil⟩

/-- What is not said on the client, such as a line on the log, leaves the dialogue as it is. -/
theorem Talks.congr (h : s.Talks xs t) (hjournal : u.journal = t.journal) (hpool : u.pool = t.pool)
    (hclient : u.client = t.client) : s.Talks xs u :=
  ⟨⟨hjournal.trans h.exchanged.journal, h.exchanged.answered, hpool ▸ h.exchanged.left⟩,
    hclient ▸ h.client, h.silent⟩

/-- An open client may have one more exchange. -/
theorem Talks.snoc (h : s.Talks xs t) (hopen : xs.any Exchange.ends = false) {x : Exchange}
    {d : Dialect} (hx : t.Exchanged [x] u) (hclient : u.client = some ⟨d, x.ends⟩) :
    s.Talks (xs ++ [x]) u := by
  refine ⟨h.exchanged.append hx, ⟨d, ?_⟩, ?_⟩
  · rw [hclient, List.any_append, hopen]
    simp
  · rw [List.pairwise_append]
    refine ⟨h.silent, List.pairwise_singleton _ _, ?_⟩
    intro y hy _ _
    simpa using List.any_eq_false.1 hopen y hy

end Session

namespace Run
variable {s : Session}

theorem poolReply_apply (s : Session) : poolReply s = (.ok (s.pool.replies.head?.getD .nothing),
    { s with pool := { s.pool with replies := s.pool.replies.drop 1 } }) := by
  obtain ⟨_, _, _, _, _, _, _, ⟨_, _, _, _, replies⟩, _, _, _, _, _, _, _⟩ := s
  cases replies <;> rfl

theorem sendOnClient_apply (sql : String) (parameters : Option (List Value)) (s : Session) :
    ∃ (reply : Reply) (t : Session), sendOnClient sql parameters s = (reply.result, t) ∧
      s.Exchanged [⟨sql, parameters, reply⟩] t ∧ t.client = s.client := by
  let noted : Session := { s with journal := s.journal ++ [.clientQuery sql parameters] }
  refine ⟨s.pool.replies.head?.getD .nothing, (poolReply noted).2, ?_, ⟨?_, ?_, ?_⟩, ?_⟩
  · have hnote : note (.clientQuery sql parameters) s = (.ok (), noted) := rfl
    rw [sendOnClient, bind_ok hnote, bind_ok (poolReply_apply noted), poolReply_apply]
    rfl
  · rw [poolReply_apply]
    rfl
  · intro i x hx
    obtain ⟨rfl, rfl⟩ : i = 0 ∧ x = _ := by
      rcases i with _ | i
      · exact ⟨rfl, (Option.some.inj hx).symm⟩
      · cases hx
    rw [List.head?_eq_getElem?]
  · rw [poolReply_apply]
    rfl
  · rw [poolReply_apply]

/-- A completed client sends nothing: it refuses queries and commits, and ignores rollbacks. -/
theorem callClient_completed {d : Dialect} (h : s.client = some ⟨d, true⟩) (c : ClientCall) :
    callClient c s = (c.refusal, s) := by
  have hclient : client s = (.ok ⟨d, true⟩, s) := by
    show (Except.ok (s.client.getD _), s) = _
    rw [h]
    rfl
  rw [callClient, bind_ok hclient]
  cases c with
  | query sql parameters => rfl
  | commit => rfl
  | rollback => rfl

theorem outcome_apply {α : Type} {x : Run α} {r : Except Error α} {t : Session}
    (h : x s = (r, t)) : outcome x s = (.ok r, t) := by
  show ((Except.ok (x s).1, (x s).2) : Except Error (Except Error α) × Session) = _
  rw [h]

/-- A call on an open client is one exchange, which ends the transaction where a commit or a
rollback succeeds. -/
theorem callClient_open {d : Dialect} (h : s.client = some ⟨d, false⟩) (c : ClientCall) :
    ∃ (reply : Reply) (t : Session), callClient c s = (reply.result, t) ∧
      s.Exchanged [c.exchange reply] t ∧ t.client = some ⟨d, (c.exchange reply).ends⟩ := by
  have hclient : client s = (.ok ⟨d, false⟩, s) := by
    show (Except.ok (s.client.getD _), s) = _
    rw [h]
    rfl
  -- the statement that is sent is that of the exchange, whatever the reply will be
  obtain ⟨sql, parameters, hstart, hexchange⟩ := Client.start_open d c
  obtain ⟨reply, t, hsend, hexchanged, hkept⟩ := sendOnClient_apply sql parameters s
  let settled : Session :=
    { t with client := t.client.map fun now => now.settle c reply.result.isOk }
  have hupdate : update (fun s => { s with
      client := s.client.map fun now => now.settle c reply.result.isOk }) t =
        (.ok (), settled) := rfl
  refine ⟨reply, settled, ?_, ?_, ?_⟩
  · rw [callClient, bind_ok hclient, hstart]
    dsimp only
    rw [bind_ok (outcome_apply hsend), bind_ok hupdate]
    rfl
  · rw [hexchange]
    exact ⟨hexchanged.journal, hexchanged.answered, hexchanged.left⟩
  · show t.client.map _ = _
    rw [hkept, h, Option.map_some, Client.settle_eq]
    rfl

end Run

/-- What a callback may do with the client of its transaction: it calls, sees what comes of the
call, and goes on accordingly, until it returns a value or throws. -/
inductive Callback (α : Type) where
  | finish (outcome : Except Error α)
  | call (c : ClientCall) (next : Except Error ResultSet → Callback α)

namespace Callback
variable {α : Type} {s t : Session} {xs : List Exchange}

/-- A callback as an action: it waits for each call. -/
def run : Callback α → Run α
  | finish outcome => Run.ofExcept outcome
  | call c next => do
    let r ← Run.outcome (Run.callClient c)
    (next r).run

end Callback

/-- A call goes on with the dialogue, or says nothing where it has ended. -/
theorem Run.callClient_talks {s t : Session} {xs : List Exchange} (h : s.Talks xs t)
    (c : ClientCall) :
    (xs.any Exchange.ends = true ∧ callClient c t = (c.refusal, t)) ∨
      (xs.any Exchange.ends = false ∧ ∃ (reply : Reply) (u : Session),
        callClient c t = (reply.result, u) ∧ s.Talks (xs ++ [c.exchange reply]) u) := by
  obtain ⟨d, hclient⟩ := h.client
  cases hends : xs.any Exchange.ends with
  | true =>
    rw [hends] at hclient
    exact .inl ⟨rfl, callClient_completed hclient c⟩
  | false =>
    rw [hends] at hclient
    obtain ⟨reply, u, hcall, hexchanged, hclient'⟩ := callClient_open hclient c
    exact .inr ⟨rfl, reply, u, hcall, h.snoc hends hexchanged hclient'⟩

/-- Whatever a callback does, nothing is said after the transaction has ended. -/
theorem Callback.talks {α : Type} (callback : Callback α) {s t : Session} {xs : List Exchange}
    (h : s.Talks xs t) : ∃ ys r u, callback.run t = (r, u) ∧ s.Talks (xs ++ ys) u := by
  induction callback generalizing t xs with
  | finish outcome => exact ⟨[], outcome, t, rfl, (List.append_nil xs).symm ▸ h⟩
  | call c next ih =>
    obtain ⟨_, hcall⟩ | ⟨_, reply, t', hcall, ht'⟩ := Run.callClient_talks h c
    · obtain ⟨ys, r, u, hnext, hu⟩ := ih c.refusal h
      exact ⟨ys, r, u, by rw [run, Run.bind_ok (Run.outcome_apply hcall), hnext], hu⟩
    · obtain ⟨ys, r, u, hnext, hu⟩ := ih reply.result ht'
      refine ⟨c.exchange reply :: ys, r, u, ?_, ?_⟩
      · rw [run, Run.bind_ok (Run.outcome_apply hcall), hnext]
      · rwa [List.append_assoc, List.singleton_append] at hu

end PolyQuery
