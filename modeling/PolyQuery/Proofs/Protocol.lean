import PolyQuery.Proofs.Dialogue

/-! The protocol of a transaction. An attempt to begin, to run the callback and to commit goes one
of five ways (`Course`); what follows on the client, and what the caller gets, can be told from
the way: `transaction_protocol`. -/
namespace PolyQuery

namespace Transaction
variable {α : Type} {options : TransactionOptions} {s t u v : Session} {xs : List Exchange}

/-- What is tried before the client is released: to begin, to run the callback and to commit. -/
def attempt (options : TransactionOptions) (callback : Run α) : Run α := do
  let _ ← Run.sendOnClient (beginStatement options.level) none
  let a ← callback
  commit
  return a

/-- A client that was obtained is open. -/
theorem client_of_acquire {source : ClientSource} (h : acquire source s = (.ok (), t)) :
    ∃ d, t.client = some ⟨d, false⟩ := by
  obtain ⟨s', t', hs', h⟩ := Run.bind_eq_ok h
  cases source with
  | shared =>
    obtain ⟨_, _, _, h⟩ := Run.bind_eq_ok h
    obtain ⟨d, _, _, h⟩ := Run.bind_eq_ok h
    cases h
    exact ⟨d, rfl⟩
  | other d =>
    cases hs'
    cases hrefusal : s.pool.refusal with
    | some text =>
      simp only [hrefusal] at h
      obtain ⟨_, _, hfail, _⟩ := Run.bind_eq_ok h
      cases hfail
    | none =>
      simp only [hrefusal] at h
      cases h
      exact ⟨d, rfl⟩

/-- The outcome of the attempt, as the transaction takes it in. -/
theorem caught_attempt (options : TransactionOptions) (callback : Run α) (t : Session) :
    (tryCatchThe Error (do
      let _ ← Run.sendOnClient (beginStatement options.level) none
      let a ← callback
      commit
      return (.ok a : Except Error α))
    (fun e => return .error e) : Run (Except Error α)) t =
      (.ok (attempt options callback t).1, (attempt options callback t).2) := by
  rw [Run.caught, attempt]
  simp only [Run.bind_apply]
  rcases Run.sendOnClient (beginStatement options.level) none t with ⟨_ | _, t⟩
  · rfl
  · dsimp only
    rcases callback t with ⟨_ | _, u⟩
    · rfl
    · dsimp only
      rcases commit u with ⟨_ | _, v⟩ <;> rfl

/-- The session in which the failure of an attempt is on the log. -/
def noticed (e : Error) (u : Session) : Session :=
  (Run.log "transaction" .warn "Rolling back transaction" [.error e] u).2

/-- The session in which the client has been released. -/
def released (u : Session) : Session := { u with journal := u.journal ++ [.clientReleased] }

/-- A transaction whose attempt succeeds gives the value of the callback. -/
theorem transaction_ok {callback : Run α} {a : α} (h : acquire options.source s = (.ok (), t))
    (hx : attempt options callback t = (.ok a, u)) :
    transaction options callback s = (.ok a, released u) := by
  have htry := caught_attempt options callback t
  rw [hx] at htry
  simp only [transaction, Run.liftM_eq]
  rw [Run.bind_ok h, Run.bind_ok htry]
  rfl

/-- The error of a failed transaction: that of the attempt, unless the rollback fails too. -/
def lastError (e : Error) : Except Error Unit → Error
  | .ok _ => e
  | .error failure => failure

/-- A transaction whose attempt fails is rolled back, and fails. -/
theorem transaction_error {callback : Run α} {e : Error} {undone : Except Error Unit}
    (h : acquire options.source s = (.ok (), t))
    (hx : attempt options callback t = (.error e, u))
    (hundone : rollback (noticed e u) = (undone, v)) :
    transaction options callback s = (.error (lastError e undone), released v) := by
  have htry := caught_attempt options callback t
  rw [hx] at htry
  have hlog : Run.log "transaction" .warn "Rolling back transaction" [.error e] u =
      (.ok (), noticed e u) := rfl
  simp only [transaction, Run.liftM_eq]
  rw [Run.bind_ok h, Run.bind_ok htry]
  dsimp only
  rw [Run.bind_ok hlog, Run.bind_ok (Run.outcome_apply hundone)]
  cases undone <;> rfl

/-- The exchange that begins a transaction. -/
def opening (options : TransactionOptions) (reply : Reply) : Exchange :=
  ⟨beginStatement options.level, none, reply⟩

theorem beginStatement_ne (level : Option IsolationLevel) {word : String}
    (hword : word.toList.head? ≠ some 'B') : beginStatement level ≠ word := by
  have hfirst : (beginStatement level).toList.head? = some 'B' := by
    unfold beginStatement
    cases level with
    | none => rfl
    | some level =>
      rw [String.toList_append]
      rfl
  rintro rfl
  exact hword hfirst

theorem opening_ends (options : TransactionOptions) (reply : Reply) :
    (opening options reply).ends = false := by
  have hcommit : beginStatement options.level ≠ "COMMIT" := beginStatement_ne _ (by decide)
  have hrollback : beginStatement options.level ≠ "ROLLBACK" := beginStatement_ne _ (by decide)
  simp [Exchange.ends, Exchange.saysEnd, opening, hcommit, hrollback]

/-- How an attempt goes: what is exchanged on the way, and what comes of it. -/
inductive Course (options : TransactionOptions) (callback : Callback α) (t : Session) :
    List Exchange → Except Error α → Session → Prop where
  /-- The transaction is not begun, and no callback is run. -/
  | unbegun {reply : Reply} {w : Session} {e : Error}
      (hbegin : Run.sendOnClient (beginStatement options.level) none t = (.error e, w))
      (hreply : reply.result = .error e) :
      Course options callback t [opening options reply] (.error e) w
  /-- The callback throws. -/
  | thrown {reply : Reply} {begun : ResultSet} {w v : Session} {ys : List Exchange} {e : Error}
      (hbegin : Run.sendOnClient (beginStatement options.level) none t = (.ok begun, w))
      (hreply : reply.result = .ok begun) (hcallback : callback.run w = (.error e, v)) :
      Course options callback t (opening options reply :: ys) (.error e) v
  /-- The callback gives a value, but has ended the transaction itself. -/
  | ended {reply : Reply} {begun : ResultSet} {w v : Session} {ys : List Exchange} {a : α}
      (hbegin : Run.sendOnClient (beginStatement options.level) none t = (.ok begun, w))
      (hreply : reply.result = .ok begun) (hcallback : callback.run w = (.ok a, v))
      (hends : (opening options reply :: ys).any Exchange.ends = true) :
      Course options callback t (opening options reply :: ys) (.error .transactionClosed) v
  /-- The callback gives a value, but the commit fails. -/
  | uncommitted {reply last : Reply} {begun : ResultSet} {w v u : Session} {ys : List Exchange}
      {a : α} {e : Error}
      (hbegin : Run.sendOnClient (beginStatement options.level) none t = (.ok begun, w))
      (hreply : reply.result = .ok begun) (hcallback : callback.run w = (.ok a, v))
      (hlast : last.result = .error e) :
      Course options callback t (opening options reply :: ys ++ [ClientCall.commit.exchange last])
        (.error e) u
  /-- The callback gives a value, and the commit succeeds. -/
  | committed {reply last : Reply} {begun done : ResultSet} {w v u : Session} {ys : List Exchange}
      {a : α}
      (hbegin : Run.sendOnClient (beginStatement options.level) none t = (.ok begun, w))
      (hreply : reply.result = .ok begun) (hcallback : callback.run w = (.ok a, v))
      (hlast : last.result = .ok done) :
      Course options callback t (opening options reply :: ys ++ [ClientCall.commit.exchange last])
        (.ok a) u

/-- An attempt goes one of these ways, and its exchanges are a dialogue on the client. -/
theorem attempt_course (options : TransactionOptions) (callback : Callback α) {d : Dialect}
    (ht : t.client = some ⟨d, false⟩) :
    ∃ xs r u, attempt options callback.run t = (r, u) ∧ Course options callback t xs r u ∧
      t.Talks xs u := by
  obtain ⟨reply, w, hbegin, hexchanged, hclient⟩ :=
    Run.sendOnClient_apply (beginStatement options.level) none t
  have hw : t.Talks [opening options reply] w := by
    refine (Session.Talks.refl ht).snoc rfl (d := d) hexchanged ?_
    rw [hclient, ht]
    exact congrArg (fun ended => some (Client.mk d ended)) (opening_ends options reply).symm
  cases hreply : reply.result with
  | error e =>
    rw [hreply] at hbegin
    exact ⟨_, _, w, Run.bind_error hbegin, .unbegun hbegin hreply, hw⟩
  | ok begun =>
    rw [hreply] at hbegin
    obtain ⟨ys, r, v, hcallback, hv⟩ := callback.talks hw
    rw [attempt, Run.bind_ok hbegin]
    cases r with
    | error e =>
      exact ⟨_, _, v, Run.bind_error hcallback, .thrown hbegin hreply hcallback, hv⟩
    | ok a =>
      -- the value stands or falls with the commit
      rw [Run.bind_ok hcallback]
      obtain ⟨hends, hcall⟩ | ⟨_, last, u, hcall, hu⟩ := Run.callClient_talks hv .commit
      · exact ⟨_, _, v, Run.bind_error (Run.bind_unit hcall),
          .ended hbegin hreply hcallback hends, hv⟩
      · cases hlast : last.result with
        | error e =>
          rw [hlast] at hcall
          exact ⟨_, _, u, Run.bind_error (Run.bind_unit hcall),
            .uncommitted hbegin hreply hcallback hlast, hu⟩
        | ok done =>
          rw [hlast] at hcall
          exact ⟨_, _, u, Run.bind_ok (Run.bind_unit hcall),
            .committed hbegin hreply hcallback hlast, hu⟩

theorem Course.head {callback : Callback α} {r : Except Error α}
    (h : Course options callback t xs r u) : ∃ reply, xs.head? = some (opening options reply) := by
  cases h with
  | unbegun | thrown | ended | uncommitted | committed => exact ⟨_, rfl⟩

/-- Where the first statement fails, any other callback would make no difference. -/
theorem Course.guarded {callback : Callback α} {r : Except Error α}
    (h : Course options callback t xs r u)
    (hfailed : ∀ x, xs.head? = some x → x.succeeded = false) (other : Callback α) :
    attempt options other.run t = (r, u) := by
  have hbegun {reply : Reply} {begun : ResultSet} (hreply : reply.result = .ok begun)
      (hhead : xs.head? = some (opening options reply)) : False := by
    have hfalse : reply.result.isOk = false := hfailed _ hhead
    rw [hreply] at hfalse
    cases hfalse
  cases h with
  | unbegun hbegin _ => exact Run.bind_error hbegin
  | thrown _ hreply _ => exact (hbegun hreply rfl).elim
  | ended _ hreply _ _ => exact (hbegun hreply rfl).elim
  | uncommitted _ hreply _ _ => exact (hbegun hreply rfl).elim
  | committed _ hreply _ _ => exact (hbegun hreply rfl).elim

/-- Where the callback throws, the attempt leaves off there. -/
theorem Course.thrown_eq {callback : Callback α} {r : Except Error α} {begun : ResultSet}
    {w v : Session} {e : Error} (h : Course options callback t xs r u)
    (hbegin : Run.sendOnClient (beginStatement options.level) none t = (.ok begun, w))
    (hthrown : callback.run w = (.error e, v)) : r = .error e ∧ v = u := by
  cases h with
  | unbegun hbegin' _ =>
    rw [hbegin] at hbegin'
    cases hbegin'
  | thrown hbegin' _ hcallback =>
    rw [hbegin] at hbegin'
    cases hbegin'
    rw [hthrown] at hcallback
    cases hcallback
    exact ⟨rfl, rfl⟩
  | ended hbegin' _ hcallback _ | uncommitted hbegin' _ hcallback _
  | committed hbegin' _ hcallback _ =>
    rw [hbegin] at hbegin'
    cases hbegin'
    rw [hthrown] at hcallback
    cases hcallback

/-- Whether a transaction is active can be told from what was said. -/
theorem isActive_talks (h : t.Talks xs u) :
    (isActive u).1 = .ok (!xs.any Exchange.ends) := by
  obtain ⟨d, hclient⟩ := h.client
  show Except.ok (!(u.client.getD _).isCompleted) = _
  rw [hclient]
  rfl

/-- A rollback goes on with the dialogue, or says nothing where it has ended. -/
theorem rollback_talks (h : t.Talks xs u) : ∃ ys r v, rollback u = (r, v) ∧ t.Talks (xs ++ ys) v ∧
    (xs.any Exchange.ends = false → ∃ reply, ys = [ClientCall.rollback.exchange reply]) := by
  obtain ⟨hends, hcall⟩ | ⟨hends, reply, v, hcall, hv⟩ := Run.callClient_talks h .rollback
  · refine ⟨[], _, u, Run.bind_unit hcall, (List.append_nil xs).symm ▸ h, ?_⟩
    intro hopen
    rw [hends] at hopen
    cases hopen
  · exact ⟨_, _, v, Run.bind_unit hcall, hv, fun _ => ⟨reply, rfl⟩⟩

/-- The protocol that a transaction keeps on the client that it obtained in session `t`, when
these are the exchanges, and with this result in session `u`. -/
structure Protocol (options : TransactionOptions) (callback : Callback α) (s t : Session)
    (xs : List Exchange) (r : Except Error α) (u : Session) : Prop where
  /-- The client is released once, after all statements. -/
  released : u.journal = t.journal ++ xs.map Exchange.event ++ [.clientReleased]
  /-- The server's replies come in the order of the statements. -/
  answered : ∀ (i : Nat) (x : Exchange), xs[i]? = some x →
    x.reply = (t.pool.replies[i]?).getD .nothing
  /-- The first statement begins the transaction. -/
  begins : ∃ reply, xs.head? = some (opening options reply)
  /-- Where it fails, what the callback would do makes no difference. -/
  guarded : (∀ x, xs.head? = some x → x.succeeded = false) →
    ∀ other : Callback α, transaction options other.run s = (r, u)
  /-- Nothing follows a commit or a rollback that succeeded. -/
  silent : xs.Pairwise fun x _ => x.ends = false
  /-- Where the callback throws while the transaction is active, a rollback comes last. -/
  undone : ∀ begun w e v, Run.sendOnClient (beginStatement options.level) none t = (.ok begun, w) →
    callback.run w = (.error e, v) → (isActive v).1 = .ok true →
      ∃ reply, xs.getLast? = some (ClientCall.rollback.exchange reply)
  /-- A value is that of the callback, and a commit succeeded. -/
  committed : ∀ a, r = .ok a →
    (∃ begun w v, Run.sendOnClient (beginStatement options.level) none t = (.ok begun, w) ∧
      callback.run w = (.ok a, v)) ∧
    ∃ x ∈ xs, x.statement = "COMMIT" ∧ x.parameters = none ∧ x.succeeded = true

/-- Once a client was obtained, every transaction keeps the protocol, whatever its callback does and
whatever the server replies. -/
theorem transaction_protocol (options : TransactionOptions) (callback : Callback α) (s t : Session)
    (h : acquire options.source s = (.ok (), t)) :
    ∃ xs r u, transaction options callback.run s = (r, u) ∧
      Protocol options callback s t xs r u := by
  obtain ⟨d, ht⟩ := client_of_acquire h
  obtain ⟨xs, r, u, hattempt, hcourse, hu⟩ := attempt_course options callback ht
  cases r with
  | ok a =>
    refine ⟨xs, .ok a, released u, transaction_ok h hattempt, ?_, hu.exchanged.answered,
      hcourse.head, ?_, hu.silent, ?_, ?_⟩
    · show u.journal ++ _ = _
      rw [hu.exchanged.journal]
    · intro hfailed other
      exact transaction_ok h (hcourse.guarded hfailed other)
    · intro begun w e v hbegin hthrown
      cases (hcourse.thrown_eq hbegin hthrown).1
    · rintro _ ⟨⟩
      cases hcourse with
      | committed hbegin _ hcallback hlast =>
        refine ⟨⟨_, _, _, hbegin, hcallback⟩, _,
          List.mem_append_right _ (List.mem_singleton_self _), rfl, rfl, ?_⟩
        exact congrArg Except.isOk hlast
  | error e =>
    -- the failure is put on the log, and the rollback goes on with the dialogue
    have hnoticed : t.Talks xs (noticed e u) := hu.congr rfl rfl rfl
    obtain ⟨ys, undone, v, hrollback, hv, hlast⟩ := rollback_talks hnoticed
    obtain ⟨reply, hhead⟩ := hcourse.head
    have hhead' : (xs ++ ys).head? = some (opening options reply) := by
      rw [List.head?_append, hhead]
      rfl
    refine ⟨xs ++ ys, _, released v, transaction_error h hattempt hrollback, ?_,
      hv.exchanged.answered, ⟨reply, hhead'⟩, ?_, hv.silent, ?_, ?_⟩
    · show v.journal ++ _ = _
      rw [hv.exchanged.journal]
    · intro hfailed other
      have hfailed' : ∀ x, xs.head? = some x → x.succeeded = false := by
        intro x hx
        refine hfailed x ?_
        rw [hhead', ← hhead, hx]
      exact transaction_error h (hcourse.guarded hfailed' other) hrollback
    · intro begun w e' v' hbegin hthrown hactive
      obtain ⟨_, rfl⟩ := hcourse.thrown_eq hbegin hthrown
      rw [isActive_talks hu, Except.ok.injEq, Bool.not_eq_true'] at hactive
      obtain ⟨reply', rfl⟩ := hlast hactive
      exact ⟨reply', List.getLast?_concat⟩
    · intro a ha
      cases ha

/-- A serializable transaction on a client of a PostgreSQL server. -/
def serializable : TransactionOptions := ⟨some .serializable, .other (.make .postgres none)⟩

/-- A callback that commits, sees whether that went well, and then throws. -/
def commitsAndThrows : Callback Unit :=
  .call (.query "INSERT INTO t VALUES ($1)" [.null]) fun _ =>
    .call .commit fun _ => .call (.query "SELECT 1" []) fun _ => .finish (.error (.failure "late"))

/-- A server that takes the first two statements and refuses the third one. -/
def refusesThird : Session :=
  { Session.fresh with pool := { Session.fresh.pool with
      replies := [.nothing, .nothing, .failure "no commit"] } }

theorem transaction_protocol_refusedCommit :
    acquire serializable.source refusesThird =
        (.ok (), { refusesThird with client := some ⟨.make .postgres none, false⟩ }) ∧
      ∃ xs r u, transaction serializable commitsAndThrows.run refusesThird = (r, u) ∧
        Protocol serializable commitsAndThrows refusesThird
          { refusesThird with client := some ⟨.make .postgres none, false⟩ } xs r u :=
  ⟨rfl, transaction_protocol _ _ _ _ rfl⟩

/-- A callback that sends the text of a commit as a query. -/
def writesCommit : Callback Unit := .call (.query "COMMIT" []) fun _ => .finish (.ok ())

/-- What is said when a callback sends the text of a commit as a query. -/
def writtenCommit : List Exchange :=
  [opening serializable .nothing, ⟨"COMMIT", some [], .nothing⟩, ⟨"COMMIT", none, .nothing⟩]

/-- A query is not looked into: where its text is that of a commit, which succeeds, another
statement follows. -/
theorem writtenCommit_goes_on :
    (transaction serializable writesCommit.run .fresh).2.journal =
        writtenCommit.map Exchange.event ++ [.clientReleased] ∧
      (∀ x ∈ writtenCommit, x.succeeded = true) ∧
      ¬ writtenCommit.Pairwise fun x _ => (x.saysEnd && x.succeeded) = false := by
  refine ⟨rfl, ?_, ?_⟩
  · simp [writtenCommit, opening, Exchange.succeeded, Reply.nothing, Reply.result, Except.isOk,
      Except.toBool]
  · simp [writtenCommit, Exchange.saysEnd, Exchange.succeeded, Reply.nothing, Reply.result,
      Except.isOk, Except.toBool]

end Transaction
end PolyQuery
