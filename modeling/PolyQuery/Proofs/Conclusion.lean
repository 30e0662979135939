import Mathlib.Data.List.Induction
import PolyQuery.Proofs.Dealings

/-! How a transaction concludes. After its callback a transaction says at most two things on its own
account (`Conclusion`), and then gives the client back. Three consequences: where it rejects, no commit
of its own has succeeded (`rejection_uncommitted`), the client goes back with its transaction open
only where its last rollback is refused, or where the callback gives it back itself
(`released_settled`), and what the callback throws is what the transaction rejects with, unless that
rollback is refused (`transaction_rethrows`). -/
namespace PolyQuery

namespace Transaction
variable {α : Type} {options : TransactionOptions} {s t u : Session} {turns : List Turn}

/-- What a transaction says after its callback, on a client that is completed or not, and what comes
of it all. -/
inductive Conclusion : Except Error α → Bool → List Exchange → Except Error α → Prop where
  | committed {a : α} {last : Reply} {done : ResultSet} (hlast : last.result = .ok done) :
      Conclusion (.ok a) false [ClientCall.commit.exchange last] (.ok a)
  | uncommitted {a : α} {last undoing : Reply} {e : Error} (hlast : last.result = .error e) :
      Conclusion (.ok a) false
        [ClientCall.commit.exchange last, ClientCall.rollback.exchange undoing]
        (.error (lastError e (undoing.result.map fun _ => ())))
  | closed {a : α} : Conclusion (.ok a) true [] (.error .transactionClosed)
  | undone {e : Error} {undoing : Reply} :
      Conclusion (.error e) false [ClientCall.rollback.exchange undoing]
        (.error (lastError e (undoing.result.map fun _ => ())))
  | left {e : Error} : Conclusion (.error e) true [] (.error e)

/-- How a transaction goes on its client: the reply to its first statement, the turns of the
callback, what the transaction says after them, and the result. -/
inductive Proceeding (options : TransactionOptions) (callback : Run α) (t : Session) :
    Reply → List Turn → List Exchange → Except Error α → Prop where
  | unbegun {first : Reply} {closing : List Exchange} {r : Except Error α} {e : Error}
      (hfirst : first.result = .error e) (h : Conclusion (.error e) false closing r) :
      Proceeding options callback t first [] closing r
  | begun {first : Reply} {own : List Turn} {closing : List Exchange} {outcome r : Except Error α}
      {begun : ResultSet} {w v : Session} (hfirst : first.result = .ok begun)
      (hbegin : Run.sendOnClient (beginStatement options.level) none t = (.ok begun, w))
      (hcallback : callback w = (outcome, v)) (hown : v.journal = w.journal ++ own.map Turn.event)
      (h : Conclusion outcome ((exchanges own).any Exchange.ends) closing r) :
      Proceeding options callback t first own closing r

/-- A transaction whose attempt fails concludes with a rollback, unless it has ended before. -/
theorem transaction_undone {callback : Run α} {e : Error}
    (h : acquire options.source s = (.ok (), t))
    (hattempt : attempt options callback t = (.error e, u)) (hu : t.Deals turns u) :
    ∃ closing r v, transaction options callback s = (r, v) ∧
      t.Deals (turns ++ closing.map .said ++ [.released]) v ∧
      Conclusion (.error e) ((exchanges turns).any Exchange.ends) closing r := by
  -- the failure is put on the log first
  have hnoticed : t.Deals turns (noticed e u) := hu.congr rfl rfl rfl
  obtain ⟨hends, hcall⟩ | ⟨hopen, undoing, v, hcall, hv⟩ := Run.callClient_deals hnoticed .rollback
  · refine ⟨[], _, _, transaction_error h hattempt (Run.bind_unit hcall), ?_, ?_⟩
    · rw [List.map_nil, List.append_nil]
      exact hnoticed.released
    · rw [hends]
      exact .left
  · refine ⟨[_], _, _, transaction_error h hattempt (Run.bind_unit hcall), hv.released, ?_⟩
    rw [hopen]
    exact .undone

/-- A transaction whose callback gives a value concludes with a commit, unless it has ended before,
and with a rollback where the commit fails. -/
theorem transaction_given {callback : Run α} {a : α} {begun : ResultSet} {w v : Session}
    (h : acquire options.source s = (.ok (), t))
    (hbegin : Run.sendOnClient (beginStatement options.level) none t = (.ok begun, w))
    (hcallback : callback w = (.ok a, v)) (hv : t.Deals turns v) :
    ∃ closing r u, transaction options callback s = (r, u) ∧
      t.Deals (turns ++ closing.map .said ++ [.released]) u ∧
      Conclusion (.ok a) ((exchanges turns).any Exchange.ends) closing r := by
  have hattempt : attempt options callback t = (commit >>= fun _ => pure a) v := by
    rw [attempt, Run.bind_ok hbegin, Run.bind_ok hcallback]
  obtain ⟨hended, hcall⟩ | ⟨hopen, last, u, hcall, hu⟩ := Run.callClient_deals hv .commit
  · have hcommit : commit v = (.error .transactionClosed, v) := Run.bind_unit hcall
    rw [Run.bind_error hcommit] at hattempt
    obtain ⟨closing, r, u, hrun, hu, hconclusion⟩ := transaction_undone h hattempt hv
    rw [hended] at hconclusion ⊢
    cases hconclusion with
    | left => exact ⟨[], _, u, hrun, hu, .closed⟩
  · have hcommit : commit v = (last.result.map fun _ => (), u) := Run.bind_unit hcall
    cases hlast : last.result with
    | ok done =>
      rw [hlast] at hcommit
      rw [Run.bind_ok hcommit] at hattempt
      refine ⟨[_], _, _, transaction_ok h hattempt, hu.released, ?_⟩
      rw [hopen]
      exact .committed hlast
    | error e =>
      rw [hlast] at hcommit
      rw [Run.bind_error hcommit] at hattempt
      obtain ⟨closing, r, v', hrun, hv', hconclusion⟩ := transaction_undone h hattempt hu
      -- a commit that failed has not ended the transaction
      have hstill : (exchanges (turns ++ [.said (ClientCall.commit.exchange last)])).any
          Exchange.ends = false := by
        have hfailed : (ClientCall.commit.exchange last).ends = false := by
          simp [Exchange.ends, Exchange.succeeded, ClientCall.exchange, hlast, Except.isOk,
            Except.toBool]
        rw [exchanges_append, List.any_append, hopen, exchanges_cons, List.any_cons, hfailed]
        rfl
      rw [hstill] at hconclusion
      rw [hopen]
      cases hconclusion with
      | @undone e undoing =>
        refine ⟨[ClientCall.commit.exchange last, ClientCall.rollback.exchange undoing], _, v', hrun,
          ?_, .uncommitted hlast⟩
        rw [List.append_assoc turns] at hv'
        exact hv'

/-- Once a client was obtained, every transaction goes one of these ways, whatever its callback does
and whatever the server replies. The turns of the callback are of the kind `Own` if it has no
others. -/
theorem transaction_proceeds {callback : Run α} (Own : List Turn → Prop)
    (h : acquire options.source s = (.ok (), t)) (hnone : Own [])
    (hcallback : ∀ turns w, t.Deals turns w → (exchanges turns).any Exchange.ends = false →
      ∃ own outcome v, callback w = (outcome, v) ∧ Own own ∧ t.Deals (turns ++ own) v) :
    ∃ first own closing r u, transaction options callback s = (r, u) ∧
      t.Deals (.said (opening options first) :: own ++ closing.map .said ++ [.released]) u ∧
      Own own ∧ Proceeding options callback t first own closing r := by
  obtain ⟨d, ht⟩ := client_of_acquire h
  -- what comes first on the client is the statement that begins the transaction
  obtain ⟨first, w, hbegin, hexchanged, hclient⟩ :=
    Run.sendOnClient_apply (beginStatement options.level) none t
  have hopening := opening_ends options first
  -- the first statement does not end the transaction, so the callback's turns decide
  have hends (own : List Turn) :
      (exchanges (.said (opening options first) :: own)).any Exchange.ends =
        (exchanges own).any Exchange.ends := by
    rw [exchanges_cons, List.any_cons, hopening, Bool.false_or]
  have hw : t.Deals [.said (opening options first)] w := by
    refine (Session.Deals.refl ht).said rfl (d := d) hexchanged ?_
    rw [hclient, ht]
    exact congrArg (fun ended => some (Client.mk d ended)) (hends []).symm
  cases hfirst : first.result with
  | error e =>
    rw [hfirst] at hbegin
    have hattempt : attempt options callback t = (.error e, w) := Run.bind_error hbegin
    obtain ⟨closing, r, v, hrun, hv, hconclusion⟩ := transaction_undone h hattempt hw
    rw [hends []] at hconclusion
    exact ⟨first, [], closing, r, v, hrun, hv, hnone, .unbegun hfirst hconclusion⟩
  | ok begun =>
    rw [hfirst] at hbegin
    obtain ⟨own, outcome, v, hrun, hkind, hv⟩ := hcallback _ w hw (hends [])
    have hown : v.journal = w.journal ++ own.map Turn.event := by
      rw [hv.journal, hw.journal, List.map_append, List.append_assoc]
    obtain ⟨closing, r, u, hrun', hu, hconclusion⟩ : ∃ closing r u,
        transaction options callback s = (r, u) ∧
          t.Deals (.said (opening options first) :: own ++ closing.map .said ++ [.released]) u ∧
          Conclusion outcome ((exchanges (.said (opening options first) :: own)).any
            Exchange.ends) closing r := by
      cases outcome with
      | error e =>
        have hattempt : attempt options callback t = (.error e, v) := by
          rw [attempt, Run.bind_ok hbegin]
          exact Run.bind_error hrun
        exact transaction_undone h hattempt hv
      | ok a => exact transaction_given h hbegin hrun hv
    rw [hends own] at hconclusion
    exact ⟨first, own, closing, r, u, hrun', hu, hkind, .begun hfirst hbegin hrun hown hconclusion⟩

end Transaction

/-- Whether a commit succeeded, by a call or by its text sent as a query. -/
def Exchange.commits (x : Exchange) : Bool := x.statement == "COMMIT" && x.succeeded

namespace Transaction
variable {α : Type} {options : TransactionOptions} {s t u : Session} {turns : List Turn}

theorem Conclusion.uncommits {outcome : Except Error α} {ended : Bool} {closing : List Exchange}
    {e : Error} (h : Conclusion outcome ended closing (.error e)) :
    closing.any Exchange.commits = false := by
  have hrollback (undoing : Reply) : (ClientCall.rollback.exchange undoing).commits = false := rfl
  cases h with
  | @uncommitted _ last undoing _ hlast =>
    have hcommit : (ClientCall.commit.exchange last).commits = false := by
      change (true && last.result.isOk) = false
      rw [hlast]
      rfl
    rw [List.any_cons, List.any_cons, hcommit, hrollback]
    rfl
  | closed => rfl
  | @undone _ undoing =>
    rw [List.any_cons, hrollback]
    rfl
  | left => rfl

theorem Proceeding.uncommits {callback : Run α} {first : Reply} {own : List Turn}
    {closing : List Exchange} {e : Error}
    (h : Proceeding options callback t first own closing (.error e)) :
    closing.any Exchange.commits = false := by
  cases h with
  | unbegun _ hconclusion => exact hconclusion.uncommits
  | begun _ _ _ _ hconclusion => exact hconclusion.uncommits

/-- Where a transaction rejects, neither its first statement nor what it says after the callback is a
commit that succeeded; so a commit succeeded only if the callback sent it. -/
theorem rejection_uncommitted (options : TransactionOptions) (callback : Callback α) (s t : Session)
    (h : acquire options.source s = (.ok (), t)) :
    ∃ (first : Reply) (own closing : List Exchange) (r : Except Error α) (u : Session),
      transaction options callback.run s = (r, u) ∧
      t.Deals ((opening options first :: (own ++ closing)).map .said ++ [.released]) u ∧
      Proceeding options callback.run t first (own.map .said) closing r ∧
      ∀ e, r = .error e →
        (opening options first :: closing).any Exchange.commits = false ∧
        (opening options first :: (own ++ closing)).any Exchange.commits =
          own.any Exchange.commits := by
  obtain ⟨first, _, closing, r, u, hrun, hdeals, ⟨own, rfl⟩, hproceeding⟩ :=
    transaction_proceeds (fun turns => ∃ own : List Exchange, turns = own.map .said) h ⟨[], rfl⟩ (by
      intro turns w hw hopen
      obtain ⟨own, outcome, v, hrun, hv⟩ := callback.deals hw hopen
      exact ⟨_, outcome, v, hrun, ⟨own, rfl⟩, hv⟩)
  refine ⟨first, own, closing, r, u, hrun, ?_, hproceeding, ?_⟩
  · rw [List.map_cons, List.map_append]
    exact hdeals
  rintro e rfl
  -- no statement that opens a transaction is a commit
  have hopening : (opening options first).commits = false := by
    have hne : beginStatement options.level ≠ "COMMIT" := beginStatement_ne _ (by decide)
    rw [Exchange.commits, Bool.and_eq_false_iff]
    exact .inl (beq_eq_false_iff_ne.2 hne)
  have hclosing := hproceeding.uncommits
  constructor
  · rw [List.any_cons, hopening, hclosing, Bool.false_or]
  · rw [List.any_cons, List.any_append, hopening, hclosing, Bool.or_false, Bool.false_or]

theorem rejection_uncommitted_commitsAndThrows :
    acquire serializable.source .fresh =
        (.ok (), { Session.fresh with client := some ⟨.make .postgres none, false⟩ }) ∧
      ∃ (first : Reply) (own closing : List Exchange) (r : Except Error Unit) (u : Session),
        transaction serializable commitsAndThrows.run .fresh = (r, u) ∧
        Session.Deals { Session.fresh with client := some ⟨.make .postgres none, false⟩ }
          ((opening serializable first :: (own ++ closing)).map .said ++ [.released]) u ∧
        Proceeding serializable commitsAndThrows.run
          { Session.fresh with client := some ⟨.make .postgres none, false⟩ } first
          (own.map .said) closing r ∧
        ∀ e, r = .error e →
          (opening serializable first :: closing).any Exchange.commits = false ∧
          (opening serializable first :: (own ++ closing)).any Exchange.commits =
            own.any Exchange.commits :=
  ⟨rfl, rejection_uncommitted _ _ _ _ rfl⟩

def commits : Callback Unit := .call .commit fun _ => .finish (.ok ())

/-- A transaction that the callback commits itself is rejected, although the commit succeeded. -/
theorem commits_rejected :
    ∃ u, transaction serializable commits.run .fresh = (.error .transactionClosed, u) ∧
      Session.Deals { Session.fresh with client := some ⟨.make .postgres none, false⟩ }
        [.said (opening serializable .nothing), .said (ClientCall.commit.exchange .nothing),
          .released] u ∧
      (ClientCall.commit.exchange .nothing).commits = true := by
  refine ⟨_, rfl, ⟨rfl, ⟨?_, rfl⟩, ⟨_, rfl⟩⟩, rfl⟩
  intro i x hx
  match i, hx with
  | 0, rfl => rfl
  | 1, rfl => rfl

/-- Whether the client may go back to the pool after these turns: its transaction was not begun, or a
commit or a rollback succeeded. -/
def settled (first : Reply) (turns : List Turn) : Bool :=
  !first.result.isOk || (exchanges turns).any Exchange.closes

/-- Each time that the client goes back, the turns before have settled its transaction. -/
def SettledReleases (first : Reply) (turns : List Turn) : Prop :=
  ∀ before, before ++ [.released] <+: turns → settled first before = true

def RollbackRefused (xs : List Exchange) : Prop :=
  ∃ undoing : Reply, xs.getLast? = some (ClientCall.rollback.exchange undoing) ∧
    undoing.result.isOk = false

theorem rollbackRefused_concat (xs : List Exchange) (undoing : Reply) :
    RollbackRefused (xs ++ [ClientCall.rollback.exchange undoing]) ↔
      undoing.result.isOk = false := by
  constructor
  · rintro ⟨reply, hlast, hreply⟩
    rw [List.getLast?_concat, Option.some.injEq] at hlast
    obtain rfl : undoing = reply := congrArg Exchange.reply hlast
    exact hreply
  · intro hundoing
    exact ⟨undoing, List.getLast?_concat, hundoing⟩

/-- Where a transaction says anything after its callback, it ends by that, unless its rollback is
refused. -/
theorem Conclusion.ended_or {outcome r : Except Error α} {ended : Bool} {closing : List Exchange}
    (h : Conclusion outcome ended closing r) :
    (ended = true ∧ closing = []) ∨
      (closing.any Exchange.closes = true ↔ ¬ RollbackRefused closing) := by
  have hcommit (last : Reply) : (ClientCall.commit.exchange last).closes = last.result.isOk := rfl
  have hrollback (undoing : Reply) :
      (ClientCall.rollback.exchange undoing).closes = undoing.result.isOk := rfl
  cases h with
  -- an accepted commit closes the transaction, and nothing was rolled back
  | @committed a last done hlast =>
    refine .inr (iff_of_true ?_ ?_)
    · rw [List.any_cons, hcommit, hlast]
      rfl
    · rintro ⟨undoing, hundoing, -⟩
      have hstatement : "COMMIT" = "ROLLBACK" := congrArg Exchange.statement (Option.some.inj hundoing)
      exact absurd hstatement (by decide)
  | @uncommitted a last undoing e hlast =>
    have hrefused := rollbackRefused_concat [ClientCall.commit.exchange last] undoing
    rw [List.singleton_append] at hrefused
    rw [hrefused, List.any_cons, List.any_cons, hcommit, hrollback, hlast, Bool.not_eq_false]
    exact .inr (by simp [Except.isOk, Except.toBool])
  | closed | left => exact .inl ⟨rfl, rfl⟩
  | @undone e undoing =>
    have hrefused := rollbackRefused_concat [] undoing
    rw [List.nil_append] at hrefused
    rw [hrefused, List.any_cons, hrollback, Bool.not_eq_false]
    exact .inr (by simp)

/-- After its conclusion a transaction has ended, unless its own rollback is refused and the callback
has not ended it either. -/
theorem Conclusion.closes_iff {outcome r : Except Error α} {own closing : List Exchange}
    (h : Conclusion outcome (own.any Exchange.ends) closing r) :
    (own ++ closing).any Exchange.closes = true ↔
      ¬ (own.any Exchange.closes = false ∧ RollbackRefused closing) := by
  rw [List.any_append, Bool.or_eq_true, not_and_or, Bool.not_eq_false]
  obtain ⟨hends, rfl⟩ | hclosing := h.ended_or
  · obtain ⟨x, hx, hxends⟩ := List.any_eq_true.1 hends
    have hown : own.any Exchange.closes = true :=
      List.any_eq_true.2 ⟨x, hx, Exchange.closes_of_ends hxends⟩
    exact iff_of_true (.inl hown) (.inl hown)
  · rw [hclosing]

theorem released_prefix_append (before turns : List Turn) (xs : List Exchange) :
    before ++ [.released] <+: turns ++ xs.map .said ↔ before ++ [.released] <+: turns := by
  -- from the end: the last thing said is no return of the client, so the prefix stops before it
  induction xs using List.reverseRecOn with
  | nil => rw [List.map_nil, List.append_nil]
  | append_singleton xs x ih =>
    rw [List.map_append, ← List.append_assoc, List.map_singleton, List.prefix_concat_iff, ih]
    refine or_iff_right ?_
    intro heq
    have hlast : Turn.released = .said x := (List.append_singleton_inj.1 heq).2
    cases hlast

theorem settledReleases_concat (first : Reply) (turns : List Turn) (xs : List Exchange) :
    SettledReleases first (turns ++ xs.map .said ++ [.released]) ↔
      SettledReleases first turns ∧ settled first (turns ++ xs.map .said) = true := by
  unfold SettledReleases
  simp only [List.prefix_concat_iff, released_prefix_append]
  constructor
  · intro hsettled
    exact ⟨fun before hbefore => hsettled before (.inr hbefore), hsettled _ (.inl rfl)⟩
  · rintro ⟨hturns, hlast⟩ before (heq | hbefore)
    · obtain rfl := (List.append_singleton_inj.1 heq).1
      exact hlast
    · exact hturns before hbefore

/-- The client never goes back with its transaction open, but for two cases: where the callback gives
it back too early, and where a transaction that was begun and not ended is concluded by a rollback
which the server refuses. -/
theorem released_settled (options : TransactionOptions) (guest : Guest α) (s t : Session)
    (h : acquire options.source s = (.ok (), t)) :
    ∃ (first : Reply) (own : List Turn) (closing : List Exchange) (r : Except Error α) (u : Session),
      transaction options guest.run s = (r, u) ∧
      t.Deals (.said (opening options first) :: own ++ closing.map .said ++ [.released]) u ∧
      Proceeding options guest.run t first own closing r ∧
      (SettledReleases first (own ++ closing.map .said ++ [.released]) ↔
        SettledReleases first own ∧
          ¬ (first.result.isOk = true ∧ (exchanges own).any Exchange.closes = false ∧
            RollbackRefused closing)) := by
  obtain ⟨first, own, closing, r, u, hrun, hdeals, -, hproceeding⟩ :=
    transaction_proceeds (fun _ => True) h trivial (by
      intro turns w hw _
      obtain ⟨own, outcome, v, hrun, hv⟩ := guest.deals hw
      exact ⟨own, outcome, v, hrun, trivial, hv⟩)
  refine ⟨first, own, closing, r, u, hrun, hdeals, hproceeding, ?_⟩
  rw [settledReleases_concat]
  refine and_congr_right fun _ => ?_
  rw [settled, exchanges_append, exchanges_said, Bool.or_eq_true, Bool.not_eq_true']
  cases hproceeding with
  | unbegun hfirst _ =>
    -- nothing was begun
    have hfailed : first.result.isOk = false := by
      rw [hfirst]
      rfl
    refine iff_of_true (.inl hfailed) ?_
    rintro ⟨hbegun, -⟩
    rw [hfailed] at hbegun
    cases hbegun
  | begun hfirst _ _ _ hconclusion =>
    have hbegun : first.result.isOk = true := by
      rw [hfirst]
      rfl
    rw [hconclusion.closes_iff, hbegun]
    simp

def throws : Guest Unit := .finish (.error (.failure "late"))

/-- A server that begins a transaction and refuses the next statement. -/
def refusesSecond : Session :=
  { Session.fresh with pool := { Session.fresh.pool with
      replies := [.nothing, .failure "no rollback"] } }

theorem released_settled_refusedRollback :
    acquire serializable.source refusesSecond =
        (.ok (), { refusesSecond with client := some ⟨.make .postgres none, false⟩ }) ∧
      ∃ (first : Reply) (own : List Turn) (closing : List Exchange) (r : Except Error Unit)
        (u : Session),
        transaction serializable throws.run refusesSecond = (r, u) ∧
        Session.Deals { refusesSecond with client := some ⟨.make .postgres none, false⟩ }
          (.said (opening serializable first) :: own ++ closing.map .said ++ [.released]) u ∧
        Proceeding serializable throws.run
          { refusesSecond with client := some ⟨.make .postgres none, false⟩ } first own closing r ∧
        (SettledReleases first (own ++ closing.map .said ++ [.released]) ↔
          SettledReleases first own ∧
            ¬ (first.result.isOk = true ∧ (exchanges own).any Exchange.closes = false ∧
              RollbackRefused closing)) :=
  ⟨rfl, released_settled _ _ _ _ rfl⟩

/-- Where the rollback is refused, the client goes back with its transaction open. -/
theorem refusedRollback_unsettled :
    ∃ u, transaction serializable throws.run refusesSecond =
        (.error (.failure "no rollback"), u) ∧
      Session.Deals { refusesSecond with client := some ⟨.make .postgres none, false⟩ }
        [.said (opening serializable .nothing),
          .said (ClientCall.rollback.exchange (.failure "no rollback")), .released] u ∧
      ¬ SettledReleases .nothing
        [.said (ClientCall.rollback.exchange (.failure "no rollback")), .released] := by
  refine ⟨_, rfl, ⟨rfl, ⟨?_, rfl⟩, ⟨_, rfl⟩⟩, ?_⟩
  · intro i x hx
    match i, hx with
    | 0, rfl => rfl
    | 1, rfl => rfl
  · intro hsettled
    have hlast := hsettled [.said (ClientCall.rollback.exchange (.failure "no rollback"))] ⟨[], rfl⟩
    cases hlast

end Transaction

/-! ## The error of a transaction -/

theorem Reply.result_eq_error {reply : Reply} {failure : Error} :
    reply.result = .error failure ↔ ∃ text, reply = .failure text ∧ failure = .failure text := by
  cases reply with
  | rows rs count => simp [Reply.result]
  | failure text => simp [Reply.result, eq_comm]

namespace Transaction
variable {α : Type}

/-- A rollback that is due is refused: the transaction of the client is still open, and the server's
next reply is this failure. -/
def RefusesRollback (v : Session) (failure : Error) : Prop :=
  (∃ d, v.client = some ⟨d, false⟩) ∧
    ∃ text, v.pool.replies.head? = some (.failure text) ∧ failure = .failure text

theorem rollback_idle {v : Session} (h : ∀ d, v.client ≠ some ⟨d, false⟩) :
    rollback v = (.ok (), v) := by
  cases hclient : v.client with
  | none =>
    -- without a client there is nothing to roll back either
    have hmissing : Run.client v = (.ok ⟨.make .postgres none, true⟩, v) := by
      show (Except.ok (v.client.getD _), v) = _
      rw [hclient]
      rfl
    have hcall : Run.callClient .rollback v = (ClientCall.rollback.refusal, v) := by
      rw [Run.callClient, Run.bind_ok hmissing]
      rfl
    exact Run.bind_unit hcall
  | some c =>
    obtain ⟨d, completed⟩ := c
    cases completed with
    | true => exact Run.bind_unit (Run.callClient_completed hclient .rollback)
    | false => exact (h d hclient).elim

/-- A rollback fails exactly where it is due and refused. -/
theorem rollback_error_iff {v : Session} {failure : Error} :
    (rollback v).1 = .error failure ↔ RefusesRollback v failure := by
  -- without a client that is open nothing is sent, so nothing can be refused
  by_cases hopen : ∃ d, v.client = some ⟨d, false⟩
  · obtain ⟨d, hclient⟩ := hopen
    obtain ⟨reply, u, hcall, hexchanged, -⟩ := Run.callClient_open hclient .rollback
    have hrollback : rollback v = (reply.result.map fun _ => (), u) := Run.bind_unit hcall
    have hreply : reply = v.pool.replies.head?.getD .nothing := by
      rw [List.head?_eq_getElem?]
      exact hexchanged.answered 0 _ rfl
    have hfails : (rollback v).1 = .error failure ↔ reply.result = .error failure := by
      rw [hrollback]
      cases reply.result <;> simp [Except.map]
    rw [hfails, Reply.result_eq_error, RefusesRollback]
    constructor
    · rintro ⟨text, hrefused, hfailure⟩
      refine ⟨⟨d, hclient⟩, text, ?_, hfailure⟩
      cases hhead : v.pool.replies.head? with
      | none =>
        rw [hreply, hhead] at hrefused
        cases hrefused
      | some first =>
        rw [hreply, hhead] at hrefused
        exact congrArg some hrefused
    · rintro ⟨-, text, hhead, hfailure⟩
      refine ⟨text, ?_, hfailure⟩
      rw [hreply, hhead]
      rfl
  · rw [rollback_idle fun d hclient => hopen ⟨d, hclient⟩]
    exact ⟨nofun, fun hrefuses => (hopen hrefuses.1).elim⟩

/-- A transaction that was begun, and whose callback throws, rejects, whatever the callback did before
and whatever the server replied. It rejects with what the callback threw exactly where its rollback is
not refused with another failure; where it is refused, the transaction rejects with the refusal. -/
theorem transaction_rethrows (options : TransactionOptions) (callback : Run α) {s t w v : Session}
    {begun : ResultSet} {e : Error} (h : acquire options.source s = (.ok (), t))
    (hbegin : Run.sendOnClient (beginStatement options.level) none t = (.ok begun, w))
    (hthrown : callback w = (.error e, v)) :
    ∃ r u, transaction options callback s = (.error r, u) ∧
      (r = e ↔ ∀ failure, RefusesRollback v failure → failure = e) ∧
      ∀ failure, RefusesRollback v failure → r = failure := by
  have hattempt : attempt options callback t = (.error e, v) := by
    rw [attempt, Run.bind_ok hbegin]
    exact Run.bind_error hthrown
  -- the line on the log changes neither the client nor what the server will say
  have hnoticed (failure : Error) :
      RefusesRollback (noticed e v) failure ↔ RefusesRollback v failure := Iff.rfl
  rcases hrollback : rollback (noticed e v) with ⟨undone, u⟩
  have hrefuses (failure : Error) : undone = .error failure ↔ RefusesRollback v failure := by
    rw [← hnoticed, ← rollback_error_iff, hrollback]
  refine ⟨_, _, transaction_error h hattempt hrollback, ?_⟩
  cases undone with
  | ok _ =>
    have hnever (failure : Error) : ¬ RefusesRollback v failure := by
      intro hrefused
      cases (hrefuses failure).2 hrefused
    refine ⟨iff_of_true rfl fun failure hrefused => (hnever failure hrefused).elim, ?_⟩
    exact fun failure hrefused => (hnever failure hrefused).elim
  | error refusal =>
    have hsame (failure : Error) : RefusesRollback v failure ↔ refusal = failure := by
      rw [← hrefuses, Except.error.injEq]
    simp only [hsame, lastError, forall_eq', imp_self, implies_true, and_self]

/-- The commit of the callback is refused and its error is swallowed; what the callback throws at last
is what the transaction rejects with. -/
theorem transaction_rethrows_refusedCommit :
    ∃ t w begun v, acquire serializable.source refusesThird = (.ok (), t) ∧
      Run.sendOnClient (beginStatement serializable.level) none t = (.ok begun, w) ∧
      commitsAndThrows.run w = (.error (.failure "late"), v) ∧
      ∃ u, transaction serializable commitsAndThrows.run refusesThird =
        (.error (.failure "late"), u) := by
  refine ⟨_, _, _, _, rfl, rfl, rfl, ?_⟩
  obtain ⟨r, u, hrun, hsame, -⟩ := transaction_rethrows serializable commitsAndThrows.run
    (s := refusesThird) rfl rfl rfl
  obtain rfl : r = .failure "late" := by
    rw [hsame]
    rintro failure ⟨-, text, hhead, -⟩
    cases hhead
  exact ⟨u, hrun⟩

/-- Where the rollback is refused, what the callback threw is lost. -/
theorem refusedRollback_replaces :
    ∃ t w begun v u, acquire serializable.source refusesSecond = (.ok (), t) ∧
      Run.sendOnClient (beginStatement serializable.level) none t = (.ok begun, w) ∧
      throws.run w = (.error (.failure "late"), v) ∧
      transaction serializable throws.run refusesSecond = (.error (.failure "no rollback"), u) :=
  ⟨_, _, _, _, _, rfl, rfl, rfl, rfl⟩

end Transaction
end PolyQuery
