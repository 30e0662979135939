import PolyQuery.Proofs.Dialogue

/-! Calls on one client that do not wait for each other. A history lists the calls and the arrival
of the server's replies, in any order; a call runs up to its statement, and its reply is taken in
later. A client that is completed is silent, and if no call is made while a commit or a rollback
that will succeed is under way, then nothing is sent after it: `Traffic.silent_after`. Callbacks that
wait for each call are of this kind: `Callback.patient`. -/
namespace PolyQuery

/-- A call that has sent its statement, and the server's reply once it has come. -/
structure Sending where
  call : ClientCall
  reply : Option Reply

namespace Sending

/-- The exchange, once there is a reply. -/
def exchange? (x : Sending) : Option Exchange := x.reply.map fun reply => x.call.exchange reply

/-- Whether the call ended the transaction, as far as its reply has come. -/
def ends (x : Sending) : Bool := x.exchange?.any Exchange.ends

end Sending

/-- What may happen to a client: a call is made, or the reply to the call in a place arrives. -/
inductive Happening where
  | called (c : ClientCall)
  | replied (place : Nat) (reply : Reply)

/-- A client, and the calls that have sent something on it. -/
structure Traffic where
  client : Client
  sent : List Sending

theorem any_set {p : Sending → Bool} {xs : List Sending} {i : Nat} {x : Sending}
    (hx : xs[i]? = some x) (hp : p x = false) (y : Sending) :
    (xs.set i y).any p = (xs.any p || p y) := by
  induction xs generalizing i with
  | nil => cases hx
  | cons head xs ih =>
    cases i with
    | zero =>
      obtain rfl : head = x := Option.some.inj hx
      rw [List.set_cons_zero, List.any_cons, List.any_cons, hp, Bool.false_or, Bool.or_comm]
    | succ i => rw [List.set_cons_succ, List.any_cons, List.any_cons, ih hx, Bool.or_assoc]

namespace Traffic
variable {d : Dialect} {s t u : Traffic} {e : Happening} {history before after : List Happening}

def fresh (d : Dialect) : Traffic := ⟨⟨d, false⟩, []⟩

/-- One thing happens. Only a call that waits for its reply can get one. -/
def step (t : Traffic) : Happening → Option Traffic
  | .called c =>
    match t.client.start c with
    | .send _ _ => some { t with sent := t.sent ++ [⟨c, none⟩] }
    | _ => some t
  | .replied place reply =>
    match t.sent[place]? with
    | some ⟨c, none⟩ =>
      some ⟨t.client.settle c reply.result.isOk, t.sent.set place ⟨c, some reply⟩⟩
    | _ => none

def run (t : Traffic) : List Happening → Option Traffic
  | [] => some t
  | e :: history => (t.step e).bind fun u => u.run history

theorem run_append (t : Traffic) (before after : List Happening) :
    t.run (before ++ after) = (t.run before).bind fun u => u.run after := by
  induction before generalizing t with
  | nil => rfl
  | cons e before ih =>
    rw [List.cons_append, run, run, Option.bind_assoc]
    apply congrArg
    funext u
    exact ih u

theorem run_rest (h : t.run (before ++ after) = some u) (hs : t.run before = some s) :
    s.run after = some u := by
  rw [run_append, hs] at h
  exact h

/-- What one happening keeps is kept by a whole history. -/
theorem run_invariant {P : Traffic → Prop} (hstep : ∀ v e w, P v → v.step e = some w → P w)
    (ht : P t) (h : t.run history = some u) : P u := by
  induction history generalizing t with
  | nil =>
    obtain rfl := Option.some.inj h
    exact ht
  | cons e history ih =>
    obtain ⟨t', hfirst, hrest⟩ := Option.bind_eq_some_iff.1 h
    exact ih (hstep t e t' ht hfirst) hrest

/-- A call sends something on an open client and nothing on a completed one; a reply is taken in by
a call that has none yet. -/
theorem step_cases (h : t.step e = some u) :
    (∃ c, e = .called c ∧ t.client.isCompleted = false ∧
      u = { t with sent := t.sent ++ [⟨c, none⟩] }) ∨
    (∃ c, e = .called c ∧ t.client.isCompleted = true ∧ u = t) ∨
    (∃ place reply c, e = .replied place reply ∧ t.sent[place]? = some ⟨c, none⟩ ∧
      u = ⟨t.client.settle c reply.result.isOk, t.sent.set place ⟨c, some reply⟩⟩) := by
  obtain ⟨⟨d, completed⟩, sent⟩ := t
  cases e with
  | called c =>
    cases completed with
    | false =>
      obtain ⟨sql, parameters, hstart, -⟩ := Client.start_open d c
      rw [step, hstart] at h
      exact .inl ⟨c, rfl, rfl, (Option.some.inj h).symm⟩
    | true =>
      -- a call on a client that has ended is refused or ignored, and leaves all as it was
      have hsilent : step ⟨⟨d, true⟩, sent⟩ (.called c) = some ⟨⟨d, true⟩, sent⟩ := by
        rw [step, Client.start_completed]
        cases c <;> rfl
      rw [hsilent] at h
      exact .inr (.inl ⟨c, rfl, rfl, (Option.some.inj h).symm⟩)
  | replied place reply =>
    rw [step] at h
    split at h
    · rename_i c hplace
      exact .inr (.inr ⟨place, reply, c, rfl, hplace, (Option.some.inj h).symm⟩)
    · cases h

/-- What has been sent stays, and so does a reply that came. -/
def Extends (xs ys : List Sending) : Prop :=
  ∀ (i : Nat) (x : Sending), xs[i]? = some x →
    ∃ y, ys[i]? = some y ∧ y.call = x.call ∧ (x.reply.isSome → y = x)

theorem Extends.refl (xs : List Sending) : Extends xs xs := fun _ x hx => ⟨x, hx, rfl, fun _ => rfl⟩

theorem Extends.trans {xs ys zs : List Sending} (h : Extends xs ys) (h' : Extends ys zs) :
    Extends xs zs := by
  intro i x hx
  obtain ⟨y, hy, hcall, hreply⟩ := h i x hx
  obtain ⟨z, hz, hcall', hreply'⟩ := h' i y hy
  refine ⟨z, hz, hcall'.trans hcall, ?_⟩
  intro hsome
  obtain rfl := hreply hsome
  exact hreply' hsome

theorem step_extends (h : t.step e = some u) : Extends t.sent u.sent := by
  obtain ⟨c, -, -, rfl⟩ | ⟨c, -, -, rfl⟩ | ⟨place, reply, c, -, hplace, rfl⟩ := step_cases h
  · intro i x hx
    refine ⟨x, ?_, rfl, fun _ => rfl⟩
    obtain ⟨hi, -⟩ := List.getElem?_eq_some_iff.1 hx
    rw [List.getElem?_append_left hi, hx]
  · exact .refl _
  · intro i x hx
    by_cases hi : place = i
    · -- the call in this place had no reply yet
      subst hi
      obtain rfl : _ = x := Option.some.inj (hplace.symm.trans hx)
      obtain ⟨hlt, -⟩ := List.getElem?_eq_some_iff.1 hx
      exact ⟨⟨c, some reply⟩, List.getElem?_set_self hlt, rfl, fun hsome => nomatch hsome⟩
    · exact ⟨x, by rw [List.getElem?_set_ne hi, hx], rfl, fun _ => rfl⟩

theorem run_extends (h : t.run history = some u) : Extends t.sent u.sent := by
  refine run_invariant (P := fun v => Extends t.sent v.sent) ?_ (.refl _) h
  intro v e w hv hstep
  exact hv.trans (step_extends hstep)

/-- The client is completed exactly if a call has ended the transaction. -/
def Tallies (t : Traffic) : Prop := t.client.isCompleted = t.sent.any Sending.ends

theorem step_tallies (ht : t.Tallies) (h : t.step e = some u) : u.Tallies := by
  obtain ⟨c, -, -, rfl⟩ | ⟨c, -, -, rfl⟩ | ⟨place, reply, c, -, hplace, rfl⟩ := step_cases h
  · -- what was just sent has no reply yet
    have hwaiting : Sending.ends ⟨c, none⟩ = false := rfl
    change t.client.isCompleted = _
    rw [ht, List.any_append, List.any_cons, hwaiting]
    simp
  · exact ht
  · have hany := any_set (p := Sending.ends) hplace rfl ⟨c, some reply⟩
    change (t.client.settle c reply.result.isOk).isCompleted = _
    rw [Client.settle_eq, hany, ← ht]
    rfl

theorem run_tallies (h : (fresh d).run history = some u) : u.Tallies := by
  have hfresh : (fresh d).Tallies := rfl
  refine run_invariant ?_ hfresh h
  intro v e w hv hstep
  exact step_tallies hv hstep

theorem step_silent (ht : t.client.isCompleted = true) (h : t.step e = some u) :
    u.client.isCompleted = true ∧ u.sent.map Sending.call = t.sent.map Sending.call := by
  obtain ⟨c, -, hopen, -⟩ | ⟨c, -, -, rfl⟩ | ⟨place, reply, c, -, hplace, rfl⟩ := step_cases h
  · rw [ht] at hopen
    cases hopen
  · exact ⟨ht, rfl⟩
  · constructor
    · change (t.client.settle c reply.result.isOk).isCompleted = true
      rw [Client.settle_eq, ht, Bool.true_or]
    · have hcall : (t.sent.map Sending.call)[place]? = some c := by
        rw [List.getElem?_map, hplace]
        rfl
      obtain ⟨hlt, rfl⟩ := List.getElem?_eq_some_iff.1 hcall
      rw [List.map_set]
      exact List.set_getElem_self hlt

theorem run_silent (ht : t.client.isCompleted = true) (h : t.run history = some u) :
    u.sent.map Sending.call = t.sent.map Sending.call := by
  refine (run_invariant (P := fun v => v.client.isCompleted = true ∧
    v.sent.map Sending.call = t.sent.map Sending.call) ?_ ⟨ht, rfl⟩ h).2
  intro v e w hv hstep
  obtain ⟨hw, hcalls⟩ := step_silent hv.1 hstep
  exact ⟨hw, hcalls.trans hv.2⟩

theorem sent_in_place {j : Nat} (h : t.run history = some u) (hfirst : t.sent.length ≤ j)
    (hj : j < u.sent.length) :
    ∃ before c after v, history = before ++ .called c :: after ∧ t.run before = some v ∧
      v.sent.length = j ∧ v.client.isCompleted = false := by
  -- by induction on the history: the first happening sends the call in this place, or a later one
  induction history generalizing t with
  | nil =>
    obtain rfl := Option.some.inj h
    omega
  | cons e history ih =>
    obtain ⟨t', hstep, hrun⟩ := Option.bind_eq_some_iff.1 h
    by_cases hlater : t'.sent.length ≤ j
    · obtain ⟨before, c, after, v, rfl, hv, hlength, hopen⟩ := ih hrun hlater
      refine ⟨e :: before, c, after, v, rfl, ?_, hlength, hopen⟩
      rw [run, hstep]
      exact hv
    · obtain ⟨c, rfl, hopen, rfl⟩ | ⟨c, -, -, rfl⟩ | ⟨place, reply, c, -, -, rfl⟩ := step_cases hstep
      · refine ⟨[], c, history, t, rfl, rfl, ?_, hopen⟩
        rw [List.length_append, List.length_singleton] at hlater
        omega
      · omega
      · rw [List.length_set] at hlater
        omega

/-- No call is made while a commit or a rollback that will succeed waits for its reply. -/
def Patient (d : Dialect) (history : List Happening) (u : Traffic) : Prop :=
  ∀ before c after t, history = before ++ .called c :: after → (fresh d).run before = some t →
    ∀ (i : Nat) (x y : Sending), t.sent[i]? = some x → x.reply = none → u.sent[i]? = some y →
      y.ends = false

/-- Nothing is sent after a call that ends the transaction. -/
def Silent (t : Traffic) : Prop := t.sent.Pairwise fun x _ => x.ends = false

theorem silent_iff (t : Traffic) : t.Silent ↔
    ∀ (i j : Nat) (x : Sending), i < j → j < t.sent.length → t.sent[i]? = some x →
      x.ends = false := by
  rw [Silent, List.pairwise_iff_getElem]
  constructor
  · intro h i j x hij hj hx
    obtain ⟨hi, rfl⟩ := List.getElem?_eq_some_iff.1 hx
    exact h i j hi hj hij
  · intro h i j hi hj hij
    exact h i j _ hij hj (List.getElem?_eq_getElem hi)

/-- Where a call sends something, a call before it that ends the transaction must still have been
under way. -/
theorem silent_of_patient (h : (fresh d).run history = some u) (hpatient : Patient d history u) :
    u.Silent := by
  rw [silent_iff]
  intro i j y hij hj hy
  -- look at the client when the later of the two calls is made
  obtain ⟨before, c, after, v, rfl, hv, hlength, hopen⟩ := sent_in_place h (Nat.zero_le j) hj
  have hrest := run_rest h hv
  have hi : i < v.sent.length := by omega
  obtain ⟨y', hy', -, hkept⟩ := run_extends hrest i _ (List.getElem?_eq_getElem hi)
  obtain rfl : y' = y := Option.some.inj (hy'.symm.trans hy)
  cases hreply : v.sent[i].reply with
  | none => exact hpatient _ c after v rfl hv i _ _ (List.getElem?_eq_getElem hi) hreply hy
  | some reply =>
    -- a reply that came before would have completed the client
    have hnone : v.sent.any Sending.ends = false := by
      rw [← run_tallies hv]
      exact hopen
    obtain rfl := hkept (by rw [hreply]; rfl)
    simpa using List.any_eq_false.1 hnone _ (List.getElem_mem hi)

theorem patient_of_silent (h : (fresh d).run history = some u) (hsilent : u.Silent) :
    Patient d history u := by
  rw [silent_iff] at hsilent
  rintro before c after t rfl ht i x y hx hwaiting hy
  obtain ⟨t', hstep, hrun⟩ := Option.bind_eq_some_iff.1 (run_rest h ht)
  obtain ⟨hi, -⟩ := List.getElem?_eq_some_iff.1 hx
  obtain ⟨c, -, -, rfl⟩ | ⟨c, -, hcompleted, rfl⟩ | ⟨place, reply, c, hcalled, -, -⟩ :=
    step_cases hstep
  · -- the call itself is sent after the one under way
    obtain ⟨z, hz, -⟩ := run_extends hrun t.sent.length ⟨c, none⟩ List.getElem?_concat_length
    obtain ⟨hlast, -⟩ := List.getElem?_eq_some_iff.1 hz
    exact hsilent i t.sent.length y hi hlast hy
  · -- another call has ended the transaction, before or after the one under way was sent
    rw [run_tallies ht] at hcompleted
    obtain ⟨z, hz, hends⟩ := List.any_eq_true.1 hcompleted
    obtain ⟨k, hk, rfl⟩ := List.getElem_of_mem hz
    obtain ⟨z, hz, -, hkept⟩ := run_extends hrun k _ (List.getElem?_eq_getElem hk)
    have hreplied : t'.sent[k].reply.isSome := by
      cases hreply : t'.sent[k].reply with
      | some reply => rfl
      | none =>
        rw [Sending.ends, Sending.exchange?, hreply] at hends
        cases hends
    obtain rfl := hkept hreplied
    obtain hlt | rfl | hgt := Nat.lt_trichotomy i k
    · obtain ⟨hlast, -⟩ := List.getElem?_eq_some_iff.1 hz
      exact hsilent i k y hlt hlast hy
    · obtain rfl : t'.sent[i] = x := Option.some.inj ((List.getElem?_eq_getElem hi).symm.trans hx)
      rw [hwaiting] at hreplied
      cases hreplied
    · obtain ⟨hlast, -⟩ := List.getElem?_eq_some_iff.1 hy
      rw [hsilent k i _ hgt hlast hz] at hends
      cases hends
  · cases hcalled

/-- A completed client is silent, however calls and replies are mixed. Where no call is made while
a commit or a rollback that will succeed is under way, at most one of them succeeds, and nothing is
sent after it. -/
theorem silent_after (d : Dialect) (history : List Happening) (u : Traffic)
    (h : (fresh d).run history = some u) :
    (∀ before after t, history = before ++ after → (fresh d).run before = some t →
      t.sent.any Sending.ends = true →
        u.sent.map Sending.call = t.sent.map Sending.call ∧ ∀ c, t.client.start c = c.silence) ∧
    (Patient d history u → u.Silent ∧ ∀ (i j : Nat) (x y : Sending), u.sent[i]? = some x →
      u.sent[j]? = some y → x.ends = true → y.ends = true → i = j) := by
  constructor
  · rintro before after t rfl ht hended
    rw [← run_tallies ht] at hended
    refine ⟨run_silent hended (run_rest h ht), ?_⟩
    intro c
    obtain ⟨⟨d', completed⟩, sent⟩ := t
    obtain rfl : completed = true := hended
    exact Client.start_completed d' c
  · intro hpatient
    have hsilent := silent_of_patient h hpatient
    refine ⟨hsilent, ?_⟩
    rw [silent_iff] at hsilent
    intro i j x y hx hy hxends hyends
    obtain ⟨hi, -⟩ := List.getElem?_eq_some_iff.1 hx
    obtain ⟨hj, -⟩ := List.getElem?_eq_some_iff.1 hy
    -- behind the first statement that ends the transaction there is no other
    obtain hlt | heq | hgt := Nat.lt_trichotomy i j
    · rw [hsilent i j x hlt hj hx] at hxends
      cases hxends
    · exact heq
    · rw [hsilent j i y hgt hi hy] at hyends
      cases hyends

/-- A commit that is called while a query is under way, and calls after its reply. -/
def answeredCommit : List Happening :=
  [.called (.query "SELECT 1" []), .called .commit, .replied 1 .nothing,
    .called (.query "SELECT 2" []), .replied 0 .nothing, .called .rollback]

def answeredTraffic : Traffic :=
  ⟨⟨.make .postgres none, true⟩, [⟨.query "SELECT 1" [], some .nothing⟩, ⟨.commit, some .nothing⟩]⟩

theorem silent_after_answeredCommit :
    (fresh (.make .postgres none)).run answeredCommit = some answeredTraffic ∧
      Patient (.make .postgres none) answeredCommit answeredTraffic ∧
      (∀ before after t, answeredCommit = before ++ after →
        (fresh (.make .postgres none)).run before = some t → t.sent.any Sending.ends = true →
          answeredTraffic.sent.map Sending.call = t.sent.map Sending.call ∧
          ∀ c, t.client.start c = c.silence) ∧
      answeredTraffic.Silent := by
  have hsilent : answeredTraffic.Silent := List.pairwise_pair.2 rfl
  have hpatient : Patient (.make .postgres none) answeredCommit answeredTraffic :=
    patient_of_silent rfl hsilent
  have hboth := silent_after (.make .postgres none) answeredCommit answeredTraffic rfl
  exact ⟨rfl, hpatient, hboth.1, (hboth.2 hpatient).1⟩

/-- Calls that do not wait for a commit. -/
def racingCalls : List Happening :=
  [.called .commit, .called (.query "SELECT 1" []), .called .commit, .replied 0 .nothing,
    .replied 1 .nothing, .replied 2 .nothing]

/-- The text of a commit as a query, and a commit after its reply. -/
def writtenFirst : List Happening :=
  [.called (.query "COMMIT" []), .replied 0 .nothing, .called .commit, .replied 1 .nothing]

/-- The client is not completed while a commit is under way: a query follows it, and another commit
succeeds. And a query is not looked into. -/
theorem racingCalls_go_on :
    (∃ u, (fresh (.make .postgres none)).run racingCalls = some u ∧
      u.sent.map Sending.call = [.commit, .query "SELECT 1" [], .commit] ∧
      u.sent.map Sending.ends = [true, false, true]) ∧
    ∃ u, (fresh (.make .postgres none)).run writtenFirst = some u ∧
      u.sent.map Sending.call = [.query "COMMIT" [], .commit] ∧
      (u.sent.filterMap Sending.exchange?).map Exchange.closes = [true, true] :=
  ⟨⟨_, rfl, rfl, rfl⟩, _, rfl, rfl, rfl⟩

/-- A call that is waited for is a call and, where it sent something, its reply at once. -/
theorem callClient_run {s : Session} (h : s.client = some t.client) (c : ClientCall) :
    (t.run [.called c] = some t ∧ Run.callClient c s = (c.refusal, s)) ∨
      t.client.isCompleted = false ∧ ∃ reply u s',
        t.run [.called c, .replied t.sent.length reply] = some u ∧
        u.sent = t.sent ++ [⟨c, some reply⟩] ∧ Run.callClient c s = (reply.result, s') ∧
        s'.client = some u.client ∧ s.Exchanged [c.exchange reply] s' := by
  obtain ⟨⟨d, completed⟩, sent⟩ := t
  cases completed with
  | true =>
    refine .inl ⟨?_, Run.callClient_completed h c⟩
    cases c <;> rfl
  -- the call is sent and replied to before anything else happens
  | false =>
    obtain ⟨reply, s', hcall, hexchanged, hclient⟩ := Run.callClient_open h c
    have hsent : step ⟨⟨d, false⟩, sent⟩ (.called c) = some ⟨⟨d, false⟩, sent ++ [⟨c, none⟩]⟩ := by
      cases c <;> rfl
    have hset : (sent ++ [Sending.mk c none]).set sent.length ⟨c, some reply⟩ =
        sent ++ [⟨c, some reply⟩] := by
      rw [List.set_append_right _ _ (Nat.le_refl _), Nat.sub_self]
      rfl
    have hreplied : step ⟨⟨d, false⟩, sent ++ [⟨c, none⟩]⟩ (.replied sent.length reply) =
        some ⟨⟨d, (c.exchange reply).ends⟩, sent ++ [⟨c, some reply⟩]⟩ := by
      rw [step, List.getElem?_concat_length]
      dsimp only
      rw [hset, Client.settle_eq, Bool.false_or]
    refine .inr ⟨rfl, reply, ⟨⟨d, (c.exchange reply).ends⟩, sent ++ [⟨c, some reply⟩]⟩, s', ?_, rfl,
      hcall, hclient, hexchanged⟩
    rw [run, hsent, Option.bind_some, run, hreplied]
    rfl

end Traffic

theorem Callback.overlaps {α : Type} (callback : Callback α) {d : Dialect} {s s' : Session}
    {t : Traffic} {before : List Happening} (ht : (Traffic.fresh d).run before = some t)
    (hsilent : t.Silent) (hs : s.Exchanged (t.sent.filterMap Sending.exchange?) s')
    (hclient : s'.client = some t.client) :
    ∃ history r u s'', callback.run s' = (r, s'') ∧ (Traffic.fresh d).run history = some u ∧
      u.Silent ∧ s.Exchanged (u.sent.filterMap Sending.exchange?) s'' ∧
      s''.client = some u.client := by
  -- the history is put together call by call; a call that is refused is in it too
  induction callback generalizing t before s' with
  | finish outcome => exact ⟨before, outcome, t, s', rfl, ht, hsilent, hs, hclient⟩
  | call c next ih =>
    obtain ⟨hrun, hcall⟩ | ⟨hopen, reply, u, s'', hrun, hsent, hcall, hclient', hexchanged⟩ :=
      Traffic.callClient_run hclient c
    · have ht' : (Traffic.fresh d).run (before ++ [.called c]) = some t := by
        rw [Traffic.run_append, ht]
        exact hrun
      obtain ⟨history, r, u, s'', hnext, hu⟩ := ih c.refusal ht' hsilent hs hclient
      refine ⟨history, r, u, s'', ?_, hu⟩
      rw [run, Run.bind_ok (Run.outcome_apply hcall), hnext]
    · have ht' : (Traffic.fresh d).run
          (before ++ [.called c, .replied t.sent.length reply]) = some u := by
        rw [Traffic.run_append, ht]
        exact hrun
      have hsilent' : u.Silent := by
        -- the client was open, so no call before this one has ended the transaction
        have hnone : t.sent.any Sending.ends = false := by
          rw [← Traffic.run_tallies ht]
          exact hopen
        rw [Traffic.Silent, hsent, List.pairwise_append]
        refine ⟨hsilent, List.pairwise_singleton _ _, ?_⟩
        intro x hx _ _
        simpa using List.any_eq_false.1 hnone x hx
      have hs' : s.Exchanged (u.sent.filterMap Sending.exchange?) s'' := by
        rw [hsent, List.filterMap_append]
        exact hs.append hexchanged
      obtain ⟨history, r, u, s'', hnext, hu⟩ := ih reply.result ht' hsilent' hs' hclient'
      refine ⟨history, r, u, s'', ?_, hu⟩
      rw [run, Run.bind_ok (Run.outcome_apply hcall), hnext]

/-- A callback that waits for each call is patient. -/
theorem Callback.patient {α : Type} (callback : Callback α) {d : Dialect} {s : Session}
    (h : s.client = some ⟨d, false⟩) :
    ∃ history r u s', callback.run s = (r, s') ∧ (Traffic.fresh d).run history = some u ∧
      Traffic.Patient d history u ∧ s.Exchanged (u.sent.filterMap Sending.exchange?) s' := by
  have hfresh : (Traffic.fresh d).run [] = some (Traffic.fresh d) := rfl
  obtain ⟨history, r, u, s', hrun, hu, hsilent, hexchanged, -⟩ :=
    callback.overlaps hfresh .nil (.refl s) h
  exact ⟨history, r, u, s', hrun, hu, Traffic.patient_of_silent hu hsilent, hexchanged⟩

end PolyQuery
