import PolyQuery.Proofs.Sending
import PolyQuery.Proofs.Terminals

/-! Replies that wait for statements. A statement takes the first reply that waits on its channel,
and changes nothing on which a later statement depends: `Run.send_reply`. So the statements of a
table are answered in the order in which they are sent, each on the channel of the one before:
`Table.send_reply`, `Table.target_again`. -/
namespace PolyQuery

namespace Session

/-- The replies that wait on a channel. -/
def repliesOn (σ : Session) : Channel → List Reply
  | .connection name => ((σ.links.lookup name).map ServerLink.replies).getD []
  | .pool => σ.pool.replies
  | .client => σ.pool.replies

/-- The dialect of the server behind a channel. -/
def dialectOn (σ : Session) : Channel → Dialect
  | .connection name => ((σ.links.lookup name).map ServerLink.dialect).getD (.make .sqlite none)
  | .pool => σ.pool.dialect
  | .client => (σ.client.map Client.dialect).getD (.make .postgres none)

/-- A channel takes statements, unless it is that of a transaction that is completed or of none. -/
def Takes (σ : Session) (c : Channel) : Prop := c = .client → ∃ d, σ.client = some ⟨d, false⟩

/-- From one session to the other, a reply on a channel was taken. -/
structure Spends (σ : Session) (c : Channel) (τ : Session) : Prop where
  replies : τ.repliesOn c = (σ.repliesOn c).drop 1
  dialect : τ.dialectOn c = σ.dialectOn c
  models : τ.models = σ.models
  connections : τ.connections = σ.connections
  registry : τ.registry = σ.registry
  store : τ.store = σ.store
  client : τ.client = σ.client
  isOpen : τ.pool.isOpen = σ.pool.isOpen

theorem Spends.takes {σ τ : Session} {c : Channel} (h : σ.Spends c τ) (htakes : σ.Takes c) :
    τ.Takes c := fun hc => h.client ▸ htakes hc

end Session

namespace Run
variable {σ : Session} {d : Dialect} {c : Channel}

theorem openPool_open (h : σ.pool.isOpen = true) : openPool σ = (.ok (), σ) := by
  rw [openPool, bind_ok (session_apply σ), h]
  rfl

theorem isOpen_openPool (σ : Session) : (openPool σ).2.pool.isOpen = true := by
  cases hopen : σ.pool.isOpen with
  | true => rw [openPool_open hopen, hopen]
  | false =>
    rw [openPool, bind_ok (session_apply σ), hopen]
    rfl

/-- A channel that was found is found again, as the pool is open by then if it is the shared one. -/
theorem channelOf_again {name : String} {τ υ : Session} (h : channelOf name σ = (.ok c, τ))
    (hconnections : υ.connections = τ.connections) (hopen : υ.pool.isOpen = τ.pool.isOpen) :
    channelOf name υ = (.ok c, υ) := by
  have hkept : τ.connections = σ.connections := by
    have hserved := (serves_channelOf name σ).connections
    rwa [h] at hserved
  rw [channelOf, bind_ok (session_apply υ), hconnections, hkept]
  rw [channelOf, bind_ok (session_apply σ)] at h
  cases hlookup : σ.connections.lookup name with
  | some found =>
    rw [hlookup] at h
    cases h
    rfl
  | none =>
    rw [hlookup] at h
    dsimp only at h ⊢
    -- the pool was opened the first time, and stays open
    by_cases hdefault : name = defaultConnection
    · rw [if_pos hdefault] at h ⊢
      obtain ⟨pool, opened, hopened, -⟩ := openPool_apply σ
      have hthere := isOpen_openPool σ
      rw [hopened] at hthere
      rw [bind_ok hopened] at h
      cases h
      rw [bind_ok (openPool_open (hopen.trans hthere))]
      rfl
    · rw [if_neg hdefault] at h
      cases h

theorem dialectOf_eq (c : Channel) (σ : Session) : dialectOf c σ = (.ok (σ.dialectOn c), σ) := by
  cases c <;> rfl

/-- Taking a reply of a connection leaves the further replies of its server. -/
theorem linkReply_next (name : String) (σ : Session) : ∃ links,
    linkReply name σ = (.ok ((σ.repliesOn (.connection name)).head?.getD .nothing),
      { σ with links := links }) ∧
    links.lookup name =
      (σ.links.lookup name).map fun l => { l with replies := l.replies.drop 1 } := by
  unfold linkReply ofState Session.repliesOn
  dsimp only
  cases hlink : σ.links.lookup name with
  | none => exact ⟨σ.links, rfl, hlink⟩
  | some link =>
    obtain ⟨dialect, blocking, replies⟩ := link
    cases replies with
    | nil => exact ⟨σ.links, rfl, hlink⟩
    | cons r rest => exact ⟨_, rfl, by rw [lookup_setReplies, if_pos rfl, hlink]; rfl⟩

theorem queryLink_reply (name sql : String) (parameters : List Value) (σ : Session) :
    ∃ τ, queryLink name sql parameters σ =
        (((σ.repliesOn (.connection name)).head?.getD .nothing).result, τ) ∧
      σ.Spends (.connection name) τ := by
  let noted : Session := { σ with journal := σ.journal ++ [.sent name sql parameters] }
  let counted : Session := { noted with served := σ.served + 1 }
  have hnoted : note (.sent name sql parameters) σ = (.ok (), noted) := rfl
  have hcounted : update (fun s => { s with served := s.served + 1 }) noted = (.ok (), counted) :=
    rfl
  obtain ⟨links, hreply, hlinks⟩ := linkReply_next name counted
  refine ⟨{ counted with links := links }, ?_, ⟨?_, ?_, rfl, rfl, rfl, rfl, rfl, rfl⟩⟩
  · rw [queryLink, bind_ok hnoted, bind_ok hcounted, bind_ok hreply]
    rfl
  · change ((links.lookup name).map ServerLink.replies).getD [] =
      (((σ.links.lookup name).map ServerLink.replies).getD []).drop 1
    rw [hlinks]
    cases σ.links.lookup name <;> rfl
  · change ((links.lookup name).map ServerLink.dialect).getD _ =
      ((σ.links.lookup name).map ServerLink.dialect).getD _
    rw [hlinks]
    cases σ.links.lookup name <;> rfl

theorem queryPool_reply (sql : String) (parameters : List Value) (σ : Session) :
    ∃ τ, queryPool sql parameters σ =
        (((σ.repliesOn .pool).head?.getD .nothing).result, τ) ∧ σ.Spends .pool τ := by
  have hnoted : note (.poolQuery sql parameters) σ =
    (.ok (), { σ with journal := σ.journal ++ [.poolQuery sql parameters] }) := rfl
  have hreply := poolReply_apply { σ with journal := σ.journal ++ [.poolQuery sql parameters] }
  have hwaiting : σ.repliesOn .pool = σ.pool.replies := rfl
  rw [queryPool, bind_ok hnoted, bind_ok hreply, hwaiting]
  dsimp only
  cases (σ.pool.replies.head?.getD .nothing).result with
  | ok result => exact ⟨_, rfl, ⟨rfl, rfl, rfl, rfl, rfl, rfl, rfl, rfl⟩⟩
  | error e => exact ⟨_, rfl, ⟨rfl, rfl, rfl, rfl, rfl, rfl, rfl, rfl⟩⟩

theorem callClient_reply (sql : String) (parameters : List Value)
    (h : σ.client = some ⟨d, false⟩) : ∃ τ, callClient (.query sql parameters) σ =
      (((σ.repliesOn .client).head?.getD .nothing).result, τ) ∧ σ.Spends .client τ := by
  have hclient : client σ = (.ok ⟨d, false⟩, σ) := by
    show (Except.ok (σ.client.getD _), σ) = _
    rw [h]
    rfl
  let noted : Session := { σ with journal := σ.journal ++ [.clientQuery sql (some parameters)] }
  have hnoted : note (.clientQuery sql (some parameters)) σ = (.ok (), noted) := rfl
  have hsent : sendOnClient sql (some parameters) σ =
      ((σ.pool.replies.head?.getD .nothing).result, (poolReply noted).2) := by
    rw [sendOnClient, bind_ok hnoted, bind_ok (poolReply_apply noted), poolReply_apply]
    rfl
  rw [callClient, bind_ok hclient, Client.start, if_neg Bool.false_ne_true]
  dsimp only
  rw [bind_ok (outcome_apply hsent), poolReply_apply]
  -- a query leaves its client as it was
  refine ⟨_, rfl, rfl, ?_, rfl, rfl, rfl, rfl, ?_, rfl⟩
  · show (Option.map Client.dialect (σ.client.map _)).getD _ = _
    rw [Option.map_map]
    rfl
  · exact Option.map_id'

/-- What comes of a statement is what the first reply that waits on its channel says. -/
theorem send_reply (h : σ.Takes c) (sql : String) (parameters : List Value) : ∃ τ,
    send c sql parameters σ = (((σ.repliesOn c).head?.getD .nothing).result, τ) ∧ σ.Spends c τ := by
  cases c with
  | connection name => exact queryLink_reply name sql parameters σ
  | pool => exact queryPool_reply sql parameters σ
  | client =>
    obtain ⟨d, hclient⟩ := h rfl
    exact callClient_reply sql parameters hclient

end Run

namespace Table
variable {t : Table} {σ τ υ : Session} {c : Channel} {compiled : Compiled}
  {parameters : List Value}

theorem served_target (h : t.target σ = (.ok c, τ)) : σ.Served τ := by
  have hserved := Run.serves_builderChannel t.builder σ
  rwa [← target_eq, h] at hserved

/-- The channel of a table stays the same for the statement after another one. -/
theorem target_again (h : t.target σ = (.ok c, τ)) (hspends : τ.Spends c υ) :
    t.target υ = (.ok c, υ) := by
  unfold target at *
  cases hchannel : t.channel with
  | some own =>
    rw [hchannel] at h
    cases h
    rfl
  | none =>
    rw [hchannel] at h
    exact Run.channelOf_again h hspends.connections hspends.isOpen

/-- A statement that can be sent is answered by the first reply that waits on its channel. -/
theorem send_reply (statement : Dialect → Statement) (htarget : t.target σ = (.ok c, τ))
    (htakes : τ.Takes c)
    (hcompile : compile (τ.dialectOn c) (statement (τ.dialectOn c)) = .ok compiled)
    (hbind : bindAll compiled.bindings (τ.dialectOn c) τ.registry = .ok parameters)
    {rows : List Row} {count : Option Number}
    (hreply : (τ.repliesOn c).head? = some (.rows rows count)) :
    ∃ υ, t.send statement σ =
        (.ok (τ.dialectOn c, ⟨rows, count.getD (.int rows.length)⟩), υ) ∧ τ.Spends c υ := by
  obtain ⟨υ, hsend, hspends⟩ := Run.send_reply htakes compiled.sql parameters
  have hperform : Run.perform .awaiting c compiled τ = Run.send c compiled.sql parameters τ := by
    rw [Run.perform, Run.bind_ok (Run.dialectOf_eq c τ), if_neg (by decide)]
    dsimp only
    rw [Run.bind_ok (Run.session_apply τ), Run.bind_ok (Run.ofExcept_ok hbind τ)]
  rw [hreply] at hsend
  have hdone := hperform.trans hsend
  refine ⟨υ, ?_, hspends⟩
  rw [send, Run.bind_ok htarget, Run.bind_ok (Run.dialectOf_eq c τ),
    Run.bind_ok (Run.ofExcept_ok hcompile τ), Run.bind_ok hdone]
  rfl

end Table
end PolyQuery
