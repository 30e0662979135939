import PolyQuery.Proofs.Batches

/-! What a session keeps while queries run and relations are loaded. The schema, the modifiers and
the signal stay, the servers that allow blocking are the same, and the journal only grows:
`Session.Onward`. Statements leave the store as well: `Session.Served`. -/
namespace PolyQuery

/-- What queries and loads keep of a session. -/
structure Session.Onward (σ τ : Session) : Prop where
  models : τ.models = σ.models
  modifiers : τ.modifiers = σ.modifiers
  connections : τ.connections = σ.connections
  lifetime : τ.relationLifetime = σ.relationLifetime
  signal : τ.signal = σ.signal
  blocking : ∀ name, (τ.links.lookup name).map ServerLink.blocking =
    (σ.links.lookup name).map ServerLink.blocking
  journal : σ.journal <+: τ.journal

/-- What statements keep of a session: they do not touch its records either. -/
structure Session.Served (σ τ : Session) : Prop extends σ.Onward τ where
  store : τ.store = σ.store

namespace Session
variable {σ τ υ : Session}

theorem Onward.refl (σ : Session) : σ.Onward σ :=
  ⟨rfl, rfl, rfl, rfl, rfl, fun _ => rfl, List.prefix_rfl⟩

theorem Onward.trans (h : σ.Onward τ) (h' : τ.Onward υ) : σ.Onward υ where
  models := h'.models.trans h.models
  modifiers := h'.modifiers.trans h.modifiers
  connections := h'.connections.trans h.connections
  lifetime := h'.lifetime.trans h.lifetime
  signal := h'.signal.trans h.signal
  blocking name := (h'.blocking name).trans (h.blocking name)
  journal := h.journal.trans h'.journal

theorem Served.refl (σ : Session) : σ.Served σ := ⟨.refl σ, rfl⟩

theorem Served.trans (h : σ.Served τ) (h' : τ.Served υ) : σ.Served υ :=
  ⟨h.toOnward.trans h'.toOnward, h'.store.trans h.store⟩

/-- The channel on which a query would run: its own, that of its connection, or the shared pool. -/
def channel? (σ : Session) (b : Builder) : Option Channel :=
  (b.channel.or (σ.connections.lookup b.connection)).or
    (if b.connection = defaultConnection then some .pool else none)

theorem Onward.channel? (h : σ.Onward τ) (b : Builder) : τ.channel? b = σ.channel? b := by
  unfold Session.channel?
  rw [h.connections]

end Session

namespace Run
variable {α β : Type} {R : Session → Session → Prop}

/-- In every session an action leads only to sessions that a relation allows. -/
def Obeys (R : Session → Session → Prop) (x : Run α) : Prop := ∀ σ, R σ (x σ).2

theorem Obeys.bind {x : Run α} {f : α → Run β}
    (htrans : ∀ {σ τ υ}, R σ τ → R τ υ → R σ υ) (hx : Obeys R x) (hf : ∀ a, Obeys R (f a)) :
    Obeys R (x >>= f) := by
  intro σ
  have hfirst := hx σ
  rw [bind_apply]
  rcases hstep : x σ with ⟨e | a, τ⟩
  · rw [hstep] at hfirst
    exact hfirst
  · rw [hstep] at hfirst
    exact htrans hfirst (hf a τ)

/-- An action on the session that leaves what statements leave. -/
abbrev Serves (x : Run α) : Prop := Obeys Session.Served x

/-- An action on the session that leaves what loads leave. -/
abbrev Proceeds (x : Run α) : Prop := Obeys Session.Onward x

theorem Serves.proceeds {x : Run α} (h : Serves x) : Proceeds x := fun σ => (h σ).toOnward

theorem Serves.bind {x : Run α} {f : α → Run β} (hx : Serves x) (hf : ∀ a, Serves (f a)) :
    Serves (x >>= f) := Obeys.bind Session.Served.trans hx hf

theorem Proceeds.bind {x : Run α} {f : α → Run β} (hx : Proceeds x) (hf : ∀ a, Proceeds (f a)) :
    Proceeds (x >>= f) := Obeys.bind Session.Onward.trans hx hf

/-! ## Statements -/

theorem serves_ofExcept (x : Except Error α) : Serves (ofExcept x) := fun σ => .refl σ

theorem serves_pure (a : α) : Serves (pure a : Run α) := fun σ => .refl σ

theorem serves_session : Serves session := fun σ => .refl σ

theorem serves_fail (e : Error) : Serves (fail e : Run α) := fun σ => .refl σ

theorem serves_note (e : Event) : Serves (note e) := fun _ =>
  ⟨⟨rfl, rfl, rfl, rfl, rfl, fun _ => rfl, List.prefix_append ..⟩, rfl⟩

theorem serves_log (scope : String) (level : Level) (message : String) (details : List LogDetail) :
    Serves (log scope level message details) := fun _ =>
  ⟨⟨rfl, rfl, rfl, rfl, rfl, fun _ => rfl, List.prefix_rfl⟩, rfl⟩

/-- Opening the pool cannot fail, and sends no statement. -/
theorem openPool_apply (σ : Session) : ∃ pool opened,
    openPool σ = (.ok (), { σ with pool := pool, journal := σ.journal ++ opened }) ∧
      (opened = [] ∨ opened = [.poolOpened]) := by
  rw [openPool, bind_ok (session_apply σ)]
  cases hopen : σ.pool.isOpen with
  | true => exact ⟨σ.pool, [], by rw [List.append_nil]; rfl, .inl rfl⟩
  | false => exact ⟨_, [.poolOpened], rfl, .inr rfl⟩

theorem serves_openPool : Serves openPool := by
  intro σ
  obtain ⟨pool, opened, hopen, _⟩ := openPool_apply σ
  rw [hopen]
  exact ⟨⟨rfl, rfl, rfl, rfl, rfl, fun _ => rfl, List.prefix_append ..⟩, rfl⟩

theorem serves_poolReply : Serves poolReply := by
  intro σ
  unfold poolReply ofState
  dsimp only
  split
  · exact ⟨⟨rfl, rfl, rfl, rfl, rfl, fun _ => rfl, List.prefix_rfl⟩, rfl⟩
  · exact .refl σ

/-- The servers of a name get other replies, and the others stay. -/
theorem lookup_setReplies (links : List (String × ServerLink)) (name : String)
    (replies : List Reply) (other : String) : (setReplies links name replies).lookup other =
      if other = name then (links.lookup other).map fun l => { l with replies := replies }
      else links.lookup other := by
  induction links with
  | nil =>
    split <;> rfl
  | cons link rest ih =>
    obtain ⟨n, l⟩ := link
    rw [setReplies, List.map_cons, ← setReplies, Record.lookup_cons_eq]
    by_cases hn : n = name
    · subst hn
      rw [if_pos rfl, Record.lookup_cons_eq, ih]
      split <;> rfl
    · rw [if_neg hn, Record.lookup_cons_eq, ih]
      by_cases hother : other = n
      · rw [if_pos hother, if_pos hother, if_neg (hother ▸ hn)]
      · rw [if_neg hother, if_neg hother]

theorem serves_linkReply (name : String) : Serves (linkReply name) := by
  intro σ
  unfold linkReply ofState
  dsimp only
  split
  · split
    · refine ⟨⟨rfl, rfl, rfl, rfl, rfl, fun other => ?_, List.prefix_rfl⟩, rfl⟩
      rw [lookup_setReplies]
      split
      · exact Option.map_map ..
      · rfl
    · exact .refl σ
  · exact .refl σ

theorem serves_queryPool (sql : String) (parameters : List Value) :
    Serves (queryPool sql parameters) := by
  unfold queryPool
  refine (serves_note _).bind fun _ => serves_poolReply.bind fun reply => ?_
  split
  · exact serves_pure _
  · exact Serves.bind (serves_log _ _ _ _) fun _ => serves_fail _

theorem serves_queryLink (name sql : String) (parameters : List Value) :
    Serves (queryLink name sql parameters) := by
  have hcounted : Serves (update fun s => { s with served := s.served + 1 }) := fun _ =>
    ⟨⟨rfl, rfl, rfl, rfl, rfl, fun _ => rfl, List.prefix_rfl⟩, rfl⟩
  exact (serves_note _).bind fun _ => hcounted.bind fun _ =>
    (serves_linkReply name).bind fun reply => serves_ofExcept _

theorem serves_callClient (c : ClientCall) : Serves (callClient c) := by
  have hsend (sql : String) (parameters : Option (List Value)) :
      Serves (outcome (sendOnClient sql parameters)) :=
    ((serves_note _).bind fun _ => serves_poolReply.bind fun _ => serves_ofExcept _ :
      Serves (sendOnClient sql parameters))
  have hsettled (f : Client → Client) :
      Serves (update fun s => { s with client := s.client.map f }) := fun _ =>
    ⟨⟨rfl, rfl, rfl, rfl, rfl, fun _ => rfl, List.prefix_rfl⟩, rfl⟩
  have hclient : Serves client := fun σ => .refl σ
  unfold callClient
  refine hclient.bind fun before => ?_
  split
  · exact serves_fail _
  · exact serves_pure _
  · exact (hsend _ _).bind fun reply => (hsettled _).bind fun _ => serves_ofExcept _

/-- A connection is looked up, and the shared pool may be opened for it. -/
theorem obeys_channelOf (hrefl : ∀ σ, R σ σ) (htrans : ∀ {σ τ υ}, R σ τ → R τ υ → R σ υ)
    (hopen : Obeys R openPool) (name : String) : Obeys R (channelOf name) := by
  unfold channelOf
  refine Obeys.bind htrans (fun σ => hrefl σ) fun s => ?_
  split
  · exact fun σ => hrefl σ
  · split
    · exact Obeys.bind htrans hopen fun _ => fun σ => hrefl σ
    · exact fun σ => hrefl σ

theorem obeys_builderChannel (hrefl : ∀ σ, R σ σ) (htrans : ∀ {σ τ υ}, R σ τ → R τ υ → R σ υ)
    (hopen : Obeys R openPool) (b : Builder) : Obeys R (builderChannel b) := by
  unfold builderChannel
  split
  · exact fun σ => hrefl σ
  · exact obeys_channelOf hrefl htrans hopen _

theorem serves_channelOf (name : String) : Serves (channelOf name) :=
  obeys_channelOf .refl .trans serves_openPool name

theorem serves_builderChannel (b : Builder) : Serves (builderChannel b) :=
  obeys_builderChannel .refl .trans serves_openPool b

/-- The channel of a query is found, or there is no connection of its name. The shared pool may be
opened on the way. -/
theorem builderChannel_apply (b : Builder) (σ : Session) : ∃ pool opened,
    builderChannel b σ =
      (match σ.channel? b with
        | some c => .ok c
        | none => .error (.invalidPlan (.connectionMissing b.connection)),
        { σ with pool := pool, journal := σ.journal ++ opened }) ∧
      (opened = [] ∨ opened = [.poolOpened]) := by
  have hsame (c : Except Error Channel) : ((c, σ) : Except Error Channel × Session) =
      (c, { σ with pool := σ.pool, journal := σ.journal ++ [] }) := by rw [List.append_nil]
  unfold builderChannel Session.channel?
  cases b.channel with
  | some c => exact ⟨σ.pool, [], hsame (.ok c), .inl rfl⟩
  | none =>
    dsimp only
    rw [channelOf, bind_ok (session_apply σ)]
    cases σ.connections.lookup b.connection with
    | some c => exact ⟨σ.pool, [], hsame (.ok c), .inl rfl⟩
    | none =>
      dsimp only
      -- only for the default connection a pool is opened, where no connection has this name
      by_cases hdefault : b.connection = defaultConnection
      · obtain ⟨pool, opened, hopen, hopened⟩ := openPool_apply σ
        rw [if_pos hdefault, if_pos hdefault, bind_ok hopen]
        exact ⟨pool, opened, rfl, hopened⟩
      · rw [if_neg hdefault, if_neg hdefault]
        exact ⟨σ.pool, [], hsame (.error _), .inl rfl⟩

theorem serves_dialectOf (c : Channel) : Serves (dialectOf c) := fun σ => .refl σ

theorem dialectOf_apply (c : Channel) (σ : Session) : ∃ d, dialectOf c σ = (.ok d, σ) := ⟨_, rfl⟩

theorem serves_canBlock (c : Channel) : Serves (canBlock c) := fun σ => .refl σ

theorem serves_send (c : Channel) (sql : String) (parameters : List Value) :
    Serves (send c sql parameters) := by
  cases c with
  | connection name => exact serves_queryLink name sql parameters
  | pool => exact serves_queryPool sql parameters
  | client => exact serves_callClient _

theorem serves_perform (w : Waiting) (c : Channel) (compiled : Compiled) :
    Serves (perform w c compiled) := by
  have hsent (d : Dialect) : Serves (do
      let s ← session
      let parameters ← ofExcept (bindAll compiled.bindings d s.registry)
      send c compiled.sql parameters) :=
    serves_session.bind fun s => (serves_ofExcept _).bind fun _ => serves_send _ _ _
  unfold perform
  refine (serves_dialectOf c).bind fun d => ?_
  split
  · refine (serves_canBlock c).bind fun can => ?_
    split
    · exact (serves_fail _).bind fun _ => hsent d
    · exact hsent d
  · exact hsent d

theorem serves_fetchRows (w : Waiting) (c : Channel) (fields : Option FieldMap) (p : SelectPlan) :
    Serves (fetchRows w c fields p) :=
  (serves_dialectOf c).bind fun _ => (serves_ofExcept _).bind fun _ =>
    (serves_perform w c _).bind fun _ => serves_session.bind fun _ => serves_ofExcept _

/-! ## Loads -/

theorem proceeds_pure (a : α) : Proceeds (pure a : Run α) := fun σ => .refl σ

theorem proceeds_onStore (f : Store → α × Store) : Proceeds (onStore f) := fun _ =>
  ⟨rfl, rfl, rfl, rfl, rfl, fun _ => rfl, List.prefix_rfl⟩

theorem proceeds_fetchRecords (w : Waiting) (c : Channel) (fields : Option FieldMap)
    (p : SelectPlan) : Proceeds (fetchRecords w c fields p) :=
  (serves_fetchRows w c fields p).proceeds.bind fun _ => proceeds_onStore _

theorem proceeds_warn (w : CrossConnection) : Proceeds (warn w) := by
  have hwarned : Proceeds (update fun s => { s with warnings := s.warnings ++ [w] }) := fun _ =>
    ⟨rfl, rfl, rfl, rfl, rfl, fun _ => rfl, List.prefix_rfl⟩
  exact Proceeds.bind (serves_log _ _ _ _).proceeds fun _ => hwarned

end Run

namespace Loader
open Run
variable {α : Type}

theorem proceeds_keyOf (id : Nat) (property : String) : Proceeds (keyOf id property) :=
  (proceeds_onStore _).bind fun _ =>
    Proceeds.bind ((proceeds_onStore _).bind fun _ => (serves_ofExcept _).proceeds)
      fun _ => proceeds_pure _

theorem proceeds_distinctKeys (property : String) (found : List (String × Value))
    (ids : List Nat) : Proceeds (distinctKeys property found ids) := by
  induction ids generalizing found with
  | nil => exact proceeds_pure _
  | cons id rest ih => exact (proceeds_keyOf id property).bind fun _ => ih _

theorem proceeds_groupChildren (property : String) (groups : List (String × List Nat))
    (ids : List Nat) : Proceeds (groupChildren property groups ids) := by
  induction ids generalizing groups with
  | nil => exact proceeds_pure _
  | cons id rest ih => exact (proceeds_keyOf id property).bind fun _ => ih _

theorem proceeds_bindable (v : Value) : Proceeds (bindable v) :=
  (proceeds_onStore _).bind fun _ => proceeds_pure _

theorem proceeds_mapM_bindable (keys : List (String × Value)) :
    Proceeds (keys.mapM fun k => bindable k.2) := by
  induction keys with
  | nil => exact proceeds_pure _
  | cons k rest ih =>
    rw [List.mapM_cons]
    exact (proceeds_bindable _).bind fun _ => ih.bind fun _ => proceeds_pure _

theorem proceeds_attachAll (step : LoadStep) (lifetime : Option Number)
    (groups : List (String × List Nat)) (parents : List Nat) :
    Proceeds (attachAll step lifetime groups parents) := by
  induction parents with
  | nil => exact proceeds_pure _
  | cons parent rest ih =>
    refine (proceeds_keyOf parent _).bind fun _ => (proceeds_onStore _).bind fun _ => ?_
    split
    · exact Proceeds.bind (proceeds_onStore _) fun _ => ih
    · exact ih

theorem proceeds_attach (step : LoadStep) (parents children : List Nat) :
    Proceeds (attach step parents children) := by
  have hlifetime : Proceeds (lifetimeOf step) := fun σ => .refl σ
  exact hlifetime.bind fun _ => (proceeds_groupChildren _ _ _).bind fun _ =>
    proceeds_attachAll _ _ _ _

theorem proceeds_cancel (ctx : LoadContext) (report : LoadReport) (frames : List LoadFrame) :
    Proceeds (cancel ctx report frames : Run α) := by
  have hreason : Serves abortReason := fun σ => .refl σ
  exact (proceeds_onStore _).bind fun _ => Proceeds.bind (serves_log _ _ _ _).proceeds fun _ =>
    hreason.proceeds.bind fun _ => (serves_fail _).proceeds

theorem Quiet.onward {σ τ : Session} (h : Quiet σ τ) : σ.Onward τ := by
  obtain ⟨_, _, _, _, rfl⟩ := h
  exact ⟨rfl, rfl, rfl, rfl, rfl, fun _ => rfl, List.prefix_rfl⟩

/-- The query of a step does not change. -/
theorem modifiedQuery_onward {σ τ : Session} (h : σ.Onward τ) (s : LoadStep) :
    modifiedQuery τ s = modifiedQuery σ s := by
  unfold modifiedQuery
  rw [h.models, h.modifiers]

variable {fetch : Builder → Run (List Nat)}

theorem proceeds_childQuery (s : LoadStep) (keys : List Value) : Proceeds (childQuery s keys) := by
  have hmodel : Serves (Run.model s.target.name) := by
    refine serves_session.bind fun _ => ?_
    split
    · exact serves_pure _
    · exact serves_fail _
  unfold childQuery
  refine (hmodel.bind fun _ => serves_pure _ : Serves (Run.query _)).proceeds.bind fun b => ?_
  refine serves_session.proceeds.bind fun _ => ?_
  split
  · exact (serves_ofExcept _).proceeds.bind fun _ => proceeds_pure _
  · exact proceeds_pure _

theorem proceeds_loadChildren (hfetch : ∀ b, Proceeds (fetch b)) (ctx : LoadContext)
    (report : LoadReport) (frames : List LoadFrame) (s : LoadStep) (keys : List Value) :
    Proceeds (loadChildren fetch ctx report frames s keys) := by
  have hask : Proceeds (do
      let b ← childQuery s keys
      if ctx.watched && (← Run.isAborted) then cancel ctx report frames
      fetch (directed ctx s b)) := by
    refine (proceeds_childQuery s keys).bind fun b => ?_
    refine Proceeds.bind (fun σ => .refl σ : Proceeds isAborted) fun stop => ?_
    split
    · exact (proceeds_cancel ctx report frames).bind fun _ => hfetch _
    · exact hfetch _
  have hlogged : Proceeds (Run.log "relations" .debug
      ("Loading " ++ s.node.path ++ " for " ++ toString keys.length ++ " key(s)") []) :=
    (serves_log _ _ _ _).proceeds
  unfold loadChildren
  split
  · exact (proceeds_warn _).bind fun _ => hlogged.bind fun _ => hask
  · exact hlogged.bind fun _ => hask

theorem proceeds_visit (hfetch : ∀ b, Proceeds (fetch b)) (ctx : LoadContext)
    (report : LoadReport) (f : LoadFrame) (rest : List LoadFrame) :
    Proceeds (visit fetch ctx report f rest) := by
  unfold visit
  refine (proceeds_distinctKeys _ _ _).bind fun keys => ?_
  refine (proceeds_mapM_bindable keys).bind fun values => ?_
  split
  · exact (proceeds_loadChildren hfetch ctx report _ _ _).bind fun _ =>
      (proceeds_attach _ _ _).bind fun _ => proceeds_pure _
  · exact (proceeds_pure _).bind fun _ => (proceeds_attach _ _ _).bind fun _ => proceeds_pure _

/-- A load keeps what its queries keep. -/
theorem proceeds_run (hfetch : ∀ b, Proceeds (fetch b)) (ctx : LoadContext) (fuel : Nat)
    (report : LoadReport) (frames : List LoadFrame) :
    Proceeds (run fetch ctx fuel report frames) := by
  induction fuel generalizing report frames with
  | zero => exact proceeds_pure _
  | succ fuel ih =>
    cases frames with
    | nil => exact proceeds_pure _
    | cons f rest =>
      rw [run_cons]
      exact (proceeds_visit hfetch ctx report f rest).bind fun _ => ih _ _

theorem proceeds_load (hfetch : ∀ b, Proceeds (fetch b)) (ctx : LoadContext) (roots : List Nat) :
    Proceeds (load fetch ctx roots) := proceeds_run hfetch ctx _ _ _

end Loader

namespace Run

/-- Queries keep what statements and loads keep, however deep loads are nested. -/
theorem proceeds_allWithin (w : Waiting) (fuel : Nat) (watched : Bool) (b : Builder) :
    Proceeds (allWithin w fuel watched b) := by
  induction fuel generalizing watched b with
  | zero => exact proceeds_pure _
  | succ fuel ih =>
    unfold allWithin
    refine serves_session.proceeds.bind fun s => (serves_ofExcept _).proceeds.bind fun plan? => ?_
    refine (serves_builderChannel b).proceeds.bind fun c => ?_
    refine (proceeds_fetchRecords w c b.fields b.plan).bind fun ids => ?_
    split
    · exact (Loader.proceeds_load (ih _) _ _).bind fun _ => proceeds_pure _
    · exact proceeds_pure _

end Run
end PolyQuery
