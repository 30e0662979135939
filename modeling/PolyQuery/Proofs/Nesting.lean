import Mathlib.Algebra.Order.BigOperators.Group.Finset
import PolyQuery.Proofs.Loading
import PolyQuery.Proofs.Replies
import PolyQuery.Proofs.Twin

/-! How deep loads are nested. A load below another one is for parents, and these came with a reply,
so with every level there are fewer replies left: `Inquiry.Comes.spends`. A query that may nest
loads deeper than there are replies leads only to such queries, so the bound that it starts with is
never met: `Inquiry.Reaches.depth_pos`. Any other bound beyond the replies that are left gives the
same: `Run.all_deep`, `Loader.loadOnto_deep`. -/
namespace PolyQuery

/-! ## Replies that are left -/

namespace Session
variable {σ τ : Session} {P : Prop}

/-- The replies that are left, with those of each server once. -/
def repliesLeft (σ : Session) : Nat :=
  (∑ name ∈ (σ.links.map Prod.fst).toFinset, (σ.repliesOn (.connection name)).length) +
    σ.pool.replies.length

theorem repliesLeft_eq (hlinks : τ.links = σ.links) (hpool : τ.pool.replies = σ.pool.replies) :
    τ.repliesLeft = σ.repliesLeft := by
  simp only [repliesLeft, repliesOn, hlinks, hpool]

/-- There are fewer of them than the depth that a session allows for. -/
theorem repliesLeft_lt (σ : Session) : σ.repliesLeft < Run.depthIn σ := by
  -- a server that is named twice is counted once, so the sum is at most that over all links
  have hlinks (links : List (String × ServerLink)) :
      ∑ name ∈ (links.map Prod.fst).toFinset,
          (((links.lookup name).map ServerLink.replies).getD []).length ≤
        (links.flatMap fun l => l.2.replies).length := by
    induction links with
    | nil => exact Nat.zero_le _
    | cons link rest ih =>
      obtain ⟨n, l⟩ := link
      have hmem : n ∈ insert n (rest.map Prod.fst).toFinset := Finset.mem_insert_self ..
      have hown : (((n, l) :: rest).lookup n).map ServerLink.replies = some l.replies := by
        rw [List.lookup_cons_self]
        rfl
      have hothers : ∑ name ∈ (rest.map Prod.fst).toFinset.erase n,
            (((((n, l) :: rest).lookup name).map ServerLink.replies).getD []).length =
          ∑ name ∈ (rest.map Prod.fst).toFinset.erase n,
            (((rest.lookup name).map ServerLink.replies).getD []).length := by
        refine Finset.sum_congr rfl fun name hname => ?_
        rw [Record.lookup_cons_eq, if_neg (Finset.ne_of_mem_erase hname)]
      have hfewer := Finset.sum_le_sum_of_subset (Finset.erase_subset n (rest.map Prod.fst).toFinset)
        (f := fun name => (((rest.lookup name).map ServerLink.replies).getD []).length)
      rw [List.map_cons, List.toFinset_cons, ← Finset.add_sum_erase _ _ hmem,
        Finset.erase_insert_eq_erase, hothers, hown, List.flatMap_cons, List.length_append]
      exact Nat.add_le_add_left (hfewer.trans ih) _
  have hall := hlinks σ.links
  unfold repliesLeft Run.depthIn
  exact Nat.lt_of_le_of_lt (Nat.add_le_add_right hall _) (by omega)

/-- One server has a reply less, and the others have theirs. -/
theorem repliesLeft_setReplies {name : String} {link : ServerLink} {r : Reply} {rest : List Reply}
    (hlink : σ.links.lookup name = some link) (hreplies : link.replies = r :: rest) :
    ({ σ with links := Run.setReplies σ.links name rest } : Session).repliesLeft <
      σ.repliesLeft := by
  have hnames : (Run.setReplies σ.links name rest).map Prod.fst = σ.links.map Prod.fst := by
    rw [Run.setReplies, List.map_map]
    refine List.map_congr_left fun entry _ => ?_
    rw [Function.comp_apply]
    dsimp only
    split <;> rfl
  have hname : name ∈ (σ.links.map Prod.fst).toFinset := by
    obtain ⟨before, behind, hall, -⟩ := List.lookup_eq_some_iff.1 hlink
    rw [hall, List.mem_toFinset, List.map_append, List.map_cons]
    exact List.mem_append_right _ List.mem_cons_self
  refine Nat.add_lt_add_right ?_ _
  dsimp only
  rw [hnames]
  -- the server that replied has one reply less, and no other one has more
  refine Finset.sum_lt_sum (fun other _ => ?_) ⟨name, hname, ?_⟩
  · simp only [repliesOn, Run.lookup_setReplies]
    split
    · next h =>
      rw [h, hlink]
      simp [hreplies]
    · exact Nat.le_refl _
  · simp only [repliesOn, Run.lookup_setReplies, if_pos, hlink]
    simp [hreplies]

/-- Replies may have been taken on the way from one session to the other, and one was if something
holds. -/
structure Pays (σ : Session) (P : Prop) (τ : Session) : Prop where
  le : τ.repliesLeft ≤ σ.repliesLeft
  lt : P → τ.repliesLeft < σ.repliesLeft

theorem pays_less (h : τ.repliesLeft < σ.repliesLeft) : σ.Pays P τ := ⟨Nat.le_of_lt h, fun _ => h⟩

theorem pays_nothing (h : τ.repliesLeft = σ.repliesLeft) (hP : ¬ P) : σ.Pays P τ :=
  ⟨Nat.le_of_eq h, fun hp => (hP hp).elim⟩

end Session

/-! ## Statements -/

namespace Run
open Session
variable {σ τ : Session} {w : Waiting} {b : Builder} {reply : Reply} {result : ResultSet}

theorem poolReply_pays (h : poolReply σ = (.ok reply, τ)) : σ.Pays (reply ≠ .nothing) τ := by
  rw [poolReply_apply] at h
  cases h
  cases hreplies : σ.pool.replies with
  | nil => exact pays_nothing (repliesLeft_eq rfl (by rw [hreplies]; rfl)) fun hne => hne rfl
  | cons r rest =>
    refine pays_less (Nat.add_lt_add_left ?_ _)
    rw [hreplies]
    exact Nat.lt_succ_self _

theorem linkReply_pays {name : String} (h : linkReply name σ = (.ok reply, τ)) :
    σ.Pays (reply ≠ .nothing) τ := by
  -- without a server, or with one that has no replies left, there is no reply to take
  have hnone (h : ((.ok .nothing, σ) : Except Error Reply × Session) = (.ok reply, τ)) :
      σ.Pays (reply ≠ .nothing) τ := by
    cases h
    exact pays_nothing rfl fun hne => hne rfl
  unfold linkReply ofState at h
  dsimp only at h
  cases hlink : σ.links.lookup name with
  | none =>
    rw [hlink] at h
    exact hnone h
  | some link =>
    rw [hlink] at h
    cases hreplies : link.replies with
    | nil =>
      dsimp only at h
      rw [hreplies] at h
      exact hnone h
    | cons r rest =>
      dsimp only at h
      rw [hreplies] at h
      cases h
      exact pays_less (repliesLeft_setReplies hlink hreplies)

/-- Rows come with a reply. -/
theorem Reply.ne_nothing (h : reply.result = .ok result) (hrows : result.rows ≠ []) :
    reply ≠ .nothing := by
  rintro rfl
  cases h
  exact hrows rfl

theorem queryPool_pays {sql : String} {parameters : List Value}
    (h : queryPool sql parameters σ = (.ok result, τ)) : σ.Pays (result.rows ≠ []) τ := by
  have hnoted : note (.poolQuery sql parameters) σ =
    (.ok (), { σ with journal := σ.journal ++ [.poolQuery sql parameters] }) := rfl
  rw [queryPool, bind_ok hnoted] at h
  obtain ⟨reply, υ, hreply, h⟩ := bind_eq_ok h
  have hpays := poolReply_pays hreply
  cases hresult : reply.result with
  | error e =>
    rw [hresult] at h
    cases h
  | ok found =>
    rw [hresult] at h
    cases h
    exact ⟨hpays.le, fun hrows => hpays.lt (Reply.ne_nothing hresult hrows)⟩

theorem queryLink_pays {name sql : String} {parameters : List Value}
    (h : queryLink name sql parameters σ = (.ok result, τ)) : σ.Pays (result.rows ≠ []) τ := by
  let noted : Session := { σ with journal := σ.journal ++ [.sent name sql parameters] }
  let counted : Session := { noted with served := σ.served + 1 }
  have hnoted : note (.sent name sql parameters) σ = (.ok (), noted) := rfl
  have hcounted : update (fun s => { s with served := s.served + 1 }) noted = (.ok (), counted) :=
    rfl
  rw [queryLink, bind_ok hnoted, bind_ok hcounted] at h
  obtain ⟨reply, υ, hreply, h⟩ := bind_eq_ok h
  have hpays := linkReply_pays hreply
  obtain ⟨hresult, rfl⟩ := Prod.mk.inj h
  exact ⟨hpays.le, fun hrows => hpays.lt (Reply.ne_nothing hresult hrows)⟩

theorem sendOnClient_pays {sql : String} {parameters : Option (List Value)}
    {r : Except Error ResultSet} (h : sendOnClient sql parameters σ = (r, τ)) :
    σ.Pays (∃ found, r = .ok found ∧ found.rows ≠ []) τ := by
  have hnoted : note (.clientQuery sql parameters) σ =
    (.ok (), { σ with journal := σ.journal ++ [.clientQuery sql parameters] }) := rfl
  rw [sendOnClient, bind_ok hnoted, bind_ok (poolReply_apply _)] at h
  have hpays := poolReply_pays (poolReply_apply
    { σ with journal := σ.journal ++ [.clientQuery sql parameters] })
  obtain ⟨rfl, rfl⟩ := Prod.mk.inj h
  refine ⟨hpays.le, ?_⟩
  rintro ⟨found, hresult, hrows⟩
  exact hpays.lt (Reply.ne_nothing hresult hrows)

theorem callClient_pays {c : ClientCall} (h : callClient c σ = (.ok result, τ)) :
    σ.Pays (result.rows ≠ []) τ := by
  have hclient : client σ = (.ok (σ.client.getD ⟨.make .postgres none, true⟩), σ) := rfl
  rw [callClient, bind_ok hclient] at h
  cases hstart : (σ.client.getD ⟨.make .postgres none, true⟩).start c with
  | refuse e =>
    rw [hstart] at h
    cases h
  | ignore =>
    rw [hstart] at h
    cases h
    exact pays_nothing rfl fun hne => hne rfl
  | send sql parameters =>
    rw [hstart] at h
    rcases hsend : sendOnClient sql parameters σ with ⟨r, υ⟩
    have hpays := sendOnClient_pays hsend
    dsimp only at h
    rw [bind_ok (outcome_apply hsend)] at h
    -- the client is settled, which takes no reply
    obtain ⟨_, φ, hsettled, h⟩ := bind_eq_ok h
    cases hsettled
    obtain ⟨rfl, rfl⟩ := Prod.mk.inj h
    exact ⟨hpays.le, fun hrows => hpays.lt ⟨result, rfl, hrows⟩⟩

theorem send_pays {c : Channel} {sql : String} {parameters : List Value}
    (h : send c sql parameters σ = (.ok result, τ)) : σ.Pays (result.rows ≠ []) τ := by
  cases c with
  | connection name => exact queryLink_pays h
  | pool => exact queryPool_pays h
  | client => exact callClient_pays h

/-- No reply is taken before a statement is sent. -/
theorem repliesLeft_ready (w : Waiting) (b : Builder) (σ : Session) :
    (ready w b σ).2.repliesLeft = σ.repliesLeft := by
  let R : Session → Session → Prop := fun σ τ => τ.repliesLeft = σ.repliesLeft
  have htrans {σ τ υ : Session} (h : R σ τ) (h' : R τ υ) : R σ υ := h'.trans h
  have hopen : Obeys R openPool := by
    intro σ
    rw [openPool, bind_ok (session_apply σ)]
    cases σ.pool.isOpen <;> exact repliesLeft_eq rfl rfl
  have hchannel := obeys_builderChannel (R := R) (fun _ => rfl) htrans hopen b
  exact obeys_ready (R := R) (fun _ => rfl) htrans w hchannel σ

/-- A query takes a reply if it has records. -/
theorem records_pays {ids : List Nat} (h : records w b σ = (.ok ids, τ)) : σ.Pays (ids ≠ []) τ := by
  rw [records_eq] at h
  obtain ⟨r, υ, hready, h⟩ := bind_eq_ok h
  have hsame := repliesLeft_ready w b σ
  rw [hready] at hsame
  dsimp only at hsame
  rw [deliver] at h
  obtain ⟨result, φ, hsend, h⟩ := bind_eq_ok h
  rw [bind_ok (session_apply φ)] at h
  obtain ⟨rows, ψ, hrows, h⟩ := bind_eq_ok h
  obtain ⟨hdecoded, rfl⟩ := Prod.mk.inj hrows
  have hpays := send_pays hsend
  rw [onStore_apply] at h
  obtain ⟨hids, rfl⟩ := Prod.mk.inj h
  have hsize : ids.length = result.rows.length := by
    rw [← Except.ok.inj hids, (φ.store.addRows_spec rows).1, List.length_range',
      length_decodeRows hdecoded]
  refine ⟨hsame ▸ hpays.le, fun hne => hsame ▸ hpays.lt fun hnone => hne ?_⟩
  rw [← List.length_eq_zero_iff, hsize, hnone, List.length_nil]

end Run

/-! ## Loads -/

namespace Loader
variable {σ τ : Session} {fetch : Builder → Run (List Nat)} {ctx : LoadContext}
  {report : LoadReport} {frames waiting : List LoadFrame} {visits : List Visit} {step : LoadStep}
  {parents children : List Nat}

/-- Attaching is all in the store. -/
theorem attach_store (h : attach step parents children σ = (.ok (), τ)) :
    ∃ store, τ = { σ with store := store } := by
  have hall {lifetime : Option Number} {groups : List (String × List Nat)} (parents : List Nat)
      {υ : Session} (h : attachAll step lifetime groups parents υ = (.ok (), τ)) :
      ∃ store, τ = { υ with store := store } := by
    induction parents generalizing υ with
    | nil =>
      cases h
      exact ⟨τ.store, rfl⟩
    | cons parent rest ih =>
      obtain ⟨_, _, _, h⟩ := attachAll_cons_ok h
      obtain ⟨store, hτ⟩ := ih h
      exact ⟨store, hτ⟩
  obtain ⟨-, _, _, _, _, h⟩ := attach_ok h
  obtain ⟨store, hτ⟩ := hall parents h
  exact ⟨store, hτ⟩

theorem Quiet.repliesLeft_eq (h : Quiet σ τ) : τ.repliesLeft = σ.repliesLeft := by
  obtain ⟨_, _, _, -, rfl⟩ := h
  exact Session.repliesLeft_eq rfl rfl

/-- Queries after which there are no more replies than before. -/
def Thrifty (fetch : Builder → Run (List Nat)) : Prop :=
  ∀ {b σ ids τ}, fetch b σ = (.ok ids, τ) → τ.repliesLeft ≤ σ.repliesLeft

theorem Visit.IsDone.repliesLeft_le (hfetch : Thrifty fetch) {v : Visit} (hv : v.IsDone fetch ctx) :
    v.after.repliesLeft ≤ v.before.repliesLeft := by
  by_cases hkeys : v.keys = []
  · obtain ⟨store, hafter, -⟩ := (hv.idle hkeys).after
    rw [hafter]
    exact Nat.le_of_eq (Session.repliesLeft_eq rfl rfl)
  · obtain ⟨q, b, sending, received, hasked⟩ := hv.asked hkeys
    obtain ⟨store, hafter⟩ := attach_store hasked.attached
    have hreceived : v.after.repliesLeft = received.repliesLeft := by
      rw [hafter]
      exact Session.repliesLeft_eq rfl rfl
    rw [hreceived, ← hasked.quiet.repliesLeft_eq]
    exact hfetch hasked.fetched

theorem Passes.repliesLeft_le (hfetch : Thrifty fetch)
    (h : Passes fetch ctx report frames σ visits waiting τ) : τ.repliesLeft ≤ σ.repliesLeft := by
  induction h with
  | here => exact Nat.le_refl _
  | visits hv _ _ ih => exact ih.trans (hv.repliesLeft_le hfetch)

/-- Without parents at first there are none later on. -/
theorem Passes.without_parents (h : Passes fetch ctx report frames σ visits waiting τ)
    (hframes : ∀ f ∈ frames, f.parents = []) : ∀ f ∈ waiting, f.parents = [] := by
  induction h with
  | here => exact hframes
  | @visits report v rest _ _ _ hv _ _ ih =>
    obtain ⟨hfirst, hrest⟩ := List.forall_mem_cons.1 hframes
    have hnone : v.parents = [] := hfirst
    have hkeys : v.keys = [] := by
      have htexts := hv.keys.texts
      rw [hnone] at htexts
      exact List.map_eq_nil_iff.1 htexts
    refine ih (List.forall_mem_append.2 ⟨hrest, fun f hf => ?_⟩)
    obtain ⟨s, -, rfl⟩ := List.mem_map.1 hf
    exact (hv.idle hkeys).children

end Loader

namespace Run
open Loader
variable {σ : Session} {w : Waiting} {b : Builder} {watched : Bool}

theorem thrifty_allWithin (w : Waiting) (depth : Nat) (watched : Bool) :
    Thrifty (allWithin w depth watched) := by
  induction depth generalizing watched with
  | zero =>
    intro b σ ids τ h
    cases h
    exact Nat.le_refl _
  | succ depth ih =>
    intro b σ ids τ h
    rw [allWithin_succ] at h
    cases hplan : b.loadPlan? σ.models with
    | error e =>
      rw [hplan] at h
      cases h
    | ok plan? =>
      rw [hplan] at h
      cases plan? with
      | none => exact (records_pays h).le
      | some plan =>
        dsimp only at h
        obtain ⟨roots, υ, hrecords, h⟩ := bind_eq_ok h
        obtain ⟨report, φ, hload, h⟩ := bind_eq_ok h
        cases h
        -- loads below this one are shallower by one
        obtain ⟨visits, hpasses, -⟩ := load_passes hload
        exact (hpasses.repliesLeft_le (ih _)).trans (records_pays hrecords).le

end Run

namespace Inquiry
open Loader
variable {w : Waiting} {i j : Inquiry}

/-- A query below another one is for parents, so the other one took a reply. -/
theorem Comes.spends {depth : Nat} {plan : LoadPlan} {visits : List Visit} {f : LoadFrame}
    {rest : List LoadFrame} {τ s : Session} {b : Builder}
    (hcomes : i.Comes w depth plan visits f rest τ)
    (hasks : Asks (Run.contextOf i.query plan i.watched) f τ b s) :
    s.repliesLeft < i.session.repliesLeft := by
  obtain ⟨-, -, ids, υ, hrecords, hpasses⟩ := hcomes
  have hthere : ids ≠ [] := by
    rintro rfl
    have hnone : f.parents = [] := by
      refine hpasses.without_parents (fun g hg => ?_) f List.mem_cons_self
      obtain ⟨step, -, rfl⟩ := List.mem_map.1 hg
      rfl
    refine hasks.asked ?_
    rw [keysOf, hnone]
    rfl
  rw [hasks.quiet.repliesLeft_eq]
  exact Nat.lt_of_le_of_lt (hpasses.repliesLeft_le (Run.thrifty_allWithin w depth _))
    ((Run.records_pays hrecords).lt hthere)

/-- A query that may nest loads deeper than there are replies leads only to such queries. -/
theorem Reaches.deep (h : Reaches w i j) (hi : i.session.repliesLeft < i.depth) :
    j.session.repliesLeft < j.depth := by
  induction h with
  | self => exact hi
  | through hcomes hasks _ _ ih =>
    refine ih (Nat.lt_of_lt_of_le (hcomes.spends hasks) ?_)
    rw [hcomes.deeper] at hi
    exact Nat.le_of_lt_succ hi

/-- No query below one that starts in a session is without depth. -/
theorem Reaches.depth_pos {σ : Session} {watched : Bool} {b : Builder}
    (h : Reaches w ⟨Run.depthIn σ, watched, b, σ⟩ j) : 0 < j.depth :=
  Nat.zero_lt_of_lt (h.deep σ.repliesLeft_lt)

end Inquiry

namespace Run
open Loader
variable {σ : Session} {w : Waiting} {b : Builder} {watched : Bool}

/-- Two depths beyond the replies that are left give the same. -/
theorem allWithin_deep {m n : Nat} (hm : σ.repliesLeft < m) (hn : σ.repliesLeft < n) :
    allWithin w m watched b σ = allWithin w n watched b σ := by
  induction m generalizing n watched b σ with
  | zero => exact absurd hm (Nat.not_lt_zero _)
  | succ m ih =>
    obtain ⟨n, rfl⟩ := Nat.exists_eq_add_one_of_ne_zero (Nat.ne_zero_of_lt hn)
    rw [allWithin_succ, allWithin_succ]
    cases hplan : b.loadPlan? σ.models with
    | error e => rfl
    | ok plan? =>
      cases plan? with
      | none => rfl
      | some plan =>
        dsimp only
        rw [bind_apply, bind_apply]
        rcases hrecords : records w b σ with ⟨e | ids, υ⟩
        · rfl
        · suffices hload : load (allWithin w m (watched && w = .awaiting))
              (heeding (contextOf b plan watched) watched) ids υ =
                load (allWithin w n (watched && w = .awaiting))
                  (heeding (contextOf b plan watched) watched) ids υ from bind_congr hload
          refine load_congr fun visits f rest τ b' s hpasses hasks => ⟨rfl, fun _ => ?_⟩
          -- with the batch there are fewer replies, so both depths are still beyond them
          have hcomes : Inquiry.Comes w ⟨m + 1, watched, b, σ⟩ m plan visits f rest τ :=
            ⟨rfl, hplan, ids, υ, hrecords, hpasses⟩
          have hless : s.repliesLeft < σ.repliesLeft := hcomes.spends hasks
          exact ih (by omega) (by omega)

/-- The records of a query are those with any depth beyond the replies that are left. -/
theorem all_deep {n : Nat} (hn : σ.repliesLeft < n) : all w b σ = allWithin w n true b σ := by
  have hdepth : nestingBound σ = (.ok (depthIn σ), σ) := rfl
  rw [all, bind_ok hdepth]
  exact allWithin_deep σ.repliesLeft_lt hn

end Run

namespace Loader
variable {σ : Session} {w : Waiting} {m : Model} {requests : List LoadRequest} {roots : List Nat}
  {connection : Option String} {channel : Option Channel} {plan : LoadPlan}

/-- A load onto records that are there is that with any depth beyond the replies that are left. -/
theorem loadOnto_deep {n : Nat} (hplan : LoadPlan.make σ.models m requests = .ok plan)
    (hn : σ.repliesLeft < n) : Run.loadOnto w m requests roots connection channel σ =
      (load (Run.allWithin w n (w = .awaiting)) (ontoContext m connection channel plan) roots >>=
        fun report => pure (plan, report)) σ := by
  rw [loadOnto_apply w hplan]
  suffices hload : load (Run.allWithin w (Run.depthIn σ) (w = .awaiting))
      (heeding (ontoContext m connection channel plan) true) roots σ =
        load (Run.allWithin w n (w = .awaiting))
          (heeding (ontoContext m connection channel plan) true) roots σ from Run.bind_congr hload
  refine load_congr fun visits f rest τ b s hpasses hasks => ⟨rfl, fun _ => ?_⟩
  have hfewer : s.repliesLeft ≤ σ.repliesLeft :=
    hasks.quiet.repliesLeft_eq ▸ hpasses.repliesLeft_le (Run.thrifty_allWithin w (Run.depthIn σ) _)
  exact Run.allWithin_deep (Nat.lt_of_le_of_lt hfewer σ.repliesLeft_lt)
    (Nat.lt_of_le_of_lt hfewer hn)

end Loader

end PolyQuery
