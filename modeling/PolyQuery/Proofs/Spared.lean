import PolyQuery.Proofs.Inverses
import PolyQuery.Proofs.SlotHistory

/-! What queries and loads leave of records. Attaching makes some properties slots and leaves the others
(`Dealt.turns`), and nothing else changes the properties of a record. So a query adds records and
leaves those that were there, however deep loads are nested below it (`Run.adds_allWithin`), and a
load leaves all but the slots of its steps in its roots (`Loader.run_spares`). -/
namespace PolyQuery

namespace Store
variable {s t u : Store} {id : Nat} {name : String} {P Q : Prop} {W : Nat → String → Prop}

/-- A property of a record, data or a slot. -/
def property? (s : Store) (id : Nat) (name : String) : Option Property :=
  (s.record id).properties.lookup name

/-- A property is a slot then if it was made one, and otherwise it is what it was. -/
structure Turns (made : Prop) (s t : Store) (id : Nat) (name : String) : Prop where
  slot : made → (t.record id).IsSlot name
  kept : ¬ made → t.property? id name = s.property? id name

theorem Turns.refl (s : Store) (id : Nat) (name : String) : Turns False s s id name :=
  ⟨False.elim, fun _ => rfl⟩

theorem Turns.trans (h : Turns P s t id name) (h' : Turns Q t u id name) :
    Turns (P ∨ Q) s u id name := by
  constructor
  · intro hmade
    by_cases hQ : Q
    · exact h'.slot hQ
    · obtain ⟨visible, hslot⟩ := h.slot (hmade.resolve_right hQ)
      exact ⟨visible, (h'.kept hQ).trans hslot⟩
  · intro hkept
    rw [not_or] at hkept
    exact (h'.kept hkept.2).trans (h.kept hkept.1)

theorem Turns.congr (h : Turns P s t id name) (hPQ : P ↔ Q) : Turns Q s t id name :=
  ⟨fun hQ => h.slot (hPQ.2 hQ), fun hQ => h.kept fun hP => hQ (hPQ.1 hP)⟩

theorem Alike.turns (h : s.Alike t) (id : Nat) (name : String) : Turns False s t id name :=
  ⟨False.elim, fun _ => congrArg (List.lookup name) (h.record id trivial).properties⟩

theorem turns_attach (hid : id < s.records.size) (name : String) (other : Nat) (slot : String)
    (v : Value) (lifetime : Option Number) (visible : Bool) :
    Turns (id = other ∧ name = slot) s (s.attach other slot v lifetime visible) id name := by
  by_cases hother : id = other
  · subst hother
    constructor
    · rintro ⟨-, rfl⟩
      rw [record_attach name v lifetime visible hid]
      exact Record.lookup_openSlot ..
    · intro hout
      unfold property?
      rw [record_attach slot v lifetime visible hid]
      exact Record.lookup_openSlot_other fun hslot => hout ⟨rfl, hslot⟩
  · have hrecord : (s.attach other slot v lifetime visible).record id = s.record id := by
      rw [attach, record_change, if_neg fun h => hother h.1]
    exact ⟨fun h => (hother h.1).elim, fun _ => congrArg (·.properties.lookup name) hrecord⟩

theorem turns_attachEach (hid : id < s.records.size) (ids : List Nat) (slot : String) (v : Value)
    (lifetime : Option Number) (visible : Bool) :
    Turns (id ∈ ids ∧ name = slot) s (attachEach ids slot v lifetime visible s) id name := by
  induction ids generalizing s with
  | nil => exact (Turns.refl s id name).congr ⟨False.elim, fun h => nomatch h.1⟩
  | cons first rest ih =>
    have hrest := ih (s := s.attach first slot v lifetime visible) ((size_change ..).symm ▸ hid)
    refine ((turns_attach hid name first slot v lifetime visible).trans hrest).congr ?_
    rw [List.mem_cons, or_and_right]

/-- Records are added, and of those that were there only some properties change. -/
structure Spares (W : Nat → String → Prop) (s t : Store) : Prop where
  size : s.records.size ≤ t.records.size
  kept : ∀ id < s.records.size, ∀ name, ¬ W id name → t.property? id name = s.property? id name

theorem Spares.refl (W : Nat → String → Prop) (s : Store) : s.Spares W s :=
  ⟨Nat.le_refl _, fun _ _ _ _ => rfl⟩

theorem Spares.trans (h : s.Spares W t) (h' : t.Spares W u) : s.Spares W u :=
  ⟨h.size.trans h'.size, fun id hid name hout =>
    (h'.kept id (Nat.lt_of_lt_of_le hid h.size) name hout).trans (h.kept id hid name hout)⟩

theorem Spares.mono {W' : Nat → String → Prop} (h : s.Spares W t)
    (hW : ∀ id < s.records.size, ∀ name, W id name → W' id name) : s.Spares W' t :=
  ⟨h.size, fun id hid name hout => h.kept id hid name fun hwrites => hout (hW id hid name hwrites)⟩

theorem Alike.spares (h : s.Alike t) (W : Nat → String → Prop) : s.Spares W t :=
  ⟨Nat.le_of_eq h.size.symm, fun id _ name _ => (h.turns id name).kept not_false⟩

theorem spares_addRows (s : Store) (rows : List Row) (W : Nat → String → Prop) :
    s.Spares W (s.addRows rows).2 := by
  obtain ⟨-, -, hsize, hrecord⟩ := s.addRows_spec rows
  refine ⟨hsize ▸ Nat.le_add_right .., fun id hid name _ => ?_⟩
  rw [property?, hrecord id hid, property?]

theorem Spares.turns (h : s.Spares W t) (hid : id < s.records.size) (hout : ¬ W id name) :
    Turns False s t id name := ⟨False.elim, fun _ => h.kept id hid name hout⟩

theorem spares_change (s : Store) (id : Nat) (f : Record → Record)
    (hf : (f (s.record id)).properties = (s.record id).properties) (W : Nat → String → Prop) :
    s.Spares W (s.change id f) := by
  refine ⟨Nat.le_of_eq (size_change ..).symm, fun other _ name _ => ?_⟩
  unfold property?
  rw [record_change]
  split
  · next hother => rw [hf, hother.1]
  · rfl

end Store

namespace Loader
open Store
variable {σ τ : Session} {s t : Store} {step : LoadStep} {lifetime : Option Number} {p id : Nat}
  {parents children mine : List Nat} {given : List (Nat × List Nat)} {name : String}
  {W : Nat → String → Prop} {r : Except Error Unit}

/-! ## Attaching -/

theorem turns_supplied (hid : id < s.records.size) :
    Turns (Writes step [p] mine id name) s (supplied step lifetime p mine s) id name := by
  have hparent := turns_attach hid name p step.node.slot
    (slotValue step.relation.isToMany mine) lifetime true
  unfold supplied Writes
  simp only [List.mem_singleton]
  cases hinverse : step.relation.inverseSlot with
  | none =>
    refine hparent.congr ?_
    simp
  | some slot =>
    have hid' : id < (s.attach p step.node.slot (slotValue step.relation.isToMany mine) lifetime
        true).records.size := (size_change ..).symm ▸ hid
    refine (hparent.trans (turns_attachEach hid' mine slot (.record p) lifetime false)).congr ?_
    rw [Option.some.injEq, eq_comm (a := name) (b := slot)]

/-- What was made slots: those of the parents, and the inverse slots of the children that were given
to them. -/
theorem Dealt.turns (h : Dealt step lifetime given s t) (hid : id < s.records.size) (name : String) :
    Turns (∃ d ∈ given, Writes step [d.1] d.2 id name) s t id name := by
  induction h with
  | nil hlook => exact (hlook.turns id name).congr ⟨False.elim, fun ⟨_, hd, _⟩ => nomatch hd⟩
  | @cons p mine rest s t u hlook _ ih =>
    have hid' : id < t.records.size := hlook.size.symm ▸ hid
    have hrest := ih ((agree_supplied step lifetime p mine t).size.symm ▸ hid')
    refine (((hlook.turns id name).trans (turns_supplied hid')).trans hrest).congr ?_
    rw [false_or, List.exists_mem_cons_iff]

/-- Whatever comes of attaching, it changes nothing but the slots that it writes. -/
theorem attach_spares (h : attach step parents children σ = (r, τ)) :
    σ.store.Spares (Writes step parents children) τ.store := by
  obtain ⟨given, hprefix, -, hdealt, hchildren⟩ := attach_dealt h
  refine ⟨Nat.le_of_eq hdealt.size.symm, fun id hid name hout => ?_⟩
  refine (hdealt.turns hid name).kept ?_
  rintro ⟨d, hd, ⟨hid, hslot⟩ | ⟨hid, hslot⟩⟩
  · refine hout (.inl ⟨?_, hslot⟩)
    rw [List.mem_singleton.1 hid]
    exact hprefix.subset (List.mem_map_of_mem hd)
  · exact hout (.inr ⟨hchildren d hd hid, hslot⟩)

/-! ## Visits -/

/-- A way of running queries that adds records and changes none. The records that a query returns are
new. -/
def Adds (fetch : Builder → Run (List Nat)) : Prop :=
  ∀ b s, s.store.Spares (fun _ _ => False) (fetch b s).2.store ∧
    ∀ ids τ, fetch b s = (.ok ids, τ) →
      ∀ c ∈ ids, s.store.records.size ≤ c ∧ c < τ.store.records.size

variable {fetch : Builder → Run (List Nat)} {ctx : LoadContext} {report : LoadReport}
  {f : LoadFrame} {frames rest : List LoadFrame}

theorem Quiet.spares (h : Quiet σ τ) (W : Nat → String → Prop) : σ.store.Spares W τ.store := by
  obtain ⟨store, _, _, halike, rfl⟩ := h
  exact halike.spares W

theorem spares_cleared (frames : List LoadFrame) (s : Store) (W : Nat → String → Prop) :
    s.Spares W (cleared frames s) := by
  have hclear (slot : String) (ids : List Nat) (s : Store) :
      s.Spares W (ids.foldl (fun s id => s.clear id (some slot)) s) := by
    induction ids generalizing s with
    | nil => exact .refl W s
    | cons id rest ih => exact (spares_change s id (fun r => r.clear (some slot)) rfl W).trans (ih _)
  induction frames generalizing s with
  | nil => exact .refl W s
  | cons f rest ih => exact (hclear f.step.node.slot f.parents s).trans (ih _)

theorem bind_pure_snd {α β : Type} (x : Run α) (g : α → β) (σ : Session) :
    ((x >>= fun a => pure (g a)) σ).2 = (x σ).2 := by
  rw [Run.bind_apply]
  rcases x σ with ⟨_ | _, _⟩ <;> rfl

/-- What is fetched is new, so attaching it leaves the other records but for the slots of the parents. -/
theorem fetched_spares (hfetch : Adds fetch) (f : LoadFrame) (b : Builder) (s : Session) :
    s.store.Spares (fun id name => id ∈ f.parents ∧ name = f.step.node.slot)
      ((fetch b >>= fun children => attach f.step f.parents children >>=
        fun _ => pure (true, children)) s).2.store := by
  obtain ⟨hquery, hnew⟩ := hfetch b s
  rw [Run.bind_apply]
  rcases hids : fetch b s with ⟨e | ids, τ⟩
  · rw [hids] at hquery
    exact hquery.mono fun _ _ _ => False.elim
  · rw [hids] at hquery
    have hattach : τ.store.Spares (Writes f.step f.parents ids)
        ((attach f.step f.parents ids >>= fun _ => pure (true, ids)) τ).2.store := by
      rw [bind_pure_snd]
      exact attach_spares rfl
    refine ⟨hquery.size.trans hattach.size, fun id hid name hout => ?_⟩
    refine (hattach.kept id (Nat.lt_of_lt_of_le hid hquery.size) name ?_).trans
      (hquery.kept id hid name not_false)
    rintro (hparent | ⟨hchild, -⟩)
    · exact hout hparent
    · exact Nat.not_lt.2 (hnew ids τ hids id hchild).1 hid

/-- The children of a visit are new. -/
theorem visit_new (hfetch : Adds fetch) {asked : Bool}
    (h : visit fetch ctx report f rest σ = (.ok (asked, children), τ)) :
    ∀ c ∈ children, σ.store.records.size ≤ c ∧ c < τ.store.records.size := by
  obtain ⟨-, -, -, rfl, -⟩ | ⟨-, b, s, received, hasks, hids, hattach⟩ := attached_of_visit h
  · exact nofun
  · obtain ⟨t, _, _, halike, hs⟩ := hasks.quiet
    have hsize : s.store.records.size = σ.store.records.size := by
      rw [hs]
      exact halike.size
    intro c hc
    obtain ⟨hold, hthere⟩ := (hfetch b s).2 children received hids c hc
    exact ⟨hsize ▸ hold, Nat.lt_of_lt_of_le hthere (attach_spares hattach).size⟩

/-- Whatever comes of a visit, of the records that were there it changes nothing but the slots of its
frame. -/
theorem visit_spares (hfetch : Adds fetch) (ctx : LoadContext) (report : LoadReport)
    (f : LoadFrame) (rest : List LoadFrame) (σ : Session) :
    σ.store.Spares (fun id name => id ∈ f.parents ∧ name = f.step.node.slot)
      (visit fetch ctx report f rest σ).2.store := by
  cases begins ctx f σ with
  | refused _ _ hquiet hvisit =>
    have hvisit : visit fetch ctx report f rest σ = _ := hvisit fetch ctx.watched report rest
    rw [hvisit]
    exact hquiet.spares _
  | unbuilt _ _ hquiet hvisit =>
    have hvisit : visit fetch ctx report f rest σ = _ := hvisit fetch ctx.watched report rest
    rw [hvisit]
    exact hquiet.spares _
  | @idle t _ _ halike hvisit =>
    have hvisit : visit fetch ctx report f rest σ = _ := hvisit fetch ctx.watched report rest
    rw [hvisit, bind_pure_snd]
    rcases hattach : attach f.step f.parents [] { σ with store := t } with ⟨r, τ⟩
    refine (halike.spares _).trans ((attach_spares hattach).mono ?_)
    rintro id - name (hparent | ⟨hchild, -⟩)
    · exact hparent
    · cases hchild
  | @asks b s hasks =>
    have hvisit : visit fetch ctx report f rest σ = _ := hasks.turns fetch ctx.watched report rest
    rw [hvisit]
    refine (hasks.quiet.spares _).trans ?_
    -- a load that is stopped clears the slots of frames that wait, and leaves what is there to its
    -- parents
    cases hstop : ctx.watched && aborted s with
    | true =>
      obtain ⟨log, hcancel⟩ := cancel_apply (α := Bool × List Nat) ctx report (f :: rest) s
      have hturn : turn fetch ctx report f rest b s = _ :=
        (turn_stopped fetch report f rest b hstop).trans hcancel
      exact hturn ▸ spares_cleared (f :: rest) s.store _
    | false =>
      have hturn : turn fetch ctx report f rest b s = _ := turn_goes hstop
      show s.store.Spares _ (turn fetch ctx report f rest b s).2.store
      rw [hturn]
      exact fetched_spares hfetch f b s

/-- A load leaves of the records that were there all but what it may write: what that is need only
hold the slots of the frames that wait, since children are new. -/
theorem run_spares (hfetch : Adds fetch) (fuel : Nat) (report : LoadReport)
    (frames : List LoadFrame) (σ : Session)
    (hframes : ∀ f ∈ frames, ∀ p ∈ f.parents, W p f.step.node.slot)
    (hnew : ∀ id, σ.store.records.size ≤ id → ∀ name, W id name) :
    σ.store.Spares W (run fetch ctx fuel report frames σ).2.store := by
  induction fuel generalizing report frames σ with
  | zero => exact .refl W _
  | succ fuel ih =>
    cases frames with
    | nil => exact .refl W _
    | cons f rest =>
      have hvisit := visit_spares hfetch ctx report f rest σ
      rw [run_cons, Run.bind_apply]
      -- a visit that fails has spared what it had to all the same
      rcases hrun : visit fetch ctx report f rest σ with ⟨e | ⟨asked, children⟩, τ⟩
      all_goals
        rw [hrun] at hvisit
        have hfirst : σ.store.Spares W τ.store := hvisit.mono fun id _ name hslot =>
          hslot.2 ▸ hframes f List.mem_cons_self id hslot.1
      · exact hfirst
      · refine hfirst.trans (ih _ _ τ ?_ fun id hid => hnew id (hfirst.size.trans hid))
        intro g hg p hp
        rcases List.mem_append.1 hg with hg | hg
        · exact hframes g (List.mem_cons_of_mem f hg) p hp
        · obtain ⟨s, -, rfl⟩ := List.mem_map.1 hg
          exact hnew p (visit_new hfetch hrun p hp).1 _

end Loader

namespace Run
open Store Loader
variable {w : Waiting} {b : Builder} {σ τ : Session} {ids : List Nat}

/-- A query adds a record for each row that it reads, or fails and adds none. -/
theorem records_spec (w : Waiting) (b : Builder) (σ : Session) :
    (∃ e, (records w b σ).1 = .error e ∧ (records w b σ).2.store = σ.store) ∨
      ∃ rows, (records w b σ).1 = .ok (σ.store.addRows rows).1 ∧
        (records w b σ).2.store = (σ.store.addRows rows).2 := by
  have hchannel := serves_builderChannel b σ
  rw [records, bind_apply]
  rcases hrun : builderChannel b σ with ⟨e | c, τ⟩
  all_goals
    rw [hrun] at hchannel
    dsimp only
  · exact .inl ⟨e, rfl, hchannel.store⟩
  · have hrows := serves_fetchRows w c b.fields b.plan τ
    rw [fetchRecords, bind_apply]
    rcases hfetch : fetchRows w c b.fields b.plan τ with ⟨e | rows, υ⟩
    all_goals
      rw [hfetch] at hrows
      have hstore : υ.store = σ.store := hrows.store.trans hchannel.store
      dsimp only
    · exact .inl ⟨e, rfl, hstore⟩
    · exact .inr ⟨rows, hstore ▸ ⟨rfl, rfl⟩⟩

theorem adds_records (w : Waiting) (b : Builder) (σ : Session) :
    σ.store.Spares (fun _ _ => False) (records w b σ).2.store ∧
      ∀ ids τ, records w b σ = (.ok ids, τ) →
        ∀ c ∈ ids, σ.store.records.size ≤ c ∧ c < τ.store.records.size := by
  obtain ⟨e, herror, hstore⟩ | ⟨rows, hok, hstore⟩ := records_spec w b σ
  · rw [hstore]
    refine ⟨.refl _ _, fun ids τ h => ?_⟩
    rw [h] at herror
    cases herror
  · rw [hstore]
    refine ⟨spares_addRows σ.store rows _, fun ids τ h c hc => ?_⟩
    rw [h] at hok hstore
    cases hok
    obtain ⟨hids, -, hsize, -⟩ := σ.store.addRows_spec rows
    rw [hids, List.mem_range'_1] at hc
    rw [hstore, hsize]
    exact hc

/-- The records that were read are the roots of the load below, so this leaves the older ones. -/
theorem adds_loaded {fetch : Builder → Run (List Nat)} {ctx : LoadContext}
    (hadds : σ.store.Spares (fun _ _ => False) (records w b σ).2.store)
    (hnew : ∀ ids τ, records w b σ = (.ok ids, τ) →
      ∀ c ∈ ids, σ.store.records.size ≤ c ∧ c < τ.store.records.size) (hfetch : Adds fetch) :
    σ.store.Spares (fun _ _ => False)
        ((records w b >>= fun ids => load fetch ctx ids >>= fun _ => pure ids) σ).2.store ∧
      ∀ ids τ, (records w b >>= fun ids => load fetch ctx ids >>= fun _ => pure ids) σ =
          (.ok ids, τ) →
        ∀ c ∈ ids, σ.store.records.size ≤ c ∧ c < τ.store.records.size := by
  rw [bind_apply]
  rcases hrecords : records w b σ with ⟨e | ids, τ⟩
  · rw [hrecords] at hadds
    dsimp only
    refine ⟨hadds, fun ids υ h => ?_⟩
    cases h
  · rw [hrecords] at hadds
    dsimp only at hadds ⊢
    -- the roots of the load are new, so whatever it writes is behind the records that were there
    have hload : τ.store.Spares (fun id _ => σ.store.records.size ≤ id)
        (load fetch ctx ids τ).2.store := by
      refine run_spares hfetch _ _ _ τ ?_ fun id hid _ => hadds.size.trans hid
      intro f hf p hp
      obtain ⟨step, -, rfl⟩ := List.mem_map.1 hf
      exact (hnew ids τ hrecords p hp).1
    constructor
    · rw [bind_pure_snd]
      refine ⟨hadds.size.trans hload.size, fun id hid name _ => ?_⟩
      refine (hload.kept id (Nat.lt_of_lt_of_le hid hadds.size) name (Nat.not_le.2 hid)).trans ?_
      exact hadds.kept id hid name not_false
    · intro found υ hfound c hc
      obtain ⟨report, υ', hreport, hpure⟩ := bind_eq_ok hfound
      cases hpure
      obtain ⟨hold, hthere⟩ := hnew ids τ hrecords c hc
      rw [hreport] at hload
      exact ⟨hold, Nat.lt_of_lt_of_le hthere hload.size⟩

/-- A query adds records and changes none, however deep loads are nested below it. -/
theorem adds_allWithin (w : Waiting) (depth : Nat) (watched : Bool) :
    Adds (allWithin w depth watched) := by
  induction depth generalizing watched with
  | zero =>
    intro b s
    refine ⟨.refl _ _, fun ids τ h => ?_⟩
    cases h
    exact nofun
  | succ depth ih =>
    intro b s
    have hrun := allWithin_succ w depth watched b s
    obtain ⟨hadds, hnew⟩ := adds_records w b s
    cases hplan : b.loadPlan? s.models with
    -- a plan that cannot be made leaves all as it was
    | error e =>
      rw [hplan] at hrun
      dsimp only at hrun
      rw [hrun]
      refine ⟨.refl _ _, fun ids υ h => ?_⟩
      cases h
    | ok plan? =>
      rw [hplan] at hrun
      cases plan? with
      | none =>
        dsimp only at hrun
        rw [hrun]
        exact ⟨hadds, hnew⟩
      | some plan =>
        dsimp only at hrun
        rw [hrun]
        exact adds_loaded hadds hnew (ih _)

end Run
end PolyQuery
