import PolyQuery.Proofs.Families
import PolyQuery.Proofs.Listed
import PolyQuery.Proofs.Terminals

/-! Relations with some of their columns. A modifier that selects columns does not change which rows a
batch asks for, but children are matched by what was listed of them: a parent keeps its children
exactly if the match column is listed, and so do the relations below: `visit_narrowed`. -/
namespace PolyQuery

/-! ## Answers -/

namespace Run
variable {w : Waiting} {b : Builder} {σ τ : Session} {d : Dialect} {result : ResultSet}

theorem serves_ask (w : Waiting) (b : Builder) (p : SelectPlan) : Serves (ask w b p) :=
  (serves_builderChannel b).bind fun _ => (serves_dialectOf _).bind fun _ =>
    (serves_ofExcept _).bind fun _ => (serves_perform w _ _).bind fun _ => serves_pure _

end Run

namespace Loader
variable {w : Waiting} {ctx : LoadContext} {f : LoadFrame} {σ s : Session} {b : Builder} {d : Dialect}
  {table : List Row}

/-- A server has some rows for the batch of a frame: whatever columns the batch lists, it answers with
these columns of the rows, and what is read of the rows holds no records. -/
structure Supplied (w : Waiting) (ctx : LoadContext) (f : LoadFrame) (σ : Session) (d : Dialect)
    (table : List Row) : Prop where
  answer : ∀ b s, Asks ctx f σ b s → ∃ count τ, Run.ask w b b.plan s =
    (.ok (d, ⟨table.map (Row.listed b.items), count⟩), τ) ∧ τ.registry = σ.registry
  data : ∀ b s, Asks ctx f σ b s → ∀ row ∈ table, ∀ record,
    decodeRow b.fields d σ.registry row = .ok record → ∀ entry ∈ record, entry.2.inside = []

/-- Children are attached whatever modifier brought them. -/
theorem attach_modifiedBy (step : LoadStep) (name : String) (parents children : List Nat) :
    attach (step.modifiedBy name) parents children = attach step parents children := by
  have hall (lifetime : Option Number) (groups : List (String × List Nat)) :
      attachAll (step.modifiedBy name) lifetime groups parents =
        attachAll step lifetime groups parents := by
    induction parents with
    | nil => rfl
    | cons p rest ih =>
      rw [attachAll, attachAll, ih]
      rfl
  unfold attach
  simp only [hall]
  rfl

/-- A visit whose batch is answered attaches the records of the rows. -/
theorem visit_supplied (hsupplied : Supplied w ctx f σ d table) (hasks : Asks ctx f σ b s)
    (hrequests : b.requests = []) (hgoes : (ctx.watched && aborted σ) = false) (depth : Nat)
    (watched : Bool) : ∃ τ, σ.store.Alike τ.store ∧ τ.relationLifetime = σ.relationLifetime ∧
      ∀ report rest, visit (Run.allWithin w (depth + 1) watched) ctx report f rest σ =
        match decodeRows b.fields d σ.registry (table.map (Row.listed b.items)) with
        | .error e => (.error e, τ)
        | .ok rows => (attach f.step f.parents (τ.store.addRows rows).1 >>= fun _ =>
            pure (true, (τ.store.addRows rows).1)) { τ with store := (τ.store.addRows rows).2 } := by
  -- the server answers with its table, cut to the columns that are asked for
  obtain ⟨count, τ, hask, hregistry⟩ := hsupplied.answer b s hasks
  have hserved := Run.serves_ask w b b.plan s
  rw [hask] at hserved
  have hfetch := Run.allWithin_of_ask depth watched hrequests hask
  have hkept : σ.store.Alike s.store ∧ s.relationLifetime = σ.relationLifetime := by
    obtain ⟨t, _, _, halike, rfl⟩ := hasks.quiet
    exact ⟨halike, rfl⟩
  refine ⟨τ, hserved.store ▸ hkept.1, hserved.lifetime.trans hkept.2, fun report rest => ?_⟩
  have hturn : visit (Run.allWithin w (depth + 1) watched) ctx report f rest σ =
      turn (Run.allWithin w (depth + 1) watched) ctx report f rest b s :=
    hasks.turns (Run.allWithin w (depth + 1) watched) ctx.watched report rest
  rw [← hasks.aborted_eq] at hgoes
  rw [hregistry] at hfetch
  rw [hturn, turn_goes hgoes, Run.bind_apply, hfetch]
  cases decodeRows b.fields d σ.registry (table.map (Row.listed b.items)) with
  | error e => rfl
  | ok rows => rfl

/-- A batch that was asked for was not cancelled. -/
theorem goes_of_visit {fetch : Builder → Run (List Nat)} {report : LoadReport} {rest : List LoadFrame}
    {r : Bool × List Nat} {υ : Session} (hasks : Asks ctx f σ b s)
    (h : visit fetch ctx report f rest σ = (.ok r, υ)) : (ctx.watched && aborted σ) = false := by
  refine Bool.eq_false_iff.2 fun hstop => ?_
  rw [← hasks.aborted_eq] at hstop
  have hturn : visit fetch ctx report f rest σ = turn fetch ctx report f rest b s :=
    hasks.turns fetch ctx.watched report rest
  obtain ⟨log, hcancel⟩ := cancel_apply ctx report (f :: rest) s
  cases hcancel.symm.trans ((turn_stopped fetch report f rest b hstop).symm.trans (hturn.symm.trans h))

/-! ## Visits with a select list -/

/-- The query of a step without a modifier lists no columns and loads no further relations. -/
theorem asks_plain (hplain : f.step.node.modifier = none) (hasks : Asks ctx f σ b s) :
    b.items = [] ∧ b.requests = [] := by
  obtain ⟨q, hq, rfl⟩ := hasks.query
  obtain ⟨condition, channel, hbatch⟩ :=
    batchOf_eq ctx f.step ((keysOf σ.store f).map fun k => boundValue σ.store k.2) q
  rw [hbatch]
  unfold modifiedQuery at hq
  rw [hplain] at hq
  split at hq
  · cases hq
  · cases hq
    exact ⟨rfl, rfl⟩

section Selecting
variable {name : String} {lists : List (List String)} {links : List (String × ServerLink)} {pool : Pool}

/-- With a modifier that selects columns, and whatever server, the batch is the same but for its select
list. -/
theorem listing_of_asks {b' : Builder} {s' : Session} (hplain : f.step.node.modifier = none)
    (hname : σ.modifiers.lookup name = some fun b => .ok (b.selecting lists))
    (hasks : Asks ctx f σ b s)
    (hasks' : Asks ctx ⟨f.step.modifiedBy name, f.parents⟩ { σ with links := links, pool := pool }
      b' s') : b' = b.listing (selected lists) := by
  obtain ⟨q, hq, hb⟩ := hasks.query
  obtain ⟨q', hq', hb'⟩ := hasks'.query
  have hselected : modifiedQuery σ (f.step.modifiedBy name) = .ok q' := hq'
  rw [modifiedQuery_selecting hplain hname hq] at hselected
  cases hselected
  rw [hb, ← batchOf_listing]
  exact hb'

/-- With such a modifier a visit comes to a batch if it does without. -/
theorem asks_selecting (hplain : f.step.node.modifier = none)
    (hname : σ.modifiers.lookup name = some fun b => .ok (b.selecting lists))
    (hasks : Asks ctx f σ b s) (links : List (String × ServerLink)) (pool : Pool) :
    ∃ s', Asks ctx ⟨f.step.modifiedBy name, f.parents⟩ { σ with links := links, pool := pool }
      (b.listing (selected lists)) s' := by
  cases begins ctx ⟨f.step.modifiedBy name, f.parents⟩ { σ with links := links, pool := pool } with
  | @refused p e _ hp he =>
    have hkey := hasks.accepted p hp
    have herror : (σ.store.readKey p f.step.parentKey).1 = .error e := he
    rw [Store.hasKey, herror] at hkey
    cases hkey
  | idle _ hkeys => exact (hasks.asked hkeys).elim
  | @unbuilt e _ _ he =>
    obtain ⟨q, hq, -⟩ := hasks.query
    have herror : modifiedQuery σ (f.step.modifiedBy name) = .error e := he
    rw [modifiedQuery_selecting hplain hname hq] at herror
    cases herror
  | @asks b' s' h => exact ⟨s', listing_of_asks hplain hname hasks h ▸ h⟩

end Selecting

end Loader

/-! ## Thin records -/

/-- A table: its rows have its columns, and no two of these become one property. -/
structure IsTable (columns : List String) (table : List Row) : Prop where
  shape : ∀ row ∈ table, row.map Prod.fst = columns
  apart : (columns.map Naming.snakeToCamel).Nodup

/-- Of a record, another one has the properties that are listed. -/
structure Thins (L : String → Prop) (whole thin : Row) : Prop where
  nodup_whole : (whole.map Prod.fst).Nodup
  nodup_thin : (thin.map Prod.fst).Nodup
  kept : ∀ property, L property → thin.lookup property = whole.lookup property
  lost : ∀ property, ¬ L property → thin.lookup property = none

/-- Where whole rows can be read, they can be read with some of their columns. -/
theorem decodeRows_listed {columns : List String} {table rows : List Row} {fields : Option FieldMap}
    {d : Dialect} {r : Registry} (htable : IsTable columns table) (items : List Expr)
    (h : decodeRows fields d r table = .ok rows) :
    ∃ narrow, decodeRows fields d r (table.map (Row.listed items)) = .ok narrow ∧
      List.Forall₂ (Thins (Lists items columns)) rows narrow := by
  obtain ⟨hshape, hapart⟩ := htable
  have hread := forall₂_of_mapM h
  clear h
  -- a row that can be read as a whole can be read from fewer columns, and gives the same there
  induction hread with
  | nil => exact ⟨[], rfl, .nil⟩
  | @cons row whole table rows hwhole _ ih =>
    obtain ⟨rfl, hshape⟩ := List.forall_mem_cons.1 hshape
    have hsubset : row.listed items ⊆ row := listed_subset hapart.of_map
    obtain ⟨part, hpart⟩ := decodeRow_of_subset hwhole hsubset
    obtain ⟨narrow, hnarrow, hrest⟩ := ih hshape
    have hlookup := lookup_listed hapart hwhole hpart
    refine ⟨part :: narrow, ?_, .cons ⟨nodup_decodeRow hwhole, nodup_decodeRow hpart, ?_, ?_⟩ hrest⟩
    · unfold decodeRows at hnarrow ⊢
      rw [List.map_cons, List.mapM_cons, hpart, hnarrow]
      rfl
    · exact fun property hlists => (hlookup property).trans (if_pos hlists)
    · exact fun property hlists => (hlookup property).trans (if_neg hlists)

namespace Store
variable {L : String → Prop} {s t t' u u' : Store} {rows narrow : List Row} {children : List Nat}
  {property : String}

/-- Two stores that are alike up to an identity, and of some records one of them has only the properties
that are listed. -/
structure Thinned (L : String → Prop) (n : Nat) (children : List Nat) (u u' : Store) : Prop where
  now : u'.now = u.now
  size : u'.records.size = u.records.size
  old : ∀ id, id < n → (u.record id).Alike u.now (u'.record id)
  kept : ∀ c ∈ children, ∀ property, L property → u'.value c property = u.value c property
  lost : ∀ c ∈ children, ∀ property, ¬ L property → u'.value c property = .undefined

/-- Rows leave the records that are there. -/
theorem alike_addRows (h : s.Alike t) (rows : List Row) :
    (t.addRows rows).2.now = s.now ∧
      ∀ id, id < s.records.size → (s.record id).Alike s.now ((t.addRows rows).2.record id) := by
  obtain ⟨-, hnow, -, hrecord⟩ := t.addRows_spec rows
  refine ⟨hnow.trans h.now, fun id hid => ?_⟩
  rw [hrecord id (h.size.symm ▸ hid)]
  exact h.record id trivial

theorem thinned_addRows (h : s.Alike t) (h' : s.Alike t')
    (hthins : List.Forall₂ (Thins L) rows narrow) : (t'.addRows narrow).1 = (t.addRows rows).1 ∧
      Thinned L s.records.size (t.addRows rows).1 (t.addRows rows).2 (t'.addRows narrow).2 := by
  obtain ⟨hids, -, hsize, -⟩ := t.addRows_spec rows
  obtain ⟨hids', -, hsize', -⟩ := t'.addRows_spec narrow
  obtain ⟨hnow, hold⟩ := alike_addRows h rows
  obtain ⟨hnow', hold'⟩ := alike_addRows h' narrow
  rw [h.size] at hids hsize
  rw [h'.size, ← hthins.length_eq] at hids' hsize'
  -- children are numbered alike in both sessions, so the same row is behind each of them
  have hchild (c : Nat) (hc : c ∈ (t.addRows rows).1) : ∃ whole thin, Thins L whole thin ∧
      ∀ property, (t.addRows rows).2.value c property = (whole.lookup property).getD .undefined ∧
        (t'.addRows narrow).2.value c property = (thin.lookup property).getD .undefined := by
    rw [hids, List.mem_range'_1] at hc
    obtain ⟨n, rfl⟩ := Nat.exists_eq_add_of_le hc.1
    have hn : n < rows.length := Nat.lt_of_add_lt_add_left hc.2
    have hn' : n < narrow.length := hthins.length_eq ▸ hn
    have hthin : Thins L rows[n] narrow[n] := hthins.get hn hn'
    refine ⟨rows[n], narrow[n], hthin, fun property => ⟨?_, ?_⟩⟩
    · rw [← h.size, t.value_addRows (List.getElem?_eq_getElem hn) hthin.nodup_whole]
    · rw [← h'.size, t'.value_addRows (List.getElem?_eq_getElem hn') hthin.nodup_thin]
  refine ⟨hids'.trans hids.symm, hnow'.trans hnow.symm, hsize'.trans hsize.symm, ?_, ?_, ?_⟩
  · intro id hid
    rw [hnow]
    exact (hold id hid).symm.trans (hold' id hid)
  · intro c hc property hlists
    obtain ⟨whole, thin, hthin, hvalues⟩ := hchild c hc
    rw [(hvalues property).1, (hvalues property).2, hthin.kept property hlists]
  · intro c hc property hlists
    obtain ⟨whole, thin, hthin, hvalues⟩ := hchild c hc
    rw [(hvalues property).2, hthin.lost property hlists]
    rfl

/-- New records hold no records where their rows hold none. -/
theorem inside_addRows {c : Nat} (hnodup : ∀ row ∈ rows, (row.map Prod.fst).Nodup)
    (hplain : ∀ row ∈ rows, ∀ entry ∈ row, entry.2.inside = []) (hc : c ∈ (t.addRows rows).1)
    (property : String) : ((t.addRows rows).2.value c property).inside = [] := by
  rw [(t.addRows_spec rows).1, List.mem_range'_1] at hc
  obtain ⟨n, rfl⟩ := Nat.exists_eq_add_of_le hc.1
  have hn : n < rows.length := Nat.lt_of_add_lt_add_left hc.2
  have hmem : rows[n] ∈ rows := List.getElem_mem hn
  rw [t.value_addRows (List.getElem?_eq_getElem hn) (hnodup _ hmem)]
  cases hfound : rows[n].lookup property with
  | none => rfl
  | some v =>
    obtain ⟨before, behind, hrow, -⟩ := List.lookup_eq_some_iff.1 hfound
    exact hplain _ hmem (property, v) (hrow ▸ List.mem_append_right _ List.mem_cons_self)

/-- The key of a listed property is the same, and there is none of any other. -/
theorem Thinned.readKey {n : Nat} (h : Thinned L n children u u')
    (hplain : ∀ c ∈ children, ∀ property, (u.value c property).inside = []) (property : String) :
    ∀ c ∈ children, (L property → (u'.readKey c property).1 = (u.readKey c property).1) ∧
      (¬ L property → (u'.readKey c property).1 = .ok (.undefined, none)) := by
  intro c hc
  exact readKey_kept h.now h.size (h.kept c hc property) (h.lost c hc property) (hplain c hc property)

/-- No key is refused that is not refused of whole records. -/
theorem Thinned.hasKey {n : Nat} (h : Thinned L n children u u')
    (hplain : ∀ c ∈ children, ∀ property, (u.value c property).inside = [])
    (hkeys : ∀ c ∈ children, u.hasKey c property = true) :
    ∀ c ∈ children, u'.hasKey c property = true := by
  intro c hc
  obtain ⟨hkept, hlost⟩ := h.readKey hplain property c hc
  by_cases hlists : L property
  · exact (hasKey_congr (hkept hlists)).trans (hkeys c hc)
  · rw [Store.hasKey, hlost hlists]
    rfl

/-- The key of an old record is the same, if what it holds is old. -/
theorem Thinned.readKey_old {n p : Nat} (h : Thinned L n children u u') (property : String)
    (hp : p < n) (hheld : ∀ id, u.Holds (u.value p property) id → id < n) :
    (u'.readKey p property).1 = (u.readKey p property).1 :=
  (looks_readKey (K := (· < n)) u p property hp hheld u' ⟨h.now, h.size, h.old⟩).1

end Store

namespace LoadStep
variable {L : String → Prop} {n : Nat} {u u' : Store} {children : List Nat} {step : LoadStep} {p : Nat}

/-- A family is the same if the match property is listed, and empty if it is not. -/
theorem family_thinned (h : Store.Thinned L n children u u')
    (hplain : ∀ c ∈ children, ∀ property, (u.value c property).inside = [])
    (hparent : (u'.readKey p step.parentKey).1 = (u.readKey p step.parentKey).1) :
    (L step.childKey → step.family u' children p = step.family u children p) ∧
      (¬ L step.childKey → step.family u' children p = []) := by
  constructor
  · intro hlists
    refine List.filter_congr fun c hc => ?_
    have hchild := (h.readKey hplain step.childKey c hc).1 hlists
    unfold pairs
    rw [Store.key?_congr hchild, Store.key?_congr hparent]
  · intro hlists
    refine List.filter_eq_nil_iff.2 fun c hc => ?_
    have hchild := (h.readKey hplain step.childKey c hc).2 hlists
    unfold pairs
    rw [Store.key?_undefined hchild]
    exact Bool.false_ne_true

end LoadStep

namespace Loader
variable {w : Waiting} {ctx : LoadContext} {f : LoadFrame} {σ υ : Session} {d : Dialect}
  {table : List Row} {columns : List String} {children : List Nat} {report : LoadReport}
  {rest : List LoadFrame}

/-- What the key of an old record holds is the same in stores that agree on the old records. -/
theorem held_old {s t : Store} {n p : Nat} {property : String} (hnow : t.now = s.now)
    (hold : ∀ id, id < n → (s.record id).Alike s.now (t.record id)) (hp : p < n)
    (hheld : ∀ id, s.Holds (s.value p property) id → id < n) (id : Nat)
    (hid : t.Holds (t.value p property) id) : s.Holds (s.value p property) id := by
  have hvalue : t.value p property = s.value p property := by
    show ((t.record p).read t.now property).1 = _
    rw [hnow]
    exact (hold p hp).read property
  rw [hvalue] at hid
  exact hid.of_alike hnow hold hheld

/-- Where thin children are attached in place of whole ones, their parents have the same families or none,
and they have the same keys or none, as the property is listed or not. -/
theorem attach_thinned {L : String → Prop} {n : Nat} {step : LoadStep} {parents : List Nat}
    {τ : Session} (hthinned : Store.Thinned L n children σ.store τ.store)
    (hplain : ∀ c ∈ children, ∀ property, (σ.store.value c property).inside = [])
    (hlifetime : τ.relationLifetime = σ.relationLifetime) (hdistinct : parents.Nodup)
    (hthere : ∀ p ∈ parents, p < n) (hsize : n ≤ σ.store.records.size)
    (hnew : ∀ c ∈ children, n ≤ c)
    (hheld : ∀ p ∈ parents, ∀ id, σ.store.Holds (σ.store.value p step.parentKey) id →
      id < n ∧ id ∉ parents)
    (hattach : attach step parents children σ = (.ok (), υ)) :
    ∃ υ', attach step parents children τ = (.ok (), υ') ∧
      (∀ p ∈ parents, (L step.childKey → step.held υ'.store p = step.held υ.store p) ∧
        (¬ L step.childKey → step.held υ'.store p = 0)) ∧
      ∀ property, step.relation.inverseSlot ≠ some property → ∀ c ∈ children,
        (L property → υ'.store.key? c property = υ.store.key? c property) ∧
        (¬ L property → υ'.store.key? c property = none) := by
  have hapart : ∀ p ∈ parents, p ∉ children := fun p hp hc => Nat.not_lt.2 (hnew p hc) (hthere p hp)
  have huntouched (p : Nat) (hp : p ∈ parents) (id : Nat)
      (hid : σ.store.Holds (σ.store.value p step.parentKey) id) :
      ¬ Touched step parents children id := by
    obtain ⟨hlt, hparent⟩ := hheld p hp id hid
    rintro (h | ⟨-, h⟩)
    · exact hparent h
    · exact Nat.not_lt.2 (hnew id h) hlt
  obtain ⟨hparents, hchildren⟩ := hasKey_of_attach hdistinct hapart huntouched hattach
  have hold (p : Nat) (hp : p ∈ parents) := hthinned.readKey_old step.parentKey
    (hthere p hp) fun id hid => (hheld p hp id hid).1
  obtain ⟨t, hrun, hnow, hsame, hshown⟩ := attach_held hdistinct
    (fun p hp => Nat.lt_of_lt_of_le (hthere p hp) hsize) hapart hparents hchildren huntouched
  rw [hattach] at hrun
  obtain rfl := (Prod.mk.inj hrun).2
  -- the thin children are attached too: no key of theirs is refused
  have hparents' : ∀ p ∈ parents, τ.store.hasKey p step.parentKey = true := fun p hp =>
    (Store.hasKey_congr (hold p hp)).trans (hparents p hp)
  have hchildren' := hthinned.hasKey hplain hchildren
  have huntouched' (p : Nat) (hp : p ∈ parents) (id : Nat)
      (hid : τ.store.Holds (τ.store.value p step.parentKey) id) :
      ¬ Touched step parents children id :=
    huntouched p hp id (held_old hthinned.now hthinned.old (hthere p hp)
      (fun id hid => (hheld p hp id hid).1) id hid)
  obtain ⟨t', hrun', hnow', hsame', hshown'⟩ := attach_held hdistinct
    (fun p hp => Nat.lt_of_lt_of_le (hthere p hp) (hthinned.size ▸ hsize)) hapart hparents' hchildren'
    huntouched'
  refine ⟨_, hrun', fun p hp => ?_, fun property hproperty c hc => ?_⟩
  · obtain ⟨hfamily, hnone⟩ := LoadStep.family_thinned hthinned hplain (hold p hp)
    constructor
    · intro hlists
      rw [hshown p hp, hshown' p hp, hfamily hlists, hlifetime, hthinned.now]
    · intro hlists
      rw [hshown' p hp, hnone hlists, LoadStep.shownCount_nil]
  · have hout : ¬ Writes step parents children c property := by
      rintro (⟨hparent, -⟩ | ⟨-, hinverse⟩)
      · exact hapart c hparent hc
      · exact hproperty hinverse
    have hvalue := attach_value hout hattach
    have hvalue' := attach_value hout hrun'
    obtain ⟨hkept, hlost⟩ := Store.readKey_kept (hnow'.trans (hthinned.now.trans hnow.symm))
      (hsame'.trans (hthinned.size.trans hsame.symm))
      (fun h => hvalue'.trans ((hthinned.kept c hc property h).trans hvalue.symm))
      (fun h => hvalue'.trans (hthinned.lost c hc property h)) (hvalue ▸ hplain c hc property)
    exact ⟨fun h => Store.key?_congr (hkept h), fun h => Store.key?_undefined (hlost h)⟩

/-- The new children of a frame hold no records. -/
theorem Supplied.inside_children {b : Builder} {s : Session} {rows : List Row}
    (hsupplied : Supplied w ctx f σ d table) (hasks : Asks ctx f σ b s)
    (hrows : decodeRows b.fields d σ.registry table = .ok rows) (t : Store) :
    ∀ c ∈ (t.addRows rows).1, ∀ property, ((t.addRows rows).2.value c property).inside = [] := by
  have hread (record : Row) (hrecord : record ∈ rows) :
      ∃ row ∈ table, decodeRow b.fields d σ.registry row = .ok record :=
    exists_of_mem_mapM hrows hrecord
  refine fun c hc property => Store.inside_addRows (fun record hrecord => ?_)
    (fun record hrecord => ?_) hc property
  · obtain ⟨row, -, hrow⟩ := hread record hrecord
    exact nodup_decodeRow hrow
  · obtain ⟨row, hmem, hrow⟩ := hread record hrecord
    exact hsupplied.data b s hasks row hmem record hrow

/-- What is either the same or nothing is the same only in these cases. -/
theorem same_iff {α β : Type} {P : Prop} {members : List α} {x y : α → β} {nothing : β}
    (h : ∀ a ∈ members, (P → y a = x a) ∧ (¬ P → y a = nothing)) :
    (∀ a ∈ members, y a = x a) ↔ P ∨ ∀ a ∈ members, x a = nothing := by
  constructor
  · intro hsame
    by_cases hP : P
    · exact .inl hP
    · exact .inr fun a ha => (hsame a ha).symm.trans ((h a ha).2 hP)
  · rintro (hP | hnothing) a ha
    · exact (h a ha).1 hP
    · by_cases hP : P
      · exact (h a ha).1 hP
      · exact ((h a ha).2 hP).trans (hnothing a ha).symm

/-- A modifier that only selects properties leaves a batch as it is but for its select list, so the server
has the same rows for it. Every parent then has as many children as without the modifier exactly if
the match property is listed, or no parent has any; and the children have the same keys for relations
below them exactly if the properties of these are listed, or no child has such a key. -/
theorem visit_narrowed {name : String} {lists : List (List String)} (links : List (String × ServerLink))
    (pool : Pool) {depth : Nat} {watched : Bool}
    (hplain : f.step.node.modifier = none)
    (hname : σ.modifiers.lookup name = some fun b => .ok (b.selecting lists))
    (htable : IsTable columns table) (hwhole : Supplied w ctx f σ d table)
    (hpart : Supplied w ctx ⟨f.step.modifiedBy name, f.parents⟩
      { σ with links := links, pool := pool } d table)
    (hdistinct : f.parents.Nodup) (hthere : ∀ p ∈ f.parents, p < σ.store.records.size)
    (hheld : ∀ p ∈ f.parents, ∀ id, σ.store.Holds (σ.store.value p f.step.parentKey) id →
      id < σ.store.records.size ∧ id ∉ f.parents)
    (hvisit : visit (Run.allWithin w (depth + 1) watched) ctx report f rest σ =
      (.ok (true, children), υ)) :
    ∃ υ', visit (Run.allWithin w (depth + 1) watched) ctx report
        ⟨f.step.modifiedBy name, f.parents⟩ rest { σ with links := links, pool := pool } =
          (.ok (true, children), υ') ∧
      (∀ b s b' s', Asks ctx f σ b s → Asks ctx ⟨f.step.modifiedBy name, f.parents⟩
        { σ with links := links, pool := pool } b' s' → b' = b.listing (selected lists)) ∧
      ((∀ p ∈ f.parents, f.step.held υ'.store p = f.step.held υ.store p) ↔
        Lists (selected lists) columns f.step.childKey ∨
          ∀ p ∈ f.parents, f.step.held υ.store p = 0) ∧
      ∀ property, f.step.relation.inverseSlot ≠ some property →
        ((∀ c ∈ children, υ'.store.key? c property = υ.store.key? c property) ↔
          Lists (selected lists) columns property ∨
            ∀ c ∈ children, υ.store.key? c property = none) := by
  obtain ⟨hidle, -⟩ | ⟨-, b, s, received, hasks, -, -⟩ := attached_of_visit hvisit
  · cases hidle
  obtain ⟨hitems, hrequests⟩ := asks_plain hplain hasks
  have hgoes := goes_of_visit hasks hvisit
  obtain ⟨s', hasks'⟩ := asks_selecting hplain hname hasks links pool
  obtain ⟨τ, halike, hlifetime, hrun⟩ := visit_supplied hwhole hasks hrequests hgoes depth watched
  obtain ⟨τ', halike', hlifetime', hrun'⟩ :=
    visit_supplied hpart hasks' (show (b.listing _).requests = [] from hrequests) hgoes depth watched
  -- without a list the server's rows are whole, so every narrow row is a part of one of these
  have htable' : table.map (Row.listed b.items) = table := by
    rw [hitems]
    exact List.map_id' table
  rw [hrun, htable'] at hvisit
  cases hrows : decodeRows b.fields d σ.registry table with
  | error e =>
    rw [hrows] at hvisit
    cases hvisit
  | ok rows =>
    rw [hrows] at hvisit
    obtain ⟨_, ω, hattach, hdone⟩ := Run.bind_eq_ok hvisit
    cases hdone
    obtain ⟨narrow, hnarrow, hthins⟩ := decodeRows_listed htable (selected lists) hrows
    obtain ⟨hids, hthinned⟩ := Store.thinned_addRows halike halike' hthins
    obtain ⟨hnew, -, hsize, -⟩ := τ.store.addRows_spec rows
    rw [halike.size] at hnew hsize
    obtain ⟨hnow, hold⟩ := Store.alike_addRows halike rows
    -- the keys of the parents hold old records only, which both replies leave as they were
    obtain ⟨υ', hattach', hslots, hkeys⟩ := attach_thinned
      (σ := { τ with store := (τ.store.addRows rows).2 })
      (τ := { τ' with store := (τ'.store.addRows narrow).2 }) hthinned
      (hwhole.inside_children hasks hrows τ.store)
      (hlifetime'.trans hlifetime.symm) hdistinct hthere
      (hsize ▸ Nat.le_add_right _ _) (fun c hc => (List.mem_range'_1.1 (hnew ▸ hc)).1)
      (fun p hp id hid => hheld p hp id (held_old hnow hold (hthere p hp)
        (fun id hid => (hheld p hp id hid).1) id hid)) hattach
    refine ⟨υ', ?_, fun b s b' s' => listing_of_asks hplain hname, same_iff hslots,
      fun property hproperty => same_iff (hkeys property hproperty)⟩
    have hanswer : decodeRows (b.listing (selected lists)).fields d σ.registry
        (table.map (Row.listed (b.listing (selected lists)).items)) = .ok narrow := hnarrow
    rw [hrun']
    dsimp only
    rw [hanswer]
    dsimp only
    rw [hids, attach_modifiedBy]
    exact Run.bind_ok hattach'

/-- Users, to their posts. -/
def postsOf : LoadStep where
  node := ⟨"posts", "posts", none, "posts", false, []⟩
  owner := blogUser
  target := oneRelation "Post" "posts" "main" [("tags", ⟨"Tag", "postId", .hasMany none, none, none⟩)]
  relation := ⟨"Post", "userId", .hasMany none, none, none⟩
  children := []

/-- The posts of two users. -/
def posts : List Row :=
  [[("id", .number (.int 7)), ("user_id", .number (.int 1)), ("title", .string "a")],
    [("id", .number (.int 8)), ("user_id", .number (.int 2)), ("title", .string "b")],
    [("id", .number (.int 9)), ("user_id", .number (.int 1)), ("title", .string "c")]]

/-- Two users, and a server that answers with the listed columns of their posts. -/
def postsBlog (lists : List (List String)) (items : List Expr) : Session :=
  { Session.fresh with
    models := blog
    connections := [("main", .connection "main")]
    links := [("main", ⟨.make .sqlite none, false, [.rows (posts.map (Row.listed items)) none]⟩)]
    modifiers := [("narrow", fun b => .ok (b.selecting lists))]
    store := { Store.empty with records := #[
      .ofRow [("id", .number (.int 1))], .ofRow [("id", .number (.int 2))]] } }

/-- A selection that has the key of the user, and one that has not, in the end. -/
def tied : List (List String) := [["userId", "title"]]

def untied : List (List String) := [["id", "userId"], ["id", "title"]]

/-- Rows of undeclared fields are only renamed. -/
theorem decodeRow_undeclared {fields : FieldMap} {d : Dialect} {r : Registry} {row : Row}
    (h : ∀ entry ∈ row, fields.find? (Naming.snakeToCamel entry.1) = none) :
    decodeRow (some fields) d r row = .ok (renameRow row) := by
  have hcolumns : row.mapM (decodeColumn (some fields) d r) =
      .ok (row.map fun entry => (Naming.snakeToCamel entry.1, entry.2)) := by
    induction row with
    | nil => rfl
    | cons entry rest ih =>
      obtain ⟨hentry, hrest⟩ := List.forall_mem_cons.1 h
      rw [List.mapM_cons, decodeColumn, Option.bind_some, hentry, ih hrest]
      rfl
  rw [decodeRow, hcolumns]
  rfl

theorem inside_posts (d : Dialect) (r : Registry) : ∀ row ∈ posts, ∀ record,
    decodeRow (some []) d r row = .ok record → ∀ entry ∈ record, entry.2.inside = [] := by
  intro row hrow record h
  have hfields : ∀ row ∈ posts, ∀ entry ∈ row,
      FieldMap.find? [] (Naming.snakeToCamel entry.1) = none := by
    decide +kernel
  rw [decodeRow_undeclared (hfields row hrow)] at h
  cases h
  revert row
  decide +kernel

theorem supplied_posts (lists : List (List String)) : Supplied .awaiting blogLoad ⟨postsOf, [0, 1]⟩
    (postsBlog lists []) (.make .sqlite none) posts where
  answer b s hasks := by
    obtain ⟨q, hq, rfl⟩ := hasks.query
    obtain ⟨t, warnings, log, -, rfl⟩ := hasks.quiet
    cases hq
    exact ⟨_, _, rfl, rfl⟩
  data b s hasks := by
    obtain ⟨q, hq, rfl⟩ := hasks.query
    cases hq
    exact inside_posts _ _

theorem supplied_narrow {lists : List (List String)} (h : lists ∈ [tied, untied]) :
    Supplied .awaiting blogLoad ⟨postsOf.modifiedBy "narrow", [0, 1]⟩
      (postsBlog lists (selected lists)) (.make .sqlite none) posts where
  answer b s hasks := by
    obtain ⟨q, hq, rfl⟩ := hasks.query
    obtain ⟨t, warnings, log, -, rfl⟩ := hasks.quiet
    cases hq
    obtain rfl | rfl : lists = tied ∨ lists = untied := by simpa using h
    · exact ⟨_, _, rfl, rfl⟩
    · exact ⟨_, _, rfl, rfl⟩
  data b s hasks := by
    obtain ⟨q, hq, rfl⟩ := hasks.query
    cases hq
    obtain rfl | rfl : lists = tied ∨ lists = untied := by simpa using h
    · exact inside_posts _ _
    · exact inside_posts _ _

/-- The keys of users are numbers, which hold nothing. -/
theorem held_posts (lists : List (List String)) (items : List Expr) : ∀ p ∈ [0, 1], ∀ id,
    (postsBlog lists items).store.Holds ((postsBlog lists items).store.value p "id") id → False := by
  intro p hp id
  obtain rfl | rfl : p = 0 ∨ p = 1 := by simpa using hp
  · exact Store.not_holds rfl id
  · exact Store.not_holds rfl id

/-- With the key of the user, the users keep their posts; but the posts have no key for tags. -/
theorem visit_narrowed_tied : ∃ υ υ',
    visit (Run.allWithin .awaiting 2 false) blogLoad ⟨[], [], 0⟩ ⟨postsOf, [0, 1]⟩ []
      (postsBlog tied []) = (.ok (true, [2, 3, 4]), υ) ∧
    visit (Run.allWithin .awaiting 2 false) blogLoad ⟨[], [], 0⟩
      ⟨postsOf.modifiedBy "narrow", [0, 1]⟩ [] (postsBlog tied (selected tied)) =
        (.ok (true, [2, 3, 4]), υ') ∧
    (∀ p ∈ [0, 1], postsOf.held υ'.store p = postsOf.held υ.store p) ∧
    ¬ ∀ c ∈ [2, 3, 4], υ'.store.key? c "id" = υ.store.key? c "id" := by
  have hdone : (visit (Run.allWithin .awaiting 2 false) blogLoad ⟨[], [], 0⟩ ⟨postsOf, [0, 1]⟩ []
      (postsBlog tied [])).1.toOption = some (true, [2, 3, 4]) := by
    decide +kernel
  have hkey : (visit (Run.allWithin .awaiting 2 false) blogLoad ⟨[], [], 0⟩ ⟨postsOf, [0, 1]⟩ []
      (postsBlog tied [])).2.store.key? 2 "id" ≠ none := by
    decide +kernel
  obtain ⟨υ, hvisit⟩ : ∃ υ, visit (Run.allWithin .awaiting 2 false) blogLoad ⟨[], [], 0⟩
      ⟨postsOf, [0, 1]⟩ [] (postsBlog tied []) = (.ok (true, [2, 3, 4]), υ) := by
    generalize visit (Run.allWithin .awaiting 2 false) blogLoad ⟨[], [], 0⟩ ⟨postsOf, [0, 1]⟩ []
      (postsBlog tied []) = outcome at hdone ⊢
    obtain ⟨_ | r, υ⟩ := outcome
    · cases hdone
    · cases hdone
      exact ⟨υ, rfl⟩
  rw [hvisit] at hkey
  have htable : IsTable ["id", "user_id", "title"] posts := by constructor <;> decide
  obtain ⟨υ', hnarrowed, -, hslots, hkeys⟩ := visit_narrowed (postsBlog tied (selected tied)).links
    (postsBlog tied []).pool rfl rfl htable (supplied_posts tied)
    (supplied_narrow List.mem_cons_self) (by decide) (by decide)
    (fun p hp id hid => (held_posts tied [] p hp id hid).elim) hvisit
  have hlists (property : String) :
      Lists (selected tied) ["id", "user_id", "title"] property ↔ property ∈ ["userId", "title"] := by
    exact lists_iff (by decide) (List.forall_mem_cons.2 ⟨⟨by decide, by decide, by decide⟩,
      List.forall_mem_singleton.2 ⟨by decide, by decide, by decide⟩⟩)
  -- the selection has the key that ties the children, and lacks the one that numbers them
  refine ⟨υ, υ', hvisit, hnarrowed, hslots.2 (.inl ((hlists "userId").2 (by decide))),
    fun hsame => ?_⟩
  obtain hid | hnone := (hkeys "id" nofun).1 hsame
  · exact absurd ((hlists "id").1 hid) (by decide)
  · exact hkey (hnone 2 List.mem_cons_self)

/-- Without it they lose them all. -/
theorem visit_untied_detached :
    Supplied .awaiting blogLoad ⟨postsOf, [0, 1]⟩ (postsBlog untied []) (.make .sqlite none) posts ∧
    Supplied .awaiting blogLoad ⟨postsOf.modifiedBy "narrow", [0, 1]⟩
      (postsBlog untied (selected untied)) (.make .sqlite none) posts ∧
    [0, 1].map (postsOf.held (visit (Run.allWithin .awaiting 2 false) blogLoad ⟨[], [], 0⟩
      ⟨postsOf, [0, 1]⟩ [] (postsBlog untied [])).2.store) = [2, 1] ∧
    [0, 1].map (postsOf.held (visit (Run.allWithin .awaiting 2 false) blogLoad ⟨[], [], 0⟩
      ⟨postsOf.modifiedBy "narrow", [0, 1]⟩ [] (postsBlog untied (selected untied))).2.store) =
        [0, 0] :=
  ⟨supplied_posts untied, supplied_narrow (by simp), by decide +kernel, by decide +kernel⟩

end Loader
end PolyQuery
