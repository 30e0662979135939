import PolyQuery.Proofs.Evaluation
import PolyQuery.Proofs.Mentions
import PolyQuery.Proofs.Validity

/-! What the traversal of a tree reaches. The query of a traversal gives the identifiers of the rows
that are reached from the starting rows in at most so many steps, each identifier once, and its
recursive part is evaluated at most once more than that: `Traversal.gives_reached`. The rows may
form any graph. By induction on the rounds, those of one round are the rows that are reached in
exactly that many steps, together with this number as their depth: `Traversal.level`. -/
namespace PolyQuery

/-- A row of a tree: its identifier and that of its parent. -/
structure Node (κ : Type) where
  id : Datum κ
  parent : Datum κ

/-- A step leads from a node to another, down to a child or up to a parent. Nothing leads through
what is missing. -/
def Node.Leads {κ : Type} (down : Bool) (a b : Node κ) : Prop :=
  if down then b.parent = a.id ∧ b.parent ≠ .null else b.id = a.parent ∧ b.id ≠ .null

/-- The nodes that are reached in so many steps from those with a starting identifier. -/
inductive Reached {κ : Type} (nodes : List (Node κ)) (starts : List (Datum κ)) (down : Bool) :
    Nat → Node κ → Prop
  | start {node : Node κ} (hnode : node ∈ nodes) (hstart : node.id ∈ starts)
      (hid : node.id ≠ .null) : Reached nodes starts down 0 node
  | step {n : Nat} {a b : Node κ} (ha : Reached nodes starts down n a) (hb : b ∈ nodes)
      (hleads : a.Leads down b) : Reached nodes starts down (n + 1) b

/-- The nodes that the rows of a table are. -/
def Contents.nodes {κ : Type} (c : Contents κ) (id parent : String) : List (Node κ) :=
  c.rows.filterMap fun row => do
    let i ← (c.columns.zip row).lookup id
    let p ← (c.columns.zip row).lookup parent
    some ⟨i, p⟩

/-- A table with some columns. -/
structure Contents.Has {κ : Type} (c : Contents κ) (columns : List String) : Prop where
  columns : ∀ name ∈ columns, name ∈ c.columns
  aligned : ∀ row ∈ c.rows, row.length = c.columns.length

section Tables
variable {κ : Type} {c : Contents κ} {id parent : String}

theorem Contents.mem_nodes {node : Node κ} : node ∈ c.nodes id parent ↔
    ∃ row ∈ c.rows, (c.columns.zip row).lookup id = some node.id ∧
      (c.columns.zip row).lookup parent = some node.parent := by
  unfold nodes
  rw [List.mem_filterMap]
  refine exists_congr fun row => and_congr_right fun _ => ?_
  cases (c.columns.zip row).lookup id <;> cases (c.columns.zip row).lookup parent <;>
    cases node <;> simp

/-- Every row is a node. -/
theorem Contents.Has.node (h : c.Has [id, parent]) {row : List (Datum κ)} (hrow : row ∈ c.rows) :
    ∃ node ∈ c.nodes id parent, (c.columns.zip row).lookup id = some node.id ∧
      (c.columns.zip row).lookup parent = some node.parent := by
  have hlength := h.aligned row hrow
  obtain ⟨i, hi⟩ := exists_lookup_zip hlength (h.columns id (by simp))
  obtain ⟨p, hp⟩ := exists_lookup_zip hlength (h.columns parent (by simp))
  exact ⟨⟨i, p⟩, Contents.mem_nodes.2 ⟨row, hrow, hi, hp⟩, hi, hp⟩

theorem Contents.mem_under {source : String} {row : List (SourceRow κ)} :
    row ∈ c.under source ↔ ∃ r ∈ c.rows, row = [⟨source, c.columns.zip r⟩] := by
  unfold under
  rw [List.mem_map]
  exact exists_congr fun r => and_congr_right fun _ => eq_comm

end Tables

/-- The name has neither a point nor a capital. -/
def IsSnake (name : String) : Prop :=
  ∀ c ∈ name.toList, c ≠ '.' ∧ Text.isCapital c = false

instance (name : String) : Decidable (IsSnake name) :=
  List.decidableBAll (fun c => c ≠ '.' ∧ Text.isCapital c = false) name.toList

theorem Naming.camelToSnake_of_isSnake {name : String} (h : IsSnake name) :
    camelToSnake name = name :=
  camelToSnake_eq_self_iff.2 fun c hc => (h c hc).2

theorem Expr.reference_of_isSnake {name : String} (h : IsSnake name) :
    reference name none = .column none name none :=
  reference_unqualified fun hpoint => (h _ hpoint).1 rfl

theorem propertyColumn_of_isSnake {name : String} (h : IsSnake name) :
    propertyColumn name = .column none name none := by
  rw [propertyColumn, Naming.camelToSnake_of_isSnake h, Expr.reference_of_isSnake h]

namespace Traversal
variable {t : Traversal}

/-- The starting identifiers. -/
def starts (t : Traversal) : List Operand := t.start.items?.getD [t.start]

/-- The greatest depth. -/
def depth (t : Traversal) : Nat :=
  match t.maxDepth with
  | .number (.int n) => n.toNat
  | _ => 0

/-- A traversal from values, by names that stay as they are and do not clash. -/
structure IsProper (t : Traversal) : Prop where
  idColumn : IsSnake t.idColumn
  parentColumn : IsSnake t.parentColumn
  columns : [t.idColumn, t.parentColumn, "depth"].Nodup
  name_ne_table : t.name ≠ t.table
  name_ne_joined : t.name ≠ "t"
  starts : ∀ x ∈ t.starts, ∀ e, x ≠ .expr e

theorem IsProper.distinct (h : t.IsProper) :
    t.parentColumn ≠ t.idColumn ∧ "depth" ≠ t.idColumn ∧ "depth" ≠ t.parentColumn := by
  have hcolumns := h.columns
  simp only [List.nodup_cons, List.mem_cons, List.not_mem_nil, or_false, not_or] at hcolumns
  exact ⟨Ne.symm hcolumns.1.1, Ne.symm hcolumns.1.2, Ne.symm hcolumns.2.1⟩

/-! ## The plan -/

/-- The selection of the rows to start from. -/
def anchorPlan (t : Traversal) : SelectPlan :=
  { SelectPlan.all (some (.table t.table none)) with
    items := [.column none t.idColumn none, .column none t.parentColumn none,
      .named (.raw "0" []) "depth"]
    condition := some (.inList (.column none t.idColumn none)
      (t.starts.map fun x => Expr.ofValue x.toValue) false) }

/-- The selection of the rows one step further. -/
def stepPlan (t : Traversal) : SelectPlan :=
  { SelectPlan.all (some (.table t.table (some "t"))) with
    items := [.column (some "t") t.idColumn none, .column (some "t") t.parentColumn none,
      .named (.binary .add (.column (some t.name) "depth" none) (.raw "1" [])) "depth"]
    joins := [⟨.inner, .table t.name none, some t.linkCondition, false⟩]
    condition := some (.binary .less (.column (some t.name) "depth" none)
      (.raw t.maxDepth.text [])) }

/-- The walk from round to round. -/
def walk (t : Traversal) : Cte :=
  ⟨t.name, .combined ⟨.union, true, .select t.anchorPlan, .select t.stepPlan, [], none, []⟩, none,
    none, true⟩

theorem anchorWith_mentions (h : t.IsProper) : t.anchorWith t.mentions = t.anchorPlan := by
  have hvalues : t.starts.map (propertyValue none t.idColumn) =
      t.starts.map fun x => Expr.ofValue x.toValue := by
    refine List.map_congr_left fun x hx => ?_
    -- without a model there is no field, so a value is bound by what it shows
    cases x with
    | expr e => exact absurd rfl (h.starts _ hx e)
    | _ => rfl
  rw [anchorWith, mentions, propertyColumn_of_isSnake h.idColumn,
    Expr.reference_of_isSnake h.idColumn, Expr.reference_of_isSnake h.parentColumn, anchorPlan,
    ← hvalues]
  rfl

theorem stepWith_mentions (t : Traversal) : t.stepWith t.mentions = t.stepPlan := by
  rw [stepWith, stepPlan, linkCondition_eq]
  rfl

/-- The selection of the identifiers of the walk, each once. -/
def idPlan (t : Traversal) : SelectPlan :=
  { SelectPlan.all (some (.table t.name none)) with
    items := [.column none t.idColumn none]
    distinct := true
    ctes := [t.walk] }

/-- A query that there is has a greatest depth. -/
theorem isDepth_of_builder {b : Builder} (hb : t.builder = .ok b) :
    isDepth t.maxDepth = true := by
  by_contra hdepth
  rw [Bool.not_eq_true] at hdepth
  unfold builder at hb
  rw [hdepth] at hb
  simp only [Bool.not_false, if_true] at hb
  cases hgiven : readable t.maxDepth.text? with
  | error e =>
    rw [hgiven] at hb
    cases hb
  | ok given =>
    rw [hgiven] at hb
    cases hb

theorem builder_query (h : t.IsProper) (hdepth : isDepth t.maxDepth = true) :
    ∃ b, t.builder = .ok b ∧ b.query = .select t.idPlan := by
  obtain ⟨b, hb, hquery⟩ := builder_written hdepth
  have houter : t.mentions.outerId = .column none t.idColumn none :=
    Expr.reference_of_isSnake h.idColumn
  refine ⟨b, hb, hquery.trans ?_⟩
  rw [written, anchorWith_mentions h, stepWith_mentions, houter]
  rfl

/-! ## The rounds -/

section Rounds
variable {κ : Type} {bound : Value → Hint → Datum κ} {tables : Tables κ} {data : Contents κ}
  {rounds : Nat}

/-- What the starting identifiers are in the database. -/
def startData (t : Traversal) (bound : Value → Hint → Datum κ) : List (Datum κ) :=
  t.starts.map fun x => bound x.toValue ⟨x.toValue.hostType, none, none⟩

/-- The columns of the walk. -/
def columns (t : Traversal) : List String := [t.idColumn, t.parentColumn, "depth"]

/-- The rows of a round: the nodes that are reached in so many steps, with this number. -/
def level (t : Traversal) (bound : Value → Hint → Datum κ) (data : Contents κ) (n : Nat)
    (row : List (Datum κ)) : Prop :=
  n ≤ t.depth ∧ ∃ node,
    Reached (data.nodes t.idColumn t.parentColumn) (t.startData bound) t.toDescendants n node ∧
      row = [node.id, node.parent, .int n]

/-- A row of the table joined with a row of the round before. -/
def pair (t : Traversal) (fields : List (String × Datum κ)) (a : Node κ) (n : Nat) :
    List (SourceRow κ) :=
  [⟨"t", fields⟩, ⟨t.name, t.columns.zip [a.id, a.parent, .int n]⟩]

/-- A row of the table, the node that it is, and a node of a round. -/
structure Meets (t : Traversal) (bound : Value → Hint → Datum κ) (data : Contents κ) (k : Nat)
    (row : List (Datum κ)) (node a : Node κ) : Prop where
  mem : row ∈ data.rows
  id : (data.columns.zip row).lookup t.idColumn = some node.id
  parent : (data.columns.zip row).lookup t.parentColumn = some node.parent
  depth : k ≤ t.depth
  reached : Reached (data.nodes t.idColumn t.parentColumn) (t.startData bound) t.toDescendants k a

/-- The rows of the table paired with those of a round. -/
theorem mem_pairs (hhas : data.Has [t.idColumn, t.parentColumn]) {k : Nat}
    {working : List (List (Datum κ))} (hworking : ∀ row, row ∈ working ↔ t.level bound data k row)
    (r : List (SourceRow κ)) :
    (∃ row ∈ data.under "t", ∃ other ∈ (Contents.mk t.columns working).under t.name,
      r = row ++ other) ↔
      ∃ row node a, t.Meets bound data k row node a ∧ r = t.pair (data.columns.zip row) a k := by
  constructor
  · rintro ⟨_, hfirst, _, hother, rfl⟩
    obtain ⟨row, hrow, rfl⟩ := Contents.mem_under.1 hfirst
    obtain ⟨last, hlast, rfl⟩ := Contents.mem_under.1 hother
    obtain ⟨node, -, hid, hparent⟩ := hhas.node hrow
    obtain ⟨hk, a, ha, rfl⟩ := (hworking last).1 hlast
    exact ⟨row, node, a, ⟨hrow, hid, hparent, hk, ha⟩, rfl⟩
  · rintro ⟨row, node, a, hmeets, rfl⟩
    have hlast := (hworking _).2 ⟨hmeets.depth, a, hmeets.reached, rfl⟩
    exact ⟨_, Contents.mem_under.2 ⟨row, hmeets.mem, rfl⟩, _,
      Contents.mem_under.2 ⟨_, hlast, rfl⟩, rfl⟩

/-- The text of the greatest depth stands for it. -/
theorem numeral?_maxDepth (hdepth : isDepth t.maxDepth = true) :
    numeral? t.maxDepth.text = some t.depth := by
  have hbound : Plan.isBound t.maxDepth = true := hdepth
  unfold depth
  rcases (Plan.isBound_iff _).1 hbound with hzero | ⟨n, hn, hvalue⟩
  · rw [hzero]
    exact numeral?_repr 0
  · have hsmall : (n : Int).natAbs ≤ powerOfTwo 53 := Nat.le_trans hn (by decide)
    have htext : Value.text (.number (.int n)) = toString n := if_pos hsmall
    rw [hvalue, htext, numeral?_repr]
    rfl

variable {fields : List (String × Datum κ)} {node a : Node κ} {n : Nat}

theorem columnOf?_joined (name : String) :
    columnOf? (t.pair fields a n) name (some "t") = fields.lookup name := rfl

theorem columnOf?_walk (h : t.IsProper) (name : String) :
    columnOf? (t.pair fields a n) name (some t.name) =
      (t.columns.zip [a.id, a.parent, .int n]).lookup name := by
  simp [columnOf?, pair, beq_false_of_ne h.name_ne_joined.symm]

theorem walk_id (h : t.IsProper) :
    columnOf? (t.pair fields a n) t.idColumn (some t.name) = some a.id := by
  rw [columnOf?_walk h]
  simp [columns]

theorem walk_parent (h : t.IsProper) :
    columnOf? (t.pair fields a n) t.parentColumn (some t.name) = some a.parent := by
  obtain ⟨hid, -, -⟩ := h.distinct
  rw [columnOf?_walk h]
  simp [columns, List.lookup_cons, beq_false_of_ne hid]

theorem walk_depth (h : t.IsProper) :
    columnOf? (t.pair fields a n) "depth" (some t.name) = some (.int n) := by
  obtain ⟨-, hid, hparent⟩ := h.distinct
  rw [columnOf?_walk h]
  simp [columns, List.lookup_cons, beq_false_of_ne hid, beq_false_of_ne hparent]

variable [DecidableEq κ]

theorem dataOf?_starts (row : List (SourceRow κ)) (xs : List Operand) :
    dataOf? bound row (xs.map fun x => Expr.ofValue x.toValue) =
      some (xs.map fun x => bound x.toValue ⟨x.toValue.hostType, none, none⟩) := by
  induction xs with
  | nil => rfl
  | cons x xs ih =>
    rw [List.map_cons, dataOf?, ih]
    rfl

/-- The first round are the starting rows. -/
theorem anchor_contents (hdata : tables.lookup t.table = some data)
    (hhas : data.Has [t.idColumn, t.parentColumn]) :
    ∃ rows, t.anchorPlan.contents? bound rounds tables = some ⟨t.columns, rows⟩ ∧
      ∀ row, row ∈ rows ↔ t.level bound data 0 row := by
  have hsource : (Source.table t.table none).rows? bound rounds tables =
      some (data.under t.table) := by
    rw [Source.rows?, hdata]
    rfl
  have hcolumn : ∀ (fields : List (String × Datum κ)) (name : String) (d : Datum κ),
      fields.lookup name = some d → columnOf? [⟨t.table, fields⟩] name none = some d := by
    intro fields name d hd
    simp [columnOf?, hd]
  -- what the condition and the items are on a row
  have hcondition : ∀ (fields : List (String × Datum κ)) (i : Datum κ),
      fields.lookup t.idColumn = some i →
      (Expr.inList (.column none t.idColumn none) (t.starts.map fun x => Expr.ofValue x.toValue)
        false).datum? bound [⟨t.table, fields⟩] = some (i.among (t.startData bound)) := by
    intro fields i hi
    rw [Expr.datum?, Expr.datum?, hcolumn _ _ _ hi, dataOf?_starts]
    rfl
  have hitems : ∀ (fields : List (String × Datum κ)) (i p : Datum κ),
      fields.lookup t.idColumn = some i → fields.lookup t.parentColumn = some p →
      dataOf? bound [⟨t.table, fields⟩] t.anchorPlan.items = some [i, p, .int 0] := by
    intro fields i p hi hp
    simp only [anchorPlan, dataOf?, Expr.datum?, hcolumn _ _ _ hi, hcolumn _ _ _ hp]
    rfl
  have hconditions : ∀ e ∈ t.anchorPlan.condition, ∀ row ∈ data.under t.table,
      ∃ d, e.datum? bound row = some d := by
    rintro e ⟨⟩ row hrow
    obtain ⟨r, hr, rfl⟩ := Contents.mem_under.1 hrow
    obtain ⟨node, -, hid, -⟩ := hhas.node hr
    exact ⟨_, hcondition _ _ hid⟩
  have hdata : ∀ row ∈ data.under t.table,
      ∃ ds, dataOf? bound row t.anchorPlan.items = some ds := by
    intro row hrow
    obtain ⟨r, hr, rfl⟩ := Contents.mem_under.1 hrow
    obtain ⟨node, -, hid, hparent⟩ := hhas.node hr
    exact ⟨_, hitems _ _ _ hid hparent⟩
  obtain ⟨rows, hrows, -, hmem⟩ := t.anchorPlan.mem_contents? ⟨rfl, rfl, rfl, rfl⟩ rfl rfl
    hsource rfl rfl hconditions hdata
  refine ⟨rows, hrows, fun row => (hmem row).trans ?_⟩
  -- a row is a node, and it is kept if its identifier is a starting one, which nothing is not
  constructor
  · rintro ⟨joined, hjoined, hmet, hresult⟩
    obtain ⟨r, hr, rfl⟩ := Contents.mem_under.1 hjoined
    obtain ⟨node, hnode, hid, hparent⟩ := hhas.node hr
    have hamong := Option.some.inj ((hcondition _ _ hid).symm.trans (hmet _ rfl))
    obtain ⟨hstart, hnull⟩ := Datum.among_eq_true.1 hamong
    have hresult := Option.some.inj ((hitems _ _ _ hid hparent).symm.trans hresult)
    exact ⟨Nat.zero_le _, node, .start hnode hstart hnull, hresult.symm⟩
  · rintro ⟨-, node, hreached, rfl⟩
    cases hreached with
    | start hnode hstart hnull =>
      obtain ⟨r, hr, hid, hparent⟩ := Contents.mem_nodes.1 hnode
      refine ⟨_, Contents.mem_under.2 ⟨r, hr, rfl⟩, ?_, hitems _ _ _ hid hparent⟩
      rintro e ⟨⟩
      exact (hcondition _ _ hid).trans (congrArg some (Datum.among_eq_true.2 ⟨hstart, hnull⟩))

/-- The link is true of a row that a step leads to. -/
theorem link_datum (h : t.IsProper) (hid : fields.lookup t.idColumn = some node.id)
    (hparent : fields.lookup t.parentColumn = some node.parent) :
    ∃ d, t.linkCondition.datum? bound (t.pair fields a n) = some d ∧
      (d = .truth true ↔ a.Leads t.toDescendants node) := by
  unfold linkCondition Node.Leads
  cases t.toDescendants with
  | true =>
    refine ⟨node.parent.equal a.id, ?_, Datum.equal_eq_true⟩
    show (Expr.binary .equal (.column (some "t") t.parentColumn none)
      (.column (some t.name) t.idColumn none)).datum? bound _ = _
    rw [Expr.datum?, Expr.datum?, Expr.datum?, columnOf?_joined, walk_id h, hparent]
    rfl
  | false =>
    refine ⟨node.id.equal a.parent, ?_, Datum.equal_eq_true⟩
    show (Expr.binary .equal (.column (some "t") t.idColumn none)
      (.column (some t.name) t.parentColumn none)).datum? bound _ = _
    rw [Expr.datum?, Expr.datum?, Expr.datum?, columnOf?_joined, walk_parent h, hid]
    rfl

/-- The walk goes on from a row above the greatest depth. -/
theorem depth_datum (h : t.IsProper) (hdepth : isDepth t.maxDepth = true) :
    ∀ e ∈ t.stepPlan.condition,
      e.datum? bound (t.pair fields a n) = some (.truth (decide ((n : Int) < t.depth))) := by
  rintro e ⟨⟩
  rw [Expr.datum?, Expr.datum?, Expr.datum?, walk_depth h, numeral?_maxDepth hdepth]
  rfl

theorem step_data (h : t.IsProper) (hid : fields.lookup t.idColumn = some node.id)
    (hparent : fields.lookup t.parentColumn = some node.parent) :
    dataOf? bound (t.pair fields a n) t.stepPlan.items =
      some [node.id, node.parent, .int (n + 1)] := by
  simp only [stepPlan, dataOf?, Expr.datum?, columnOf?_joined, walk_depth h, hid, hparent]
  rfl

/-- The rows of the table joined with those of a round: those that a step leads to. -/
theorem step_joined (h : t.IsProper) (hhas : data.Has [t.idColumn, t.parentColumn]) {k : Nat}
    {working : List (List (Datum κ))} (hworking : ∀ row, row ∈ working ↔ t.level bound data k row)
    (hother : (Source.table t.name none).rows? bound rounds tables =
      some ((Contents.mk t.columns working).under t.name)) :
    ∃ joined, joinedRows? bound rounds t.stepPlan.joins tables (data.under "t") = some joined ∧
      ∀ r, r ∈ joined ↔ ∃ row node a, t.Meets bound data k row node a ∧
        a.Leads t.toDescendants node ∧ r = t.pair (data.columns.zip row) a k := by
  -- the condition has a verdict for each pair, as it compares two columns that are there
  have hlinks : ∀ e ∈ some t.linkCondition, ∀ row ∈ data.under "t",
      ∀ other ∈ (Contents.mk t.columns working).under t.name,
        ∃ d, e.datum? bound (row ++ other) = some d := by
    rintro _ ⟨⟩ first hfirst other hother
    obtain ⟨row, node, a, hmeets, hpair⟩ :=
      (mem_pairs hhas hworking _).1 ⟨first, hfirst, other, hother, rfl⟩
    obtain ⟨d, hd, -⟩ := link_datum h hmeets.id hmeets.parent
    exact ⟨d, hpair ▸ hd⟩
  obtain ⟨joined, hjoined, hmem⟩ : ∃ joined, Join.rows? bound rounds
      ⟨.inner, .table t.name none, some t.linkCondition, false⟩ tables (data.under "t") =
        some joined ∧ _ := Join.mem_rows? hother hlinks
  refine ⟨joined, ?_, ?_⟩
  · show joinedRows? bound rounds [⟨.inner, .table t.name none, some t.linkCondition, false⟩]
      tables (data.under "t") = some joined
    rw [joinedRows?, hjoined]
    rfl
  · intro r
    rw [hmem]
    constructor
    · rintro ⟨first, hfirst, other, hother, rfl, hlink⟩
      obtain ⟨row, node, a, hmeets, hpair⟩ :=
        (mem_pairs hhas hworking _).1 ⟨first, hfirst, other, hother, rfl⟩
      obtain ⟨d, hd, hleads⟩ := link_datum h hmeets.id hmeets.parent
      have htrue := Option.some.inj (hd.symm.trans (hpair ▸ hlink _ rfl))
      exact ⟨row, node, a, hmeets, hleads.1 htrue, hpair⟩
    · rintro ⟨row, node, a, hmeets, hleads, hpair⟩
      obtain ⟨first, hfirst, other, hother, heq⟩ :=
        (mem_pairs hhas hworking r).2 ⟨row, node, a, hmeets, hpair⟩
      obtain ⟨d, hd, htrue⟩ := link_datum h hmeets.id hmeets.parent
      refine ⟨first, hfirst, other, hother, heq, ?_⟩
      rintro _ ⟨⟩
      rw [hpair, hd, htrue.2 hleads]

/-- From the rows of a round, the recursive part gives those of the next. -/
theorem step_contents (h : t.IsProper) (hdepth : isDepth t.maxDepth = true)
    (hdata : tables.lookup t.table = some data) (hhas : data.Has [t.idColumn, t.parentColumn])
    {k : Nat} {working : List (List (Datum κ))}
    (hworking : ∀ row, row ∈ working ↔ t.level bound data k row) :
    ∃ next, t.stepPlan.contents? bound rounds ((t.name, ⟨t.columns, working⟩) :: tables) =
        some ⟨t.columns, next⟩ ∧ ∀ row, row ∈ next ↔ t.level bound data (k + 1) row := by
  have hsource : (Source.table t.table (some "t")).rows? bound rounds
      ((t.name, ⟨t.columns, working⟩) :: tables) = some (data.under "t") := by
    rw [Source.rows?, List.lookup_cons, beq_false_of_ne h.name_ne_table.symm, hdata]
    rfl
  have hother : (Source.table t.name none).rows? bound rounds
      ((t.name, ⟨t.columns, working⟩) :: tables) =
        some ((Contents.mk t.columns working).under t.name) := by
    rw [Source.rows?, List.lookup_cons, beq_self_eq_true]
    rfl
  obtain ⟨joined, hjoined, hmem⟩ := step_joined h hhas hworking hother
  have hcondition : ∀ e ∈ t.stepPlan.condition, ∀ r ∈ joined,
      ∃ d, e.datum? bound r = some d := by
    intro e he r hr
    obtain ⟨row, node, a, -, -, rfl⟩ := (hmem r).1 hr
    exact ⟨_, depth_datum h hdepth e he⟩
  have hitems : ∀ r ∈ joined, ∃ ds, dataOf? bound r t.stepPlan.items = some ds := by
    intro r hr
    obtain ⟨row, node, a, hmeets, -, rfl⟩ := (hmem r).1 hr
    exact ⟨_, step_data h hmeets.id hmeets.parent⟩
  obtain ⟨next, hnext, -, hrows⟩ := t.stepPlan.mem_contents? ⟨rfl, rfl, rfl, rfl⟩ rfl rfl hsource
    hjoined rfl hcondition hitems
  refine ⟨next, hnext, fun result => (hrows result).trans ?_⟩
  -- the row that is joined stays above the greatest depth, so the one that results is within it
  constructor
  · rintro ⟨r, hr, hmet, hresult⟩
    obtain ⟨row, node, a, hmeets, hleads, rfl⟩ := (hmem r).1 hr
    have hless := Option.some.inj ((depth_datum h hdepth _ rfl).symm.trans (hmet _ rfl))
    have hk : k < t.depth := by simpa using hless
    have hnode := Contents.mem_nodes.2 ⟨row, hmeets.mem, hmeets.id, hmeets.parent⟩
    have hresult := Option.some.inj ((step_data h hmeets.id hmeets.parent).symm.trans hresult)
    exact ⟨hk, node, .step hmeets.reached hnode hleads, hresult.symm⟩
  · rintro ⟨hk, node, hreached, rfl⟩
    cases hreached with
    | @step _ a _ ha hnode hleads =>
      obtain ⟨row, hrow, hid, hparent⟩ := Contents.mem_nodes.1 hnode
      have hmeets : t.Meets bound data k row node a :=
        ⟨hrow, hid, hparent, Nat.le_of_succ_le hk, ha⟩
      refine ⟨_, (hmem _).2 ⟨row, node, a, hmeets, hleads, rfl⟩, ?_, step_data h hid hparent⟩
      intro e he
      rw [depth_datum h hdepth e he, decide_eq_true (Int.ofNat_lt.2 hk)]

/-- The walk ends in time with the rows of all rounds. -/
theorem walk_contents (h : t.IsProper) (hdepth : isDepth t.maxDepth = true)
    (hdata : tables.lookup t.table = some data) (hhas : data.Has [t.idColumn, t.parentColumn])
    (hrounds : t.depth < rounds) :
    ∃ rows, t.walk.contents? bound rounds tables = some ⟨t.columns, rows⟩ ∧
      ∀ row, row ∈ rows ↔ ∃ n, t.level bound data n row := by
  obtain ⟨first, hfirst, hmem⟩ : ∃ first, t.anchorPlan.contents? bound rounds tables =
      some ⟨t.columns, first⟩ ∧ _ := anchor_contents hdata hhas
  let step (working : List (List (Datum κ))) : Option (List (List (Datum κ))) := do
    let next ← (Query.select t.stepPlan).contents? bound rounds
      ((t.name, ⟨t.columns, working⟩) :: tables)
    if next.columns.length = t.columns.length then some next.rows else none
  have hstep : ∀ k working, (∀ row, row ∈ working ↔ t.level bound data k row) →
      ∃ next, step working = some next ∧ ∀ row, row ∈ next ↔ t.level bound data (k + 1) row := by
    intro k working hworking
    obtain ⟨next, hnext, hlevel⟩ := step_contents h hdepth hdata hhas hworking
    refine ⟨next, ?_, hlevel⟩
    show ((Query.select t.stepPlan).contents? bound rounds _ >>= _) = _
    rw [Query.contents?, hnext, Option.bind_eq_bind, Option.bind_some]
    exact if_pos rfl
  -- what is reached in one step more is reached from something
  have hempty : ∀ k, (∀ row, ¬ t.level bound data k row) →
      ∀ row, ¬ t.level bound data (k + 1) row := by
    rintro k hnone row ⟨hk, node, hreached, -⟩
    cases hreached with
    | @step _ a _ ha hb hleads => exact hnone _ ⟨Nat.le_of_succ_le hk, a, ha, rfl⟩
  -- the greatest depth alone ends the walk, also on a cycle
  have hlast : ∀ k, t.depth < k → ∀ row, ¬ t.level bound data k row :=
    fun k hk row hlevel => Nat.not_lt.2 hlevel.1 hk
  have htime : t.depth < 0 + rounds := by omega
  obtain ⟨rows, hrows, hall⟩ := mem_exhaust hstep hempty hlast htime hmem
  refine ⟨rows, ?_, fun row => (hall row).trans ?_⟩
  · rw [walk, Cte.contents?, Query.contents?, hfirst]
    show (exhaust step rounds first >>= _) = _
    rw [hrows]
    rfl
  · exact ⟨fun ⟨n, _, _, hn⟩ => ⟨n, hn⟩, fun ⟨n, hn⟩ => ⟨n, Nat.zero_le n, hn.1, hn⟩⟩

/-- The identifiers of the rows of the walk. -/
theorem id_contents {walked : List (List (Datum κ))}
    (hwalked : t.walk.contents? bound rounds tables = some ⟨t.columns, walked⟩)
    (hmem : ∀ row, row ∈ walked ↔ ∃ n, t.level bound data n row) :
    ∃ rows, t.idPlan.contents? bound rounds tables = some ⟨[t.idColumn], rows⟩ ∧ rows.Nodup ∧
      ∀ row, row ∈ rows ↔ ∃ n ≤ t.depth, ∃ node,
        Reached (data.nodes t.idColumn t.parentColumn) (t.startData bound) t.toDescendants n node ∧
          row = [node.id] := by
  have htables : tablesWith? bound rounds t.idPlan.ctes tables =
      some ((t.name, ⟨t.columns, walked⟩) :: tables) := by
    show tablesWith? bound rounds [t.walk] tables = _
    rw [tablesWith?, hwalked]
    rfl
  have hsource : (Source.table t.name none).rows? bound rounds
      ((t.name, ⟨t.columns, walked⟩) :: tables) =
        some ((Contents.mk t.columns walked).under t.name) := by
    rw [Source.rows?, List.lookup_cons, beq_self_eq_true]
    rfl
  -- the outer query shows of a row its first column alone
  have hitems : ∀ (node : Node κ) (n : Nat),
      dataOf? bound [⟨t.name, t.columns.zip [node.id, node.parent, .int n]⟩] t.idPlan.items =
        some [node.id] := by
    intro node n
    simp [idPlan, dataOf?, Expr.datum?, columnOf?, columns]
  have hcondition : ∀ e ∈ t.idPlan.condition, ∀ row ∈ (Contents.mk t.columns walked).under t.name,
      ∃ d, e.datum? bound row = some d := fun e he => nomatch he
  have hrow : ∀ row ∈ (Contents.mk t.columns walked).under t.name,
      ∃ ds, dataOf? bound row t.idPlan.items = some ds := by
    intro row hrow
    obtain ⟨values, hvalues, rfl⟩ := Contents.mem_under.1 hrow
    obtain ⟨n, -, node, -, rfl⟩ := (hmem values).1 hvalues
    exact ⟨_, hitems node n⟩
  obtain ⟨rows, hrows, hnodup, hall⟩ := t.idPlan.mem_contents? ⟨rfl, rfl, rfl, rfl⟩ htables rfl
    hsource rfl rfl hcondition hrow
  refine ⟨rows, hrows, hnodup rfl, fun row => (hall row).trans ?_⟩
  constructor
  · rintro ⟨r, hr, -, hresult⟩
    obtain ⟨values, hvalues, rfl⟩ := Contents.mem_under.1 hr
    obtain ⟨n, hn, node, hreached, rfl⟩ := (hmem values).1 hvalues
    exact ⟨n, hn, node, hreached, (Option.some.inj ((hitems node n).symm.trans hresult)).symm⟩
  · rintro ⟨n, hn, node, hreached, rfl⟩
    have hvalues := (hmem _).2 ⟨n, hn, node, hreached, rfl⟩
    refine ⟨_, Contents.mem_under.2 ⟨_, hvalues, rfl⟩, ?_, hitems node n⟩
    exact fun e he => nomatch he

/-- There is a query for every natural number as the greatest depth. It gives each identifier once,
and gives those of the rows that are reached in at most so many steps; its recursive part is
evaluated at most once more than that. -/
theorem gives_reached (t : Traversal) (h : t.IsProper) (bound : Value → Hint → Datum κ)
    (tables : Tables κ) (data : Contents κ) (hdata : tables.lookup t.table = some data)
    (hhas : data.Has [t.idColumn, t.parentColumn]) :
    (isDepth t.maxDepth = true → ∃ b, t.builder = .ok b) ∧
    ∀ b, t.builder = .ok b → ∀ rounds, t.depth + 1 ≤ rounds →
      ∃ rows, b.query.contents? bound rounds tables = some ⟨[t.idColumn], rows⟩ ∧ rows.Nodup ∧
        ∀ row, row ∈ rows ↔ ∃ n ≤ t.depth, ∃ node,
          Reached (data.nodes t.idColumn t.parentColumn) (t.startData bound) t.toDescendants n
            node ∧ row = [node.id] := by
  constructor
  · intro hdepth
    obtain ⟨b, hb, -⟩ := builder_query h hdepth
    exact ⟨b, hb⟩
  · intro b hb rounds hrounds
    -- that there is a builder says that the depth is one, and then its query is the walk
    have hdepth := isDepth_of_builder hb
    obtain ⟨_, hb', hquery⟩ := builder_query h hdepth
    obtain rfl := Except.ok.inj (hb.symm.trans hb')
    obtain ⟨walked, hwalked, hmem⟩ : ∃ walked, t.walk.contents? bound rounds tables =
        some ⟨t.columns, walked⟩ ∧ _ := walk_contents h hdepth hdata hhas hrounds
    rw [hquery, Query.contents?]
    exact id_contents hwalked hmem

end Rounds

/-- A walk on a cycle ends, with the child of the starting row at depth one. -/
theorem gives_reached_cycle :
    ∃ b, (Traversal.mk "categories" (.value (.string "a")) "id" "parent_id" true
        (.number (.int 1)) "tree" "main").builder = .ok b ∧
      ∃ rows, b.query.contents? (fun v _ => Datum.other v.text) 2
          [("categories", ⟨["id", "parent_id"],
            [[.other "a", .other "b"], [.other "b", .other "a"], [.other "c", .null]]⟩)] =
          some ⟨["id"], rows⟩ ∧ rows.Nodup ∧ [.other "b"] ∈ rows := by
  have hproper : (Traversal.mk "categories" (.value (.string "a")) "id" "parent_id" true
      (.number (.int 1)) "tree" "main").IsProper := by
    refine ⟨by decide, by decide, by decide, by decide, by decide, ?_⟩
    rintro x hx e rfl
    cases List.mem_singleton.1 hx
  have hhas : (Contents.mk ["id", "parent_id"] [[Datum.other "a", .other "b"],
      [.other "b", .other "a"], [.other "c", .null]]).Has ["id", "parent_id"] :=
    ⟨fun name hname => hname, by decide⟩
  obtain ⟨hexists, hall⟩ := gives_reached _ hproper (fun v _ => Datum.other v.text)
    [("categories", ⟨["id", "parent_id"],
      [[.other "a", .other "b"], [.other "b", .other "a"], [.other "c", .null]]⟩)] _ rfl hhas
  obtain ⟨b, hb⟩ := hexists (by decide)
  obtain ⟨rows, hrows, hnodup, hmem⟩ := hall b hb 2 (by decide)
  refine ⟨b, hb, rows, hrows, hnodup, (hmem _).2 ⟨1, by decide, ⟨.other "b", .other "a"⟩, ?_, rfl⟩⟩
  -- the link is followed once, and the depth ends the walk before it comes back
  refine Reached.step (a := ⟨.other "a", .other "b"⟩) (.start ?_ ?_ (by decide)) ?_
    ⟨rfl, by decide⟩
  · exact List.mem_cons_self ..
  · exact List.mem_singleton_self _
  · exact List.mem_cons_of_mem _ (List.mem_cons_self ..)

end Traversal

end PolyQuery
