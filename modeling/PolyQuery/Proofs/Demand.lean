import PolyQuery.Proofs.Phrase
import PolyQuery.Proofs.Rendering

/-! What a statement demands of the server that it is written for. A statement is written exactly when
all its demands are met, and where it is refused, a demand in it is refused with the same error:
`judges_statement`. -/
namespace PolyQuery

/-- A demand on a server: features of a category; any feature of windows, for a function with a window;
rows that are skipped; the names of the columns of a recursive query. A function that is nothing
without a window, and a raw text with as many values as it has places, ask the same of every server. -/
inductive Demand where
  | feature (category : Category) (flags : Mask)
  | windows (function : String)
  | skip (offset : Value)
  | columns (name : String) (query : Query)
  | window (function : String)
  | places (sql : String) (parameters : List Value)

namespace Demand

/-- Rows cannot be skipped by `TOP`. -/
def cannotSkip (d : Dialect) (offset : Value) : Prop :=
  d.paginationStyle = .top ∧ (Number.int 0).lt offset.toNumber = true

instance (d : Dialect) (offset : Value) : Decidable (cannotSkip d offset) :=
  inferInstanceAs (Decidable (_ ∧ _))

/-- The refusal of a demand that is not met. -/
def check (d : Dialect) : Demand → Except Error Unit
  | feature category flags => d.require category flags
  | windows function =>
    if d.capabilities.supportsCategory .windowFunctions then .ok ()
    else .error (.unsupportedFeature d.label (some .windowFunctions) Category.windowFunctions.name
      (some (function ++ " OVER (...)")))
  | skip offset =>
    if cannotSkip d offset then
      .error (.unsupportedFeature d.label none "OFFSET" (some "requires OFFSET/FETCH support"))
    else .ok ()
  | columns name query => do
    let _ ← Sql.requiredColumns d name true query
    return ()
  | window function => fault (.windowMissing function)
  | places sql parameters => do
    let _ ← Raw.fragment sql parameters
    return ()

end Demand

/-- The demands of common table expressions on their own, without what stands in their bodies. -/
def Cte.demands (c : Cte) : List Demand :=
  (if c.materialized.isSome then [.feature .cte CteFeature.materialized] else []) ++
    (if c.columns.isNone && c.recursive then [.columns c.name c.query] else [])

def Cte.allDemands (cs : List Cte) : List Demand :=
  (if cs.isEmpty then [] else [.feature .cte CteFeature.basic]) ++
    (if cs.any Cte.recursive then [.feature .cte CteFeature.recursive] else []) ++
    cs.flatMap Cte.demands

def Join.demand (j : Join) : Demand := .feature .joinOperations j.kind.feature

def Pagination.demands (pagination : Option Pagination) : List Demand :=
  (pagination.bind Pagination.offset).toList.map .skip

/-- What a call asks of windows, by the name of its function in upper case. -/
def Demand.ofWindow (function : String) (windowed : Bool) : List Demand :=
  match windowFunctions.lookup function with
  | some flags => [if windowed then .feature .windowFunctions flags else .window function]
  | none => if windowed then [.windows function] else []

theorem Demand.ofWindow_known {function : String} {flags : Mask} (windowed : Bool)
    (h : windowFunctions.lookup function = some flags) : ofWindow function windowed =
      [if windowed then .feature .windowFunctions flags else .window function] := by
  rw [ofWindow, h]

theorem Demand.ofWindow_unknown {function : String} (windowed : Bool)
    (h : windowFunctions.lookup function = none) : ofWindow function windowed =
      if windowed then [.windows function] else [] := by
  rw [ofWindow, h]

/-- What a call asks of documents. -/
def Demand.ofDocument (function : String) : List Demand :=
  (jsonFunctions.lookup function).toList.map (.feature .jsonOperations)

/-- The demands of a call, by the name of its function in upper case. -/
def Demand.ofCall (function : String) (windowed : Bool) : List Demand :=
  ofWindow function windowed ++ ofDocument function

/-- The demands of an item to return. -/
def Demand.ofReturned : Expr → List Demand
  | .named e _ => .feature .returningClause ReturningFeature.aliases ::
      (if Sql.isColumn e then [] else [.feature .returningClause ReturningFeature.expressions])
  | .column _ _ _ => []
  | .star _ => []
  | _ => [.feature .returningClause ReturningFeature.expressions]

def Demand.ofReturning (items : List Expr) : List Demand :=
  if items.isEmpty then []
  else .feature .returningClause ReturningFeature.basic :: items.flatMap ofReturned

namespace Phrase

/-- The demands of a phrase on its own. -/
def demands : Phrase → List Demand
  | expr (.call name _ _ windowed) => Demand.ofCall (Text.upper name) windowed.isSome
  | expr (.raw sql parameters) => [.places sql parameters]
  | expr _ => []
  | query (.select p) =>
    Cte.allDemands p.ctes ++ p.joins.map Join.demand ++ Pagination.demands p.pagination
  | query (.combined p) =>
    Cte.allDemands p.ctes ++ .feature .setOperations (p.operator.feature p.all) ::
      Pagination.demands p.pagination

/-- A demand of a phrase, at any depth. -/
def Demands (p : Phrase) (u : Demand) : Prop := ∃ m, Within written p m ∧ u ∈ m.demands

/-- A demand of one of several phrases. -/
def Among (ps : List Phrase) (u : Demand) : Prop := ∃ p ∈ ps, p.Demands u

variable {p : Phrase} {ps qs : List Phrase} {u : Demand}

theorem demands_iff : p.Demands u ↔ u ∈ p.demands ∨ Among p.written u := by
  constructor
  · rintro ⟨m, hm, hu⟩
    obtain rfl | ⟨c, hc, hm⟩ := within_iff.1 hm
    · exact .inl hu
    · exact .inr ⟨c, hc, m, hm, hu⟩
  · rintro (hu | ⟨c, hc, m, hm, hu⟩)
    · exact ⟨p, .refl, hu⟩
    · exact ⟨m, within_iff.2 (.inr ⟨c, hc, hm⟩), hu⟩

@[simp] theorem among_nil : Among [] u ↔ False := by simp [Among]

@[simp] theorem among_cons : Among (p :: ps) u ↔ p.Demands u ∨ Among ps u := by simp [Among]

@[simp] theorem among_append : Among (ps ++ qs) u ↔ Among ps u ∨ Among qs u := by
  simp [Among, or_and_right, exists_or]

end Phrase

namespace Statement

/-- The demands of a statement on its own. -/
def demands : Statement → List Demand
  | .query _ => []
  | .insert p =>
    (if 1 < p.rows.length then [.feature .bulkOperations BulkFeature.multiRowInsert] else []) ++
      Demand.ofReturning p.returning
  | .update p => Demand.ofReturning p.returning
  | .delete p => Demand.ofReturning p.returning

/-- A demand of a statement or of a phrase that is written in it. -/
def Demands (s : Statement) (u : Demand) : Prop :=
  u ∈ s.demands ∨ ∃ m, s.Has Phrase.written m ∧ u ∈ m.demands

theorem demands_iff {s : Statement} {u : Demand} :
    s.Demands u ↔ u ∈ s.demands ∨ Phrase.Among s.phrases u := by
  constructor
  · rintro (hu | ⟨m, ⟨p, hp, hm⟩, hu⟩)
    · exact .inl hu
    · exact .inr ⟨p, hp, m, hm, hu⟩
  · rintro (hu | ⟨p, hp, m, hm, hu⟩)
    · exact .inl hu
    · exact .inr ⟨m, ⟨p, hp, hm⟩, hu⟩

end Statement

/-- Something is done exactly when demands are met, and else refused as one of them is. -/
structure Judges {α : Type} (d : Dialect) (D : Demand → Prop) (x : Except Error α) : Prop where
  met : ∀ a, x = .ok a → ∀ u, D u → u.check d = .ok ()
  refused : ∀ e, x = .error e → ∃ u, D u ∧ u.check d = .error e

namespace Judges
variable {α β : Type} {d : Dialect} {D E : Demand → Prop} {x : Except Error α}
  {f : α → Except Error β}

theorem iff (h : Judges d D x) (hD : ∀ u, E u ↔ D u) : Judges d E x where
  met := fun a ha u hu => h.met a ha u ((hD u).1 hu)
  refused := fun e he => by
    obtain ⟨u, hu, hcheck⟩ := h.refused e he
    exact ⟨u, (hD u).2 hu, hcheck⟩

theorem ok (a : α) : Judges d (fun _ => False) (.ok a : Except Error α) where
  met := fun _ _ _ hu => hu.elim
  refused := fun _ he => nomatch he

theorem check (u : Demand) : Judges d (· = u) (u.check d) where
  met := by
    rintro _ ha _ rfl
    exact ha
  refused := fun _ he => ⟨u, rfl, he⟩

theorem error {u : Demand} {e : Error} (h : u.check d = .error e) :
    Judges d (· = u) (.error e : Except Error α) where
  met := fun _ ha => nomatch ha
  refused := by
    rintro _ ⟨⟩
    exact ⟨u, rfl, h⟩

/-- A demand whose check is to do something judges this. -/
theorem of_check {u : Demand} (h : u.check d = x >>= fun _ => .ok ()) : Judges d (· = u) x where
  met := by
    rintro a ha _ rfl
    rw [h, ha]
    rfl
  refused := by
    intro e he
    refine ⟨u, rfl, ?_⟩
    rw [h, he]
    rfl

/-- One step after another demands what both demand. -/
theorem bind (hx : Judges d D x) (hf : ∀ a, Judges d E (f a)) :
    Judges d (fun u => D u ∨ E u) (x >>= f) where
  met := by
    intro b hb u hu
    obtain ⟨a, ha, hb⟩ := bind_eq_ok.1 hb
    obtain hu | hu := hu
    · exact hx.met a ha u hu
    · exact (hf a).met b hb u hu
  refused := by
    intro e he
    cases hxa : x with
    | error e' =>
      rw [hxa] at he
      cases he
      obtain ⟨u, hu, hcheck⟩ := hx.refused e hxa
      exact ⟨u, .inl hu, hcheck⟩
    | ok a =>
      rw [hxa] at he
      obtain ⟨u, hu, hcheck⟩ := (hf a).refused e he
      exact ⟨u, .inr hu, hcheck⟩

/-- What is made of a result demands nothing. -/
theorem map (hx : Judges d D x) (g : α → β) : Judges d D (x >>= fun a => .ok (g a)) :=
  (hx.bind fun a => ok (g a)).iff fun _ => (or_false _).symm ▸ Iff.rfl

/-- A step that is taken under a condition. -/
theorem guard {c : Prop} [Decidable c] {x : Except Error Unit} {f : Unit → Except Error β}
    (hx : Judges d D x) (hf : ∀ a, Judges d E (f a)) :
    Judges d (fun u => (c ∧ D u) ∨ E u) (if c then x >>= f else f ()) := by
  by_cases hc : c
  · rw [if_pos hc]
    exact (hx.bind hf).iff fun u => by simp [hc]
  · rw [if_neg hc]
    exact (hf ()).iff fun u => by simp [hc]

end Judges

end PolyQuery
