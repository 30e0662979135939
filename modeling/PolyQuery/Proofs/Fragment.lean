import PolyQuery.Proofs.Rendering

/-! The values and the holes of fragments. Putting fragments together puts their values side by
side; where every fragment has its holes in order, so has the whole. -/
namespace PolyQuery

namespace Fragment

@[simp] theorem bindings_append (a b : Fragment) :
    (a ++ b).bindings = a.bindings ++ b.bindings := rfl

@[simp] theorem bindings_text (s : String) : (text s).bindings = [] := rfl

@[simp] theorem bindings_empty : empty.bindings = [] := rfl

@[simp] theorem bindings_bind (b : Binding) : (bind b).bindings = [b] := rfl

@[simp] theorem bindings_enclosed (f : Fragment) : f.enclosed.bindings = f.bindings := by
  simp [enclosed]

theorem join_cons_cons (separator : String) (f g : Fragment) (gs : List Fragment) :
    join separator (f :: g :: gs) = f ++ text separator ++ join separator (g :: gs) := rfl

@[simp] theorem bindings_join (separator : String) (fs : List Fragment) :
    (join separator fs).bindings = fs.flatMap bindings := by
  induction fs with
  | nil => rfl
  | cons f fs ih =>
    cases fs with
    | nil => simp [join]
    | cons g gs =>
      rw [join_cons_cons, bindings_append, bindings_append, ih]
      simp

@[simp] theorem bindings_ofLayout (layout : List LayoutPart) (fs : List Fragment) :
    (ofLayout layout fs).bindings = fs.flatMap bindings := rfl

theorem shift_shift (m n : Nat) (p : Piece) : (p.shift m).shift n = p.shift (n + m) := by
  cases p with
  | text s => rfl
  | hole position => simp [Piece.shift, Nat.add_assoc, Nat.add_comm m n]

theorem shift_zero (p : Piece) : p.shift 0 = p := by cases p <;> rfl

theorem append_def (a b : Fragment) :
    a ++ b = ⟨a.pieces ++ b.pieces.map (Piece.shift a.bindings.length),
      a.bindings ++ b.bindings⟩ := rfl

theorem append_assoc (a b c : Fragment) : a ++ b ++ c = a ++ (b ++ c) := by
  have hshift : Piece.shift (a.bindings.length + b.bindings.length) =
      Piece.shift a.bindings.length ∘ Piece.shift b.bindings.length :=
    funext fun p => (shift_shift _ _ p).symm
  simp only [append_def, List.append_assoc, List.length_append, List.map_append, List.map_map,
    hshift]

theorem empty_append (a : Fragment) : empty ++ a = a := by
  have hshift : Piece.shift 0 = id := funext shift_zero
  simp only [append_def, empty, List.nil_append, List.length_nil, hshift, List.map_id]

theorem append_empty (a : Fragment) : a ++ empty = a := by
  simp only [append_def, empty, List.append_nil, List.map_nil]

/-- The holes of a fragment from the left, by the positions of their values. -/
def holes (f : Fragment) : List Nat :=
  f.pieces.filterMap fun
    | .text _ => none
    | .hole position => some position

theorem holes_shift (n : Nat) (pieces : List Piece) :
    holes ⟨pieces.map (Piece.shift n), []⟩ = (holes ⟨pieces, []⟩).map (n + ·) := by
  induction pieces with
  | nil => rfl
  | cons p ps ih =>
    simp only [holes] at ih
    cases p with
    | text s => simpa [holes, Piece.shift] using ih
    | hole m => simpa [holes, Piece.shift, Nat.add_comm n m] using ih

theorem holes_append (a b : Fragment) :
    (a ++ b).holes = a.holes ++ b.holes.map (a.bindings.length + ·) := by
  have hp : (a ++ b).pieces = a.pieces ++ b.pieces.map (Piece.shift a.bindings.length) := rfl
  have hs := holes_shift a.bindings.length b.pieces
  simp only [holes] at hs
  simp only [holes, hp, List.filterMap_append, hs]

/-- The holes stand in the order of the values, one for each value. -/
def Aligned (f : Fragment) : Prop := f.holes = List.range f.bindings.length

theorem aligned_text (s : String) : Aligned (text s) := rfl

theorem aligned_bind (b : Binding) : Aligned (bind b) := rfl

theorem Aligned.append {a b : Fragment} (ha : Aligned a) (hb : Aligned b) : Aligned (a ++ b) := by
  unfold Aligned at *
  rw [holes_append, ha, hb, bindings_append, List.length_append, List.range_add]

end Fragment

namespace Sql
open Fragment

@[simp] theorem bindings_predicateOperand (e : Expr) (f : Fragment) :
    (predicateOperand e f).bindings = f.bindings := by
  unfold predicateOperand
  split <;> simp

@[simp] theorem bindings_operand (op : BinaryOp) (side : Side) (e : Expr) (f : Fragment) :
    (operand op side e f).bindings = f.bindings := by
  unfold operand
  split <;> simp

@[simp] theorem bindings_unary (op : UnaryOp) (e : Expr) (f : Fragment) :
    (unary op e f).bindings = f.bindings := by
  cases op <;> simp [unary]

@[simp] theorem bindings_clause (keyword : String) (f : Fragment) :
    (clause keyword f).bindings = f.bindings := by simp [clause]

@[simp] theorem bindings_optionalClause (keyword : String) (x : Option Fragment) :
    (optionalClause keyword x).bindings = x.toList.flatMap bindings := by
  cases x <;> simp [optionalClause]

@[simp] theorem bindings_listClause (keyword : String) (fs : List Fragment) :
    (listClause keyword fs).bindings = fs.flatMap bindings := by
  cases fs <;> simp [listClause]

@[simp] theorem bindings_aliased (d : Dialect) (f : Fragment) (name : String) :
    (aliased d f name).bindings = f.bindings := by simp [aliased]

@[simp] theorem bindings_table (d : Dialect) (name : String) (shown : Option String) :
    (table d name shown).bindings = [] := by
  cases shown with
  | none => rfl
  | some a => by_cases ha : a = "" <;> simp [table, ha]

@[simp] theorem bindings_selectItem (d : Dialect) (e : Expr) (f : Fragment) :
    (selectItem d e f).bindings = f.bindings := by
  unfold selectItem
  split <;> simp

@[simp] theorem bindings_setOperand (d : Dialect) (side : Side) (q : Query) (f : Fragment) :
    (setOperand d side q f).bindings = f.bindings := by
  unfold setOperand
  cases q <;> dsimp only <;> split <;> (try split) <;> simp

@[simp] theorem bindings_withClause (d : Dialect) (recursive : Bool) (ctes : List Fragment)
    (body : Fragment) :
    (withClause d recursive ctes body).bindings = ctes.flatMap bindings ++ body.bindings := by
  cases ctes <;> simp [withClause]

@[simp] theorem bindings_windowedCall (called : Fragment) (framed : Option Fragment) :
    (windowedCall called framed).bindings = called.bindings ++ framed.toList.flatMap bindings := by
  cases framed <;> simp [windowedCall]

theorem bindings_windowParts (partitions orders : List Fragment) (frame : Option Frame) :
    (windowParts partitions orders frame).flatMap bindings =
      partitions.flatMap bindings ++ orders.flatMap bindings := by
  cases partitions <;> cases orders <;> cases frame <;> simp [windowParts]

/-- A membership test binds the values of its operand once for each part of the list. -/
theorem bindings_membership (d : Dialect) (negated : Bool) (test : Fragment)
    (values : List Fragment) :
    (membership d negated test values).bindings =
      (chunks (d.maxInList.getD values.length) values.length values).flatMap fun part =>
        test.bindings ++ part.flatMap bindings := by
  unfold membership
  dsimp only
  generalize chunks (d.maxInList.getD values.length) values.length values = parts
  split
  · next t ht =>
    obtain ⟨part, rfl, rfl⟩ := List.map_eq_singleton_iff.1 ht
    simp
  · simp [List.flatMap_map]

end Sql

/-- A query that is paged binds what it bound before, with the values of its ordering last. -/
theorem Paging.bindings_finish {d : Dialect} {core order body : Fragment} {ordered applied : Bool}
    {pagination : Option Pagination} (hordered : ordered = false → order.bindings = [])
    (h : Paging.finish d core order ordered pagination applied = .ok body) :
    body.bindings = core.bindings ++ order.bindings := by
  generalize hl : pagination.bind Pagination.limit = limit
  generalize ho : pagination.bind Pagination.offset = offset
  -- the numbers of a page are written, so no style of it adds a binding
  obtain ⟨rfl, _⟩ | ⟨rfl, _⟩ | ⟨rfl, _⟩ | ⟨rfl, _⟩ | ⟨v, _, rfl, _⟩ := finish_ok h
  · simp
  · rw [hl, ho]
    cases limit <;> cases offset <;> cases hn : d.noLimit <;> simp [limitOffset, hn]
  · rw [hl, ho]
    cases ordered with
    | true => cases limit <;> simp [offsetFetch]
    | false =>
      have hempty := hordered rfl
      cases limit <;> by_cases hn : d.offsetNeedsOrder <;> simp [offsetFetch, hn, hempty]
  · rw [hl, ho]
    unfold rownum
    cases limit with
    | none => simp
    | some v => by_cases hz : isZero (skipped offset) <;> simp [hz]
  · simp [topped]

end PolyQuery
