import PolyQuery.Dialect.Function
import PolyQuery.Expr

/-! Pieces of a statement while it is put together: text with holes for the values that will be
bound. A hole names its value by position among the fragment's own bindings, and positions are moved
when fragments are joined, so that text and values stay together wherever a fragment ends up. -/
namespace PolyQuery

/-- A value to bind, with what decides its representation. -/
structure Binding where
  value : Value
  hint : Hint

/-- The binding of a value about which nothing else is said. -/
def Binding.plain (v : Value) : Binding := ⟨v, ⟨v.hostType, none, none⟩⟩

/-- A text, or the place of a bound value. -/
inductive Piece where
  | text (s : String)
  | hole (position : Nat)
  deriving DecidableEq, Repr

/-- The piece with its hole moved. -/
def Piece.shift (by_ : Nat) : Piece → Piece
  | .text s => .text s
  | .hole position => .hole (position + by_)

/-- Text with holes, and the values for them. -/
structure Fragment where
  pieces : List Piece
  bindings : List Binding

namespace Fragment

/-- Nothing. -/
def empty : Fragment := ⟨[], []⟩

/-- A text without holes. -/
def text (s : String) : Fragment := ⟨[.text s], []⟩

/-- A hole with its value. -/
def bind (b : Binding) : Fragment := ⟨[.hole 0], [b]⟩

/-- One fragment after another. -/
def append (a b : Fragment) : Fragment :=
  ⟨a.pieces ++ b.pieces.map (Piece.shift a.bindings.length), a.bindings ++ b.bindings⟩

instance : Append Fragment := ⟨append⟩

/-- All fragments in order. -/
def concat : List Fragment → Fragment
  | [] => empty
  | f :: fs => f ++ concat fs

/-- All fragments in order, with a text between two of them. -/
def join (separator : String) : List Fragment → Fragment
  | [] => empty
  | [f] => f
  | f :: fs => f ++ text separator ++ join separator fs

/-- A fragment between parentheses. -/
def enclosed (f : Fragment) : Fragment := text "(" ++ f ++ text ")"

/-- The number of bindings of the fragments before a place. -/
def offset (fragments : List Fragment) (place : Nat) : Nat :=
  ((fragments.take place).flatMap fun f => f.bindings).length

/-- The pieces that a part of a layout stands for. -/
def layoutPieces (arguments : List Fragment) : LayoutPart → List Piece
  | .text s => [.text s]
  | .argument place =>
    match arguments[place]? with
    | some f => f.pieces.map (Piece.shift (offset arguments place))
    | none => []

/-- A layout filled with arguments. Every argument's values are bound once, in order, wherever and
however often the layout puts its text. -/
def ofLayout (layout : List LayoutPart) (arguments : List Fragment) : Fragment :=
  ⟨layout.flatMap (layoutPieces arguments), arguments.flatMap Fragment.bindings⟩

/-- The text, with the dialect's placeholder in each hole. -/
def sql (d : Dialect) (f : Fragment) : String :=
  String.join <| f.pieces.map fun
    | .text s => s
    | .hole position => d.placeholder (position + 1)

end Fragment

end PolyQuery
