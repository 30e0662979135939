import Mathlib
import PolyQuery.Proofs.Civil
import PolyQuery.Proofs.Looking

/-! When match keys are the same. A value denotes a key, `Denotes`: an integer however a driver
returns it, a text, a flag, an instant, bytes, or a JSON text. The first character of a key tells
the kind of what it is the key of, and within a kind the key tells the rest, so two keys are the same
only if the values denote the same. A text is the exception, since it is its own key and may spell
that of a value of another kind: `matchKey_exact`. -/
namespace PolyQuery

/-- The kinds of what values denote as keys. -/
inductive KeyKind
  | integer
  | text
  | flag
  | instant
  | bytes
  | json

/-- What a value denotes as a key. -/
inductive KeyValue
  | integer (i : Int)
  | text (t : String)
  | flag (b : Bool)
  | instant (ms : Int)
  | bytes (data : List UInt8)
  | json (t : String)
  deriving DecidableEq

namespace KeyValue
variable {d e : KeyValue}

/-- The kind of what is denoted. -/
def kind : KeyValue → KeyKind
  | .integer _ => .integer
  | .text _ => .text
  | .flag _ => .flag
  | .instant _ => .instant
  | .bytes _ => .bytes
  | .json _ => .json

/-- The match key of what is denoted. -/
def key : KeyValue → String
  | .integer i => toString i
  | .text t => t
  | .flag b => (Value.bool b).text
  | .instant ms => "date:" ++ Calendar.isoText ms
  | .bytes data => "bytes:" ++ String.ofList (Value.hexChars data)
  | .json t => "json:" ++ t

/-- A text spells the key of a value of another kind. -/
inductive Spells : KeyValue → KeyValue → Prop
  | flag (b : Bool) : Spells (.text (Value.bool b).text) (.flag b)
  | instant (ms : Int) : Spells (.text ("date:" ++ Calendar.isoText ms)) (.instant ms)
  | bytes (data : List UInt8) :
    Spells (.text ("bytes:" ++ String.ofList (Value.hexChars data))) (.bytes data)
  | json (t : String) : Spells (.text ("json:" ++ t)) (.json t)

/-- No text is the numeral of an integer: a numeral denotes the integer. -/
def IsProper (d : KeyValue) : Prop := ∀ t, d = .text t → ∀ i : Int, t ≠ toString i

theorem Spells.key_eq (h : Spells d e) : d.key = e.key := by cases h <;> rfl

theorem Spells.kind_ne (h : Spells d e) : d.kind ≠ e.kind := by cases h <;> exact nofun

/-! ## The first character of a key -/

/-- The kind that the first character of a key tells, when it is not the key of a text. -/
def kindOfFirst : Char → KeyKind
  | 't' | 'f' => .flag
  | 'd' => .instant
  | 'b' => .bytes
  | 'j' => .json
  | _ => .integer

theorem kindOfFirst_of_isDigit {c : Char} (h : c.isDigit = true) : kindOfFirst c = .integer := by
  unfold kindOfFirst
  split <;> first | rfl | exact absurd h (by decide)

theorem first_natural (n : Nat) : ∃ c rest, n.repr.toList = c :: rest ∧ c.isDigit = true := by
  rw [Nat.toList_repr]
  cases hdigits : Nat.toDigits 10 n with
  | nil => exact absurd hdigits Nat.toDigits_ne_nil
  | cons c rest =>
    have hmem : c ∈ Nat.toDigits 10 n := hdigits ▸ List.mem_cons_self
    exact ⟨c, rest, rfl, Nat.isDigit_of_mem_toDigits (by decide) (by decide) hmem⟩

/-- A numeral begins with a digit or with a minus. -/
theorem first_integer (i : Int) :
    ∃ c rest, (toString i).toList = c :: rest ∧ kindOfFirst c = .integer := by
  rw [Int.toString_eq_repr, Int.repr_eq_if]
  split
  · obtain ⟨c, rest, hrepr, hdigit⟩ := first_natural i.toNat
    exact ⟨c, rest, hrepr, kindOfFirst_of_isDigit hdigit⟩
  · exact ⟨'-', _, String.toList_append, rfl⟩

theorem ne_numeral {t : String} {c : Char} {rest : List Char} (ht : t.toList = c :: rest)
    (hc : kindOfFirst c ≠ .integer) (i : Int) : t ≠ toString i := by
  rintro rfl
  obtain ⟨c', rest', hfirst, hkind⟩ := first_integer i
  rw [ht] at hfirst
  exact hc ((List.cons.inj hfirst).1 ▸ hkind)

/-- The first character of a key tells the kind, unless it is a text. -/
theorem first_key (h : d.kind ≠ .text) :
    ∃ c rest, d.key.toList = c :: rest ∧ kindOfFirst c = d.kind := by
  cases d with
  | integer i => exact first_integer i
  | text t => exact (h rfl).elim
  | flag b => cases b <;> exact ⟨_, _, rfl, rfl⟩
  | instant ms => exact ⟨'d', _, String.toList_append, rfl⟩
  | bytes data => exact ⟨'b', _, String.toList_append, rfl⟩
  | json t => exact ⟨'j', _, String.toList_append, rfl⟩

theorem kind_eq_of_key (hd : d.kind ≠ .text) (he : e.kind ≠ .text) (h : d.key = e.key) :
    d.kind = e.kind := by
  obtain ⟨c, _, hfirst, hkind⟩ := first_key hd
  obtain ⟨c', _, hfirst', hkind'⟩ := first_key he
  rw [h, hfirst'] at hfirst
  rw [← hkind, ← hkind', (List.cons.inj hfirst).1]

/-! ## Keys within a kind -/

theorem hexDigit_injective :
    ∀ m < 16, ∀ n < 16, Value.hexDigit m = Value.hexDigit n → m = n := by
  decide

theorem hexChars_injective {data data' : List UInt8}
    (h : Value.hexChars data = Value.hexChars data') : data = data' := by
  induction data generalizing data' with
  | nil =>
    cases data' with
    | nil => rfl
    | cons b' rest' => cases h
  | cons b rest ih =>
    cases data' with
    | nil => cases h
    | cons b' rest' =>
      -- a byte has two digits, the high one first
      obtain ⟨hhigh, h⟩ := List.cons.inj h
      obtain ⟨hlow, hrest⟩ := List.cons.inj h
      have hb := b.toNat_lt
      have hb' := b'.toNat_lt
      have hhigh := hexDigit_injective _ (by omega) _ (by omega) hhigh
      have hlow := hexDigit_injective _ (by omega) _ (by omega) hlow
      have hbyte : b = b' := UInt8.toNat_inj.1 (by omega)
      rw [hbyte, ih hrest]

theorem append_injective {mark t u : String} (h : mark ++ t = mark ++ u) : t = u := by
  have hchars := congrArg String.toList h
  rw [String.toList_append, String.toList_append] at hchars
  exact String.toList_injective (List.append_cancel_left hchars)

/-- Within a kind the key tells what is denoted. -/
theorem key_injective (hkind : d.kind = e.kind) (h : d.key = e.key) : d = e := by
  cases d with
  | integer i =>
    cases e with
    | integer j => exact congrArg _ (Int.repr_inj.1 h)
    | _ => cases hkind
  | text t =>
    cases e with
    | text u => exact congrArg _ h
    | _ => cases hkind
  -- each kind has a form of its own, and two values of one kind are told apart within it
  | flag b =>
    cases e with
    | flag c => cases b <;> cases c <;> first | rfl | exact absurd h (by decide)
    | _ => cases hkind
  | instant ms =>
    cases e with
    | instant ms' => exact congrArg _ (Calendar.isoText_injective (append_injective h))
    | _ => cases hkind
  | bytes data =>
    cases e with
    | bytes data' =>
      exact congrArg _ (hexChars_injective (String.ofList_injective (append_injective h)))
    | _ => cases hkind
  | json t =>
    cases e with
    | json u => exact congrArg _ (append_injective h)
    | _ => cases hkind

theorem spells_of_key {t : String} (ht : IsProper (.text t)) (he : e.kind ≠ .text)
    (h : t = e.key) : Spells (.text t) e := by
  subst h
  cases e with
  | integer i => exact (ht _ rfl i rfl).elim
  | text u => exact (he rfl).elim
  | flag b => exact .flag b
  | instant ms => exact .instant ms
  | bytes data => exact .bytes data
  | json u => exact .json u

/-- Keys are the same for the same, and where a text spells the key of another kind. -/
theorem key_eq_iff (hd : d.IsProper) (he : e.IsProper) :
    d.key = e.key ↔ d = e ∨ Spells d e ∨ Spells e d := by
  constructor
  · intro h
    by_cases hkind : d.kind = e.kind
    · exact .inl (key_injective hkind h)
    · right
      -- kinds that differ have different first characters, so one of the two is a text
      cases d with
      | text t => exact .inl (spells_of_key hd (fun he => hkind he.symm) h)
      | _ =>
        cases e with
        | text u => exact .inr (spells_of_key he nofun h.symm)
        | _ => exact (hkind (kind_eq_of_key nofun nofun h)).elim
  · rintro (rfl | hspells | hspells)
    · rfl
    · exact hspells.key_eq
    · exact hspells.key_eq.symm

end KeyValue

/-! ## Values -/

/-- What a value denotes as a key. An integer may be a safe number, a big integer or its numeral, and
bytes may be of either kind; an object denotes its JSON text. -/
inductive Denotes (s : Store) : Value → KeyValue → Prop
  | number {i : Int} : (Number.int i).isSafeInteger = true → Denotes s (.number (.int i)) (.integer i)
  | negZero : Denotes s (.number .negZero) (.integer 0)
  | bigint (i : Int) : Denotes s (.bigint i) (.integer i)
  | numeral {t : String} {i : Int} : t = toString i → Denotes s (.string t) (.integer i)
  | text {t : String} : (∀ i : Int, t ≠ toString i) → Denotes s (.string t) (.text t)
  | flag (b : Bool) : Denotes s (.bool b) (.flag b)
  | instant (ms : Int) : Denotes s (.date (some ms)) (.instant ms)
  | bytes (kind : ByteKind) (data : List UInt8) : Denotes s (.bytes kind data) (.bytes data)
  | json {v : Value} {text : String} : Store.keyedByText v = true →
    (s.jsonText v).1 = .ok (some text) → Denotes s v (.json text)

namespace Denotes
variable {s t : Store} {v : Value} {d e : KeyValue}

theorem isProper (h : Denotes s v d) : d.IsProper := by
  intro t ht
  cases h with
  | text hproper =>
    cases ht
    exact hproper
  | _ => cases ht

/-- The match key of a value is that of what it denotes. -/
theorem matchKey_eq (h : Denotes s v d) : (matchKey v s).1 = .ok (some d.key) := by
  cases h with
  | @number i hsafe =>
    have hsmall : i.natAbs ≤ powerOfTwo 53 := Nat.le_trans (of_decide_eq_true hsafe) (by decide)
    have htext : (Number.int i).text = toString i := if_pos hsmall
    show Except.ok (some (Number.int i).text) = _
    rw [htext]
    rfl
  | numeral h =>
    rw [h]
    rfl
  | json hkeyed htext =>
    rw [Store.matchKey_eq hkeyed, htext]
    rfl
  | _ => rfl

/-- Every text denotes something: the integer it is the numeral of, or itself. -/
theorem exists_string (s : Store) (t : String) : ∃ d, Denotes s (.string t) d := by
  by_cases h : ∃ i : Int, t = toString i
  · obtain ⟨i, hi⟩ := h
    exact ⟨_, .numeral hi⟩
  · exact ⟨_, .text fun i hi => h ⟨i, hi⟩⟩

/-- A value denotes one thing. -/
theorem unique (hd : Denotes s v d) (he : Denotes s v e) : d = e := by
  have hkey : d.key = e.key :=
    Option.some.inj (Except.ok.inj (hd.matchKey_eq.symm.trans he.matchKey_eq))
  refine KeyValue.key_injective ?_ hkey
  clear hkey
  -- a text denotes itself or a number, and which one is decided by the text
  cases hd with
  | text hproper =>
    cases he with
    | numeral h => exact (hproper _ h).elim
    | text => rfl
    | json hkeyed => cases hkeyed
  | numeral h =>
    cases he with
    | numeral => rfl
    | text hproper => exact (hproper _ h).elim
    | json hkeyed => cases hkeyed
  | json hkeyed =>
    cases he with
    | json => rfl
    | _ => cases hkeyed
  | _ =>
    cases he with
    | json hkeyed => cases hkeyed
    | _ => rfl

end Denotes

/-- Match keys are exact but for texts: two values have the same key if they denote the same, if one
is the text that spells the key of the other, and never else. So they have the same key exactly
when they denote the same, exactly as long as neither spells the key of the other. -/
theorem matchKey_exact {s t : Store} {a b : Value} {d e : KeyValue} (ha : Denotes s a d)
    (hb : Denotes t b e) :
    (matchKey a s).1 = .ok (some d.key) ∧ (matchKey b t).1 = .ok (some e.key) ∧
    ((matchKey a s).1 = (matchKey b t).1 ↔ d = e ∨ d.Spells e ∨ e.Spells d) ∧
    (((matchKey a s).1 = (matchKey b t).1 ↔ d = e) ↔ ¬ (d.Spells e ∨ e.Spells d)) := by
  have hkeys : (matchKey a s).1 = (matchKey b t).1 ↔ d = e ∨ d.Spells e ∨ e.Spells d := by
    rw [ha.matchKey_eq, hb.matchKey_eq, ← KeyValue.key_eq_iff ha.isProper hb.isProper]
    constructor
    · intro h
      exact Option.some.inj (Except.ok.inj h)
    · intro h
      rw [h]
  refine ⟨ha.matchKey_eq, hb.matchKey_eq, hkeys, ?_⟩
  rw [hkeys]
  constructor
  -- a value and the text that spells its key are of two kinds, so they do not denote the same
  · intro h hspells
    have hkind : d.kind ≠ e.kind := hspells.elim (·.kind_ne) (·.kind_ne.symm)
    exact hkind (congrArg KeyValue.kind (h.1 (.inr hspells)))
  · intro hspells
    exact or_iff_left hspells

/-- A big integer has the key of its numeral, and bytes have not the key of an object. -/
theorem matchKey_exact_mixed :
    let s : Store := ⟨#[], .int 0⟩
    (matchKey (.bigint 7) s).1 = (matchKey (.string "7") s).1 ∧
    (matchKey (.bytes .buffer [7]) s).1 ≠ (matchKey (.object [("id", .number (.int 7))]) s).1 := by
  intro s
  have hbig : Denotes s (.bigint 7) (.integer 7) := .bigint 7
  have hnumeral : Denotes s (.string "7") (.integer 7) := .numeral rfl
  have hbytes : Denotes s (.bytes .buffer [7]) (.bytes [7]) := .bytes .buffer [7]
  have hobject : Denotes s (.object [("id", .number (.int 7))]) (.json "\x7b\"id\":7\x7d") :=
    .json rfl (by rfl)
  constructor
  · exact (matchKey_exact hbig hnumeral).2.2.1.2 (.inl rfl)
  · intro h
    exact nomatch (matchKey_exact hbytes hobject).2.2.1.1 h

/-- The truth value has the key of the text `true`, which denotes something else. -/
theorem matchKey_flag_spelled :
    let s : Store := ⟨#[], .int 0⟩
    Denotes s (.bool true) (.flag true) ∧ Denotes s (.string "true") (.text "true") ∧
    KeyValue.flag true ≠ .text "true" ∧
    (matchKey (.bool true) s).1 = (matchKey (.string "true") s).1 :=
  ⟨.flag true, .text (KeyValue.ne_numeral rfl nofun), nofun, rfl⟩

end PolyQuery
