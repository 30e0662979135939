/-! UTF-8 as text readers take it: bytes that encode no character are read as the replacement
character. What begins like a character is replaced as one, up to the byte at which it fails. -/
namespace PolyQuery.Text.Utf8

/-- The character in the place of bytes that encode none. -/
def replacement : Char := Char.ofNat 0xFFFD

/-- A character of which some bytes are read: the bits so far, how many bytes are missing, and the
range in which the next one must be. -/
structure Begun where
  bits : Nat
  missing : Nat
  least : Nat
  greatest : Nat

/-- What a byte begins: a character of its own, or one of several bytes. The range of the second
byte leaves out longer encodings than needed, surrogates, and what lies beyond Unicode. -/
def start (b : Nat) : Char ⊕ Begun :=
  if b < 0x80 then .inl (Char.ofNat b)
  else if b < 0xC2 then .inl replacement
  else if b < 0xE0 then .inr ⟨b - 0xC0, 1, 0x80, 0xBF⟩
  else if b = 0xE0 then .inr ⟨0, 2, 0xA0, 0xBF⟩
  else if b = 0xED then .inr ⟨0xD, 2, 0x80, 0x9F⟩
  else if b < 0xF0 then .inr ⟨b - 0xE0, 2, 0x80, 0xBF⟩
  else if b = 0xF0 then .inr ⟨0, 3, 0x90, 0xBF⟩
  else if b = 0xF4 then .inr ⟨4, 3, 0x80, 0x8F⟩
  else if b < 0xF4 then .inr ⟨b - 0xF0, 3, 0x80, 0xBF⟩
  else .inl replacement

/-- The characters of bytes behind those of a character that was begun, if one was. -/
def decodeFrom : Option Begun → List UInt8 → List Char
  | none, [] => []
  | some _, [] => [replacement]
  | none, b :: rest =>
    match start b.toNat with
    | .inl c => c :: decodeFrom none rest
    | .inr p => decodeFrom (some p) rest
  | some p, b :: rest =>
    let n := b.toNat
    if p.least ≤ n ∧ n ≤ p.greatest then
      let bits := p.bits * 64 + n % 64
      if p.missing = 1 then Char.ofNat bits :: decodeFrom none rest
      else decodeFrom (some ⟨bits, p.missing - 1, 0x80, 0xBF⟩) rest
    else
      match start n with
      | .inl c => replacement :: c :: decodeFrom none rest
      | .inr q => replacement :: decodeFrom (some q) rest

/-- The characters of bytes. -/
def decode (data : List UInt8) : List Char := decodeFrom none data

end PolyQuery.Text.Utf8
