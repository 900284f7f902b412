/-!
# Lenient decoding

Bytes as text, with the replacement character for what is not UTF-8: one for each byte that begins no
character, and one for each character that breaks off, however many of its bytes are there.
-/

namespace SieveFilter.Text

/-- The character that stands for bytes that are not text. -/
def replacement : Char := '\ufffd'

/-- A character of which the first bytes are read: its code point so far, how many bytes are to come, and
the bounds of the next one. -/
structure Pending where
  point : Nat
  missing : Nat
  low : Nat
  high : Nat
  deriving DecidableEq, Repr

/-- What the first byte of a character says: the whole character, or what is to follow.  The bounds of the
second byte leave out code points that have a shorter form, surrogates, and what is past the last one. -/
def leadByte (byte : Nat) : Char ⊕ Pending :=
  if byte < 0x80 then .inl (Char.ofNat byte)
  else if byte < 0xC2 then .inl replacement
  else if byte < 0xE0 then .inr ⟨byte - 0xC0, 1, 0x80, 0xBF⟩
  else if byte < 0xF0 then
    let low := if byte = 0xE0 then 0xA0 else 0x80
    let high := if byte = 0xED then 0x9F else 0xBF
    .inr ⟨byte - 0xE0, 2, low, high⟩
  else if byte < 0xF5 then
    let low := if byte = 0xF0 then 0x90 else 0x80
    let high := if byte = 0xF4 then 0x8F else 0xBF
    .inr ⟨byte - 0xF0, 3, low, high⟩
  else .inl replacement

/-- Decodes bytes onto the text read so far, which comes and goes latest first. -/
def decodeFrom (past : List Char) (pending : Option Pending) : List UInt8 → List Char
  | [] => if pending.isSome then replacement :: past else past
  | byte :: rest =>
    let b := byte.toNat
    let begin (past : List Char) : List Char × Option Pending :=
      match leadByte b with
      | .inl c => (c :: past, none)
      | .inr next => (past, some next)
    let (past, pending) := match pending with
      | none => begin past
      | some ⟨point, missing, low, high⟩ =>
        if b < low || high < b then begin (replacement :: past)
        else
          let point := 64 * point + b % 64
          if missing ≤ 1 then (Char.ofNat point :: past, none)
          else (past, some ⟨point, missing - 1, 0x80, 0xBF⟩)
    decodeFrom past pending rest

/-- The text of bytes. -/
def lenient (bytes : ByteArray) : String :=
  match String.fromUTF8? bytes with
  | some text => text
  | none => String.ofList (decodeFrom [] none bytes.data.toList).reverse

end SieveFilter.Text
