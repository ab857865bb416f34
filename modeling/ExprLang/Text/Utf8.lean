/-!
# UTF-8

Decoding stops at the first byte sequence that is no character.  The sequence
at fault is the longest beginning of a character found there: a byte that can
begin none, a character cut short by another byte, or one cut short by the end.
-/

namespace ExprLang.Text

namespace Utf8

inductive Defect where
  | startByte
  | continuationByte
  | endOfData
  deriving DecidableEq, Repr

structure Fault where
  position : Nat
  bytes : List UInt8
  defect : Defect
  deriving DecidableEq, Repr

def Defect.message : Defect → String
  | startByte => "invalid start byte"
  | continuationByte => "invalid continuation byte"
  | endOfData => "unexpected end of data"

def hexByte (byte : UInt8) : String :=
  let digits := Nat.toDigits 16 byte.toNat
  "0x" ++ String.ofList (List.replicate (2 - digits.length) '0' ++ digits)

def Fault.message (fault : Fault) : String :=
  let place :=
    match fault.bytes with
    | [byte] => "byte " ++ hexByte byte ++ " in position " ++
        toString fault.position
    | bytes => "bytes in position " ++ toString fault.position ++ "-" ++
        toString (fault.position + bytes.length - 1)
  "'utf-8' codec can't decode " ++ place ++ ": " ++ fault.defect.message

structure ByteRange where
  first : Nat
  last : Nat
  deriving DecidableEq, Repr

def ByteRange.holds (range : ByteRange) (byte : UInt8) : Bool :=
  range.first ≤ byte.toNat && byte.toNat ≤ range.last

def trailing : ByteRange := ⟨0x80, 0xbf⟩

/-- A character of which some bytes have been read: where it begins, those
bytes, the bits they carry, and the ranges of the bytes still to come. -/
structure Pending where
  position : Nat
  bytes : List UInt8
  bits : Nat
  awaited : List ByteRange
  deriving DecidableEq, Repr

/-- The character begun by a byte.  Second bytes are restricted where they
would spell an overlong form, a surrogate or a number beyond U+10FFFF. -/
def begin? (position : Nat) (byte : UInt8) : Option Pending :=
  let code := byte.toNat
  let pending (bits : Nat) (awaited : List ByteRange) : Option Pending :=
    some ⟨position, [byte], bits, awaited⟩
  if code < 0x80 then pending code []
  else if code < 0xc2 then none
  else if code < 0xe0 then pending (code - 0xc0) [trailing]
  else if code = 0xe0 then pending 0 [⟨0xa0, 0xbf⟩, trailing]
  else if code = 0xed then pending 0xd [⟨0x80, 0x9f⟩, trailing]
  else if code < 0xf0 then pending (code - 0xe0) [trailing, trailing]
  else if code = 0xf0 then pending 0 [⟨0x90, 0xbf⟩, trailing, trailing]
  else if code < 0xf4 then
    pending (code - 0xf0) [trailing, trailing, trailing]
  else if code = 0xf4 then pending 4 [⟨0x80, 0x8f⟩, trailing, trailing]
  else none

def decodeFrom (position : Nat) (pending : Option Pending) :
    List UInt8 → Except Fault (List Char)
  | [] =>
      match pending with
      | none => .ok []
      | some partway => .error ⟨partway.position, partway.bytes, .endOfData⟩
  | byte :: rest =>
      let advanced : Except Fault Pending :=
        match pending with
        | none =>
            match begin? position byte with
            | none => .error ⟨position, [byte], .startByte⟩
            | some begun => .ok begun
        | some partway =>
            match partway.awaited with
            | range :: later =>
                if range.holds byte then
                  .ok ⟨partway.position, partway.bytes ++ [byte],
                    partway.bits * 64 + (byte.toNat - 0x80), later⟩
                else .error ⟨partway.position, partway.bytes, .continuationByte⟩
            | [] => .error ⟨position, [byte], .startByte⟩
      match advanced with
      | .error fault => .error fault
      | .ok reached =>
          if reached.awaited.isEmpty then do
            let others ← decodeFrom (position + 1) none rest
            pure (Char.ofNat reached.bits :: others)
          else decodeFrom (position + 1) (some reached) rest

def decode (bytes : List UInt8) : Except Fault (List Char) :=
  decodeFrom 0 none bytes

end Utf8

def unifyNewlines : List Char → List Char
  | [] => []
  | '\r' :: '\n' :: rest => '\n' :: unifyNewlines rest
  | '\r' :: rest => '\n' :: unifyNewlines rest
  | character :: rest => character :: unifyNewlines rest

end ExprLang.Text
