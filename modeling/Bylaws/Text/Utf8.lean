import Bylaws.Fault

/-!
# Reading UTF-8

Bytes as characters. The first fault names the bytes that begin no character: a byte that
cannot come first, or the longest beginning of a character that is then broken off.
-/

namespace Bylaws.Text

/-- Whether a byte can follow `first` in a character; some first bytes narrow the range. -/
def followsLead (first second : UInt8) : Bool :=
  let low : UInt8 := if first = 0xE0 then 0xA0 else if first = 0xF0 then 0x90 else 0x80
  let high : UInt8 := if first = 0xED then 0x9F else if first = 0xF4 then 0x8F else 0xBF
  low ≤ second && second ≤ high

def isContinuation (b : UInt8) : Bool := 0x80 ≤ b && b ≤ 0xBF

/-- The number of bytes of a character by its first byte. -/
def utf8Width? (first : UInt8) : Option Nat :=
  if first < 0x80 then some 1
  else if first < 0xC2 then none
  else if first < 0xE0 then some 2
  else if first < 0xF0 then some 3
  else if first < 0xF5 then some 4
  else none

/-- How many bytes after `first` carry a character of `width` bytes on. -/
def continuationCount (first : UInt8) (width : Nat) (rest : List UInt8) : Nat :=
  match rest with
  | [] => 0
  | second :: more =>
    if followsLead first second then
      1 + ((more.take (width - 2)).takeWhile isContinuation).length
    else 0

/-- The character of some bytes. -/
def utf8Char : List UInt8 → Char
  | [a] => Char.ofNat a.toNat
  | [a, b] => Char.ofNat ((a.toNat - 0xC0) * 64 + (b.toNat - 0x80))
  | [a, b, c] =>
    Char.ofNat (((a.toNat - 0xE0) * 64 + (b.toNat - 0x80)) * 64 + (c.toNat - 0x80))
  | [a, b, c, d] =>
    Char.ofNat ((((a.toNat - 0xF0) * 64 + (b.toNat - 0x80)) * 64 + (c.toNat - 0x80)) * 64 +
      (d.toNat - 0x80))
  | _ => ' '

/-- A fault at `count` bytes from a position on. -/
def encodingFault (first : UInt8) (position count : Nat) (reason : String) : Fault :=
  .encoding (if count = 1 then some first else none) position (position + count - 1) reason

/-- The characters of the bytes from a position on, after `skip` bytes that are read already. -/
def decodeFrom (position : Nat) : (skip : Nat) → List UInt8 → Except Fault (List Char)
  | _, [] => .ok []
  | skip + 1, _ :: rest => decodeFrom (position + 1) skip rest
  | 0, b :: rest =>
    match utf8Width? b with
    | none => .error (encodingFault b position 1 "invalid start byte")
    | some width =>
      if width = 1 then (decodeFrom (position + 1) 0 rest).map (Char.ofNat b.toNat :: ·)
      else
        let count := continuationCount b width rest
        if count + 1 = width then
          (decodeFrom (position + 1) count rest).map (utf8Char (b :: rest.take count) :: ·)
        else if count = rest.length then
          .error (encodingFault b position (count + 1) "unexpected end of data")
        else .error (encodingFault b position (count + 1) "invalid continuation byte")

/-- The characters of some bytes. -/
def decode (bytes : List UInt8) : Except Fault (List Char) := decodeFrom 0 0 bytes

/-- The bytes of a character. -/
def encodeChar (c : Char) : List UInt8 :=
  let n := c.toNat
  if n < 0x80 then [n.toUInt8]
  else if n < 0x800 then [(0xC0 + n / 64).toUInt8, (0x80 + n % 64).toUInt8]
  else if n < 0x10000 then
    [(0xE0 + n / 4096).toUInt8, (0x80 + n / 64 % 64).toUInt8, (0x80 + n % 64).toUInt8]
  else
    [(0xF0 + n / 262144).toUInt8, (0x80 + n / 4096 % 64).toUInt8,
      (0x80 + n / 64 % 64).toUInt8, (0x80 + n % 64).toUInt8]

def encode (s : List Char) : List UInt8 := s.flatMap encodeChar

/-- A text in which every sort of line end is a line feed. -/
def unixLines : List Char → List Char
  | [] => []
  | '\r' :: '\n' :: rest => '\n' :: unixLines rest
  | '\r' :: rest => '\n' :: unixLines rest
  | c :: rest => c :: unixLines rest

end Bylaws.Text
