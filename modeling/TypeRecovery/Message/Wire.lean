/-
  TypeRecovery.Message.Wire — messages as sequences of numbered fields.

  A field is a tag, which holds its number and its wire type, and a payload: a varint, four
  or eight bytes, a length with that many bytes, or a group of fields up to its closing tag.
  Varints hold seven bits a byte, the lowest first; a tag has at most five bytes and 32
  bits, a length at most five bytes, another varint at most ten bytes, of which 64 bits
  count. A reader refuses unknown wire types, a closing tag without its group, groups nested
  too deep, a message that ends inside a field, and field number zero, except in a group.
-/

import TypeRecovery.Text.Utf8

namespace TypeRecovery.Message

inductive Payload where
  | varint (n : Nat)
  | bytes (content : Bytes)
  /-- Fixed-width numbers and groups, which no message here has. -/
  | unread
  deriving DecidableEq, Repr

structure WireField where
  number : Nat
  payload : Payload
  deriving DecidableEq, Repr

/-! ## Reading -/

/-- A varint of at most `size` bytes, and what follows it. -/
def varint? : Nat → Bytes → Option (Nat × Bytes)
  | 0, _ => none
  | _, [] => none
  | size + 1, b :: rest =>
    if b < 128 then some (b.toNat, rest)
    else (varint? size rest).map fun (n, after) => (b.toNat - 128 + 128 * n, after)

def tag? (bs : Bytes) : Option (Nat × Bytes) :=
  (varint? 5 bs).filter fun (n, _) => n < 0x100000000

def number? (bs : Bytes) : Option (Nat × Bytes) :=
  (varint? 10 bs).map fun (n, rest) => (n % 0x10000000000000000, rest)

def length? (bs : Bytes) : Option (Nat × Bytes) := varint? 5 bs

/-- Exactly `n` bytes, and what follows them. -/
def chunk? (n : Nat) (bs : Bytes) : Option (Bytes × Bytes) :=
  let content := bs.take n
  if content.length = n then some (content, bs.drop n) else none

/-- The fields up to the end, or to the closing tag of the group in which they stand. The
budget is at least the number of bytes; `depth` groups may still be opened. -/
def fieldsUntil : Nat → Nat → Option Nat → Bytes → Option (List WireField × Bytes)
  | _, _, closing, [] => if closing.isNone then some ([], []) else none
  | 0, _, _, _ => none
  | budget + 1, depth, closing, bs => do
    let (tag, rest) ← tag? bs
    let number := tag / 8
    if number = 0 ∧ closing.isNone then none
    match tag % 8 with
    | 0 =>
      let (n, rest) ← number? rest
      let (fields, last) ← fieldsUntil budget depth closing rest
      return (⟨number, .varint n⟩ :: fields, last)
    | 1 =>
      let (_, rest) ← chunk? 8 rest
      let (fields, last) ← fieldsUntil budget depth closing rest
      return (⟨number, .unread⟩ :: fields, last)
    | 2 =>
      let (size, rest) ← length? rest
      let (content, rest) ← chunk? size rest
      let (fields, last) ← fieldsUntil budget depth closing rest
      return (⟨number, .bytes content⟩ :: fields, last)
    | 3 =>
      match depth with
      | 0 => none
      | inner + 1 =>
        let (_, rest) ← fieldsUntil budget inner (some number) rest
        let (fields, last) ← fieldsUntil budget depth closing rest
        return (⟨number, .unread⟩ :: fields, last)
    | 4 => if closing = some number then some ([], rest) else none
    | 5 =>
      let (_, rest) ← chunk? 4 rest
      let (fields, last) ← fieldsUntil budget depth closing rest
      return (⟨number, .unread⟩ :: fields, last)
    | _ => none

def fields? (depth : Nat) (bs : Bytes) : Option (List WireField) :=
  (fieldsUntil bs.length depth none bs).map (·.1)

/-! ## Writing -/

def varint (n : Nat) : Bytes :=
  if n < 128 then [n.toUInt8] else (n % 128 + 128).toUInt8 :: varint (n / 128)

def WireField.encode (f : WireField) : Bytes :=
  match f.payload with
  | .varint n => varint (8 * f.number) ++ varint n
  | .bytes content => varint (8 * f.number + 2) ++ varint content.length ++ content
  | .unread => []

def encodeFields (fs : List WireField) : Bytes := fs.flatMap WireField.encode

end TypeRecovery.Message
