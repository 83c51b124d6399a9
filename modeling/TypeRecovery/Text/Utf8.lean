/-
  TypeRecovery.Text.Utf8 — texts as bytes.
-/

namespace TypeRecovery

abbrev Bytes := List UInt8

namespace Text

/-- The text that a sequence of bytes encodes, if it is well-formed UTF-8. -/
def ofBytes? (bs : Bytes) : Option String := String.fromUTF8? ⟨bs.toArray⟩

def toBytes (s : String) : Bytes := s.toUTF8.toList

end Text

end TypeRecovery
