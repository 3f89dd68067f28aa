import Chronicle.Digest.Sha256

/-!
# Sessions

What the controller remembers of a chat: the message that it wrote or reloaded last, told by its
place and the digest of its text, and where the present generation started.
-/

namespace Chronicle

structure Watermark where
  index : Nat
  digest : List UInt8
deriving DecidableEq, Repr

namespace Watermark

def of (index : Nat) (text : String) : Watermark := ⟨index, Sha256.digest text.toUTF8⟩

/-- A short form: the place and the first four bytes of the digest. -/
def label (w : Watermark) : String := s!"Watermark({w.index} @ {Sha256.hex (w.digest.take 4)})"

end Watermark

structure Session where
  watermark : Option Watermark
  generationStart : Option Nat
deriving DecidableEq, Repr

namespace Session

def empty : Session := ⟨none, none⟩

/-- Whether the message with this place and text is the one that was handled last. -/
def covers (s : Session) (index : Nat) (text : String) : Bool := s.watermark = some (.of index text)

end Session

end Chronicle
