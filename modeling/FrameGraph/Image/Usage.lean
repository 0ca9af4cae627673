/-!
# Image usage

The ways an image may be used, as a set of flags in a 32-bit word. Bits without a name are kept.
-/

namespace FrameGraph

structure Usage where
  bits : UInt32
  deriving DecidableEq, Repr

namespace Usage

def copySource : Usage := ⟨1⟩
def copyTarget : Usage := ⟨2⟩
def textureBinding : Usage := ⟨4⟩
def storageBinding : Usage := ⟨8⟩
def renderAttachment : Usage := ⟨16⟩

instance : Union Usage := ⟨fun a b => ⟨a.bits ||| b.bits⟩⟩

/-- All flags of `b` are in `a`. -/
def contains (a b : Usage) : Bool := a.bits &&& b.bits == b.bits

/-- The usage of an image port that states none. -/
def image : Usage := copySource ∪ textureBinding ∪ storageBinding

/-- The usage of depth attachments. -/
def depth : Usage := textureBinding ∪ renderAttachment

instance : Inhabited Usage := ⟨image⟩

/-- The flags with a name, in the order of their bits. -/
def named : List (Usage × String) :=
  [(copySource, "COPY_SRC"), (copyTarget, "COPY_DST"), (textureBinding, "TEXTURE_BINDING"),
    (storageBinding, "STORAGE_BINDING"), (renderAttachment, "RENDER_ATTACHMENT")]

/-- The bits without a name. -/
def unnamed (u : Usage) : UInt32 := u.bits &&& ~~~(31 : UInt32)

/-- The flags joined by bars, bits without a name last in hexadecimal; the empty set is `0x0`. -/
def text (u : Usage) : String :=
  let names := (named.filter fun flag => u.contains flag.1).map (·.2)
  let hex (n : UInt32) := "0x" ++ String.ofList (Nat.toDigits 16 n.toNat)
  let rest := if u.unnamed = 0 then [] else [hex u.unnamed]
  let parts := names ++ rest
  let body := if parts.isEmpty then hex 0 else " | ".intercalate parts
  "TextureUsage(" ++ body ++ ")"

end Usage

end FrameGraph
