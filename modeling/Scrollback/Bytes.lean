/-!
# Byte strings

Everything the library moves is a finite string of bytes.
-/

namespace Scrollback

abbrev Bytes := List UInt8

namespace Bytes

/-- Lay `data` over the start of a buffer; what lies past it stays. -/
def overlay (buffer data : Bytes) : Bytes :=
  data ++ buffer.drop data.length

theorem length_overlay (buffer data : Bytes) (h : data.length ≤ buffer.length) :
    (overlay buffer data).length = buffer.length := by
  simp [overlay]
  omega

end Bytes

end Scrollback
