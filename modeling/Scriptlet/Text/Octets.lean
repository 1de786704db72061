/-! Reading octets as UTF-8. Nothing is refused: an octet that starts no valid sequence stands for
the replacement character. -/

namespace Scriptlet.Text

/-- The characters from the octet at `start` on. -/
def decodeFrom (octets : ByteArray) (start : Nat) : List Char :=
  if start < octets.size then
    match octets.utf8DecodeChar? start with
    | some c => c :: decodeFrom octets (start + c.utf8Size)
    | none => '\uFFFD' :: decodeFrom octets (start + 1)
  else []
termination_by octets.size - start
decreasing_by
  · have := c.utf8Size_pos
    omega
  · omega

def decode (octets : ByteArray) : String :=
  String.ofList (decodeFrom octets 0)

end Scriptlet.Text
