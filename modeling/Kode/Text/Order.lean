/-!
# The order of texts

Texts are put in order by their bytes in UTF-8: the first byte in which two texts
differ decides, and what a text begins with comes before it.
-/

namespace Kode.Text

/-- The bytes of a text in UTF-8. -/
def bytes (s : String) : List UInt8 :=
  s.toByteArray.data.toList

/-- The order of two texts. -/
def order (s t : String) : Ordering :=
  compare (bytes s) (bytes t)

end Kode.Text
