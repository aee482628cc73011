/-!
Sizes of text in its UTF-8 form.
-/

set_option autoImplicit false

namespace Relocation.Text

def byteCount : List Char → Nat
  | [] => 0
  | c :: rest => c.utf8Size + byteCount rest

def bytes (s : String) : List UInt8 := s.toUTF8.data.toList

end Relocation.Text
