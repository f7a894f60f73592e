/-!
Universal line ends: a text read from a file may end its lines with a line feed, a carriage return
or the two together, and each of them is read as one line feed.
-/

set_option autoImplicit false

namespace Boli.Text

/-- Reads `\r\n` and a lone `\r` as one `\n`. -/
def universalNewlines : List Char → List Char
  | [] => []
  | '\r' :: '\n' :: rest => '\n' :: universalNewlines rest
  | '\r' :: rest => '\n' :: universalNewlines rest
  | c :: rest => c :: universalNewlines rest

end Boli.Text
