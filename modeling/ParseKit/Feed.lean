/-
  Feeding: parsing text that arrives in chunks.

  The chunks go into a buffer, and after each one the parser is tried once
  on all of it.  A success leaves its remainder in the buffer; after a
  failure the buffer stays as it is and waits for more.
-/
import ParseKit.Input.Text
import ParseKit.Parser.Basic

set_option autoImplicit false

namespace ParseKit.Feed

variable {ι ε α : Type}

/-- What is left in the buffer after a reply. -/
def leftover (content : ι → Text) (buffer : Text) (reply : Reply ι ε α) : Text :=
  match reply.rest? with
  | some rest => content rest
  | none => buffer

/-- The replies to the chunks, the buffer holding `buffer` before them.  `present` makes an
input of a text and `content` is the text of an input. -/
def replies (present : Text → ι) (content : ι → Text) (p : Parser ι ε α) (buffer : Text) :
    List Text → List (Reply ι ε α)
  | [] => []
  | chunk :: chunks =>
    let filled := buffer.append chunk
    let reply := (p (present filled)).reply
    reply :: replies present content p (leftover content filled reply) chunks

end ParseKit.Feed
