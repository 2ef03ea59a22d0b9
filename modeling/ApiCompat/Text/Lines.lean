/-!
# Lines of a text

A text is cut into lines at its line feeds.  Line numbers start at one, so a
place in a text has the number of line feeds before it, plus one.
-/

set_option autoImplicit false

namespace ApiCompat

def lineFeeds (text : List Char) : Nat := text.count '\n'

/-- The pieces between the line feeds; there is always one more than line feeds. -/
def splitLines : List Char → List (List Char)
  | [] => [[]]
  | c :: rest =>
      if c = '\n' then [] :: splitLines rest
      else match splitLines rest with
        | [] => [[c]]
        | line :: lines => (c :: line) :: lines

end ApiCompat
