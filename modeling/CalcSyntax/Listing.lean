import CalcSyntax.Text.Quoted
import CalcSyntax.Text.Rows
import CalcSyntax.Token.Stream

/-!
# Listing — the items of a text, one to a line

Each line gives the place, the kind and the quoted lexeme of a token, or
the message about a stray character. The last line counts the tokens,
terminators and the end of the text included.
-/

set_option autoImplicit false

namespace CalcSyntax

/-- An item on its line. -/
def Item.listed : Item → String
  | .ok t => s!"{t.span.shown} {t.kind.name} {quoted t.lexeme}"
  | .error s => s!"{s.span.shown} error: {s.message}"

/-- Whether an item is a token. -/
def Item.isToken : Item → Bool
  | .ok _ => true
  | .error _ => false

/-- The lines of a listing. -/
def listingLines (items : List Item) : List String :=
  items.map Item.listed ++ [s!"Total Tokens = {items.countP Item.isToken}"]

/-- The listing of a source. -/
def listing (source : String) (g : Grammar) : String := endedLines (listingLines (scan source g))

end CalcSyntax
