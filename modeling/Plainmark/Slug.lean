import Plainmark.Text.Blank
import Plainmark.Text.Capital

namespace Plainmark.Slug
open Text

def ofTerm (term : Text) : Text :=
  joinWith ['_'] ((splitBlanks (strip term)).map capitalise)

end Plainmark.Slug
