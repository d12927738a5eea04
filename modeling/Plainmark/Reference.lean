import Plainmark.Macro
import Plainmark.Settings

namespace Plainmark.Reference
open Text

def interfaceForm : Form := ⟨Spelling.word "domxref".toList,.termAndLabel,false⟩

def elementForm : Form := ⟨Spelling.anyCase "htmlelement".toList,.termAndLabel,false⟩

def cssForm : Form := ⟨Spelling.word "cssxref".toList,.term,false⟩

def statusForm : Form := ⟨Spelling.word "HTTPStatus".toList,.termAndLabel,false⟩

-- The page of an interface member lies below the page of the interface. Only
-- the first dot separates them, and a dot with nothing behind it is dropped.
def interfacePath (term : Text) : Text :=
  match closedBy? '.' term with
  | none => term
  | some (interface,member) => if member = [] then interface else interface ++ ['/'] ++ member

def code (text : Text) : Text := ['\x60'] ++ text ++ ['\x60']

def linkTo (label address : Text) : Text := ['['] ++ label ++ [']','('] ++ address ++ [')']

def interfaceLink (settings : Settings) (found : Macro) : Text :=
  linkTo found.display (settings.apiUrl ++ interfacePath found.term)

def elementLink (settings : Settings) (found : Macro) : Text :=
  linkTo (code (['<'] ++ found.display ++ ['>'])) (settings.elementUrl ++ found.term)

def cssLink (settings : Settings) (found : Macro) : Text :=
  linkTo (code found.term) (settings.cssUrl ++ found.term)

def statusLink (settings : Settings) (found : Macro) : Text :=
  linkTo found.display (settings.httpStatusUrl ++ found.term)

end Plainmark.Reference
