import Plainmark.Macro
import Plainmark.Resource
import Plainmark.Settings
import Plainmark.Slug
import Plainmark.Substitution
import Plainmark.Text.Quoted

namespace Plainmark

structure Context where
  path : Path
  shelf : Shelf
  settings : Settings

end Plainmark

namespace Plainmark.Glossary
open Text

def found (term : Text) : Record :=
  ⟨.debug,.lookup,"Local glossary entry for ".toList ++ quoted term ++ " exists".toList⟩

def target (context : Context) (term : Text) : Logged :=
  if context.shelf Resource.glossary term then
    ⟨Resource.link context.path Resource.glossary term context.settings.resourcesDir,[found term]⟩
  else ⟨context.settings.glossaryUrl ++ Slug.ofTerm term,[]⟩

def name : Spelling := ['G','g'] :: Spelling.word "lossary".toList

def bareForm : Form := ⟨name,.termAndLabel,false⟩

def wrappedForm : Form := ⟨name,.termAndLabel,true⟩

-- Between tags the link is an anchor, since Markdown is not read there.
def anchor (context : Context) (macroFound : Macro) : Logged :=
  let link := target context macroFound.term
  let inner := "<a href=\"".toList ++ link.text ++ "\">".toList ++ macroFound.display ++ "</a>".toList
  match macroFound.tags with
  | some tags => ⟨tags.opening ++ inner ++ tags.closing,link.records⟩
  | none => ⟨inner,link.records⟩

def inlineLink (context : Context) (macroFound : Macro) : Logged :=
  let link := target context macroFound.term
  ⟨['['] ++ macroFound.display ++ [']','('] ++ link.text ++ [')'],link.records⟩

end Plainmark.Glossary
