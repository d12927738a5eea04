import Plainmark.Glossary
import Plainmark.Link
import Plainmark.Reference
import Plainmark.Scaffold

namespace Plainmark

inductive Stage where
  | wrappedGlossary
  | glossary
  | scaffold
  | docsLink
  | image
  | element
  | css
  | httpStatus
  | interface
deriving DecidableEq

end Plainmark

namespace Plainmark.Stage
open Text

-- The order in which a text passes them. The wrapped glossary form comes before
-- the bare one, which would otherwise put Markdown between tags.
def all : List Stage :=
  [.wrappedGlossary,.glossary,.scaffold,.docsLink,.image,.element,.css,.httpStatus,.interface]

def name : Stage → Text
  | .wrappedGlossary => "html-glossary".toList
  | .glossary => "glossary".toList
  | .scaffold => "templates".toList
  | .docsLink => "docs-links".toList
  | .image => "images".toList
  | .element => "htmlelement".toList
  | .css => "cssxref".toList
  | .httpStatus => "httpstatus".toList
  | .interface => "domxref".toList

def ofName? (text : Text) : Option Stage := all.find? fun stage => stage.name = text

def subject : Stage → Text
  | .wrappedGlossary => "HTML Glossary".toList
  | .glossary => "Glossary".toList
  | .scaffold => "template".toList
  | .docsLink => "docs link".toList
  | .image => "image".toList
  | .element => "htmlelement".toList
  | .css => "cssxref".toList
  | .httpStatus => "HTTPStatus".toList
  | .interface => "domxref".toList

def drop (found : Text) : Logged :=
  ⟨[],[⟨.debug,.removal,"Removed ".toList ++ strip found⟩]⟩

def withDomain (settings : Settings) (link : Link) : Logged :=
  .mk (Link.source ⟨link.label,stripSlashesRight settings.domain ++ link.target⟩) []

def apply (context : Context) : Stage → Text → Logged
  | .wrappedGlossary => Substitution.apply Glossary.wrappedForm.pattern
      (Glossary.anchor context) (subject .wrappedGlossary)
  | .glossary => Substitution.apply Glossary.bareForm.pattern
      (Glossary.inlineLink context) (subject .glossary)
  | .scaffold => Substitution.apply Scaffold.pattern drop (subject .scaffold)
  | .docsLink => Substitution.apply (Link.pattern context.settings.docsPrefix)
      (withDomain context.settings) (subject .docsLink)
  | .image => Substitution.apply Image.pattern
      (fun image => .mk (Image.moved (stripSlashes context.settings.assetsDir) image) [])
      (subject .image)
  | .element => Substitution.apply Reference.elementForm.pattern
      (fun found => .mk (Reference.elementLink context.settings found) []) (subject .element)
  | .css => Substitution.apply Reference.cssForm.pattern
      (fun found => .mk (Reference.cssLink context.settings found) []) (subject .css)
  | .httpStatus => Substitution.apply Reference.statusForm.pattern
      (fun found => .mk (Reference.statusLink context.settings found) []) (subject .httpStatus)
  | .interface => Substitution.apply Reference.interfaceForm.pattern
      (fun found => .mk (Reference.interfaceLink context.settings found) []) (subject .interface)

end Plainmark.Stage
