import Plainmark.Path

namespace Plainmark

-- Which reference documents are at hand, asked by category and page name.
abbrev Shelf := Text → Text → Bool

abbrev Catalogue := List (Text × Text)

end Plainmark

namespace Plainmark.Catalogue

def ofNames (category : Text) (names : List Text) : Catalogue :=
  names.map fun name => (category,name)

def add (catalogue : Catalogue) (category name : Text) : Catalogue :=
  (category,name) :: catalogue

def shelf (catalogue : Catalogue) : Shelf := fun category name => catalogue.contains (category,name)

end Plainmark.Catalogue

namespace Plainmark.Resource

def glossary : Text := "glossary".toList

def fileName (name : Text) : Text := name ++ ".md".toList

def path (folder : Path) (category name : Text) : Path :=
  (folder.join (Path.ofText category)).join (Path.ofText (fileName name))

def climb : Nat → Text
  | 0 => []
  | depth + 1 => "../".toList ++ climb depth

def link (file : Path) (category name folder : Text) : Text :=
  climb file.depth ++ folder ++ ['/'] ++ category ++ ['/'] ++ fileName name

end Plainmark.Resource
