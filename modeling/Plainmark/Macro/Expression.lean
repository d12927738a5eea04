import Plainmark.Macro

namespace Plainmark.Spelling

def expression (spelling : Spelling) : Text :=
  spelling.flatMap fun
    | [c] => [c]
    | accepted => '[' :: accepted ++ [']']

end Plainmark.Spelling

namespace Plainmark.Form

def group (name : Text) (inner : Text) : Text :=
  "(?P<".toList ++ name ++ ['>'] ++ inner ++ [')']

def termExpression : Text := ['"'] ++ group "term".toList "[^\"]+".toList ++ ['"']

def labelExpression : Text :=
  "(?:,\\s*\"".toList ++ group "label".toList "[^\"]*".toList ++ "\")?".toList

def bodyExpression (form : Form) : Text :=
  "\\\x7b\\\x7b".toList ++ group "name".toList form.name.expression ++ "\\(".toList ++
    termExpression ++ (match form.arity with
      | .term => []
      | .termAndLabel => labelExpression) ++
    "\\)\\\x7d\\\x7d".toList

def expression (form : Form) : Text :=
  if form.wrapped then
    group "open".toList "<[^>]*>".toList ++ bodyExpression form ++
      group "close".toList "</[^>]*>".toList
  else bodyExpression form

end Plainmark.Form
