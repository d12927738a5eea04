import Plainmark.Log
import Plainmark.Path

namespace Plainmark

def Locale.accepts : Text → Bool
  | [a,b] => a.isLower && b.isLower
  | a :: b :: '-' :: region =>
    a.isLower && b.isLower && region.all Char.isAlpha && 2 ≤ region.length && region.length ≤ 4
  | _ => false

structure Locale where
  text : Text
  accepted : Locale.accepts text = true
deriving DecidableEq

def Locale.american : Locale := ⟨"en-US".toList,rfl⟩

structure Settings where
  appName : Text := "yarimd".toList
  contentRoot : Text := ".".toList
  resourcesDir : Text := "resources".toList
  domain : Text := "https://developer.mozilla.org".toList
  locale : Locale := .american
  assetsDir : Text := "assets".toList
  logLevel : Level := .warning
deriving DecidableEq

end Plainmark

namespace Plainmark.Settings
open Text

def docsPrefix (settings : Settings) : Text :=
  ['/'] ++ settings.locale.text ++ "/docs/".toList

def docsUrl (settings : Settings) : Text :=
  stripSlashesRight settings.domain ++ settings.docsPrefix

def glossaryUrl (settings : Settings) : Text := settings.docsUrl ++ "Glossary/".toList

def apiUrl (settings : Settings) : Text := settings.docsUrl ++ "Web/API/".toList

def elementUrl (settings : Settings) : Text := settings.docsUrl ++ "Web/HTML/Element/".toList

def cssUrl (settings : Settings) : Text := settings.docsUrl ++ "Web/CSS/".toList

def httpStatusUrl (settings : Settings) : Text := settings.docsUrl ++ "Web/HTTP/Status/".toList

def resourcesPath (settings : Settings) : Path :=
  (Path.ofText settings.contentRoot).join (Path.ofText settings.resourcesDir)

end Plainmark.Settings
