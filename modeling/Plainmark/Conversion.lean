import Plainmark.Stage

namespace Plainmark.Conversion

def trace (context : Context) : List Stage → Text → List (Stage × Logged)
  | [],_ => []
  | stage :: stages,text =>
    let result := stage.apply context text
    (stage,result) :: trace context stages result.text

def through (context : Context) (stages : List Stage) (text : Text) : Logged :=
  stages.foldl (fun done stage =>
    let result := stage.apply context done.text
    ⟨result.text,done.records ++ result.records⟩) ⟨text,[]⟩

def convert (context : Context) (text : Text) : Logged := through context Stage.all text

end Plainmark.Conversion
