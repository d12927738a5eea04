import Plainmark.Proofs.Convergence
import Plainmark.Proofs.Segments

namespace Plainmark.Segment
open Text Substitution
variable {path : Path} {shelf : Shelf} {segment : Segment} {done : List Stage}

variable {segments : List Segment} (path shelf) (done)

end Plainmark.Segment

namespace Plainmark.Conversion
open Text Segment

end Plainmark.Conversion
