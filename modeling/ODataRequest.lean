import ODataRequest.Link.Nested
import ODataRequest.Proofs.Cursor.Safety
import ODataRequest.Proofs.Link.Convention
import ODataRequest.Proofs.Link.Runs
import ODataRequest.Proofs.Literal.Values
import ODataRequest.Proofs.Model.RangeVariables
import ODataRequest.Proofs.Path.Positions
import ODataRequest.Proofs.Path.SlashKeys
import ODataRequest.Proofs.Path.Styles
import ODataRequest.Proofs.Query.Abbreviation
import ODataRequest.Proofs.Query.Height
import ODataRequest.Proofs.Query.LiteralTokens
import ODataRequest.Proofs.Query.OptionLists
import ODataRequest.Proofs.Query.Positions
import ODataRequest.Proofs.Query.Precedence
import ODataRequest.Proofs.Query.Scoping
import ODataRequest.Proofs.Query.Shape
import ODataRequest.Proofs.Query.Spacing
import ODataRequest.Proofs.Request.Alphabet
import ODataRequest.Proofs.Request.Encoding
import ODataRequest.Proofs.Request.Order
import ODataRequest.Proofs.Request.RawPairs
import ODataRequest.Proofs.Request.Rebuild
import ODataRequest.Proofs.Request.Sessions
import ODataRequest.Proofs.Request.Splitting
import ODataRequest.Proofs.Text.Profiles
import ODataRequest.Request.Builder
