import ODataRequest.Request.Build
import ODataRequest.Text.Described
import ODataRequest.WebUrl.Parse

/-! Builders of requests. A builder holds a key style and possibly a model, which may be replaced at
any time; once it is given settings, it builds any number of requests. -/

namespace ODataRequest

/-- A builder, where `State` is `Unit` before it has settings and `Settings` after. -/
structure Builder (State : Type) where
  style : KeyStyle
  model : Option NavigationModel
  state : State

namespace Builder

/-- A builder that writes keys in parentheses and has neither model nor settings. -/
def empty : Builder Unit := ⟨.parentheses, none, ()⟩

variable {State : Type}

def withStyle (builder : Builder State) (style : KeyStyle) : Builder State :=
  { builder with style }

def withModel (builder : Builder State) (model : NavigationModel) : Builder State :=
  { builder with model := some model }

def configure (builder : Builder Unit) (settings : Settings) : Builder Settings :=
  ⟨builder.style, builder.model, settings⟩

/-- The questions put to the model, and the canonical URI of a raw request. -/
def build [Url.Parser] (builder : Builder Settings) (raw : Text) :
    List Lookup × Except BuildError CanonicalUri :=
  buildWith builder.model raw builder.style builder.state

def describeStyle : KeyStyle → Text
  | .parentheses => "Parentheses".toList
  | .slash => "Slash".toList

def describeSettings (settings : Settings) : Text :=
  "UriBuilderSettings \x7b service_root: ".toList ++ Text.inDoubleQuotes settings.serviceRoot ++
    ", max_nesting_depth: ".toList ++ Text.ofNat settings.maxNestingDepth ++
    ", max_input_length: ".toList ++ Text.ofNat settings.maxInputLength ++ " \x7d".toList

/-- The description of a builder, given that of its state. -/
def describe (builder : Builder State) (state : Text) : Text :=
  "UriBuilder \x7b key_delimiter: ".toList ++ describeStyle builder.style ++
    ", has_model: ".toList ++ (if builder.model.isSome then "true" else "false").toList ++
    ", state: ".toList ++ state ++ " \x7d".toList

def describeUnconfigured (builder : Builder Unit) : Text :=
  builder.describe "Unconfigured".toList

def describeConfigured (builder : Builder Settings) : Text :=
  builder.describe ("Configured(".toList ++ describeSettings builder.state ++ [')'])

end Builder

end ODataRequest
