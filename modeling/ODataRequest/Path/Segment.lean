import ODataRequest.Path.Key

/-! The segments of resource paths, classified by what they address. -/

namespace ODataRequest

/-- One segment of a resource path. -/
inductive PathSegment where
  | entitySet (name : Text)
  | key (predicate : KeyPredicate)
  | navigation (name : Text)
  | count
  | ref
  | value
  | metadata
  | batch
  /-- A later name with a namespace: an action or a function. -/
  | boundOperation (name : Text)
  deriving DecidableEq

namespace PathSegment

def controls : List (Text × PathSegment) :=
  [("$batch".toList, batch), ("$count".toList, count), ("$metadata".toList, metadata),
    ("$ref".toList, ref), ("$value".toList, value)]

def control? (text : Text) : Option PathSegment :=
  (controls.find? fun entry => entry.1 = text).map Prod.snd

def controlText? : PathSegment → Option Text
  | .count => some "$count".toList
  | .ref => some "$ref".toList
  | .value => some "$value".toList
  | .metadata => some "$metadata".toList
  | .batch => some "$batch".toList
  | _ => none

def name? : PathSegment → Option Text
  | .entitySet name | .navigation name | .boundOperation name => some name
  | _ => none

/-- A segment that may address a collection. -/
def isCollectionLike : PathSegment → Bool
  | .entitySet _ | .navigation _ | .boundOperation _ => true
  | _ => false

def takesKey : PathSegment → Bool
  | .entitySet _ | .navigation _ => true
  | _ => false

/-- A segment that a count, reference or value segment may follow. -/
def appliesTo : (control previous : PathSegment) → Bool
  | .count, previous => previous.isCollectionLike
  | .ref, .entitySet _ | .ref, .navigation _ | .ref, .key _ => true
  | .value, .key _ | .value, .navigation _ | .value, .boundOperation _ => true
  | _, _ => false

def render : PathSegment → Text
  | .entitySet name | .navigation name | .boundOperation name => name
  | .key predicate => '(' :: predicate.render ++ [')']
  | segment => segment.controlText?.getD []

/-- A control segment is read from exactly its own text. -/
theorem control?_eq_some_iff {text : Text} {segment : PathSegment} :
    control? text = some segment ↔ segment.controlText? = some text := by
  constructor
  · intro h
    obtain ⟨entry, hentry, rfl⟩ := Option.map_eq_some_iff.1 h
    have hmem := List.mem_of_find?_eq_some hentry
    have htext := List.find?_some hentry
    simp only [decide_eq_true_eq] at htext
    subst htext
    simp only [controls, List.mem_cons, List.not_mem_nil, or_false] at hmem
    rcases hmem with rfl | rfl | rfl | rfl | rfl <;> rfl
  · intro h
    cases segment <;> simp only [controlText?, Option.some.injEq, reduceCtorEq] at h <;>
      subst h <;> decide

end PathSegment

end ODataRequest
