import ODataRequest.Link.Nested

/-! Runs of operations on a navigation property. Its links are read and given, its context is given
and sources are attached in any order, and at every step each source may answer anything. A read is
compared with what the operations before it say: the link given last, else the first answer, else
what the attached source answers now. Main statement: every read of a run is that, the reads of one
link depend on no operation of the other, and at most one of them is fresh. -/

namespace ODataRequest

/-- The links of a navigation property. -/
inductive LinkKind where
  | navigation
  | association
  deriving DecidableEq

def LinkSource.link {m : Type → Type} : LinkKind → LinkSource m → Text → m (Option Url)
  | .navigation => LinkSource.navigationLink
  | .association => LinkSource.associationLink

namespace NestedResource

variable {m : Type → Type}

def link (resource : NestedResource m) : LinkKind → DeferredLink
  | .navigation => resource.url
  | .association => resource.association

def withLink (resource : NestedResource m) : LinkKind → DeferredLink → NestedResource m
  | .navigation, url => { resource with url }
  | .association, association => { resource with association }

/-- The reading of one of the links, and the property after it. -/
def readLink [Monad m] (resource : NestedResource m) : LinkKind → m (LinkRead × NestedResource m)
  | .navigation => resource.readUrl
  | .association => resource.readAssociation

def setLink (resource : NestedResource m) : LinkKind → Url → NestedResource m
  | .navigation, url => resource.setUrl url
  | .association, url => resource.setAssociation url

variable {resource : NestedResource m} {kind : LinkKind} {state : DeferredLink}

@[simp] theorem link_withLink : (resource.withLink kind state).link kind = state := by
  cases kind <;> rfl

theorem link_withLink_of_ne {other : LinkKind} (h : kind ≠ other) :
    (resource.withLink kind state).link other = resource.link other := by
  cases kind <;> cases other <;> first | rfl | exact absurd rfl h

@[simp] theorem name_withLink : (resource.withLink kind state).name = resource.name := by
  cases kind <;> rfl

@[simp] theorem source_withLink : (resource.withLink kind state).source = resource.source := by
  cases kind <;> rfl

theorem withLink_link : resource.withLink kind (resource.link kind) = resource := by
  cases kind <;> rfl

theorem setLink_eq (resource : NestedResource m) (kind : LinkKind) (url : Url) :
    resource.setLink kind url = resource.withLink kind (.explicit url) := by
  cases kind <;> rfl

theorem readLink_eq [Monad m] (resource : NestedResource m) (kind : LinkKind) :
    resource.readLink kind = (do
      let (read, state) ← (resource.link kind).read (resource.ask (LinkSource.link kind))
      pure (read, resource.withLink kind state)) := by
  cases kind <;> rfl

end NestedResource

namespace LinkRun

/-! ### Runs -/

/-- A question that a source was asked. -/
structure Consultation (Source : Type) where
  source : Source
  kind : LinkKind
  name : Text

/-- What each source would answer at some moment. -/
abbrev Answers (Source : Type) := Source → LinkKind → Text → Option Url

/-- What may ask sources at some moment, with the questions asked so far. -/
abbrev Consulting (Source : Type) := ReaderT (Answers Source) (StateM (List (Consultation Source)))

/-- An operation on a property. -/
inductive Operation (Source : Type) where
  | read (kind : LinkKind)
  | set (kind : LinkKind) (url : Url)
  | setContext (url : Url)
  | attach (source : Source)

/-- An operation at a moment with its own answers. -/
structure Step (Source : Type) where
  operation : Operation Source
  answers : Answers Source

/-- What an operation shows of itself. -/
structure Observation (Source : Type) where
  read : Option LinkRead
  consulted : List (Consultation Source)

variable {Source : Type}

def consult (source : Source) (kind : LinkKind) (name : Text) : Consulting Source (Option Url) := do
  modify (· ++ [⟨source, kind, name⟩])
  return (← read) source kind name

/-- A source as what answers for links. -/
def sourceOf (source : Source) : LinkSource (Consulting Source) :=
  ⟨consult source .navigation, consult source .association⟩

/-- A property in a run. -/
abbrev Resource (Source : Type) := NestedResource (Consulting Source)

/-- An operation on a property, and the property after it. -/
def Operation.perform (resource : Resource Source) :
    Operation Source → Consulting Source (Option LinkRead × Resource Source)
  | .read kind => do
    let (found, resource) ← resource.readLink kind
    pure (some found, resource)
  | .set kind url => pure (none, resource.setLink kind url)
  | .setContext url => pure (none, resource.setContext url)
  | .attach source => pure (none, resource.attach (sourceOf source))

def Step.apply (step : Step Source) (resource : Resource Source) :
    Observation Source × Resource Source :=
  let ((read, resource), consulted) := (step.operation.perform resource).run step.answers |>.run []
  (⟨read, consulted⟩, resource)

/-- What the steps of a run show, one after the other. -/
def run (resource : Resource Source) : List (Step Source) → List (Observation Source)
  | [] => []
  | step :: steps => (step.apply resource).1 :: run (step.apply resource).2 steps

/-- What the steps show of a property that has neither links nor a source at first. -/
def observations (name : Text) (steps : List (Step Source)) : List (Observation Source) :=
  run { name } steps

/-! ### Histories -/

/-- The link that an operation gives. -/
def Operation.given? (kind : LinkKind) : Operation Source → Option Url
  | .set found url => if found = kind then some url else none
  | _ => none

def Operation.attached? : Operation Source → Option Source
  | .attach source => some source
  | _ => none

def Operation.reads (kind : LinkKind) : Operation Source → Bool
  | .read found => found = kind
  | _ => false

/-- An operation that a link may depend on. -/
def Operation.concerns (kind : LinkKind) : Operation Source → Bool
  | .read found | .set found _ => found = kind
  | .setContext _ => false
  | .attach _ => true

/-- The link that was given last. -/
def lastGiven? (kind : LinkKind) (before : List (Step Source)) : Option Url :=
  before.reverse.findSome? (·.operation.given? kind)

/-- The source that was attached last. -/
def lastAttached? (before : List (Step Source)) : Option Source :=
  before.reverse.findSome? (·.operation.attached?)

/-- What the source attached before a step answers if the step reads the link. -/
def answer? (kind : LinkKind) (name : Text) (before : List (Step Source)) (step : Step Source) :
    Option Url :=
  if step.operation.reads kind then (lastAttached? before).bind (step.answers · kind name) else none

/-- The first answer to a read of the link among steps, after earlier ones. -/
def firstAnswer? (kind : LinkKind) (name : Text) :
    (earlier steps : List (Step Source)) → Option Url
  | _, [] => none
  | earlier, step :: steps =>
    (answer? kind name earlier step).or (firstAnswer? kind name (earlier ++ [step]) steps)

/-- What a read of a link shows after other steps: the link given last, without a question; else the
first answer, without a question; else the answer that the attached source gives now. -/
def readAfter (kind : LinkKind) (name : Text) (before : List (Step Source)) (answers : Answers Source) :
    Observation Source :=
  match lastGiven? kind before, firstAnswer? kind name [] before, lastAttached? before with
  | some url, _, _ => ⟨some ⟨some url, false⟩, []⟩
  | none, some url, _ => ⟨some ⟨some url, false⟩, []⟩
  | none, none, some source =>
    ⟨some ⟨answers source kind name, (answers source kind name).isSome⟩, [⟨source, kind, name⟩]⟩
  | none, none, none => ⟨some ⟨none, false⟩, []⟩

/-- What a step shows after other steps. -/
def showsAfter (name : Text) (before : List (Step Source)) (step : Step Source) : Observation Source :=
  match step.operation with
  | .read kind => readAfter kind name before step.answers
  | _ => ⟨none, []⟩

/-- What the reads of one link show. -/
def readsOf (kind : LinkKind) (steps : List (Step Source)) (shown : List (Observation Source)) :
    List (Observation Source) :=
  ((steps.zip shown).filter (·.1.operation.reads kind)).map Prod.snd

def Observation.isFresh (observation : Observation Source) : Bool :=
  observation.read.any LinkRead.isFresh

variable {name : Text} {kind : LinkKind} {before earlier steps : List (Step Source)} {step : Step Source}
  {resource other : Resource Source} {answers : Answers Source}

theorem lastGiven?_concat : lastGiven? kind (before ++ [step]) =
    (step.operation.given? kind).or (lastGiven? kind before) := by
  rw [lastGiven?, List.reverse_concat, List.findSome?_cons]
  cases step.operation.given? kind <;> rfl

theorem lastAttached?_concat : lastAttached? (before ++ [step]) =
    step.operation.attached?.or (lastAttached? before) := by
  rw [lastAttached?, List.reverse_concat, List.findSome?_cons]
  cases step.operation.attached? <;> rfl

theorem firstAnswer?_concat : firstAnswer? kind name earlier (steps ++ [step]) =
    (firstAnswer? kind name earlier steps).or (answer? kind name (earlier ++ steps) step) := by
  induction steps generalizing earlier with
  | nil => rw [List.nil_append, List.append_nil, firstAnswer?, firstAnswer?, firstAnswer?, Option.or_none,
      Option.none_or]
  | cons first steps ih =>
      rw [List.cons_append, firstAnswer?, firstAnswer?, ih, Option.or_assoc, List.append_assoc,
        List.singleton_append]

/-! ### Steps -/

/-- The state of a link after an answer to its first question. -/
def stateOf : Option Url → DeferredLink
  | some url => .computed url
  | none => .unset

theorem apply_set (url : Url) : Step.apply ⟨.set kind url, answers⟩ resource =
    (⟨none, []⟩, resource.withLink kind (.explicit url)) := by
  rw [← NestedResource.setLink_eq]
  rfl

/-- A link that there is is read without a question. -/
theorem apply_read_of_isSet (h : (resource.link kind).isSet = true) :
    Step.apply ⟨.read kind, answers⟩ resource =
      (⟨some ⟨(resource.link kind).url?, false⟩, []⟩, resource) := by
  rw [Step.apply, Operation.perform, NestedResource.readLink_eq]
  cases hlink : resource.link kind with
  | unset =>
      rw [hlink] at h
      cases h
  | explicit url =>
      have hsame := @NestedResource.withLink_link _ resource kind
      rw [hlink] at hsame
      show (_, resource.withLink kind (.explicit url)) = _
      rw [hsame]
      rfl
  | computed url =>
      have hsame := @NestedResource.withLink_link _ resource kind
      rw [hlink] at hsame
      show (_, resource.withLink kind (.computed url)) = _
      rw [hsame]
      rfl

/-- A link that there is not is what the source answers, if there is a source. -/
theorem apply_read_of_unset (h : resource.link kind = .unset) {answer : Option Url}
    {consulted : List (Consultation Source)}
    (hask : ((resource.ask (LinkSource.link kind)).run answers).run [] = (answer, consulted)) :
    Step.apply ⟨.read kind, answers⟩ resource =
      (⟨some ⟨answer, answer.isSome⟩, consulted⟩, resource.withLink kind (stateOf answer)) := by
  rw [Step.apply, Operation.perform, NestedResource.readLink_eq, h]
  simp only [DeferredLink.read, ReaderT.run_bind, StateT.run_bind, hask]
  cases answer with
  | none => rfl
  | some url => rfl

/-- A read of a link that there is, or of one that there is not. -/
theorem apply_read_cases (resource : Resource Source) (kind : LinkKind) (answers : Answers Source) :
    ((resource.link kind).isSet = true ∧ Step.apply ⟨.read kind, answers⟩ resource =
      (⟨some ⟨(resource.link kind).url?, false⟩, []⟩, resource)) ∨
    (resource.link kind = .unset ∧ ∃ answer consulted,
      ((resource.ask (LinkSource.link kind)).run answers).run [] = (answer, consulted) ∧
        Step.apply ⟨.read kind, answers⟩ resource =
          (⟨some ⟨answer, answer.isSome⟩, consulted⟩, resource.withLink kind (stateOf answer))) := by
  cases hlink : resource.link kind with
  | unset => exact Or.inr ⟨rfl, _, _, rfl, apply_read_of_unset hlink rfl⟩
  | explicit url =>
      have hset : (resource.link kind).isSet = true := by rw [hlink]; rfl
      exact Or.inl ⟨rfl, hlink ▸ apply_read_of_isSet hset⟩
  | computed url =>
      have hset : (resource.link kind).isSet = true := by rw [hlink]; rfl
      exact Or.inl ⟨rfl, hlink ▸ apply_read_of_isSet hset⟩

theorem ask_attached {source : Source} (h : resource.source = some (sourceOf source)) :
    ((resource.ask (LinkSource.link kind)).run answers).run [] =
      (answers source kind resource.name, [⟨source, kind, resource.name⟩]) := by
  rw [NestedResource.ask, h]
  cases kind <;> rfl

theorem ask_detached (h : resource.source = none) :
    ((resource.ask (LinkSource.link kind)).run answers).run [] = (none, []) := by
  rw [NestedResource.ask, h]
  rfl

/-! ### What a run has reached -/

/-- The state of a link after some steps. -/
def linkAfter (kind : LinkKind) (name : Text) (before : List (Step Source)) : DeferredLink :=
  match lastGiven? kind before with
  | some url => .explicit url
  | none => stateOf (firstAnswer? kind name [] before)

/-- A property as some steps leave it: the source attached last, and each link as its own history has
it. -/
structure Reached (name : Text) (before : List (Step Source)) (resource : Resource Source) : Prop where
  named : resource.name = name
  attached : resource.source = (lastAttached? before).map sourceOf
  linked : ∀ kind, resource.link kind = linkAfter kind name before

theorem linkAfter_concat : linkAfter kind name (before ++ [step]) =
    match step.operation.given? kind with
    | some url => .explicit url
    | none =>
      if (linkAfter kind name before).isSet then linkAfter kind name before
      else stateOf (answer? kind name before step) := by
  rw [linkAfter, linkAfter, lastGiven?_concat, firstAnswer?_concat, List.nil_append]
  cases step.operation.given? kind with
  | some url => rfl
  | none =>
      cases lastGiven? kind before with
      | some url => rfl
      | none =>
          cases firstAnswer? kind name [] before with
          | some url => rfl
          | none => rfl

/-- A step that neither gives nor reads a link leaves it. -/
theorem linkAfter_of_other (hgiven : step.operation.given? kind = none)
    (hreads : step.operation.reads kind = false) :
    linkAfter kind name (before ++ [step]) = linkAfter kind name before := by
  have hanswer : answer? kind name before step = none := by
    rw [answer?, hreads]
    rfl
  rw [linkAfter_concat, hgiven, hanswer]
  dsimp only
  split
  · rfl
  · rename_i hset
    cases hlink : linkAfter kind name before with
    | unset => rfl
    | explicit url =>
        rw [hlink] at hset
        exact absurd rfl hset
    | computed url =>
        rw [hlink] at hset
        exact absurd rfl hset

namespace Reached

theorem start (name : Text) : Reached name [] ({ name } : Resource Source) where
  named := rfl
  attached := rfl
  linked := fun kind => by cases kind <;> rfl

/-- A read shows what the steps before it say, and keeps an answer. -/
theorem apply_read (h : Reached name before resource) (kind : LinkKind) (answers : Answers Source) :
    Step.apply ⟨.read kind, answers⟩ resource = (readAfter kind name before answers,
      resource.withLink kind (linkAfter kind name (before ++ [⟨.read kind, answers⟩]))) := by
  have hgiven : (Operation.read kind : Operation Source).given? kind = none := rfl
  have hanswer : answer? kind name before ⟨.read kind, answers⟩ =
      (lastAttached? before).bind (answers · kind name) := by
    rw [answer?, Operation.reads, decide_eq_true rfl]
    rfl
  have hkept : (resource.link kind).isSet = true → Step.apply ⟨.read kind, answers⟩ resource =
      (⟨some ⟨(resource.link kind).url?, false⟩, []⟩,
        resource.withLink kind (linkAfter kind name (before ++ [⟨.read kind, answers⟩]))) := by
    intro hset
    have hafter : linkAfter kind name (before ++ [⟨.read kind, answers⟩]) = resource.link kind := by
      rw [linkAfter_concat, hgiven, ← h.linked kind, hset]
      rfl
    rw [hafter, NestedResource.withLink_link, apply_read_of_isSet hset]
  have hunset : resource.link kind = .unset → linkAfter kind name (before ++ [⟨.read kind, answers⟩]) =
      stateOf ((lastAttached? before).bind (answers · kind name)) := by
    intro hunset
    rw [linkAfter_concat, hgiven, ← h.linked kind, hunset, hanswer]
    rfl
  have hlink := h.linked kind
  rw [linkAfter] at hlink
  rw [readAfter]
  cases hlast : lastGiven? kind before with
  | some url =>
      rw [hlast] at hlink
      rw [hkept (by rw [hlink]; rfl), hlink]
      rfl
  | none =>
      rw [hlast] at hlink
      cases hfirst : firstAnswer? kind name [] before with
      | some url =>
          rw [hfirst] at hlink
          rw [hkept (by rw [hlink]; rfl), hlink]
          rfl
      | none =>
          rw [hfirst] at hlink
          have hsource := h.attached
          rw [hunset hlink]
          cases hattached : lastAttached? before with
          | some source =>
              rw [hattached] at hsource
              rw [apply_read_of_unset hlink (ask_attached hsource), h.named]
              rfl
          | none =>
              rw [hattached] at hsource
              exact apply_read_of_unset hlink (ask_detached hsource)

/-- What a step shows is what the steps before it say. -/
theorem shows (h : Reached name before resource) (step : Step Source) :
    (step.apply resource).1 = showsAfter name before step := by
  obtain ⟨operation, answers⟩ := step
  cases operation with
  | read kind => rw [h.apply_read]; rfl
  | set kind url => rw [apply_set]; rfl
  | setContext url => rfl
  | attach source => rfl

/-- A step on one link is the next state of that link, and leaves the other. -/
theorem concat_withLink (h : Reached name before resource) (hattached : step.operation.attached? = none)
    (hother : ∀ other, kind ≠ other →
      step.operation.given? other = none ∧ step.operation.reads other = false) :
    Reached name (before ++ [step])
      (resource.withLink kind (linkAfter kind name (before ++ [step]))) where
  named := by rw [NestedResource.name_withLink, h.named]
  attached := by
    rw [NestedResource.source_withLink, h.attached, lastAttached?_concat, hattached, Option.none_or]
  linked := by
    intro other
    by_cases hkind : kind = other
    · rw [← hkind, NestedResource.link_withLink]
    · obtain ⟨hgiven, hreads⟩ := hother other hkind
      rw [NestedResource.link_withLink_of_ne hkind, h.linked, linkAfter_of_other hgiven hreads]

/-- Every step goes from what the steps before it reached to what it reaches with them. -/
theorem concat (h : Reached name before resource) (step : Step Source) :
    Reached name (before ++ [step]) (step.apply resource).2 := by
  obtain ⟨operation, answers⟩ := step
  cases operation with
  | read kind =>
      rw [h.apply_read]
      exact h.concat_withLink rfl fun other hkind => ⟨rfl, decide_eq_false hkind⟩
  | set kind url =>
      have hlink : linkAfter kind name (before ++ [⟨.set kind url, answers⟩]) = .explicit url := by
        rw [linkAfter_concat, Operation.given?, if_pos rfl]
      rw [apply_set, ← hlink]
      exact h.concat_withLink rfl fun other hkind => ⟨if_neg hkind, rfl⟩
  | setContext url =>
      refine ⟨h.named, ?_, fun kind => ?_⟩
      · rw [lastAttached?_concat]
        exact h.attached
      · rw [linkAfter_of_other rfl rfl, ← h.linked kind]
        cases kind <;> rfl
  | attach source =>
      refine ⟨h.named, ?_, fun kind => ?_⟩
      · rw [lastAttached?_concat]
        rfl
      · rw [linkAfter_of_other rfl rfl, ← h.linked kind]
        cases kind <;> rfl

/-- Every step of a run shows what the steps before it say. -/
theorem run_getElem? (h : Reached name before resource) (steps : List (Step Source)) (step : Step Source)
    (after : List (Step Source)) :
    (run resource (steps ++ step :: after))[steps.length]? =
      some (showsAfter name (before ++ steps) step) := by
  induction steps generalizing before resource with
  | nil => rw [List.nil_append, List.append_nil, run, List.length_nil, List.getElem?_cons_zero, h.shows]
  | cons first steps ih =>
      rw [List.cons_append, run, List.length_cons, List.getElem?_cons_succ, ih (h.concat first),
        List.append_assoc, List.singleton_append]

end Reached

/-! ### One link among the others -/

theorem readsOf_cons {steps : List (Step Source)} {shown : List (Observation Source)}
    {observation : Observation Source} :
    readsOf kind (step :: steps) (observation :: shown) =
      (if step.operation.reads kind then [observation] else []) ++ readsOf kind steps shown := by
  rw [readsOf, List.zip_cons_cons, List.filter_cons]
  dsimp only
  split
  · rfl
  · rfl

/-- Properties that are the same to one of their links. -/
structure Agree (kind : LinkKind) (resource other : Resource Source) : Prop where
  named : resource.name = other.name
  attached : resource.source = other.source
  linked : resource.link kind = other.link kind

namespace Agree

theorem refl (kind : LinkKind) (resource : Resource Source) : Agree kind resource resource :=
  ⟨rfl, rfl, rfl⟩

theorem withLink (h : Agree kind resource other) (state : DeferredLink) :
    Agree kind (resource.withLink kind state) (other.withLink kind state) where
  named := by rw [NestedResource.name_withLink, NestedResource.name_withLink, h.named]
  attached := by rw [NestedResource.source_withLink, NestedResource.source_withLink, h.attached]
  linked := by rw [NestedResource.link_withLink, NestedResource.link_withLink]

theorem withLink_left (h : Agree kind resource other) {found : LinkKind} (hne : found ≠ kind)
    (state : DeferredLink) : Agree kind (resource.withLink found state) other where
  named := by rw [NestedResource.name_withLink, h.named]
  attached := by rw [NestedResource.source_withLink, h.attached]
  linked := by rw [NestedResource.link_withLink_of_ne hne, h.linked]

/-- What concerns a link shows the same of properties that are the same to it, and leaves them so. -/
theorem apply (h : Agree kind resource other) (hconcerns : step.operation.concerns kind = true) :
    (step.apply resource).1 = (step.apply other).1 ∧
      Agree kind (step.apply resource).2 (step.apply other).2 := by
  obtain ⟨operation, answers⟩ := step
  cases operation with
  | read found =>
      obtain rfl : found = kind := of_decide_eq_true hconcerns
      rcases apply_read_cases resource found answers with
        ⟨hset, happly⟩ | ⟨hunset, answer, consulted, hasked, happly⟩
      · have hset' : (other.link found).isSet = true := h.linked ▸ hset
        rw [happly, apply_read_of_isSet hset', h.linked]
        exact ⟨rfl, h⟩
      · have hunset' : other.link found = .unset := h.linked ▸ hunset
        have hask : resource.ask (LinkSource.link found) = other.ask (LinkSource.link found) := by
          rw [NestedResource.ask, NestedResource.ask, h.attached, h.named]
        rw [hask] at hasked
        rw [happly, apply_read_of_unset hunset' hasked]
        exact ⟨rfl, h.withLink _⟩
  | set found url =>
      obtain rfl : found = kind := of_decide_eq_true hconcerns
      rw [apply_set, apply_set]
      exact ⟨rfl, h.withLink _⟩
  | setContext url => cases hconcerns
  | attach source => exact ⟨rfl, h.named, rfl, by cases kind <;> exact h.linked⟩

/-- What does not concern a link leaves it as it is. -/
theorem apply_left (h : Agree kind resource other) (hconcerns : step.operation.concerns kind = false) :
    Agree kind (step.apply resource).2 other := by
  obtain ⟨operation, answers⟩ := step
  cases operation with
  | read found =>
      have hne : found ≠ kind := of_decide_eq_false hconcerns
      rcases apply_read_cases resource found answers with ⟨-, happly⟩ | ⟨-, _, _, -, happly⟩
      · rw [happly]
        exact h
      · rw [happly]
        exact h.withLink_left hne _
  | set found url =>
      have hne : found ≠ kind := of_decide_eq_false hconcerns
      rw [apply_set]
      exact h.withLink_left hne _
  | setContext url => exact ⟨h.named, h.attached, by cases kind <;> exact h.linked⟩
  | attach source => cases hconcerns

end Agree

theorem reads_eq_false_of_concerns {operation : Operation Source}
    (h : operation.concerns kind = false) : operation.reads kind = false := by
  cases operation with
  | read found => exact h
  | _ => rfl

/-- The reads of one link show the same without all that does not concern it. -/
theorem Agree.readsOf_run (h : Agree kind resource other) (steps : List (Step Source)) :
    readsOf kind steps (run resource steps) =
      readsOf kind (steps.filter (·.operation.concerns kind))
        (run other (steps.filter (·.operation.concerns kind))) := by
  induction steps generalizing resource other with
  | nil => rfl
  | cons step steps ih =>
      by_cases hconcerns : step.operation.concerns kind = true
      · obtain ⟨hshown, hafter⟩ := h.apply hconcerns
        have hfilter : (step :: steps).filter (·.operation.concerns kind) =
            step :: steps.filter (·.operation.concerns kind) := List.filter_cons_of_pos hconcerns
        rw [hfilter, run, run, readsOf_cons, readsOf_cons, hshown, ih hafter]
      · have hfilter : (step :: steps).filter (·.operation.concerns kind) =
            steps.filter (·.operation.concerns kind) := List.filter_cons_of_neg hconcerns
        rw [Bool.not_eq_true] at hconcerns
        rw [hfilter, run, readsOf_cons, reads_eq_false_of_concerns hconcerns,
          ih (h.apply_left hconcerns)]
        rfl

/-- One for a link that a read may still compute. -/
def freshLeft (kind : LinkKind) (resource : Resource Source) : Nat :=
  if (resource.link kind).isSet then 0 else 1

/-- A fresh read takes away the possibility of another one. -/
theorem fresh_step (step : Step Source) (resource : Resource Source) :
    (if step.operation.reads kind then [(step.apply resource).1] else []).countP Observation.isFresh +
      freshLeft kind (step.apply resource).2 ≤ freshLeft kind resource := by
  by_cases hconcerns : step.operation.concerns kind = true
  · obtain ⟨operation, answers⟩ := step
    cases operation with
    | read found =>
        obtain rfl : found = kind := of_decide_eq_true hconcerns
        have hreads : (Operation.read found : Operation Source).reads found = true := decide_eq_true rfl
        rw [if_pos hreads, List.countP_singleton]
        rcases apply_read_cases resource found answers with
          ⟨-, happly⟩ | ⟨hunset, answer, consulted, -, happly⟩
        · rw [happly]
          exact Nat.le_of_eq (Nat.zero_add _)
        · rw [happly, freshLeft, freshLeft, NestedResource.link_withLink, hunset]
          cases answer with
          | none => exact Nat.le_refl 1
          | some url => exact Nat.le_refl 1
    | set found url =>
        obtain rfl : found = kind := of_decide_eq_true hconcerns
        rw [apply_set, freshLeft, NestedResource.link_withLink]
        exact Nat.zero_le _
    | setContext url => cases hconcerns
    | attach source =>
        refine Nat.le_of_eq ?_
        cases kind <;> exact Nat.zero_add _
  · rw [Bool.not_eq_true] at hconcerns
    have hlinked := ((Agree.refl kind resource).apply_left hconcerns).linked
    rw [reads_eq_false_of_concerns hconcerns, freshLeft, hlinked, if_neg Bool.false_ne_true,
      List.countP_nil, Nat.zero_add]
    exact Nat.le_refl _

/-- At most one read of a link is fresh, and none of a link that there is. -/
theorem countP_isFresh_le (resource : Resource Source) (steps : List (Step Source)) :
    (readsOf kind steps (run resource steps)).countP Observation.isFresh ≤ freshLeft kind resource := by
  induction steps generalizing resource with
  | nil => exact Nat.zero_le _
  | cons step steps ih =>
      have hstep := @fresh_step _ kind step resource
      have hsteps := ih (step.apply resource).2
      rw [run, readsOf_cons, List.countP_append]
      omega

/-- **Reads over whole runs.** Let any operations be performed on a property that has neither links
nor a source at first, where at each step every source answers as it pleases. Each step shows what the
steps before it say: a read, after its link was given, the link given last and no question; before
that, the first answer and no question once there is one, and until then the answer of the attached
source to its one question. What the reads of a link show does not depend on the operations on the
other link and on the context, and at most one of them is fresh. -/
theorem reads_of_run (name : Text) (steps : List (Step Source)) (kind : LinkKind) :
    (∀ before step after, steps = before ++ step :: after →
      (observations name steps)[before.length]? = some (showsAfter name before step)) ∧
    readsOf kind steps (observations name steps) =
      readsOf kind (steps.filter (·.operation.concerns kind))
        (observations name (steps.filter (·.operation.concerns kind))) ∧
    (readsOf kind steps (observations name steps)).countP Observation.isFresh ≤ 1 := by
  refine ⟨?_, (Agree.refl kind _).readsOf_run steps, ?_⟩
  · rintro before step after rfl
    exact (Reached.start name).run_getElem? before step after
  · refine Nat.le_trans (countP_isFresh_le _ steps) ?_
    rw [freshLeft]
    split
    · exact Nat.zero_le 1
    · exact Nat.le_refl 1

/-- A source that answers nothing, one that answers, and the first one again: the only fresh read is
the one that was answered, and the read after it asks no one. -/
theorem reads_of_run_replaced :
    ∃ steps : List (Step Bool),
      steps = [Operation.attach false, .read .navigation, .attach true, .read .navigation,
        .attach false, .read .navigation].map (⟨·, fun source _ name =>
          if source then some ⟨"http://host/".toList ++ name, true, none, none⟩ else none⟩) ∧
      (observations "Friends".toList steps)[1]? =
        some ⟨some ⟨none, false⟩, [⟨false, .navigation, "Friends".toList⟩]⟩ ∧
      (observations "Friends".toList steps)[3]? =
        some ⟨some ⟨some ⟨"http://host/Friends".toList, true, none, none⟩, true⟩,
          [⟨true, .navigation, "Friends".toList⟩]⟩ ∧
      (observations "Friends".toList steps)[5]? =
        some ⟨some ⟨some ⟨"http://host/Friends".toList, true, none, none⟩, false⟩, []⟩ := by
  refine ⟨_, rfl, ?_, ?_, ?_⟩
  · exact (reads_of_run _ _ .navigation).1 [_] _ _ rfl
  · exact (reads_of_run _ _ .navigation).1 [_, _, _] _ _ rfl
  · exact (reads_of_run _ _ .navigation).1 [_, _, _, _, _] _ _ rfl

end LinkRun

end ODataRequest
