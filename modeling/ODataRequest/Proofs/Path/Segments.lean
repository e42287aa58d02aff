import ODataRequest.Path.Resource
import ODataRequest.Proofs.Path.Keys

/-! The order of the segments of a path. Every path that is read is a chain: each segment can follow
the one before it, and nothing follows a segment that ends the path. -/

namespace ODataRequest

open Text

namespace PathSegment

/-- A segment that can stand after another one, or at the beginning of a path. -/
def Follows (previous : Option PathSegment) : PathSegment → Prop
  | .entitySet name => previous = none ∧ isIdentifier name = true
  | .navigation name => previous ≠ none ∧ isIdentifier name = true
  | .boundOperation name => previous ≠ none ∧ isQualifiedName name = true
  | .key predicate => previous.any takesKey = true ∧ predicate.WellFormed
  | .metadata => previous = none
  | .batch => previous = none
  | .count => previous.any PathSegment.count.appliesTo = true
  | .ref => previous.any PathSegment.ref.appliesTo = true
  | .value => previous.any PathSegment.value.appliesTo = true

/-- A segment that nothing follows. -/
def endsPath : PathSegment → Bool
  | .count | .ref | .value | .metadata | .batch => true
  | _ => false

/-- Segments in an order that a path can have them, after another segment or from the beginning. -/
inductive Chain : Option PathSegment → List PathSegment → Prop where
  | nil {previous : Option PathSegment} : Chain previous []
  | cons {previous : Option PathSegment} {segment : PathSegment} {rest : List PathSegment}
      (hfollows : segment.Follows previous) (hend : segment.endsPath = true → rest = [])
      (hrest : Chain (some segment) rest) : Chain previous (segment :: rest)

end PathSegment

namespace ResourcePath

open PathSegment

variable {style : KeyStyle} {index : Nat} {previous : Option PathSegment} {segment name : Text}

/-! ### Names -/

theorem not_mem_dot (h : isIdentifier name = true) : '.' ∉ name := by
  intro hmem
  cases name with
  | nil => cases h
  | cons c rest =>
      rw [isIdentifier, Bool.and_eq_true, List.all_eq_true] at h
      rcases List.mem_cons.mp hmem with rfl | hmem
      · exact absurd h.1 (by decide)
      · exact absurd (h.2 _ hmem) (by decide)

theorem nameFault?_eq_none_iff {offset : Nat} {parts : List Text} :
    nameFault? offset parts = none ↔ parts.all isIdentifier = true := by
  induction parts generalizing offset with
  | nil => exact ⟨fun _ => rfl, fun _ => rfl⟩
  | cons part parts ih =>
      rw [List.all_cons, Bool.and_eq_true, Identifier.isIdentifier_eq_true_iff, nameFault?]
      by_cases hempty : part = []
      · rw [if_pos (List.isEmpty_iff.mpr hempty)]
        simp [hempty]
      · rw [if_neg (by rwa [List.isEmpty_iff])]
        cases hfault : Identifier.fault? part with
        | none => simp [hempty, ih]
        | some fault => simp

theorem follows_of_nameSegment (hindex : index = 0 ↔ previous = none) {found : PathSegment}
    (h : nameSegment segment name index = .ok found) :
    found.Follows previous ∧ found.name? = some name := by
  rw [nameSegment] at h
  split at h
  · cases h
  dsimp only at h
  split at h
  · cases h
  rename_i hfault
  rw [nameFault?_eq_none_iff] at hfault
  cases h
  by_cases hfirst : index = 0
  · have hearly : decide (0 < index) = false := by
      rw [hfirst]
      rfl
    rw [hearly, Bool.false_and, if_neg Bool.false_ne_true] at hfault
    rw [if_pos hfirst]
    exact ⟨⟨hindex.mp hfirst, by simpa using hfault⟩, rfl⟩
  · have hlater : decide (0 < index) = true := decide_eq_true (Nat.pos_of_ne_zero hfirst)
    rw [hlater, Bool.true_and] at hfault ⊢
    rw [if_neg hfirst]
    have hprevious : previous ≠ none := fun hnone => hfirst (hindex.mpr hnone)
    by_cases hdot : name.contains '.' = true
    · rw [if_pos hdot] at hfault ⊢
      exact ⟨⟨hprevious, by rw [isQualifiedName, hdot, hfault]; rfl⟩, rfl⟩
    · rw [if_neg hdot] at hfault ⊢
      exact ⟨⟨hprevious, by simpa using hfault⟩, rfl⟩

theorem ne_nil_of_follows {found : PathSegment} (h : found.Follows previous)
    (hname : found.name? = some name) : name ≠ [] := by
  rintro rfl
  cases found <;> cases hname
  · cases h.2
  · cases h.2
  · cases h.2

theorem nameSegment_of_follows (hindex : index = 0 ↔ previous = none) {found : PathSegment}
    (h : found.Follows previous) (hname : found.name? = some name) (segment : Text) :
    nameSegment segment name index = .ok found := by
  have hempty : ¬name.isEmpty = true := by
    rw [List.isEmpty_iff]
    exact ne_nil_of_follows h hname
  rw [nameSegment, if_neg hempty]
  cases found with
  | entitySet found =>
      cases hname
      have hfirst : index = 0 := hindex.mpr h.1
      have hfault : nameFault? 0 [name] = none := nameFault?_eq_none_iff.mpr (by simpa using h.2)
      simp [hfirst, hfault]
  | navigation found =>
      cases hname
      have hlater : index ≠ 0 := fun hzero => h.1 (hindex.mp hzero)
      have hfault : nameFault? 0 [name] = none := nameFault?_eq_none_iff.mpr (by simpa using h.2)
      simp [hlater, hfault, not_mem_dot h.2]
  | boundOperation found =>
      cases hname
      obtain ⟨hprevious, hqualified⟩ := h
      rw [isQualifiedName, Bool.and_eq_true] at hqualified
      have hlater : index ≠ 0 := fun hzero => hprevious (hindex.mp hzero)
      have hfault : nameFault? 0 (fields '.' name) = none := nameFault?_eq_none_iff.mpr hqualified.2
      have hdot : '.' ∈ name := by simpa using hqualified.1
      simp [hlater, Nat.pos_of_ne_zero hlater, hfault, hdot]
  | _ => cases hname

/-! ### Segments that are read -/

/-- The segments that one text between slashes can give. -/
inductive Group (style : KeyStyle) (previous : Option PathSegment) : List PathSegment → Prop where
  | control {control : PathSegment} (h : control.controlText? ≠ none) : Group style previous [control]
  | name {named : PathSegment} (h : named.Follows previous) (hname : named.name? ≠ none) :
      Group style previous [named]
  | keyed {owner : PathSegment} {predicate : KeyPredicate} (h : owner.Follows previous)
      (hname : owner.name? ≠ none) (hkey : predicate.WellFormed) :
      Group style previous [owner, .key predicate]
  | slashKey {value : Literal} (hkey : value.WellFormed) : Group style previous [.key (.single value)]

theorem group_of_classifySegment (hindex : index = 0 ↔ previous = none) {group : List PathSegment}
    (h : classifySegment style index previous segment = .ok group) : Group style previous group := by
  rw [classifySegment] at h
  split at h
  · cases h
  split at h
  · rename_i control hcontrol
    cases h
    refine .control ?_
    rw [control?_eq_some_iff.mp hcontrol]
    exact Option.some_ne_none _
  split at h
  · split at h
    · cases h
    obtain ⟨owner, howner, h⟩ := bind_eq_ok.mp h
    obtain ⟨predicate, hkey, h⟩ := bind_eq_ok.mp h
    cases h
    obtain ⟨hfollows, hname⟩ := follows_of_nameSegment hindex howner
    refine .keyed hfollows ?_ (KeyPredicate.wellFormed_of_read (eq_ok_of_mapError hkey))
    rw [hname]
    exact Option.some_ne_none _
  · split at h
    · rename_i value hvalue
      cases h
      refine .slashKey ?_
      rw [slashKey?] at hvalue
      split at hvalue
      · exact Literal.wellFormed_of_ofText? (Option.filter_eq_some_iff.mp hvalue).1
      · cases hvalue
    · cases hsegment : nameSegment segment segment index with
      | error e =>
          rw [hsegment] at h
          cases h
      | ok named =>
          rw [hsegment] at h
          cases h
          obtain ⟨hfollows, hname⟩ := follows_of_nameSegment hindex hsegment
          refine .name hfollows ?_
          rw [hname]
          exact Option.some_ne_none _

theorem placement_of_checkOrder {count : Nat} {rest : List (Nat × PathSegment)} {found : PathSegment}
    (h : checkOrder count previous ((index, found) :: rest) = .ok ()) :
    placementFault? count index previous found = none ∧ checkOrder count (some found) rest = .ok () := by
  rw [checkOrder] at h
  split at h
  · cases h
  · exact ⟨by assumption, h⟩

theorem takesKey_of_placement {count : Nat} {predicate : KeyPredicate}
    (h : placementFault? count index previous (.key predicate) = none) :
    previous.any takesKey = true := by
  rw [placementFault?] at h
  split at h
  · assumption
  · cases h

/-- A control segment in its place follows what it applies to, or stands alone, and ends the path. -/
theorem control_of_placement {count : Nat} {control : PathSegment} (hcontrol : control.controlText? ≠ none)
    (h : placementFault? count index previous control = none) (hlt : index < count)
    (hindex : index = 0 ↔ previous = none) : control.Follows previous ∧ index + 1 = count := by
  have halone : (if count = 1 then none else some PlacementFault.notAlone) = none → count = 1 := by
    intro hnone
    split at hnone
    · assumption
    · cases hnone
  have hlast : ∀ {applies : Bool}, (if index + 1 ≠ count then some PlacementFault.notLast
      else if applies = true then none else some .noResource) = none →
        applies = true ∧ index + 1 = count := by
    intro applies hnone
    split at hnone
    · cases hnone
    rename_i hcount
    split at hnone
    · exact ⟨by assumption, Decidable.not_not.mp hcount⟩
    · cases hnone
  cases control with
  | metadata =>
      have hcount := halone h
      exact ⟨hindex.mp (by omega), by omega⟩
  | batch =>
      have hcount := halone h
      exact ⟨hindex.mp (by omega), by omega⟩
  | count => exact hlast h
  | ref => exact hlast h
  | value => exact hlast h
  | _ => exact absurd rfl hcontrol

theorem endsPath_of_name {named : PathSegment} (h : named.name? ≠ none) : named.endsPath = false := by
  cases named <;> first | rfl | exact absurd rfl h

theorem index_first : 0 = 0 ↔ (none : Option PathSegment) = none :=
  iff_of_true rfl rfl

theorem index_later (index : Nat) (previous : PathSegment) :
    index + 1 = 0 ↔ some previous = none :=
  iff_of_false (Nat.succ_ne_zero index) (Option.some_ne_none previous)

/-- The segments of texts pass the check of their order only as a chain. -/
theorem chain_of_classify {count : Nat} {texts : List Text} {classified : List (Nat × PathSegment)}
    (h : classify style index previous texts = .ok classified)
    (hcheck : checkOrder count previous classified = .ok ()) (hcount : index + texts.length = count)
    (hindex : index = 0 ↔ previous = none) : Chain previous (classified.map Prod.snd) := by
  induction texts generalizing index previous classified with
  | nil =>
      cases h
      exact .nil
  | cons text texts ih =>
      obtain ⟨group, hgroup, h⟩ := bind_eq_ok.mp h
      obtain ⟨others, hothers, h⟩ := bind_eq_ok.mp h
      cases h
      rw [List.length_cons] at hcount
      have hnext : ∀ {last : PathSegment}, classify style (index + 1) (some last) texts = .ok others →
          checkOrder count (some last) others = .ok () → Chain (some last) (others.map Prod.snd) :=
        fun hclassify hrest => ih hclassify hrest (by omega) (index_later index _)
      cases group_of_classifySegment hindex hgroup with
      | control hcontrol =>
          obtain ⟨hplace, hrest⟩ := placement_of_checkOrder hcheck
          obtain ⟨hfollows, hlast⟩ := control_of_placement hcontrol hplace (by omega) hindex
          obtain rfl : texts = [] := List.eq_nil_of_length_eq_zero (by omega)
          cases hothers
          exact .cons hfollows (fun _ => rfl) .nil
      | name hfollows hname =>
          obtain ⟨-, hrest⟩ := placement_of_checkOrder hcheck
          refine .cons hfollows (fun hend => ?_) (hnext hothers hrest)
          rw [endsPath_of_name hname] at hend
          cases hend
      | keyed hfollows hname hkey =>
          obtain ⟨-, hrest⟩ := placement_of_checkOrder hcheck
          obtain ⟨hplace, hrest⟩ := placement_of_checkOrder hrest
          refine .cons hfollows (fun hend => ?_)
            (.cons ⟨takesKey_of_placement hplace, hkey⟩ (fun hend => by cases hend)
              (hnext hothers hrest))
          rw [endsPath_of_name hname] at hend
          cases hend
      | slashKey hkey =>
          obtain ⟨hplace, hrest⟩ := placement_of_checkOrder hcheck
          exact .cons ⟨takesKey_of_placement hplace, hkey⟩ (fun hend => by cases hend)
            (hnext hothers hrest)

/-- Every path that is read is a chain. -/
theorem chain_of_parse {text : Text} {path : ResourcePath} (h : parse text style = .ok path) :
    Chain none path.segments := by
  rw [parse] at h
  split at h
  · cases h
    exact .nil
  split at h
  · cases h
  obtain ⟨texts, -, h⟩ := bind_eq_ok.mp h
  obtain ⟨classified, hclassified, h⟩ := bind_eq_ok.mp h
  obtain ⟨_, hcheck, h⟩ := bind_eq_ok.mp h
  cases h
  exact chain_of_classify hclassified hcheck (Nat.zero_add _) index_first

end ResourcePath

end ODataRequest
