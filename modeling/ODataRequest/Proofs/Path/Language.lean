import ODataRequest.Proofs.Path.RoundTrip

/-! The language of resource paths, written as a grammar: a root, steps, and at most one terminal
segment. Its segment lists are the chains. Main statement: every path that is read is in the language,
and every path in the language is read from its text with keys in parentheses, in either style. -/

namespace ODataRequest

open Text

/-! ### The parts of the grammar -/

/-- A literal that some text is read as. -/
def Literal.IsReadable (value : Literal) : Prop :=
  ∃ text, Literal.parse text = .ok value

/-- Two or more identifiers with dots between them. -/
def IsDottedName (name : Text) : Prop :=
  ∃ parts : List Text, 2 ≤ parts.length ∧ (∀ part ∈ parts, isIdentifier part = true) ∧
    name = ['.'].intercalate parts

/-- A key of literals that can be read: one of them, or one or more with identifiers as names. -/
def KeyPredicate.IsKey : KeyPredicate → Prop
  | .single value => value.IsReadable
  | .named pairs => pairs ≠ [] ∧ ∀ pair ∈ pairs, isIdentifier pair.1 = true ∧ pair.2.IsReadable

namespace PathSegment

/-- What a path begins with: an entity set, or an entity by its key. -/
inductive IsRoot : List PathSegment → Prop where
  | entitySet {name : Text} (hname : isIdentifier name = true) : IsRoot [.entitySet name]
  | entity {name : Text} {predicate : KeyPredicate} (hname : isIdentifier name = true)
      (hkey : predicate.IsKey) : IsRoot [.entitySet name, .key predicate]

/-- What leads from one resource to another: a navigation, possibly to an entity by its key, or an
operation. -/
inductive IsStep : List PathSegment → Prop where
  | navigation {name : Text} (hname : isIdentifier name = true) : IsStep [.navigation name]
  | entity {name : Text} {predicate : KeyPredicate} (hname : isIdentifier name = true)
      (hkey : predicate.IsKey) : IsStep [.navigation name, .key predicate]
  | operation {name : Text} (hname : IsDottedName name) : IsStep [.boundOperation name]

/-- The segments that a terminal segment may stand after. -/
def EndsAfter : (terminal last : PathSegment) → Prop
  | .count, .entitySet _ => True
  | .count, .navigation _ => True
  | .count, .boundOperation _ => True
  | .ref, .entitySet _ => True
  | .ref, .navigation _ => True
  | .ref, .key _ => True
  | .value, .key _ => True
  | .value, .navigation _ => True
  | .value, .boundOperation _ => True
  | _, _ => False

/-- The segments of a path: none, a document of the service, or a root with any number of steps and at
most one terminal segment after them. -/
inductive IsPath : List PathSegment → Prop where
  | service : IsPath []
  | metadata : IsPath [.metadata]
  | batch : IsPath [.batch]
  | resource {root : List PathSegment} {steps : List (List PathSegment)} (hroot : IsRoot root)
      (hsteps : ∀ step ∈ steps, IsStep step) : IsPath (root ++ steps.flatten)
  | terminal {root : List PathSegment} {steps : List (List PathSegment)} {last terminal : PathSegment}
      (hroot : IsRoot root) (hsteps : ∀ step ∈ steps, IsStep step)
      (hlast : (root ++ steps.flatten).getLast? = some last) (hends : terminal.EndsAfter last) :
      IsPath (root ++ steps.flatten ++ [terminal])

end PathSegment

/-! ### Names, literals and keys -/

theorem Literal.isReadable_iff {value : Literal} : value.IsReadable ↔ value.WellFormed := by
  constructor
  · rintro ⟨text, h⟩
    rw [Literal.parse] at h
    split at h
    · rename_i found hfound
      cases h
      exact Literal.wellFormed_of_ofText? hfound
    · cases h
  · intro h
    refine ⟨value.render, ?_⟩
    rw [Literal.parse, Literal.ofText?_render h]

theorem KeyPredicate.isKey_iff {predicate : KeyPredicate} :
    predicate.IsKey ↔ predicate.WellFormed := by
  cases predicate with
  | single value => exact Literal.isReadable_iff
  | named pairs => simp only [IsKey, WellFormed, Literal.isReadable_iff]

theorem isQualifiedName_iff {name : Text} : isQualifiedName name = true ↔ IsDottedName name := by
  rw [isQualifiedName, Bool.and_eq_true, List.contains_iff_mem, List.all_eq_true]
  constructor
  · rintro ⟨hdot, hparts⟩
    refine ⟨fields '.' name, ?_, hparts, (intercalate_fields '.' name).symm⟩
    rw [fields_length]
    have hcount : 0 < name.count '.' := List.count_pos_iff.mpr hdot
    omega
  · rintro ⟨parts, hlength, hparts, rfl⟩
    have hnonempty : parts ≠ [] := by
      rintro rfl
      cases hlength
    have hfields := fields_intercalate hnonempty fun part hmem =>
      ResourcePath.not_mem_dot (hparts part hmem)
    refine ⟨?_, fun part hmem => hparts part (hfields ▸ hmem)⟩
    rw [← List.count_pos_iff]
    have hcount := fields_length '.' (['.'].intercalate parts)
    rw [hfields] at hcount
    omega

namespace PathSegment

variable {previous found terminal last : PathSegment} {segments rest tail : List PathSegment}
  {steps : List (List PathSegment)}

theorem endsAfter_iff : terminal.EndsAfter last ↔ terminal.appliesTo last = true := by
  cases terminal <;> cases last <;> simp [EndsAfter, appliesTo, isCollectionLike]

/-! ### Chains are in the language -/

theorem endsAfter_of_follows {text : Text} (hcontrol : found.controlText? = some text)
    (h : found.Follows (some previous)) : found.EndsAfter previous := by
  rw [endsAfter_iff]
  cases found with
  | metadata => cases h
  | batch => cases h
  | count => exact h
  | ref => exact h
  | value => exact h
  | _ => cases hcontrol

/-- What follows a segment: possibly its key, then steps, and possibly a terminal segment. -/
structure Continues (previous : PathSegment) (lead : List PathSegment) (steps : List (List PathSegment))
    (terminal : Option PathSegment) : Prop where
  key : lead = [] ∨ ∃ predicate : KeyPredicate, lead = [.key predicate] ∧
    previous.takesKey = true ∧ predicate.IsKey
  isStep : ∀ step ∈ steps, IsStep step
  endsAfter : ∀ found ∈ terminal, ∃ last,
    (previous :: lead ++ steps.flatten).getLast? = some last ∧ found.EndsAfter last

theorem exists_continues (h : Chain (some previous) segments) :
    ∃ lead steps terminal, segments = lead ++ steps.flatten ++ terminal.toList ∧
      Continues previous lead steps terminal := by
  generalize hsome : some previous = before at h
  induction h generalizing previous with
  | nil => exact ⟨[], [], none, rfl, Or.inl rfl, by simp, by simp⟩
  | @cons before found rest hfollows hend hrest ih =>
      subst hsome
      obtain ⟨lead, steps, terminal, rfl, hlead, hsteps, hterminal⟩ := ih rfl
      have hbare : found.takesKey = false → lead = [] := by
        intro htakes
        rcases hlead with rfl | ⟨predicate, -, hkeyed, -⟩
        · rfl
        · rw [htakes] at hkeyed
          cases hkeyed
      cases found with
      | entitySet name => cases hfollows.1
      | key predicate =>
          obtain rfl := hbare rfl
          exact ⟨[.key predicate], steps, terminal, rfl,
            Or.inr ⟨predicate, rfl, hfollows.1, KeyPredicate.isKey_iff.mpr hfollows.2⟩, hsteps,
            by simpa using hterminal⟩
      | navigation name =>
          refine ⟨[], (.navigation name :: lead) :: steps, terminal, by simp, Or.inl rfl, ?_,
            by simpa using hterminal⟩
          refine List.forall_mem_cons.mpr ⟨?_, hsteps⟩
          rcases hlead with rfl | ⟨predicate, rfl, -, hkey⟩
          · exact .navigation hfollows.2
          · exact .entity hfollows.2 hkey
      | boundOperation name =>
          obtain rfl := hbare rfl
          refine ⟨[], [.boundOperation name] :: steps, terminal, by simp, Or.inl rfl, ?_,
            by simpa using hterminal⟩
          exact List.forall_mem_cons.mpr ⟨.operation (isQualifiedName_iff.mp hfollows.2), hsteps⟩
      | metadata => cases hfollows
      | batch => cases hfollows
      | count | ref | value =>
          obtain hnil := hend rfl
          rw [hnil]
          refine ⟨[], [], some _, rfl, Or.inl rfl, by simp, ?_⟩
          rintro found ⟨⟩
          exact ⟨previous, rfl, endsAfter_of_follows rfl hfollows⟩

/-- The root and what follows it make up a path of the language. -/
theorem isPath_of_root {root : List PathSegment} (hroot : IsRoot root)
    (hsteps : ∀ step ∈ steps, IsStep step) {terminal : Option PathSegment}
    (hends : ∀ found ∈ terminal, ∃ last,
      (root ++ steps.flatten).getLast? = some last ∧ found.EndsAfter last) :
    IsPath (root ++ steps.flatten ++ terminal.toList) := by
  cases terminal with
  | none =>
      rw [Option.toList_none, List.append_nil]
      exact .resource hroot hsteps
  | some found =>
      obtain ⟨last, hlast, hfound⟩ := hends found rfl
      exact .terminal hroot hsteps hlast hfound

theorem isPath_of_chain (h : Chain none segments) : IsPath segments := by
  cases h with
  | nil => exact .service
  | @cons _ found rest hfollows hend hrest =>
      cases found with
      | entitySet name =>
          obtain ⟨lead, steps, terminal, rfl, hkey, hsteps, hends⟩ := exists_continues hrest
          rw [← List.cons_append, ← List.cons_append]
          refine isPath_of_root ?_ hsteps hends
          rcases hkey with rfl | ⟨predicate, rfl, -, hkey⟩
          · exact .entitySet hfollows.2
          · exact .entity hfollows.2 hkey
      | metadata =>
          rw [hend rfl]
          exact .metadata
      | batch =>
          rw [hend rfl]
          exact .batch
      | navigation name => exact absurd rfl hfollows.1
      | boundOperation name => exact absurd rfl hfollows.1
      | key predicate => cases hfollows.1
      | count => cases hfollows
      | ref => cases hfollows
      | value => cases hfollows

/-! ### The language consists of chains -/

theorem chain_key {predicate : KeyPredicate} (hprevious : previous.takesKey = true)
    (hkey : predicate.IsKey) (htail : Chain (some (.key predicate)) tail) :
    Chain (some previous) (.key predicate :: tail) :=
  .cons ⟨hprevious, KeyPredicate.isKey_iff.mp hkey⟩ (fun hend => by cases hend) htail

/-- Steps lead from any segment to whatever may follow the last of them. -/
theorem chain_of_steps (hsteps : ∀ step ∈ steps, IsStep step)
    (htail : ∀ last, (previous :: steps.flatten).getLast? = some last → Chain (some last) tail) :
    Chain (some previous) (steps.flatten ++ tail) := by
  induction steps generalizing previous with
  | nil => exact htail previous rfl
  | cons step steps ih =>
      obtain ⟨hstep, hothers⟩ := List.forall_mem_cons.mp hsteps
      have hlater : some previous ≠ none := Option.some_ne_none previous
      cases hstep with
      | @navigation name hname =>
          refine .cons ⟨hlater, hname⟩ (fun hend => by cases hend) (ih hothers fun last hlast => ?_)
          exact htail last (by simpa using hlast)
      | @entity name predicate hname hkey =>
          refine .cons ⟨hlater, hname⟩ (fun hend => by cases hend)
            (chain_key rfl hkey (ih hothers fun last hlast => ?_))
          exact htail last (by simpa using hlast)
      | @operation name hname =>
          refine .cons ⟨hlater, isQualifiedName_iff.mpr hname⟩ (fun hend => by cases hend)
            (ih hothers fun last hlast => ?_)
          exact htail last (by simpa using hlast)

theorem chain_of_root {root : List PathSegment} (hroot : IsRoot root)
    (hsteps : ∀ step ∈ steps, IsStep step)
    (htail : ∀ last, (root ++ steps.flatten).getLast? = some last → Chain (some last) tail) :
    Chain none (root ++ steps.flatten ++ tail) := by
  cases hroot with
  | entitySet hname =>
      exact .cons ⟨rfl, hname⟩ (fun hend => by cases hend) (chain_of_steps hsteps htail)
  | entity hname hkey =>
      refine .cons ⟨rfl, hname⟩ (fun hend => by cases hend)
        (chain_key rfl hkey (chain_of_steps hsteps fun last hlast => ?_))
      exact htail last (by simpa using hlast)

theorem chain_terminal (h : terminal.EndsAfter last) : Chain (some last) [terminal] := by
  rw [endsAfter_iff] at h
  refine .cons ?_ (fun _ => rfl) .nil
  cases terminal with
  | count => exact h
  | ref => exact h
  | value => exact h
  | _ => cases h

/-- The chains are the language of paths. -/
theorem isPath_iff_chain : IsPath segments ↔ Chain none segments := by
  refine ⟨fun h => ?_, isPath_of_chain⟩
  cases h with
  | service => exact .nil
  | metadata => exact .cons rfl (fun _ => rfl) .nil
  | batch => exact .cons rfl (fun _ => rfl) .nil
  | resource hroot hsteps =>
      rw [← List.append_nil (_ ++ _)]
      exact chain_of_root hroot hsteps fun _ _ => .nil
  | @terminal root steps last' terminal hroot hsteps hlast hends =>
      refine chain_of_root hroot hsteps fun last h => ?_
      obtain rfl : last' = last := Option.some.inj (hlast.symm.trans h)
      exact chain_terminal hends

end PathSegment

namespace ResourcePath

open PathSegment

/-- **The language of paths is exact.** Every path that is read, in either style, is in the language;
and every path in the language is read, in either style, from its text with keys in parentheses. -/
theorem parse_language :
    (∀ (text : Text) (style : KeyStyle) (path : ResourcePath), parse text style = .ok path →
      IsPath path.segments) ∧
    ∀ path : ResourcePath, IsPath path.segments → ∀ style : KeyStyle,
      parse (path.render .parentheses) style = .ok path := by
  constructor
  · intro text style path h
    exact isPath_iff_chain.mpr (chain_of_parse h)
  · intro path h style
    exact parse_render_of_chain (isPath_iff_chain.mp h) (fun hslash => by cases hslash)
      fun hslash => by cases hslash

/-- A key of its own, a key with a slash and a parenthesis in it, an operation and a count. -/
theorem parse_language_keys :
    let path : ResourcePath := ⟨[.entitySet "People".toList, .key (.single (.integer 1)),
      .navigation "Friends".toList, .key (.single (.string "a/(b".toList)),
      .boundOperation "N.Best".toList, .count]⟩
    parse "People/1/Friends('a%2F(b')/N.Best/$count".toList .slash = .ok path ∧
      IsPath path.segments ∧
      parse "People(1)/Friends('a%2F(b')/N.Best/$count".toList .parentheses = .ok path ∧
      parse "People(1)/Friends('a%2F(b')/N.Best/$count".toList .slash = .ok path := by
  intro path
  have hparse : parse "People/1/Friends('a%2F(b')/N.Best/$count".toList .slash = .ok path := by
    decide +kernel
  have hpath : IsPath path.segments := parse_language.1 _ _ _ hparse
  have hrender : path.render .parentheses =
      "People(1)/Friends('a%2F(b')/N.Best/$count".toList := by
    decide +kernel
  have hread := parse_language.2 path hpath
  rw [hrender] at hread
  exact ⟨hparse, hpath, hread .parentheses, hread .slash⟩

end ResourcePath

end ODataRequest
