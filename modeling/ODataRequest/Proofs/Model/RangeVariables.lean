import ODataRequest.Proofs.Model.Decision
import ODataRequest.Proofs.Path.Segments

/-! What the check makes of range variables. A lambda variable is bound to the place that its lambda
ranges over, and the implicit variable of a counted collection to the place that is counted: both are
collections, although a variable stands for one element of them. So an expression that applies a
count or a lambda to the variable itself demands a collection that was demanded before. Every stage
of the check, by the options and expressions around it, splits the obligations into those before it,
its own and those after it; the invariant is that what the variables stand for is among those
before. -/

namespace ODataRequest

open Obligation

/-! ### Stages of the check -/

/-- What the check goes through at once. -/
inductive Checked where
  | expression (found : Expression)
  | options (found : List ParsedOption)

/-- Something to check, with the scopes that it was parsed in and the surroundings of its paths. -/
structure Stage where
  scopes : Scopes
  around : Surroundings
  checked : Checked

def Stage.obligations (stage : Stage) : List Obligation :=
  match stage.checked with
  | .expression found => found.obligations stage.around
  | .options found => ParsedOption.obligationsAll stage.around found

def ExpandTarget.obligations (around : Surroundings) : ExpandTarget → List Obligation
  | .all | .allRefs => []
  | .path route | .ref route => around.path route
  | .count route => around.collection route

namespace Stage

/-- A stage within another one, with what is demanded before and after it. The options of an
expansion of everything are no stage of it: the check does not look at them. -/
inductive Enters : Stage → List Obligation → Stage → List Obligation → Prop where
  | left {scopes : Scopes} {around : Surroundings} {op : BinaryOperator} {left right : Expression} :
      Enters ⟨scopes, around, .expression (.binary op left right)⟩ []
        ⟨scopes, around, .expression left⟩ (right.obligations around)
  | right {scopes : Scopes} {around : Surroundings} {op : BinaryOperator} {left right : Expression} :
      Enters ⟨scopes, around, .expression (.binary op left right)⟩ (left.obligations around)
        ⟨scopes, around, .expression right⟩ []
  | operand {scopes : Scopes} {around : Surroundings} {op : UnaryOperator} {operand : Expression} :
      Enters ⟨scopes, around, .expression (.unary op operand)⟩ []
        ⟨scopes, around, .expression operand⟩ []
  | argument {scopes : Scopes} {around : Surroundings} {name : Text} {earlier later : List Expression}
      {argument : Expression} :
      Enters ⟨scopes, around, .expression (.call name (earlier ++ argument :: later))⟩
        (Expression.obligationsAll around earlier)
        ⟨scopes, around, .expression argument⟩ (Expression.obligationsAll around later)
  | subquery {scopes : Scopes} {around : Surroundings} {collection : PropertyAccess}
      {options : List ParsedOption} :
      Enters ⟨scopes, around, .expression (.subquery collection options)⟩
        (around.collection collection)
        ⟨.subquery :: scopes, around.within (around.place collection), .options options⟩ []
  | body {scopes : Scopes} {around : Surroundings} {kind : LambdaKind} {collection : PropertyAccess}
      {binder : Text} {body : Expression} :
      Enters ⟨scopes, around, .expression (.lambda kind collection (some binder) (some body))⟩
        (around.collection collection)
        ⟨.lambda binder :: scopes, around.bind (some binder) (around.place collection),
          .expression body⟩ []
  | filter {scopes : Scopes} {around : Surroundings} {earlier later : List ParsedOption}
      {name : SystemOption} {condition : Expression} :
      Enters ⟨scopes, around, .options (earlier ++ .mk name (.filter condition) :: later)⟩
        (ParsedOption.obligationsAll around earlier)
        ⟨scopes, around, .expression condition⟩ (ParsedOption.obligationsAll around later)
  | sortKey {scopes : Scopes} {around : Surroundings} {earlier later : List ParsedOption}
      {name : SystemOption} {stronger weaker : List OrderByItem} {key : Expression}
      {direction : SortDirection} :
      Enters
        ⟨scopes, around,
          .options (earlier ++ .mk name (.orderBy (stronger ++ .mk key direction :: weaker)) :: later)⟩
        (ParsedOption.obligationsAll around earlier ++ OrderByItem.obligationsAll around stronger)
        ⟨scopes, around, .expression key⟩
        (OrderByItem.obligationsAll around weaker ++ ParsedOption.obligationsAll around later)
  | expansion {scopes : Scopes} {around : Surroundings} {earlier later : List ParsedOption}
      {name : SystemOption} {first last : List ExpandItem} {target : ExpandTarget}
      {route : PropertyAccess} {options : List ParsedOption} (htarget : target.path? = some route) :
      Enters
        ⟨scopes, around,
          .options (earlier ++ .mk name (.expand (first ++ .mk target options :: last)) :: later)⟩
        (ParsedOption.obligationsAll around earlier ++ ExpandItem.obligationsAll around first ++
          target.obligations around)
        ⟨.expand :: scopes, around.within (around.place route), .options options⟩
        (ExpandItem.obligationsAll around last ++ ParsedOption.obligationsAll around later)

/-- A stage anywhere within another one, with all that is demanded before and after it. -/
inductive Reaches : Stage → List Obligation → Stage → List Obligation → Prop where
  | here {stage : Stage} : Reaches stage [] stage []
  | enter {outer inner found : Stage} {before after before' after' : List Obligation}
      (h : Enters outer before inner after) (hrest : Reaches inner before' found after') :
      Reaches outer (before ++ before') found (after' ++ after)

/-! ### The obligations around a stage -/

section Obligations

variable {around : Surroundings}

/-- Demands that are listed item by item split where the items do. -/
theorem split_of_cons {ι : Type} (demands : ι → List Obligation) (all : List ι → List Obligation)
    (hnil : all [] = []) (hcons : ∀ first rest, all (first :: rest) = demands first ++ all rest)
    (earlier : List ι) (item : ι) (later : List ι) :
    all (earlier ++ item :: later) = all earlier ++ (demands item ++ all later) := by
  induction earlier with
  | nil => rw [List.nil_append, hcons, hnil, List.nil_append]
  | cons first earlier ih => rw [List.cons_append, hcons, hcons, ih, List.append_assoc]

theorem obligationsAll_split (earlier : List ParsedOption) (name : SystemOption) (value : OptionValue)
    (later : List ParsedOption) :
    ParsedOption.obligationsAll around (earlier ++ .mk name value :: later) =
      ParsedOption.obligationsAll around earlier ++
        (value.obligations around ++ ParsedOption.obligationsAll around later) :=
  split_of_cons (ParsedOption.obligations around) _ rfl (fun _ _ => rfl) earlier (.mk name value) later

theorem obligations_expandItem {target : ExpandTarget} {route : PropertyAccess}
    (htarget : target.path? = some route) (options : List ParsedOption) :
    (ExpandItem.mk target options).obligations around =
      target.obligations around ++
        ParsedOption.obligationsAll (around.within (around.place route)) options := by
  cases target <;> cases htarget <;> rw [ExpandItem.obligations] <;> rfl

variable {outer inner found : Stage} {before after : List Obligation}

theorem Enters.obligations_eq (h : Enters outer before inner after) :
    outer.obligations = before ++ inner.obligations ++ after := by
  cases h with
  | left => simp only [Stage.obligations, Expression.obligations, List.nil_append]
  | right => simp only [Stage.obligations, Expression.obligations, List.append_nil]
  | operand =>
      simp only [Stage.obligations, Expression.obligations, List.nil_append, List.append_nil]
  | @argument _ around _ earlier later argument =>
      have hsplit := split_of_cons (Expression.obligations around) (Expression.obligationsAll around)
        rfl (fun _ _ => rfl) earlier argument later
      simp only [Stage.obligations, Expression.obligations, hsplit, List.append_assoc]
  | subquery => simp only [Stage.obligations, Expression.obligations, List.append_nil]
  | body =>
      simp only [Stage.obligations, Expression.obligations, Expression.obligationsBody,
        List.append_nil]
  | filter =>
      simp only [Stage.obligations, obligationsAll_split, OptionValue.obligations, List.append_assoc]
  | @sortKey _ around _ _ _ stronger weaker key direction =>
      have hsplit := split_of_cons (OrderByItem.obligations around) (OrderByItem.obligationsAll around)
        rfl (fun _ _ => rfl) stronger (.mk key direction) weaker
      simp only [Stage.obligations, obligationsAll_split, OptionValue.obligations, hsplit,
        OrderByItem.obligations, List.append_assoc]
  | @expansion _ around _ _ _ first last target _ options htarget =>
      have hsplit := split_of_cons (ExpandItem.obligations around) (ExpandItem.obligationsAll around)
        rfl (fun _ _ => rfl) first (.mk target options) last
      simp only [Stage.obligations, obligationsAll_split, OptionValue.obligations, hsplit,
        obligations_expandItem htarget, List.append_assoc]

theorem Reaches.obligations_eq (h : Reaches outer before found after) :
    outer.obligations = before ++ found.obligations ++ after := by
  induction h with
  | here => rw [List.nil_append, List.append_nil]
  | enter hstep _ ih => rw [hstep.obligations_eq, ih]; simp only [List.append_assoc]

end Obligations

end Stage

/-! ### What range variables stand for -/

/-- A place that is demanded to be a collection, by whatever text shows it. -/
def Promises (demanded : List Obligation) (place : Place) : Prop :=
  ∃ shown, .collection place shown ∈ demanded

/-- The path that an expression counts, counts with options or ranges over. -/
def Expression.collection? : Expression → Option PropertyAccess
  | .count route | .subquery route _ | .lambda _ route _ _ => some route
  | _ => none

/-- A range variable itself, which stands for one element: a lambda variable, or the implicit variable
among the options of a counted collection. A binder is an identifier, so no lambda variable has the
name of the implicit one. -/
inductive PropertyAccess.IsElement (scopes : Scopes) : PropertyAccess → Prop where
  | lambda {name : Text} (hname : name ≠ implicitVariable) (hbound : scopes.binds name = true) :
      IsElement scopes ⟨some name, []⟩
  | implicit (hqualifier : scopes.implicitQualifier = some implicitVariable) :
      IsElement scopes ⟨some implicitVariable, []⟩

/-- Surroundings in which the variables of the scopes all stand for places that are demanded to be
collections. -/
structure Backed (demanded : List Obligation) (scopes : Scopes) (around : Surroundings) : Prop where
  bindings : ∀ name place, (name, place) ∈ around.bindings → Promises demanded place
  bound : ∀ name, scopes.binds name = true → ∃ place, (name, place) ∈ around.bindings
  implicit : scopes.implicitQualifier = some implicitVariable → Promises demanded around.it

section Backed

variable {demanded before after : List Obligation} {scopes : Scopes} {around : Surroundings}
  {route : PropertyAccess} {place : Place}

theorem Promises.append_right (h : Promises demanded place) : Promises (demanded ++ before) place := by
  obtain ⟨shown, hmem⟩ := h
  exact ⟨shown, List.mem_append_left _ hmem⟩

theorem promises_collection (demanded : List Obligation) :
    Promises (demanded ++ around.collection route) (around.place route) :=
  ⟨route.render, List.mem_append_right _ (List.mem_append_right _ List.mem_cons_self)⟩

namespace Backed

/-- No variable is in scope among the options of a request. -/
theorem start (place : Place) : Backed demanded [] ⟨place, []⟩ where
  bindings _ _ hmem := absurd hmem List.not_mem_nil
  bound _ hname := absurd hname Bool.false_ne_true
  implicit hqualifier := absurd hqualifier.symm (Option.some_ne_none _)

theorem append_right (h : Backed demanded scopes around) : Backed (demanded ++ before) scopes around where
  bindings name place hmem := (h.bindings name place hmem).append_right
  bound := h.bound
  implicit hqualifier := (h.implicit hqualifier).append_right

/-- Another target of the options binds no variable, and is promised where it has a variable. -/
theorem within (h : Backed demanded scopes around) {scope : Scope} (hscope : ∀ name, scope ≠ .lambda name)
    (hplace : Scopes.implicitQualifier (scope :: scopes) = some implicitVariable →
      Promises demanded place) :
    Backed demanded (scope :: scopes) (around.within place) where
  bindings := h.bindings
  bound := by
    intro name hname
    rw [Scopes.binds, List.contains_iff_mem] at hname
    refine h.bound name (List.contains_iff_mem.mpr ?_)
    exact (List.mem_cons.mp hname).resolve_left fun heq => hscope name heq.symm
  implicit := hplace

theorem bind (h : Backed demanded scopes around) (hplace : Promises demanded place) (binder : Text) :
    Backed demanded (.lambda binder :: scopes) (around.bind (some binder) place) where
  bindings := by
    intro name found hmem
    rcases List.mem_cons.mp hmem with heq | hmem
    · cases heq
      exact hplace
    · exact h.bindings name found hmem
  bound := by
    intro name hname
    rw [Scopes.binds, List.contains_iff_mem] at hname
    rcases List.mem_cons.mp hname with heq | hname
    · cases heq
      exact ⟨place, List.mem_cons_self⟩
    · obtain ⟨found, hmem⟩ := h.bound name (List.contains_iff_mem.mpr hname)
      exact ⟨found, List.mem_cons_of_mem _ hmem⟩
  implicit := h.implicit

variable {outer inner found : Stage}

/-- What is demanded before a stage backs the variables that are bound on the way to it. -/
theorem enters (h : Backed demanded outer.scopes outer.around)
    (hstep : Stage.Enters outer before inner after) :
    Backed (demanded ++ before) inner.scopes inner.around := by
  cases hstep with
  | left => exact h.append_right
  | right => exact h.append_right
  | operand => exact h.append_right
  | argument => exact h.append_right
  | filter => exact h.append_right
  | sortKey => exact h.append_right
  | subquery =>
      exact h.append_right.within (fun _ => Scope.noConfusion) fun _ => promises_collection demanded
  | body => exact h.append_right.bind (promises_collection demanded) _
  | expansion =>
      exact h.append_right.within (fun _ => Scope.noConfusion) fun hqualifier => by cases hqualifier

theorem reaches (h : Backed demanded outer.scopes outer.around)
    (hreaches : Stage.Reaches outer before found after) :
    Backed (demanded ++ before) found.scopes found.around := by
  induction hreaches generalizing demanded with
  | here => exact h.append_right
  | enter hstep _ ih =>
      rw [← List.append_assoc]
      exact ih (h.enters hstep)

/-- Where a variable is applied to directly, what it stands for is demanded already. -/
theorem promises (h : Backed demanded scopes around) (helement : route.IsElement scopes) :
    Promises demanded (around.place route) := by
  cases helement with
  | @lambda name hname hbound =>
      obtain ⟨place, hmem⟩ := h.bound name hbound
      have hsome : (around.bindings.find? fun binding => binding.1 = name).isSome = true :=
        List.find?_isSome.mpr ⟨_, hmem, decide_eq_true rfl⟩
      obtain ⟨⟨found, place⟩, hfound⟩ := Option.isSome_iff_exists.mp hsome
      have hplace : around.place ⟨some name, []⟩ = place := by
        simp only [Surroundings.place, Surroundings.root, Place.along, if_neg hname, hfound,
          Option.map_some, Option.getD_some]
      rw [hplace]
      exact h.bindings found place (List.mem_of_find?_eq_some hfound)
  | implicit hqualifier =>
      have hplace : around.place ⟨some implicitVariable, []⟩ = around.it := by
        simp only [Surroundings.place, Surroundings.root, Place.along, if_true]
      rw [hplace]
      exact h.implicit hqualifier

end Backed

/-- To demand the same place once more decides nothing. -/
theorem Obligation.verdict_of_promised {model : NavigationModel} (h : Promises before place)
    (shown : Text) : verdict model (before ++ .collection place shown :: after) =
      verdict model (before ++ after) := by
  rw [verdict_append, verdict_append]
  cases hbefore : (verdict model before).2 with
  | error e => rfl
  | ok _ =>
      obtain ⟨other, hmem⟩ := h
      have hmet : (Obligation.collection place shown).isMet model = true :=
        verdict_ok_iff.mp hbefore (.collection place other) hmem
      have hrepeated : verdict model (.collection place shown :: after) = verdict model after := by
        rw [verdict, if_pos hmet]
        rfl
      rw [hrepeated]

theorem Expression.obligations_of_collection? (around : Surroundings) {expression : Expression}
    (h : expression.collection? = some route) (hpath : route.path = []) : ∃ nested,
      expression.obligations around = .collection (around.place route) route.render :: nested := by
  have hcollection : around.collection route = [.collection (around.place route) route.render] := by
    rw [Surroundings.collection, Surroundings.path, hpath]
    rfl
  cases expression <;> cases h
  all_goals rw [Expression.obligations, hcollection]
  all_goals exact ⟨_, rfl⟩

end Backed

/-! ### Requests -/

/-- A path that a model can describe: it begins with an entity set and calls no operation. -/
def ResourcePath.IsDescribed (path : ResourcePath) : Prop :=
  (∃ name rest, path.segments = .entitySet name :: rest) ∧
    ∀ name, PathSegment.boundOperation name ∉ path.segments

namespace Check

variable {model : NavigationModel} {path : ResourcePath} {options : List ParsedOption}

/-- After a bound operation nothing is known, whatever would come after the path. -/
theorem target_bind_of_boundOperation {operation : Text} {segments : List PathSegment}
    (h : PathSegment.boundOperation operation ∈ segments) (reached : Option ElementType)
    (lastName : Text) (next : Option ElementType → Check Unit) (hnext : next none = pure ()) :
    (target model reached lastName segments >>= next) =
      target model reached lastName segments >>= fun _ => pure () := by
  induction segments generalizing reached lastName with
  | nil => cases h
  | cons segment rest ih =>
      have hrest : PathSegment.boundOperation operation ≠ segment →
          PathSegment.boundOperation operation ∈ rest :=
        fun hne => (List.mem_cons.mp h).resolve_left hne
      cases segment with
      | boundOperation name =>
          rw [target, pure_bind, pure_bind, hnext]
      | entitySet name =>
          rw [target, bind_assoc, bind_assoc]
          exact bind_congr fun type => ih (hrest PathSegment.noConfusion) _ _
      | navigation name =>
          rw [target, bind_assoc, bind_assoc]
          exact bind_congr fun type => ih (hrest PathSegment.noConfusion) _ _
      | count =>
          rw [target]
          split
          · rfl
          · exact ih (hrest PathSegment.noConfusion) _ _
      | _ => exact ih (hrest PathSegment.noConfusion) _ _

/-- A parsed path that a model cannot describe leads to no type to check the options for. -/
theorem request_of_not_isDescribed {raw : Text} {style : KeyStyle}
    (hpath : ResourcePath.parse raw style = .ok path) (h : ¬path.IsDescribed) :
    request model path options = request model path [] := by
  obtain ⟨segments⟩ := path
  have hchain : PathSegment.Chain none segments := ResourcePath.chain_of_parse hpath
  cases hchain with
  | nil => rfl
  | @cons _ segment rest hfollows hend _ =>
      cases segment with
      | entitySet name =>
          have hbound : ∃ operation, PathSegment.boundOperation operation ∈
              (PathSegment.entitySet name :: rest) := by
            by_contra hnone
            exact h ⟨⟨name, rest, rfl⟩, fun operation hmem => hnone ⟨operation, hmem⟩⟩
          obtain ⟨operation, hmem⟩ := hbound
          have hskips : ∀ options, request model ⟨.entitySet name :: rest⟩ options =
              target model none [] (.entitySet name :: rest) >>= fun _ => pure () :=
            fun options => target_bind_of_boundOperation hmem none [] _ rfl
          rw [hskips, hskips]
      | metadata =>
          rw [hend rfl]
          rfl
      | batch =>
          rw [hend rfl]
          rfl
      | navigation name => exact absurd rfl hfollows.1
      | boundOperation name => exact absurd rfl hfollows.1
      | key predicate => exact absurd hfollows.1 Bool.false_ne_true
      | count => exact absurd hfollows Bool.false_ne_true
      | ref => exact absurd hfollows Bool.false_ne_true
      | value => exact absurd hfollows Bool.false_ne_true

theorem follows_request (hdescribed : path.IsDescribed)
    (hparsed : ∀ option ∈ options, ∃ raw maxDepth,
      OptionValue.parse option.name raw maxDepth = .ok option.value) :
    Follows model (request model path options) (Check.obligations path options) fun _ => True := by
  obtain ⟨segments⟩ := path
  obtain ⟨⟨name, rest, hsegments⟩, hbound⟩ := hdescribed
  obtain rfl : segments = .entitySet name :: rest := hsegments
  have hrest : ∀ name, PathSegment.boundOperation name ∉ rest :=
    fun name hmem => hbound name (List.mem_cons_of_mem _ hmem)
  exact (follows_target_path hrest).bind_leadsTo fun _ hknown => follows_options hknown hparsed

/-- **A range variable passes as a collection.** Take any parsed path and options, and in them, at any
depth, an expression that counts, counts with options or ranges over a lambda variable itself, or the
implicit variable itself among the options of a counted collection. The collection that it demands is
demanded before it, for what the variable ranges over, so that for any model the request is decided
by the other obligations: it puts the same questions and ends in the same way as if the expression
did not apply to the variable. Where the model cannot describe the path, no option is looked at. -/
theorem request_passes_element {raw : Text} {style : KeyStyle}
    (hpath : ResourcePath.parse raw style = .ok path)
    (hparsed : ∀ option ∈ options, ∃ raw maxDepth,
      OptionValue.parse option.name raw maxDepth = .ok option.value)
    {before after : List Obligation} {scopes : Scopes} {around : Surroundings}
    {expression : Expression} {route : PropertyAccess}
    (hreaches : Stage.Reaches ⟨[], ⟨path.place, []⟩, .options options⟩ before
      ⟨scopes, around, .expression expression⟩ after)
    (hroute : expression.collection? = some route) (helement : route.IsElement scopes) :
    ∃ earlier nested, earlier = path.obligations ++ before ∧
      Check.obligations path options =
        earlier ++ .collection (around.place route) route.render :: nested ++ after ∧
      Promises earlier (around.place route) ∧
      (path.IsDescribed → ∀ model,
        (request model path options).outcome = verdict model (earlier ++ nested ++ after) ∧
          ((request model path options).outcome.2 = .ok () ↔
            ∀ obligation ∈ earlier ++ nested ++ after, obligation.isMet model = true)) ∧
      (¬path.IsDescribed → ∀ model,
        (request model path options).outcome = (request model path []).outcome) := by
  have hempty : route.path = [] := by cases helement <;> rfl
  obtain ⟨nested, hnested⟩ := Expression.obligations_of_collection? around hroute hempty
  have hstart : Backed path.obligations [] ⟨path.place, []⟩ :=
    .start path.place
  have hpromised : Promises (path.obligations ++ before) (around.place route) :=
    (hstart.reaches hreaches).promises helement
  have hsplit : Check.obligations path options = path.obligations ++ before ++
      .collection (around.place route) route.render :: nested ++ after := by
    have hoptions : ParsedOption.obligationsAll ⟨path.place, []⟩ options =
        before ++ expression.obligations around ++ after := hreaches.obligations_eq
    simp only [Check.obligations, hoptions, hnested, List.append_assoc]
  refine ⟨_, nested, rfl, hsplit, hpromised, fun hdescribed model => ?_, fun hnot model => ?_⟩
  · have houtcome : (request model path options).outcome =
        verdict model (path.obligations ++ before ++ nested ++ after) := by
      rw [(follows_request hdescribed hparsed).outcome_eq, hsplit, List.append_assoc _ (_ :: _),
        List.cons_append, verdict_of_promised hpromised, List.append_assoc _ nested]
    exact ⟨houtcome, by rw [houtcome, verdict_ok_iff]⟩
  · rw [request_of_not_isDescribed hpath hnot]

/-- Each friend is counted as if it were the friends, and the request passes. -/
theorem request_passes_element_counted :
    let model := modelOf [("People".toList, none, ⟨"NS.Person".toList, true⟩),
      ("Friends".toList, some "NS.Person".toList, ⟨"NS.Person".toList, true⟩)]
    let path : ResourcePath := ⟨[.entitySet "People".toList]⟩
    let value : OptionValue := .filter (.lambda .any ⟨none, ["Friends".toList]⟩ (some "x".toList)
      (some (.binary .gt (.count ⟨some "x".toList, []⟩) (.literal (.integer 0)))))
    ResourcePath.parse "People".toList .parentheses = .ok path ∧
      OptionValue.parse .filter "Friends/any(x:x/$count gt 0)".toList 4 = .ok value ∧
      (request model path [.mk .filter value]).outcome.2 = .ok () := by
  intro model path value
  have hpath : ResourcePath.parse "People".toList .parentheses = .ok path := by decide +kernel
  have hparse : OptionValue.parse .filter "Friends/any(x:x/$count gt 0)".toList 4 = .ok value := by
    decide +kernel
  refine ⟨hpath, hparse, ?_⟩
  have hparsed : ∀ option ∈ [ParsedOption.mk .filter value], ∃ raw maxDepth,
      OptionValue.parse option.name raw maxDepth = .ok option.value :=
    List.forall_mem_singleton.mpr ⟨_, _, hparse⟩
  have hreaches : Stage.Reaches ⟨[], ⟨path.place, []⟩, .options [.mk .filter value]⟩ _
      ⟨[.lambda "x".toList], _, .expression (.count ⟨some "x".toList, []⟩)⟩ _ :=
    .enter (@Stage.Enters.filter _ _ [] [] _ _) (.enter .body (.enter .left .here))
  have helement : PropertyAccess.IsElement [.lambda "x".toList] ⟨some "x".toList, []⟩ :=
    .lambda (by decide) (by decide)
  obtain ⟨earlier, nested, -, hsplit, -, hdescribed, -⟩ :=
    request_passes_element hpath hparsed hreaches rfl helement
  have hmet : ∀ obligation ∈ Check.obligations path [.mk .filter value],
      obligation.isMet model = true := by
    decide +kernel
  have hothers : ∀ obligation ∈ earlier ++ nested ++ [], obligation.isMet model = true := by
    intro obligation hmem
    refine hmet obligation ?_
    rw [hsplit]
    rw [List.append_assoc] at hmem ⊢
    exact (List.mem_append.mp hmem).elim (List.mem_append_left _) fun hmem =>
      List.mem_append_right _ (List.mem_cons_of_mem _ hmem)
  exact ((hdescribed ⟨⟨_, _, rfl⟩, by simp [path]⟩ model).2).mpr hothers

end Check

end ODataRequest
