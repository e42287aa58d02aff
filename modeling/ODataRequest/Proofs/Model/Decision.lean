import Mathlib.Data.List.Forall2
import ODataRequest.Proofs.Model.Obligations
import ODataRequest.Proofs.Query.References
import ODataRequest.Proofs.Query.Soundness
import ODataRequest.Query.Equality

/-! The check against a model decides the obligations of a request. A check follows obligations if it
puts the questions of their verdict and fails with its error, or goes on with what they promise.
Checks that follow obligations compose, and the scopes that option values are parsed in bind every
range variable that a path starts from, so that no check is left out for want of a type. Main
statement: what a request passes, what it asks on the way, and which error it ends with. -/

namespace ODataRequest

open Obligation

namespace Check

variable {α β : Type} {model : NavigationModel} {obligations others : List Obligation}
  {check : Check α} {next : α → Check β} {Expected : α → Prop} {Expected' : β → Prop}

/-- A check that puts the questions of the verdict on some obligations and has its outcome, with an
expected value where they are met. -/
def Follows (model : NavigationModel) (check : Check α) (obligations : List Obligation)
    (Expected : α → Prop) : Prop :=
  ∀ asked, ∃ result, check.run.run asked = (result, asked ++ (verdict model obligations).1) ∧
    match (verdict model obligations).2 with
    | .ok () => ∃ value, result = .ok value ∧ Expected value
    | .error e => result = .error e

namespace Follows

theorem pure {value : α} (h : Expected value) :
    Follows model (Pure.pure value : Check α) [] Expected :=
  fun asked => ⟨.ok value, by rw [verdict, List.append_nil]; rfl, value, rfl, h⟩

theorem run_bind (asked : List Lookup) : (check >>= next).run.run asked =
    match (check.run.run asked : Except SemanticError α × List Lookup) with
    | (.ok value, asked) => (next value).run.run asked
    | (.error e, asked) => (.error e, asked) := by
  rw [ExceptT.run_bind, StateT.run_bind]
  cases check.run.run asked with
  | mk result asked =>
      cases result with
      | ok value => rfl
      | error e => rfl

theorem bind (hcheck : Follows model check obligations Expected)
    (hnext : ∀ value, Expected value → Follows model (next value) others Expected') :
    Follows model (check >>= next) (obligations ++ others) Expected' := by
  intro asked
  obtain ⟨result, hrun, hresult⟩ := hcheck asked
  rw [run_bind, hrun, verdict_append]
  cases hverdict : (verdict model obligations).2 with
  | error e =>
      rw [hverdict] at hresult
      rw [hresult]
      exact ⟨.error e, rfl, rfl⟩
  | ok _ =>
      rw [hverdict] at hresult
      obtain ⟨value, rfl, hvalue⟩ := hresult
      obtain ⟨final, hfinal, hexpected⟩ := hnext value hvalue (asked ++ (verdict model obligations).1)
      refine ⟨final, ?_, hexpected⟩
      show (next value).run.run (asked ++ (verdict model obligations).1) = _
      rw [hfinal, List.append_assoc]

/-- A check that ends after the obligations of the one before it. -/
theorem bind_pure (hcheck : Follows model check obligations Expected) {finish : α → β}
    (hfinish : ∀ value, Expected value → Expected' (finish value)) :
    Follows model (check >>= fun value => Pure.pure (finish value)) obligations Expected' := by
  have hfinal : ∀ value, Expected value → Follows model (Pure.pure (finish value)) [] Expected' :=
    fun value hvalue => Follows.pure (hfinish value hvalue)
  have hbind := hcheck.bind hfinal
  rwa [List.append_nil] at hbind

/-- The items of a list are checked one after the other. -/
theorem list {ι : Type} {item : ι → Check Unit} {all : List ι → Check Unit}
    {demands : ι → List Obligation} {allDemands : List ι → List Obligation}
    (hnil : all [] = Pure.pure ())
    (hcons : ∀ first rest, all (first :: rest) = item first >>= fun _ => all rest)
    (hdemandsNil : allDemands [] = [])
    (hdemandsCons : ∀ first rest, allDemands (first :: rest) = demands first ++ allDemands rest)
    {items : List ι} (h : ∀ found ∈ items, Follows model (item found) (demands found) fun _ => True) :
    Follows model (all items) (allDemands items) fun _ => True := by
  induction items with
  | nil =>
      rw [hnil, hdemandsNil]
      exact Follows.pure trivial
  | cons first rest ih =>
      obtain ⟨hfirst, hrest⟩ := List.forall_mem_cons.mp h
      rw [hcons, hdemandsCons]
      exact hfirst.bind fun _ _ => ih hrest

/-- A check that follows obligations puts the questions of their verdict and has its outcome. -/
theorem outcome_eq {check : Check Unit} (h : Follows model check obligations fun _ => True) :
    check.outcome = verdict model obligations := by
  obtain ⟨result, hrun, hresult⟩ := h []
  rw [List.nil_append] at hrun
  have houtcome : check.outcome = ((verdict model obligations).1, result) := by
    rw [outcome, hrun]
  rw [houtcome]
  cases hverdict : verdict model obligations with
  | mk asked decision =>
      rw [hverdict] at hresult
      cases decision with
      | ok _ =>
          obtain ⟨value, rfl, -⟩ := hresult
          rfl
      | error e => rw [hresult]

end Follows

/-! ### Names and paths -/

variable {place : Place} {type : ElementType} {context : Option ElementType} {name : Text}

/-- A place that a model knows as a type. -/
def Known (model : NavigationModel) (place : Place) (type : ElementType) : Prop :=
  place.context? model = some (some type)

theorem follows_lookup (h : place.context? model = some context) :
    Follows model (lookup model context name) [.known place name]
      (Known model (.member place name)) := by
  intro asked
  have hmember : (Place.member place name).context? model = (model context name).map some := by
    rw [Place.context?, h]
    rfl
  have hasked : (Obligation.known place name).lookups model = [⟨context, name, model context name⟩] := by
    rw [lookups, h]
    rfl
  rw [verdict, isMet, hmember, hasked]
  cases hanswer : model context name with
  | some type =>
      refine ⟨.ok type, ?_, type, rfl, ?_⟩
      · rw [lookup, hanswer]
        rfl
      · rw [Known, hmember, hanswer]
        rfl
  | none =>
      refine ⟨.error (.unknownProperty name (context.map ElementType.name)), ?_, ?_⟩
      · rw [lookup, hanswer]
        rfl
      · rw [Obligation.error, h]
        rfl

/-- What is single is an error where a collection is needed. -/
theorem follows_collection (h : Known model place type) (shown : Text)
    (hcheck : Follows model check obligations Expected) :
    Follows model
      (if (some type).any fun type => !type.isCollection then throw (.notACollection shown) else check)
      (.collection place shown :: obligations) Expected := by
  have hmet : (Obligation.collection place shown).isMet model = type.isCollection := by
    rw [isMet, h]
    rfl
  intro asked
  rw [verdict, hmet, Option.any_some]
  cases type.isCollection with
  | true => exact hcheck asked
  | false =>
      refine ⟨.error (.notACollection shown), ?_, rfl⟩
      rw [if_neg Bool.false_ne_true, lookups, List.append_nil]
      rfl

theorem follows_walk (h : Known model place type) (names : List Text) :
    Follows model (walk model type names) (place.obligations names)
      (Known model (place.along names)) := by
  induction names generalizing place type with
  | nil => exact Follows.pure h
  | cons name rest ih =>
      rw [walk, Place.obligations, Place.along]
      split
      · exact ih h
      · exact (follows_lookup h).bind fun next hnext => ih hnext

/-- What a path leads to, as the check has it. -/
def LeadsTo (model : NavigationModel) (place : Place) (resolved : Option ElementType) : Prop :=
  ∃ type, resolved = some type ∧ Known model place type

/-- What comes after a path is checked for the type that the path leads to. -/
theorem Follows.bind_leadsTo {check : Check (Option ElementType)} {next : Option ElementType → Check β}
    (hcheck : Follows model check obligations (LeadsTo model place))
    (hnext : ∀ type, Known model place type → Follows model (next (some type)) others Expected') :
    Follows model (check >>= next) (obligations ++ others) Expected' := by
  refine hcheck.bind fun resolved hresolved => ?_
  obtain ⟨type, rfl, hknown⟩ := hresolved
  exact hnext type hknown

/-! ### Resource paths -/

/-- The check of the segments after an entity set follows what they demand. -/
theorem follows_targetFrom {segments : List PathSegment} (h : Known model place type) (lastName : Text)
    (hbound : ∀ name, PathSegment.boundOperation name ∉ segments) :
    Follows model (target model (some type) lastName segments)
      (ResourcePath.obligationsFrom place lastName segments)
      (LeadsTo model (ResourcePath.placeFrom place segments)) := by
  induction segments generalizing place type lastName with
  | nil => exact Follows.pure ⟨type, rfl, h⟩
  | cons segment rest ih =>
      have hrest : ∀ name, PathSegment.boundOperation name ∉ rest :=
        fun name hmem => hbound name (List.mem_cons_of_mem _ hmem)
      have hname : ∀ name, Follows model
          (lookup model (some type) name >>= fun next => target model (some next) name rest)
          (.known place name :: ResourcePath.obligationsFrom (.member place name) name rest)
          (LeadsTo model (ResourcePath.placeFrom (.member place name) rest)) :=
        fun name => (follows_lookup h).bind fun next hnext => ih hnext name hrest
      cases segment with
      | entitySet name => exact hname name
      | navigation name => exact hname name
      | key predicate =>
          have hsingle : Known model (.element place) type.single := by
            rw [Known, Place.context?, h]
            rfl
          exact ih hsingle lastName hrest
      | count => exact follows_collection h lastName (ih h lastName hrest)
      | boundOperation name => exact absurd List.mem_cons_self (hbound name)
      | ref => exact ih h lastName hrest
      | value => exact ih h lastName hrest
      | metadata => exact ih h lastName hrest
      | batch => exact ih h lastName hrest

/-- A path that begins with an entity set leads to a type. -/
theorem follows_target_path {name : Text} {rest : List PathSegment}
    (hbound : ∀ name, PathSegment.boundOperation name ∉ rest) :
    Follows model (target model none [] (.entitySet name :: rest))
      (ResourcePath.obligations ⟨.entitySet name :: rest⟩)
      (LeadsTo model (ResourcePath.place ⟨.entitySet name :: rest⟩)) := by
  have hservice : Place.service.context? model = some none := rfl
  exact (follows_lookup hservice).bind fun _ hnext => follows_targetFrom hnext name hbound

/-! ### Paths of options -/

/-- Surroundings as the check has them: the target is known, each range variable stands for the type
that it has there, and every range variable of the scopes is among them. -/
structure Tracks (model : NavigationModel) (scopes : Scopes) (around : Surroundings) (it : ElementType)
    (binders : Binders) : Prop where
  target : Known model around.it it
  bindings : List.Forall₂ (fun binding binder => binding.1 = binder.1 ∧ Known model binding.2 binder.2)
    around.bindings binders
  bound : ∀ name, scopes.binds name = true → ∃ place, (name, place) ∈ around.bindings

/-- A path that starts from no range variable, from the implicit one, or from one of the scopes. -/
def Rooted (scopes : Scopes) (route : PropertyAccess) : Prop :=
  ∀ name, route.qualifier = some name → name = implicitVariable ∨ scopes.binds name = true

variable {scopes : Scopes} {around : Surroundings} {it : ElementType} {binders : Binders}
  {route : PropertyAccess}

theorem rooted_of_scoped (h : route.Scoped scopes) : Rooted scopes route :=
  h.resolves.known

theorem rooted_of_isMemberPath (h : route.IsMemberPath) : Rooted scopes route := by
  intro name hname
  rw [h.bare] at hname
  cases hname

/-- A range variable is found at its innermost binding on both sides. -/
theorem find?_of_forall₂ {bindings : List (Text × Place)} {place : Place}
    (h : List.Forall₂ (fun binding binder => binding.1 = binder.1 ∧ Known model binding.2 binder.2)
      bindings binders) (hmem : (name, place) ∈ bindings) :
    ∃ found type, (bindings.find? fun binding => binding.1 = name).map Prod.snd = some found ∧
      binders.find? name = some type ∧ Known model found type := by
  induction h with
  | nil => cases hmem
  | cons hfirst _ ih =>
      rename_i binding binder bindings binders _
      by_cases hname : binding.1 = name
      · have hname' : binder.1 = name := hfirst.1 ▸ hname
        refine ⟨binding.2, binder.2, ?_, ?_, hfirst.2⟩
        · rw [List.find?_cons, decide_eq_true hname]
          rfl
        · rw [Binders.find?, List.find?_cons, decide_eq_true hname']
          rfl
      · have hname' : ¬binder.1 = name := hfirst.1 ▸ hname
        have hrest : (name, place) ∈ bindings := by
          rcases List.mem_cons.mp hmem with heq | hrest
          · exact absurd (congrArg Prod.fst heq).symm hname
          · exact hrest
        obtain ⟨found, type, hfound, htype, hknown⟩ := ih hrest
        refine ⟨found, type, ?_, ?_, hknown⟩
        · rw [List.find?_cons, decide_eq_false hname]
          exact hfound
        · rw [Binders.find?, List.find?_cons, decide_eq_false hname']
          exact htype

namespace Tracks

/-- Every path starts from a known place, which is where the check starts it. -/
theorem origin (h : Tracks model scopes around it binders) (hroute : Rooted scopes route) :
    ∃ type, Check.origin it binders route = some type ∧ Known model (around.root route) type := by
  rw [Check.origin, Surroundings.root]
  cases hqualifier : route.qualifier with
  | none => exact ⟨it, rfl, h.target⟩
  | some name =>
      dsimp only
      by_cases himplicit : name = implicitVariable
      · rw [if_pos himplicit, if_pos himplicit]
        exact ⟨it, rfl, h.target⟩
      · rw [if_neg himplicit, if_neg himplicit]
        obtain ⟨place, hmem⟩ := h.bound name ((hroute name hqualifier).resolve_left himplicit)
        obtain ⟨found, type, hfound, htype, hknown⟩ := find?_of_forall₂ h.bindings hmem
        rw [hfound, htype]
        exact ⟨type, rfl, hknown⟩

theorem follows_resolve (h : Tracks model scopes around it binders) (hroute : Rooted scopes route) :
    Follows model (resolve model it binders route) (around.path route)
      (LeadsTo model (around.place route)) := by
  obtain ⟨type, horigin, hknown⟩ := h.origin hroute
  rw [resolve, horigin]
  dsimp only
  rw [map_eq_pure_bind]
  exact (follows_walk hknown route.path).bind_pure fun reached hreached => ⟨reached, rfl, hreached⟩

theorem follows_resolveCollection (h : Tracks model scopes around it binders)
    (hroute : Rooted scopes route) :
    Follows model (resolveCollection model it binders route) (around.collection route)
      (LeadsTo model (around.place route)) :=
  (h.follows_resolve hroute).bind_leadsTo fun type hknown =>
    follows_collection hknown route.render (Follows.pure ⟨type, rfl, hknown⟩)

/-- Within a list of options, paths start from its target. -/
theorem within (h : Tracks model scopes around it binders) {place : Place} {type : ElementType}
    (hknown : Known model place type) {scope : Scope} (hscope : ∀ name, scope ≠ .lambda name) :
    Tracks model (scope :: scopes) (around.within place) type binders where
  target := hknown
  bindings := h.bindings
  bound := by
    intro name hname
    refine h.bound name ?_
    rw [Scopes.binds, List.contains_iff_mem] at hname ⊢
    exact (List.mem_cons.mp hname).resolve_left fun heq => hscope name heq.symm

/-- In the body of a lambda, its range variable is bound as well. -/
theorem bind (h : Tracks model scopes around it binders) {place : Place} {type : ElementType}
    (hknown : Known model place type) (name : Text) :
    Tracks model (.lambda name :: scopes) (around.bind (some name) place) it ((name, type) :: binders) where
  target := h.target
  bindings := .cons ⟨rfl, hknown⟩ h.bindings
  bound := by
    intro found hfound
    rw [Scopes.binds, List.contains_iff_mem] at hfound
    rcases List.mem_cons.mp hfound with heq | hfound
    · cases heq
      exact ⟨place, List.mem_cons_self⟩
    · obtain ⟨other, hother⟩ := h.bound found (List.contains_iff_mem.mpr hfound)
      exact ⟨other, List.mem_cons_of_mem _ hother⟩

end Tracks

/-! ### Trees -/

theorem follows_selectItem (h : Tracks model scopes around it binders) {item : SelectItem}
    (hitem : item.WellFormed) :
    Follows model (selectItem model it binders item) (item.obligations around) fun _ => True := by
  cases item with
  | all => exact Follows.pure trivial
  | path route => exact Follows.pure trivial
  | count route =>
      exact (h.follows_resolveCollection (rooted_of_isMemberPath hitem)).bind_pure fun _ _ => trivial

theorem follows_plain {value : OptionValue} {option : SystemOption} (h : value.IsPlain scopes option) :
    Follows model (optionValue model it binders value) (value.obligations around) fun _ => True := by
  cases h with
  | _ => exact Follows.pure trivial

/-- An expansion is checked before its options, and nothing is if it expands everything. -/
theorem follows_target (h : Tracks model scopes around it binders) {target : ExpandTarget}
    (htarget : target.WellFormed) {options : List ParsedOption}
    (hoptions : ∀ place type, Known model place type →
      Follows model (optionList model type binders options)
        (ParsedOption.obligationsAll (around.within place) options) fun _ => True) :
    Follows model (expandItem model it binders (.mk target options))
      ((ExpandItem.mk target options).obligations around) fun _ => True := by
  cases target with
  | all => exact Follows.pure trivial
  | allRefs => exact Follows.pure trivial
  | path route =>
      exact (h.follows_resolve (rooted_of_isMemberPath htarget)).bind_leadsTo (hoptions _)
  | count route =>
      exact (h.follows_resolveCollection (rooted_of_isMemberPath htarget)).bind_leadsTo (hoptions _)
  | ref route =>
      exact (h.follows_resolve (rooted_of_isMemberPath htarget)).bind_leadsTo (hoptions _)

mutual

/-- The check of an expression that fits its scopes follows what the expression demands. -/
theorem follows_expression : ∀ {scopes : Scopes} {levels : Nat} {found : Expression},
    found.Fits scopes levels → ∀ {around : Surroundings} {it : ElementType} {binders : Binders},
      Tracks model scopes around it binders →
        Follows model (expression model it binders found) (found.obligations around) fun _ => True
  | _, _, _, .literal _, _, _, _, _ => by
      rw [expression, Expression.obligations]
      exact Follows.pure trivial
  | _, _, _, .access _ _, _, _, _, _ => by
      rw [expression, Expression.obligations]
      exact Follows.pure trivial
  | _, _, _, .rangeVariable _, _, _, _, _ => by
      rw [expression, Expression.obligations]
      exact Follows.pure trivial
  | _, _, _, .binary hleft hright, _, _, _, h => by
      rw [expression, Expression.obligations]
      exact (follows_operand hleft h).bind fun _ _ => follows_operand hright h
  | _, _, _, .unary hoperand, _, _, _, h => by
      rw [expression, Expression.obligations]
      exact follows_operand hoperand h
  | _, _, _, .count hroute, _, _, _, h => by
      rw [expression, Expression.obligations]
      exact (h.follows_resolveCollection (rooted_of_scoped hroute)).bind_pure fun _ _ => trivial
  | _, _, _, .subquery hroute hoptions, _, _, _, h => by
      rw [expression, Expression.obligations]
      exact (h.follows_resolveCollection (rooted_of_scoped hroute)).bind_leadsTo fun _ hknown =>
        follows_optionList hoptions (h.within hknown fun _ => Scope.noConfusion)
  | _, _, _, .nonempty hroute, _, _, _, h => by
      rw [expression, Expression.obligations, Expression.obligationsBody]
      refine (h.follows_resolveCollection (rooted_of_scoped hroute)).bind fun _ _ => ?_
      rw [lambdaBody]
      exact Follows.pure trivial
  | _, _, _, .lambda hroute _ _ hbody, _, _, _, h => by
      rw [expression, Expression.obligations, Expression.obligationsBody]
      refine (h.follows_resolveCollection (rooted_of_scoped hroute)).bind_leadsTo fun _ hknown => ?_
      rw [lambdaBody]
      exact follows_expression hbody (h.bind hknown _)
  | _, _, _, .call _ _ harguments, around, it, binders, h => by
      rw [expression, Expression.obligations]
      refine Follows.list rfl (fun _ _ => rfl) rfl (fun _ _ => rfl) fun argument hmem => ?_
      exact follows_expression (harguments argument hmem) h

theorem follows_operand : ∀ {demanded : Nat} {scopes : Scopes} {levels : Nat} {operand : Expression},
    operand.FitsAt demanded scopes levels →
      ∀ {around : Surroundings} {it : ElementType} {binders : Binders},
        Tracks model scopes around it binders →
          Follows model (expression model it binders operand) (operand.obligations around) fun _ => True
  | _, _, _, _, .bare _ hoperand, _, _, _, h => follows_expression hoperand h
  | _, _, _, _, .group _ hoperand, _, _, _, h => follows_expression hoperand h

/-- The check of an option value that fits its scopes follows what the value demands. -/
theorem follows_optionValue : ∀ {scopes : Scopes} {levels : Nat} {option : SystemOption}
    {value : OptionValue}, value.Fits scopes levels option →
      ∀ {around : Surroundings} {it : ElementType} {binders : Binders},
        Tracks model scopes around it binders →
          Follows model (optionValue model it binders value) (value.obligations around) fun _ => True
  | _, _, _, _, .filter hcondition, _, _, _, h => by
      rw [optionValue, OptionValue.obligations]
      exact follows_expression hcondition h
  | _, _, _, _, .orderBy _ hitems, _, _, _, h => by
      rw [optionValue, OptionValue.obligations]
      refine Follows.list rfl (fun _ _ => rfl) rfl (fun _ _ => rfl) fun item hmem => ?_
      obtain ⟨key, direction⟩ := item
      exact follows_expression (hitems _ hmem) h
  | _, _, _, _, .select _ hitems, _, _, _, h => by
      rw [optionValue, OptionValue.obligations]
      exact Follows.list rfl (fun _ _ => rfl) rfl (fun _ _ => List.flatMap_cons) fun item hmem =>
        follows_selectItem h (hitems item hmem)
  | _, _, _, _, .expand _ hitems, _, _, _, h => by
      rw [optionValue, OptionValue.obligations]
      exact Follows.list rfl (fun _ _ => rfl) rfl (fun _ _ => rfl) fun item hmem =>
        follows_expandItem (hitems item hmem) h
  | _, _, _, _, .plain hplain, _, _, _, _ => follows_plain hplain

/-- The check of options that fit their scopes follows what the options demand. -/
theorem follows_optionList : ∀ {kind : OptionListKind} {scopes : Scopes} {levels : Nat}
    {options : List ParsedOption}, ParsedOption.AllFit kind scopes levels options →
      ∀ {around : Surroundings} {it : ElementType} {binders : Binders},
        Tracks model scopes around it binders →
          Follows model (optionList model it binders options)
            (ParsedOption.obligationsAll around options) fun _ => True
  | _, _, _, _, .mk _ _ _ hvalues, _, _, _, h => by
      refine Follows.list rfl (fun _ _ => rfl) rfl (fun _ _ => rfl) fun option hmem => ?_
      obtain ⟨name, value⟩ := option
      exact follows_optionValue (hvalues _ hmem) h

/-- The check of an expansion that fits its scopes follows what the expansion demands. -/
theorem follows_expandItem : ∀ {scopes : Scopes} {levels : Nat} {item : ExpandItem},
    item.Fits scopes levels → ∀ {around : Surroundings} {it : ElementType} {binders : Binders},
      Tracks model scopes around it binders →
        Follows model (expandItem model it binders item) (item.obligations around) fun _ => True
  | _, _, _, .bare htarget, _, _, _, h => follows_target h htarget fun _ _ _ => Follows.pure trivial
  | _, _, _, .options htarget hoptions, _, _, _, h =>
    follows_target h htarget fun _ _ hknown =>
      follows_optionList hoptions (h.within hknown fun _ => Scope.noConfusion)

end

/-! ### Requests -/

/-- Options that are all parsed follow what they demand, from what the path addresses on. -/
theorem follows_options {options : List ParsedOption} (h : Known model place type)
    (hparsed : ∀ option ∈ options, ∃ raw maxDepth,
      OptionValue.parse option.name raw maxDepth = .ok option.value) :
    Follows model (optionList model type [] options) (ParsedOption.obligationsAll ⟨place, []⟩ options)
      fun _ => True := by
  have htracks : Tracks model [] ⟨place, []⟩ type [] :=
    ⟨h, .nil, fun _ hname => absurd hname Bool.false_ne_true⟩
  refine Follows.list rfl (fun _ _ => rfl) rfl (fun _ _ => rfl) fun option hmem => ?_
  obtain ⟨raw, maxDepth, hvalue⟩ := hparsed option hmem
  obtain ⟨name, value⟩ := option
  exact follows_optionValue (OptionValue.fits_of_parse hvalue) htracks

/-- **What the check decides.** For any model, a path that begins with an entity set and has no bound
operation, and any parsed options, let the obligations be those of the path and then of the options,
each collection before what is nested in it. The request passes exactly if the model meets them all,
and then each name among them was looked up once, in their order, and nothing else. Otherwise the
look-ups end with the first obligation that is not met, and the error is that of this obligation. -/
theorem request_decides (model : NavigationModel) {path : ResourcePath} {options : List ParsedOption}
    {name : Text} {rest : List PathSegment} (hpath : path.segments = .entitySet name :: rest)
    (hbound : ∀ name, PathSegment.boundOperation name ∉ path.segments)
    (hparsed : ∀ option ∈ options, ∃ raw maxDepth,
      OptionValue.parse option.name raw maxDepth = .ok option.value) :
    ((request model path options).outcome.2 = .ok () ↔
      ∀ obligation ∈ Check.obligations path options, obligation.isMet model = true) ∧
    ((request model path options).outcome.2 = .ok () →
      (request model path options).outcome.1 =
        (Check.obligations path options).flatMap (lookups model)) ∧
    ∀ before obligation after, Check.obligations path options = before ++ obligation :: after →
      (∀ earlier ∈ before, earlier.isMet model = true) → obligation.isMet model = false →
        (request model path options).outcome =
          ((before ++ [obligation]).flatMap (lookups model), .error (obligation.error model)) := by
  obtain ⟨segments⟩ := path
  obtain rfl : segments = .entitySet name :: rest := hpath
  have hrest : ∀ name, PathSegment.boundOperation name ∉ rest :=
    fun name hmem => hbound name (List.mem_cons_of_mem _ hmem)
  have hfollows : Follows model (request model ⟨.entitySet name :: rest⟩ options)
      (Check.obligations ⟨.entitySet name :: rest⟩ options) fun _ => True :=
    (follows_target_path hrest).bind_leadsTo fun _ hknown => follows_options hknown hparsed
  rw [hfollows.outcome_eq]
  refine ⟨verdict_ok_iff, ?_, ?_⟩
  · intro hok
    rw [verdict_of_met (verdict_ok_iff.mp hok)]
  · intro before obligation after hsplit hbefore hunmet
    rw [hsplit, verdict_of_unmet hbefore hunmet]

/-- The model of a table, with what each name leads to in the service or in a type of a name. -/
def modelOf (entries : List (Text × Option Text × ElementType)) : NavigationModel := fun context name =>
  (entries.find? fun entry => entry.1 = name && entry.2.1 = context.map ElementType.name).map
    fun entry => entry.2.2

/-- A range variable that hides another one of its name: people have friends, and cars have none. -/
theorem request_decides_shadowed :
    let model := modelOf [("People".toList, none, ⟨"NS.Person".toList, true⟩),
      ("Friends".toList, some "NS.Person".toList, ⟨"NS.Person".toList, true⟩),
      ("Cars".toList, some "NS.Person".toList, ⟨"NS.Car".toList, true⟩)]
    let path : ResourcePath := ⟨[.entitySet "People".toList, .key (.single (.integer 1))]⟩
    let value : OptionValue := .filter (.lambda .any ⟨none, ["Friends".toList]⟩ (some "x".toList)
      (some (.lambda .all ⟨some "x".toList, ["Cars".toList]⟩ (some "x".toList)
        (some (.binary .gt (.count ⟨some "x".toList, ["Friends".toList]⟩) (.literal (.integer 0)))))))
    OptionValue.parse .filter "Friends/any(x:x/Cars/all(x:x/Friends/$count gt 0))".toList 4 = .ok value ∧
      (request model path [.mk .filter value]).outcome =
        ([⟨none, "People".toList, some ⟨"NS.Person".toList, true⟩⟩,
          ⟨some ⟨"NS.Person".toList, false⟩, "Friends".toList, some ⟨"NS.Person".toList, true⟩⟩,
          ⟨some ⟨"NS.Person".toList, true⟩, "Cars".toList, some ⟨"NS.Car".toList, true⟩⟩,
          ⟨some ⟨"NS.Car".toList, true⟩, "Friends".toList, none⟩],
          .error (.unknownProperty "Friends".toList (some "NS.Car".toList))) := by
  intro model path value
  have hparse : OptionValue.parse .filter
      "Friends/any(x:x/Cars/all(x:x/Friends/$count gt 0))".toList 4 = .ok value := by
    decide +kernel
  refine ⟨hparse, ?_⟩
  have hdecides := @request_decides model path [.mk .filter value] _ _ rfl (by simp [path])
    fun option hmem => by
      rw [List.mem_singleton] at hmem
      subst hmem
      exact ⟨_, _, hparse⟩
  exact hdecides.2.2 [_, _, _, _, _] _ _ rfl (by decide +kernel) rfl

/-- Where everything is expanded the options are not checked: no name leads to cars anywhere, and yet
they are counted. -/
theorem request_skips_expandAll :
    let model := modelOf [("People".toList, none, ⟨"NS.Person".toList, true⟩),
      ("Friends".toList, some "NS.Person".toList, ⟨"NS.Person".toList, true⟩)]
    let value : OptionValue := .expand [.mk .all [.mk .filter (.filter
      (.binary .gt (.count ⟨none, ["Cars".toList]⟩) (.literal (.integer 0))))]]
    OptionValue.parse .expand "*($filter=Cars/$count gt 0)".toList 4 = .ok value ∧
      (∀ context, model context "Cars".toList = none) ∧
      (request model ⟨[.entitySet "People".toList]⟩ [.mk .expand value]).outcome =
        ([⟨none, "People".toList, some ⟨"NS.Person".toList, true⟩⟩], .ok ()) := by
  intro model value
  refine ⟨by decide +kernel, fun context => rfl, rfl⟩

end Check

end ODataRequest
