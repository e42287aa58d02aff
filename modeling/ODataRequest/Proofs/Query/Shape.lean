import ODataRequest.Proofs.Query.Soundness
import ODataRequest.Query.Equality

/-! The shape of accepted option values. The types of the trees leave room for options under another
option's name, for empty lists, lambdas without a binder, paths that lead nowhere and names that the
protocol reserves. Main statement: no value that is accepted has any of these, at any depth. -/

namespace ODataRequest

open Text Unicode

/-- A name that belongs to neither the protocol nor an alias. -/
def IsPlainName (name : Text) : Prop :=
  name.head? ≠ some '$' ∧ name.head? ≠ some '@'

namespace PropertyAccess

/-- A path with at least one member. -/
def IsPath (route : PropertyAccess) : Prop :=
  route.path ≠ [] ∧ ∀ name ∈ route.path, IsPlainName name

/-- A path to a collection, which a range variable alone may be. -/
def IsCollection (route : PropertyAccess) : Prop :=
  (route.qualifier ≠ none ∨ route.path ≠ []) ∧ ∀ name ∈ route.path, IsPlainName name

end PropertyAccess

/-- A text that is not empty and has no white space at either end. -/
def IsOpaque (text : Text) : Prop :=
  text ≠ [] ∧ (∀ c ∈ text.head?, isWhiteSpace c = false) ∧ ∀ c ∈ text.getLast?, isWhiteSpace c = false

def SelectItem.WellShaped : SelectItem → Prop
  | .all => True
  | .path route => route.IsPath
  | .count route => route.IsPath

def ExpandTarget.WellShaped (target : ExpandTarget) : Prop :=
  ∀ route ∈ target.path?, route.IsPath

/-- The option that a value is for. -/
def OptionValue.option : OptionValue → SystemOption
  | .filter _ => .filter
  | .orderBy _ => .orderBy
  | .select _ => .select
  | .expand _ => .expand
  | .top _ => .top
  | .skip _ => .skip
  | .count _ => .count
  | .search _ => .search
  | .apply _ => .apply
  | .format _ => .format
  | .levels _ => .levels

/-- Options of which none is repeated. -/
def ParsedOption.Distinct (options : List ParsedOption) : Prop :=
  (options.map ParsedOption.name).Nodup

mutual

/-- An expression of paths that lead somewhere, lambdas with a binder and a body, and option lists that
select elements of a collection. -/
def Expression.WellShaped : Expression → Prop
  | .literal _ => True
  | .access route => route.IsPath
  | .rangeVariable _ => True
  | .binary _ left right => left.WellShaped ∧ right.WellShaped
  | .unary _ operand => operand.WellShaped
  | .count collection => collection.IsCollection
  | .subquery collection options =>
    collection.IsCollection ∧ options ≠ [] ∧
      (∀ option ∈ options, option.name = .filter ∨ option.name = .search) ∧
      ParsedOption.Distinct options ∧ ParsedOption.WellShapedAll options
  | .lambda kind collection binder body =>
    collection.IsCollection ∧ Expression.WellShapedLambda kind binder body
  | .call name arguments => IsPlainName name ∧ Expression.WellShapedAll arguments

/-- A binder with a body, or neither of them where the question is only whether there is an element. -/
def Expression.WellShapedLambda (kind : LambdaKind) : Option Text → Option Expression → Prop
  | some binder, some body => isIdentifier binder = true ∧ body.WellShaped
  | none, none => kind = .any
  | _, _ => False

def Expression.WellShapedAll : List Expression → Prop
  | [] => True
  | expression :: rest => expression.WellShaped ∧ Expression.WellShapedAll rest

/-- The value of an option, of lists that are not empty and texts that are not blank. -/
def OptionValue.WellShaped : OptionValue → Prop
  | .filter condition => condition.WellShaped
  | .orderBy items => items ≠ [] ∧ OrderByItem.WellShapedAll items
  | .select items => items ≠ [] ∧ ∀ item ∈ items, item.WellShaped
  | .expand items => items ≠ [] ∧ ExpandItem.WellShapedAll items
  | .top _ => True
  | .skip _ => True
  | .count _ => True
  | .search text => IsOpaque text
  | .apply text => IsOpaque text
  | .format text => IsOpaque text
  | .levels _ => True

def ParsedOption.WellShaped : ParsedOption → Prop
  | .mk name value => value.option = name ∧ value.WellShaped

def ParsedOption.WellShapedAll : List ParsedOption → Prop
  | [] => True
  | option :: rest => option.WellShaped ∧ ParsedOption.WellShapedAll rest

def OrderByItem.WellShaped : OrderByItem → Prop
  | .mk expression _ => expression.WellShaped

def OrderByItem.WellShapedAll : List OrderByItem → Prop
  | [] => True
  | item :: rest => item.WellShaped ∧ OrderByItem.WellShapedAll rest

/-- An expansion of a path, with options of which none is repeated. -/
def ExpandItem.WellShaped : ExpandItem → Prop
  | .mk target options =>
    target.WellShaped ∧ ParsedOption.Distinct options ∧ ParsedOption.WellShapedAll options

def ExpandItem.WellShapedAll : List ExpandItem → Prop
  | [] => True
  | item :: rest => item.WellShaped ∧ ExpandItem.WellShapedAll rest

end

/-! ### Lists -/

theorem Expression.wellShapedAll_iff {expressions : List Expression} :
    Expression.WellShapedAll expressions ↔ ∀ expression ∈ expressions, expression.WellShaped := by
  induction expressions with
  | nil => simp [Expression.WellShapedAll]
  | cons expression rest ih => simp [Expression.WellShapedAll, ih]

theorem ParsedOption.wellShaped_iff {option : ParsedOption} :
    option.WellShaped ↔ option.value.option = option.name ∧ option.value.WellShaped := by
  cases option
  rfl

theorem ParsedOption.wellShapedAll_iff {options : List ParsedOption} :
    ParsedOption.WellShapedAll options ↔ ∀ option ∈ options, option.WellShaped := by
  induction options with
  | nil => simp [ParsedOption.WellShapedAll]
  | cons option rest ih => simp [ParsedOption.WellShapedAll, ih]

theorem OrderByItem.wellShaped_iff {item : OrderByItem} :
    item.WellShaped ↔ item.expression.WellShaped := by
  cases item
  rfl

theorem OrderByItem.wellShapedAll_iff {items : List OrderByItem} :
    OrderByItem.WellShapedAll items ↔ ∀ item ∈ items, item.WellShaped := by
  induction items with
  | nil => simp [OrderByItem.WellShapedAll]
  | cons item rest ih => simp [OrderByItem.WellShapedAll, ih]

theorem ExpandItem.wellShapedAll_iff {items : List ExpandItem} :
    ExpandItem.WellShapedAll items ↔ ∀ item ∈ items, item.WellShaped := by
  induction items with
  | nil => simp [ExpandItem.WellShapedAll]
  | cons item rest ih => simp [ExpandItem.WellShapedAll, ih]

/-! ### The shape of trees that fit -/

theorem isPlainName_of_isMember {name : Text} (h : isMember name = true) : IsPlainName name := by
  rw [isMember, Bool.and_eq_true, Bool.and_eq_true, bne_iff_ne, bne_iff_ne] at h
  exact ⟨h.2, h.1.2⟩

theorem isPlainName_of_members {path : List Text} (h : path.all isMember = true) :
    ∀ name ∈ path, IsPlainName name := fun _ hmem =>
  isPlainName_of_isMember (List.all_eq_true.mp h _ hmem)

namespace PropertyAccess

variable {scopes : Scopes} {route : PropertyAccess}

theorem Scoped.isPlainName (h : route.Scoped scopes) : ∀ name ∈ route.path, IsPlainName name := by
  obtain ⟨qualifier, path⟩ := route
  obtain ⟨hbegins, -⟩ := h
  cases hbegins with
  | ranged _ hpath => exact isPlainName_of_members hpath
  | member hhead _ _ hpath =>
      exact List.forall_mem_cons.mpr ⟨isPlainName_of_isMember hhead, isPlainName_of_members hpath⟩

theorem Scoped.isCollection (h : route.Scoped scopes) : route.IsCollection := by
  refine ⟨?_, h.isPlainName⟩
  obtain ⟨qualifier, path⟩ := route
  obtain ⟨hbegins, -⟩ := h
  cases hbegins with
  | ranged _ _ => exact Or.inl (Option.some_ne_none _)
  | member _ _ _ _ => exact Or.inr (List.cons_ne_nil _ _)

theorem IsMemberPath.isPath (h : route.IsMemberPath) : route.IsPath :=
  ⟨h.nonempty, isPlainName_of_members h.members⟩

end PropertyAccess

theorem SelectItem.WellFormed.wellShaped {item : SelectItem} (h : item.WellFormed) :
    item.WellShaped := by
  cases item with
  | all => exact trivial
  | path route => exact PropertyAccess.IsMemberPath.isPath h
  | count route => exact PropertyAccess.IsMemberPath.isPath h

theorem ExpandTarget.WellFormed.wellShaped {target : ExpandTarget} (h : target.WellFormed) :
    target.WellShaped := by
  intro route hmem
  cases target with
  | all => cases hmem
  | allRefs => cases hmem
  | path route' | count route' | ref route' =>
      cases hmem
      exact PropertyAccess.IsMemberPath.isPath h

theorem IsVerbatim.isOpaque {scopes : Scopes} {text : Text} (h : IsVerbatim scopes text) :
    IsOpaque text := by
  obtain ⟨hnonempty, htrimmed, -⟩ := h
  have hhead := head?_trim text
  have hlast := getLast?_trimEnd (trimStart text)
  rw [htrimmed] at hhead
  rw [← trim, htrimmed] at hlast
  refine ⟨hnonempty, fun c hc => ?_, fun c hc => ?_⟩
  · rwa [hc, Option.any_some] at hhead
  · rwa [hc, Option.any_some] at hlast

theorem OptionValue.IsPlain.wellShaped {scopes : Scopes} {option : SystemOption} {value : OptionValue}
    (h : value.IsPlain scopes option) : value.option = option ∧ value.WellShaped := by
  cases h with
  | search h | apply h | format h => exact ⟨rfl, h.isOpaque⟩
  | _ => exact ⟨rfl, trivial⟩

theorem OptionListKind.eq_filter_or_search {option : SystemOption}
    (h : OptionListKind.count.allows option = true) : option = .filter ∨ option = .search := by
  cases option with
  | filter => exact Or.inl rfl
  | search => exact Or.inr rfl
  | _ => cases h

mutual

theorem Expression.Fits.wellShaped : ∀ {scopes : Scopes} {levels : Nat} {expression : Expression},
    expression.Fits scopes levels → expression.WellShaped
  | _, _, _, .literal _ => trivial
  | _, _, _, .access hroute hpath => ⟨hpath, hroute.isPlainName⟩
  | _, _, _, .rangeVariable _ => trivial
  | _, _, _, .binary hleft hright => ⟨hleft.wellShaped, hright.wellShaped⟩
  | _, _, _, .unary h => h.wellShaped
  | _, _, _, .count hroute => hroute.isCollection
  | _, _, _, .subquery hroute hoptions => by
    obtain ⟨hdistinct, hoptions, hnonempty, hallowed⟩ := hoptions.wellShaped
    exact ⟨hroute.isCollection, hnonempty,
      fun option hmem => OptionListKind.eq_filter_or_search (hallowed option hmem), hdistinct, hoptions⟩
  | _, _, _, .nonempty hroute => ⟨hroute.isCollection, rfl⟩
  | _, _, _, .lambda hroute hidentifier _ hbody =>
    ⟨hroute.isCollection, hidentifier, hbody.wellShaped⟩
  | _, _, _, .call hfunction _ harguments =>
    ⟨isPlainName_of_isMember hfunction,
      Expression.wellShapedAll_iff.mpr fun argument hmem => (harguments argument hmem).wellShaped⟩

theorem Expression.FitsAt.wellShaped : ∀ {demanded : Nat} {scopes : Scopes} {levels : Nat}
    {operand : Expression}, operand.FitsAt demanded scopes levels → operand.WellShaped
  | _, _, _, _, .bare _ h => h.wellShaped
  | _, _, _, _, .group _ h => h.wellShaped

theorem OptionValue.Fits.wellShaped : ∀ {scopes : Scopes} {levels : Nat} {option : SystemOption}
    {value : OptionValue}, value.Fits scopes levels option → value.option = option ∧ value.WellShaped
  | _, _, _, _, .filter h => ⟨rfl, h.wellShaped⟩
  | _, _, _, _, .orderBy hnonempty h =>
    ⟨rfl, hnonempty, OrderByItem.wellShapedAll_iff.mpr fun item hmem =>
      OrderByItem.wellShaped_iff.mpr (h item hmem).wellShaped⟩
  | _, _, _, _, .select hnonempty h => ⟨rfl, hnonempty, fun item hmem => (h item hmem).wellShaped⟩
  | _, _, _, _, .expand hnonempty h =>
    ⟨rfl, hnonempty, ExpandItem.wellShapedAll_iff.mpr fun item hmem => (h item hmem).wellShaped⟩
  | _, _, _, _, .plain h => h.wellShaped

theorem ParsedOption.AllFit.wellShaped : ∀ {kind : OptionListKind} {scopes : Scopes} {levels : Nat}
    {options : List ParsedOption}, ParsedOption.AllFit kind scopes levels options →
      ParsedOption.Distinct options ∧ ParsedOption.WellShapedAll options ∧ options ≠ [] ∧
        ∀ option ∈ options, kind.allows option.name = true
  | _, _, _, _, .mk hnonempty hdistinct hallowed h =>
    ⟨hdistinct, ParsedOption.wellShapedAll_iff.mpr fun option hmem =>
      ParsedOption.wellShaped_iff.mpr (h option hmem).wellShaped, hnonempty, hallowed⟩

theorem ExpandItem.Fits.wellShaped : ∀ {scopes : Scopes} {levels : Nat} {item : ExpandItem},
    item.Fits scopes levels → item.WellShaped
  | _, _, _, .bare htarget => ⟨htarget.wellShaped, List.nodup_nil, trivial⟩
  | _, _, _, .options htarget hoptions =>
    ⟨htarget.wellShaped, hoptions.wellShaped.1, hoptions.wellShaped.2.1⟩

end

/-- **Accepted values are well shaped.** A value that is accepted for an option is a value of that
option, and the same holds of every option in it. No list of options repeats one, those of a counted
collection are a filter or a search, no other list is empty, a lambda has a binder and a body or only
asks for any element, paths lead somewhere, members and functions have names of their own, and texts
that are kept as they are have no blank ends. -/
theorem OptionValue.wellShaped_of_parse {option : SystemOption} {raw : Text} {maxDepth : Nat}
    {value : OptionValue} (h : OptionValue.parse option raw maxDepth = .ok value) :
    value.option = option ∧ value.WellShaped :=
  (OptionValue.fits_of_parse h).wellShaped

/-- An expansion with a text, a lambda without a binder and the options of a counted collection. -/
theorem OptionValue.wellShaped_of_parse_expand :
    let value : OptionValue := .expand [.mk (.path ⟨none, ["a".toList]⟩) [
        .mk .search (.search "x".toList),
        .mk .filter (.filter (.binary .or (.lambda .any ⟨none, ["b".toList]⟩ none none)
          (.binary .gt (.subquery ⟨none, ["c".toList]⟩
            [.mk .filter (.filter (.access ⟨some implicitVariable, ["d".toList]⟩))])
            (.literal (.integer 2)))))],
      .mk .all []]
    OptionValue.parse .expand
      "a($search= x;$filter=b/any() or c/$count($filter=d) gt 2),*".toList 4 = .ok value ∧
        value.option = .expand ∧ value.WellShaped := by
  intro value
  have hparse : OptionValue.parse .expand
      "a($search= x;$filter=b/any() or c/$count($filter=d) gt 2),*".toList 4 = .ok value := by
    decide +kernel
  exact ⟨hparse, OptionValue.wellShaped_of_parse hparse⟩

end ODataRequest
