import ODataRequest.Proofs.Query.DepthLimit
import ODataRequest.Proofs.Query.RoundTrip

/-! How deep a tree nests. The height counts one level for every unary operator, call, lambda with a
body and list of options, and one for every operand in parentheses. A tree fits its scopes with the
levels of its height, and with no fewer. Main statement: the depth limit is exact. It changes nothing
but what nests too deep, accepted trees are not higher than their limit, and canonical text is
accepted at exactly the limits that are not below its height. -/

namespace ODataRequest

open Text Grammar

/-- The height of an operand, with the level of its parentheses if it binds looser than its place
demands. -/
def groupHeight (demanded actual height : Nat) : Nat :=
  if actual < demanded then height + 1 else height

mutual

/-- The number of levels that an expression nests. -/
def Expression.height : Expression → Nat
  | .literal _ => 0
  | .access _ => 0
  | .rangeVariable _ => 0
  | .binary op left right =>
    max (groupHeight op.precedence left.precedence left.height)
      (groupHeight (op.precedence + 1) right.precedence right.height)
  | .unary _ operand => groupHeight unaryPrecedence operand.precedence operand.height + 1
  | .count _ => 0
  | .subquery _ options => ParsedOption.heightAll options + 1
  | .lambda _ _ _ body => Expression.heightBody body
  | .call _ arguments => Expression.heightAll arguments + 1

/-- The number of levels that a lambda nests for its body. -/
def Expression.heightBody : Option Expression → Nat
  | none => 0
  | some body => body.height + 1

/-- The height of the highest expression. -/
def Expression.heightAll : List Expression → Nat
  | [] => 0
  | expression :: rest => max expression.height (Expression.heightAll rest)

/-- The number of levels that the value of an option nests. -/
def OptionValue.height : OptionValue → Nat
  | .filter condition => condition.height
  | .orderBy items => OrderByItem.heightAll items
  | .expand items => ExpandItem.heightAll items
  | .select _ => 0
  | .top _ => 0
  | .skip _ => 0
  | .count _ => 0
  | .search _ => 0
  | .apply _ => 0
  | .format _ => 0
  | .levels _ => 0

def ParsedOption.height : ParsedOption → Nat
  | .mk _ value => value.height

def ParsedOption.heightAll : List ParsedOption → Nat
  | [] => 0
  | option :: rest => max option.height (ParsedOption.heightAll rest)

def OrderByItem.height : OrderByItem → Nat
  | .mk expression _ => expression.height

def OrderByItem.heightAll : List OrderByItem → Nat
  | [] => 0
  | item :: rest => max item.height (OrderByItem.heightAll rest)

/-- The number of levels that an expansion nests for its options, none without options. -/
def ExpandItem.height : ExpandItem → Nat
  | .mk _ options => if options.isEmpty then 0 else ParsedOption.heightAll options + 1

def ExpandItem.heightAll : List ExpandItem → Nat
  | [] => 0
  | item :: rest => max item.height (ExpandItem.heightAll rest)

end

/-! ### Heights of lists -/

section Lists

variable {levels : Nat}

theorem Expression.heightAll_le_iff {expressions : List Expression} :
    Expression.heightAll expressions ≤ levels ↔
      ∀ expression ∈ expressions, expression.height ≤ levels := by
  induction expressions with
  | nil => simp [Expression.heightAll]
  | cons expression rest ih => rw [Expression.heightAll, Nat.max_le, ih, List.forall_mem_cons]

theorem ParsedOption.height_eq_value (option : ParsedOption) : option.height = option.value.height := by
  cases option
  rfl

theorem ParsedOption.heightAll_le_iff {options : List ParsedOption} :
    ParsedOption.heightAll options ≤ levels ↔ ∀ option ∈ options, option.value.height ≤ levels := by
  induction options with
  | nil => simp [ParsedOption.heightAll]
  | cons option rest ih =>
      rw [ParsedOption.heightAll, ParsedOption.height_eq_value, Nat.max_le, ih, List.forall_mem_cons]

theorem OrderByItem.height_eq_expression (item : OrderByItem) :
    item.height = item.expression.height := by
  cases item
  rfl

theorem OrderByItem.heightAll_le_iff {items : List OrderByItem} :
    OrderByItem.heightAll items ≤ levels ↔ ∀ item ∈ items, item.expression.height ≤ levels := by
  induction items with
  | nil => simp [OrderByItem.heightAll]
  | cons item rest ih =>
      rw [OrderByItem.heightAll, OrderByItem.height_eq_expression, Nat.max_le, ih,
        List.forall_mem_cons]

theorem ExpandItem.heightAll_le_iff {items : List ExpandItem} :
    ExpandItem.heightAll items ≤ levels ↔ ∀ item ∈ items, item.height ≤ levels := by
  induction items with
  | nil => simp [ExpandItem.heightAll]
  | cons item rest ih => rw [ExpandItem.heightAll, Nat.max_le, ih, List.forall_mem_cons]

end Lists

theorem groupHeight_of_le {demanded actual height : Nat} (h : demanded ≤ actual) :
    groupHeight demanded actual height = height :=
  if_neg (Nat.not_lt.mpr h)

theorem groupHeight_of_lt {demanded actual height : Nat} (h : actual < demanded) :
    groupHeight demanded actual height = height + 1 :=
  if_pos h

theorem OptionValue.IsPlain.height_eq_zero {scopes : Scopes} {option : SystemOption}
    {value : OptionValue} (h : value.IsPlain scopes option) : value.height = 0 := by
  cases h <;> rfl

/-! ### The levels that a tree needs -/

mutual

/-- Levels that suffice are not below the height. -/
theorem Expression.Fits.height_le : ∀ {scopes : Scopes} {levels : Nat} {expression : Expression},
    expression.Fits scopes levels → expression.height ≤ levels
  | _, _, _, .literal _ => Nat.zero_le _
  | _, _, _, .access _ _ => Nat.zero_le _
  | _, _, _, .rangeVariable _ => Nat.zero_le _
  | _, _, _, .binary hleft hright => Nat.max_le.mpr ⟨hleft.height_le, hright.height_le⟩
  | _, _, _, .unary h => Nat.succ_le_succ h.height_le
  | _, _, _, .count _ => Nat.zero_le _
  | _, _, _, .subquery _ hoptions => Nat.succ_le_succ hoptions.height_le
  | _, _, _, .nonempty _ => Nat.zero_le _
  | _, _, _, .lambda _ _ _ hbody => Nat.succ_le_succ hbody.height_le
  | _, _, _, .call _ _ harguments =>
    Nat.succ_le_succ (Expression.heightAll_le_iff.mpr fun argument hmem =>
      (harguments argument hmem).height_le)

theorem Expression.FitsAt.height_le : ∀ {demanded : Nat} {scopes : Scopes} {levels : Nat}
    {operand : Expression}, operand.FitsAt demanded scopes levels →
      groupHeight demanded operand.precedence operand.height ≤ levels
  | _, _, _, _, .bare hprecedence h => by
    rw [groupHeight_of_le hprecedence]
    exact h.height_le
  | _, _, _, _, .group hprecedence h => by
    rw [groupHeight_of_lt hprecedence]
    exact Nat.succ_le_succ h.height_le

theorem OptionValue.Fits.height_le : ∀ {scopes : Scopes} {levels : Nat} {option : SystemOption}
    {value : OptionValue}, value.Fits scopes levels option → value.height ≤ levels
  | _, _, _, _, .filter h => h.height_le
  | _, _, _, _, .orderBy _ h =>
    OrderByItem.heightAll_le_iff.mpr fun item hmem => (h item hmem).height_le
  | _, _, _, _, .select _ _ => Nat.zero_le _
  | _, _, _, _, .expand _ h =>
    ExpandItem.heightAll_le_iff.mpr fun item hmem => (h item hmem).height_le
  | _, _, _, _, .plain h => h.height_eq_zero ▸ Nat.zero_le _

theorem ParsedOption.AllFit.height_le : ∀ {kind : OptionListKind} {scopes : Scopes} {levels : Nat}
    {options : List ParsedOption}, ParsedOption.AllFit kind scopes levels options →
      ParsedOption.heightAll options ≤ levels
  | _, _, _, _, .mk _ _ _ h =>
    ParsedOption.heightAll_le_iff.mpr fun option hmem => (h option hmem).height_le

theorem ExpandItem.Fits.height_le : ∀ {scopes : Scopes} {levels : Nat} {item : ExpandItem},
    item.Fits scopes levels → item.height ≤ levels
  | _, _, _, .bare _ => Nat.zero_le _
  | _, _, _, .options _ hoptions => by
    rw [ExpandItem.height, hoptions.isEmpty_eq_false, if_neg Bool.false_ne_true]
    exact Nat.succ_le_succ hoptions.height_le

end

mutual

/-- A tree that fits with some levels fits with the levels of its height. -/
theorem Expression.Fits.of_height_le : ∀ {scopes : Scopes} {levels levels' : Nat}
    {expression : Expression}, expression.Fits scopes levels → expression.height ≤ levels' →
      expression.Fits scopes levels'
  | _, _, _, _, .literal h, _ => .literal h
  | _, _, _, _, .access hroute hpath, _ => .access hroute hpath
  | _, _, _, _, .rangeVariable h, _ => .rangeVariable h
  | _, _, _, _, .binary hleft hright, hle =>
    .binary (hleft.of_height_le (Nat.max_le.mp hle).1) (hright.of_height_le (Nat.max_le.mp hle).2)
  | _, _, _ + 1, _, .unary h, hle => .unary (h.of_height_le (Nat.le_of_succ_le_succ hle))
  | _, _, _, _, .count hroute, _ => .count hroute
  | _, _, _ + 1, _, .subquery hroute hoptions, hle =>
    .subquery hroute (hoptions.of_height_le (Nat.le_of_succ_le_succ hle))
  | _, _, _, _, .nonempty hroute, _ => .nonempty hroute
  | _, _, _ + 1, _, .lambda hroute hidentifier hname hbody, hle =>
    .lambda hroute hidentifier hname (hbody.of_height_le (Nat.le_of_succ_le_succ hle))
  | _, _, _ + 1, _, .call hfunction hnot harguments, hle =>
    .call hfunction hnot fun argument hmem => (harguments argument hmem).of_height_le
      (Expression.heightAll_le_iff.mp (Nat.le_of_succ_le_succ hle) argument hmem)

theorem Expression.FitsAt.of_height_le : ∀ {demanded : Nat} {scopes : Scopes} {levels levels' : Nat}
    {operand : Expression}, operand.FitsAt demanded scopes levels →
      groupHeight demanded operand.precedence operand.height ≤ levels' →
        operand.FitsAt demanded scopes levels'
  | _, _, _, _, _, .bare hprecedence h, hle => by
    rw [groupHeight_of_le hprecedence] at hle
    exact .bare hprecedence (h.of_height_le hle)
  | _, _, _, 0, _, .group hprecedence _, hle => by
    rw [groupHeight_of_lt hprecedence] at hle
    exact absurd hle (Nat.not_succ_le_zero _)
  | _, _, _, _ + 1, _, .group hprecedence h, hle => by
    rw [groupHeight_of_lt hprecedence] at hle
    exact .group hprecedence (h.of_height_le (Nat.le_of_succ_le_succ hle))

theorem OptionValue.Fits.of_height_le : ∀ {scopes : Scopes} {levels levels' : Nat}
    {option : SystemOption} {value : OptionValue}, value.Fits scopes levels option →
      value.height ≤ levels' → value.Fits scopes levels' option
  | _, _, _, _, _, .filter h, hle => .filter (h.of_height_le hle)
  | _, _, _, _, _, .orderBy hnonempty h, hle =>
    .orderBy hnonempty fun item hmem =>
      (h item hmem).of_height_le (OrderByItem.heightAll_le_iff.mp hle item hmem)
  | _, _, _, _, _, .select hnonempty h, _ => .select hnonempty h
  | _, _, _, _, _, .expand hnonempty h, hle =>
    .expand hnonempty fun item hmem =>
      (h item hmem).of_height_le (ExpandItem.heightAll_le_iff.mp hle item hmem)
  | _, _, _, _, _, .plain h, _ => .plain h

theorem ParsedOption.AllFit.of_height_le : ∀ {kind : OptionListKind} {scopes : Scopes}
    {levels levels' : Nat} {options : List ParsedOption},
    ParsedOption.AllFit kind scopes levels options → ParsedOption.heightAll options ≤ levels' →
      ParsedOption.AllFit kind scopes levels' options
  | _, _, _, _, _, .mk hnonempty hdistinct hallowed h, hle =>
    .mk hnonempty hdistinct hallowed fun option hmem =>
      (h option hmem).of_height_le (ParsedOption.heightAll_le_iff.mp hle option hmem)

theorem ExpandItem.Fits.of_height_le : ∀ {scopes : Scopes} {levels levels' : Nat} {item : ExpandItem},
    item.Fits scopes levels → item.height ≤ levels' → item.Fits scopes levels'
  | _, _, _, _, .bare htarget, _ => .bare htarget
  | _, _, 0, _, .options _ hoptions, hle => by
    rw [ExpandItem.height, hoptions.isEmpty_eq_false, if_neg Bool.false_ne_true] at hle
    exact absurd hle (Nat.not_succ_le_zero _)
  | _, _, _ + 1, _, .options htarget hoptions, hle => by
    rw [ExpandItem.height, hoptions.isEmpty_eq_false, if_neg Bool.false_ne_true] at hle
    exact .options htarget (hoptions.of_height_le (Nat.le_of_succ_le_succ hle))

end

/-! ### The limits that accept a text -/

/-- The canonical text of an accepted value is accepted at the limits that are not below its height. -/
theorem OptionValue.accepts_render_iff {option : SystemOption} {raw : Text} {maxDepth : Nat}
    {value : OptionValue} (h : OptionValue.parse option raw maxDepth = .ok value)
    (hnegated : value.negatedLiterals = []) (limit : Nat) :
    (∃ found, OptionValue.parse option value.render limit = .ok found) ↔ value.height ≤ limit := by
  constructor
  · rintro ⟨found, hfound⟩
    have hsame : found = value :=
      OptionValue.parse_agrees hfound (OptionValue.parse_render h hnegated)
    subst hsame
    exact (OptionValue.fits_of_parse hfound).height_le
  · intro hle
    have hfits := (OptionValue.fits_of_parse h).of_height_le hle
    exact ⟨value, (OptionValue.parse_render_iff hfits).mpr
      (OptionValue.reread_of_negatedLiterals_eq_nil hnegated)⟩

theorem Expression.accepts_render_iff {raw : Text} {maxDepth : Nat} {expression : Expression}
    (h : Expression.parse raw maxDepth = .ok expression) (hnegated : expression.negatedLiterals = [])
    (limit : Nat) :
    (∃ found, Expression.parse expression.render limit = .ok found) ↔ expression.height ≤ limit := by
  have hfilter : OptionValue.parse .filter raw maxDepth = .ok (.filter expression) := by
    rw [OptionValue.parse_filter, h]
    rfl
  have haccepts := OptionValue.accepts_render_iff hfilter hnegated limit
  rw [OptionValue.render, OptionValue.parse_filter, OptionValue.height] at haccepts
  rw [← haccepts]
  cases Expression.parse expression.render limit with
  | error e => simp [Except.map]
  | ok found => simp [Except.map]

/-- **The depth limit is exact and only gates.** A lower limit rejects a text for its depth or gives
the same value or error. An accepted tree is not higher than its limit. Its canonical text, if no sign
in it stands before a literal, is accepted at exactly the limits that are not below its height. -/
theorem OptionValue.parse_limit_exact :
    (∀ (option : SystemOption) (raw : Text) (limit limit' : Nat), limit ≤ limit' →
      OptionValue.parse option raw limit = .error (.tooComplex limit) ∨
        OptionValue.parse option raw limit = OptionValue.parse option raw limit') ∧
    (∀ (option : SystemOption) (raw : Text) (maxDepth : Nat) (value : OptionValue),
      OptionValue.parse option raw maxDepth = .ok value →
        value.height ≤ maxDepth ∧ (value.negatedLiterals = [] → ∀ limit,
          (∃ found, OptionValue.parse option value.render limit = .ok found) ↔
            value.height ≤ limit)) ∧
    ∀ (raw : Text) (maxDepth : Nat) (expression : Expression),
      Expression.parse raw maxDepth = .ok expression →
        expression.height ≤ maxDepth ∧ (expression.negatedLiterals = [] → ∀ limit,
          (∃ found, Expression.parse expression.render limit = .ok found) ↔
            expression.height ≤ limit) := by
  refine ⟨?_, ?_, ?_⟩
  · intro option raw limit limit' hle
    exact OptionValue.parse_of_le hle option raw
  · intro option raw maxDepth value h
    exact ⟨(OptionValue.fits_of_parse h).height_le, OptionValue.accepts_render_iff h⟩
  · intro raw maxDepth expression h
    exact ⟨(Expression.fits_of_parse h).height_le, Expression.accepts_render_iff h⟩

/-- A negation, its parentheses and a call in them are three levels, whatever the limit that the
expression was read with. -/
theorem OptionValue.parse_limit_exact_group :
    (2 ≤ 3 ∧ (OptionValue.parse .filter "not (a or f(b))".toList 2 = .error (.tooComplex 2) ∨
      OptionValue.parse .filter "not (a or f(b))".toList 2 =
        OptionValue.parse .filter "not (a or f(b))".toList 3)) ∧
    (∃ value, OptionValue.parse .filter "not((a)or f( b ))".toList 5 = .ok value ∧
      value.height ≤ 5 ∧ value.negatedLiterals = [] ∧
      (¬∃ found, OptionValue.parse .filter "not (a or f(b))".toList 2 = .ok found) ∧
      ∃ found, OptionValue.parse .filter "not (a or f(b))".toList 3 = .ok found) ∧
    ∃ expression, Expression.parse "not((a)or f( b ))".toList 5 = .ok expression ∧
      expression.height ≤ 5 ∧ expression.negatedLiterals = [] ∧
      (¬∃ found, Expression.parse "not (a or f(b))".toList 2 = .ok found) ∧
      ∃ found, Expression.parse "not (a or f(b))".toList 3 = .ok found := by
  obtain ⟨hgates, hvalues, hexpressions⟩ := OptionValue.parse_limit_exact
  have hparse : Expression.parse "not((a)or f( b ))".toList 5 =
      .ok (.unary .not (.binary .or (.access ⟨none, ["a".toList]⟩)
        (.call "f".toList [.access ⟨none, ["b".toList]⟩]))) := by
    decide +kernel
  have hfilter : OptionValue.parse .filter "not((a)or f( b ))".toList 5 =
      .ok (.filter (.unary .not (.binary .or (.access ⟨none, ["a".toList]⟩)
        (.call "f".toList [.access ⟨none, ["b".toList]⟩])))) := by
    rw [OptionValue.parse_filter, hparse]
    rfl
  have hrender : (Expression.unary .not (.binary .or (.access ⟨none, ["a".toList]⟩)
      (.call "f".toList [.access ⟨none, ["b".toList]⟩]))).render = "not (a or f(b))".toList := by
    decide +kernel
  obtain ⟨hlow, haccepts⟩ := hexpressions _ _ _ hparse
  obtain ⟨hlow', haccepts'⟩ := hvalues _ _ _ _ hfilter
  rw [hrender] at haccepts
  rw [OptionValue.render, hrender] at haccepts'
  refine ⟨⟨by decide, hgates .filter "not (a or f(b))".toList 2 3 (by decide)⟩,
    ⟨_, hfilter, hlow', rfl, ?_, ?_⟩, ⟨_, hparse, hlow, rfl, ?_, ?_⟩⟩
  · exact fun hfound => absurd ((haccepts' rfl 2).mp hfound) (by decide)
  · exact (haccepts' rfl 3).mpr (by decide)
  · exact fun hfound => absurd ((haccepts rfl 2).mp hfound) (by decide)
  · exact (haccepts rfl 3).mpr (by decide)

end ODataRequest
