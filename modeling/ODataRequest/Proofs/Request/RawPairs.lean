import ODataRequest.Proofs.Request.Queries
import ODataRequest.Proofs.Request.Splitting

/-! A query as the raw pairs that it was joined from. A raw pair is a name with or without a value.
Where a value ends depends on the decoded name before it, so that a pair is well-formed if its value
is closed against the separator of pairs in the way its own name asks for. Main statement: from
joined well-formed pairs a request gets exactly the nonempty ones, in order and decoded, or it is
rejected for what one pair says by itself or for a system option that two of them name. -/

namespace ODataRequest

open Text Nesting

/-! ### Names and queries that a request can have -/

namespace QueryOptionName

/-- The system option of a name. -/
def system? : QueryOptionName → Option SystemOption
  | .system option => some option
  | .custom _ => none

/-- A name whose value is written in the expression grammar. -/
def isExpression (name : QueryOptionName) : Bool :=
  name.system?.any SystemOption.isExpression

/-- A name that a pair at the top level of a request can have. -/
def Proper : QueryOptionName → Prop
  | .system option => option ≠ .levels
  | .custom name => name ≠ [] ∧ name.head? ≠ some '$'

variable {name : QueryOptionName} {text : Text}

theorem system?_eq_some_iff {option : SystemOption} :
    name.system? = some option ↔ name = .system option := by
  cases name <;> simp [system?]

theorem proper_of_parse (h : parse text = .ok name) : name.Proper := by
  rw [parse] at h
  split at h
  · cases h
  rename_i hempty
  split at h
  · rename_i hdollar
    cases h
    refine ⟨fun hnil => hempty ?_, hdollar⟩
    rw [hnil]
    rfl
  split at h
  · cases h
  · rename_i hlevels _
    cases h
    exact hlevels
  · cases h

theorem parse_of_proper (h : name.Proper) : parse name.render = .ok name := by
  cases name with
  | system option => exact RawRequest.parse_system h
  | custom name =>
      obtain ⟨hname, hdollar⟩ := h
      rw [render, parse, if_neg (by rwa [List.isEmpty_iff]), if_pos hdollar]

/-- A text is read as the proper name that is written so. -/
theorem parse_eq_ok_iff : parse text = .ok name ↔ text = name.render ∧ name.Proper := by
  constructor
  · exact fun h => ⟨(render_of_parse h).symm, proper_of_parse h⟩
  · rintro ⟨rfl, h⟩
    exact parse_of_proper h

end QueryOptionName

namespace RawRequest

/-- A query that a request can have. -/
structure Admissible (query : List QueryPair) : Prop where
  proper : ∀ pair ∈ query, pair.name.Proper
  distinct : (query.filterMap (·.name.system?)).Nodup

variable {seen : List QueryOptionName} {query : List QueryPair}

theorem checkDistinct_eq_ok_iff {name : QueryOptionName} :
    checkDistinct seen name = .ok () ↔ ∀ option, name.system? = some option → name ∉ seen := by
  cases name <;> simp [checkDistinct, QueryOptionName.system?]

theorem checkDistinct_eq_error {name : QueryOptionName} {e : MalformedOption}
    (h : checkDistinct seen name = .error e) :
    ∃ option, name = .system option ∧ e = repeated option ∧ .system option ∈ seen := by
  cases name with
  | custom name => cases h
  | system option =>
      rw [checkDistinct] at h
      split at h
      · rename_i hmem
        cases h
        exact ⟨option, rfl, rfl, hmem⟩
      · cases h

theorem admissible_nil : Admissible [] :=
  ⟨fun _ hmem => absurd hmem List.not_mem_nil, List.nodup_nil⟩

theorem admissible_cons_iff {pair : QueryPair} :
    Admissible (pair :: query) ↔
      pair.name.Proper ∧
        (∀ other ∈ query, ∀ option, other.name.system? = some option → other.name ≠ pair.name) ∧
        Admissible query := by
  have hdistinct : ((pair :: query).filterMap (·.name.system?)).Nodup ↔
      (∀ other ∈ query, ∀ option, other.name.system? = some option → other.name ≠ pair.name) ∧
        (query.filterMap (·.name.system?)).Nodup := by
    simp only [List.Nodup, List.pairwise_filterMap, List.pairwise_cons]
    refine and_congr_left' (forall₂_congr fun other _ => ?_)
    constructor
    · exact fun h option hother heq => h option (heq ▸ hother) option hother rfl
    · rintro h option hpair _ hother rfl
      refine h option hother ?_
      rw [QueryOptionName.system?_eq_some_iff.mp hother, QueryOptionName.system?_eq_some_iff.mp hpair]
  constructor
  · rintro ⟨hproper, hnodup⟩
    obtain ⟨hfirst, hothers⟩ := List.forall_mem_cons.mp hproper
    exact ⟨hfirst, (hdistinct.mp hnodup).1, hothers, (hdistinct.mp hnodup).2⟩
  · rintro ⟨hfirst, hnew, hothers, hnodup⟩
    exact ⟨List.forall_mem_cons.mpr ⟨hfirst, hothers⟩, hdistinct.mpr ⟨hnew, hnodup⟩⟩

/-- Names are accepted after others if they make an admissible query and repeat no system option of
the others. -/
theorem accepted_iff :
    QueryOptionName.Accepted seen (query.map QueryPair.name) ↔
      Admissible query ∧ ∀ pair ∈ query, ∀ option, pair.name.system? = some option → pair.name ∉ seen := by
  induction query generalizing seen with
  | nil => exact iff_of_true trivial ⟨admissible_nil, by simp⟩
  | cons pair query ih =>
      rw [List.map_cons, QueryOptionName.Accepted, ih, checkDistinct_eq_ok_iff, admissible_cons_iff,
        List.forall_mem_cons]
      simp only [List.mem_cons, not_or]
      constructor
      · rintro ⟨hname, hseen, hothers, hnew⟩
        refine ⟨⟨QueryOptionName.proper_of_parse hname, ?_, hothers⟩, hseen, ?_⟩
        · exact fun other hmem option hoption => (hnew other hmem option hoption).1
        · exact fun other hmem option hoption => (hnew other hmem option hoption).2
      · rintro ⟨⟨hproper, hdiffer, hothers⟩, hseen, hnew⟩
        refine ⟨QueryOptionName.parse_of_proper hproper, hseen, hothers, ?_⟩
        exact fun other hmem option hoption =>
          ⟨hdiffer other hmem option hoption, hnew other hmem option hoption⟩

/-- Every query that was read is admissible. -/
theorem admissible_of_pairs {fuel : Nat} {text : Text} (h : pairs fuel seen text = .ok query) :
    Admissible query :=
  (accepted_iff.mp (QueryOptionName.accepted_of_pairs h)).1

theorem admissible_of_parse {text : Text} {request : RawRequest} (h : parse text = .ok request) :
    Admissible request.query := by
  obtain ⟨query, hquery, h⟩ := bind_eq_ok.mp h
  cases h
  exact admissible_of_pairs hquery

/-! ### Values that are closed against the separator -/

/-- A text whose quotes and parentheses are closed at its end and which has the separator of pairs
nowhere outside them, unless it stands inside parentheses itself. A surplus closing parenthesis
closes nothing. -/
inductive Enclosed : (inside : Bool) → Text → Prop
  | nil {inside : Bool} : Enclosed inside []
  | plain {inside : Bool} {c : Char} {rest : Text} (hc : c ∉ "\x27()".toList)
      (hseparator : c = '&' → inside = true) (hrest : Enclosed inside rest) :
      Enclosed inside (c :: rest)
  | quoted {inside : Bool} {inner rest : Text} (hinner : quoteMark ∉ inner)
      (hrest : Enclosed inside rest) : Enclosed inside (quoteMark :: (inner ++ quoteMark :: rest))
  | group {inside : Bool} {inner rest : Text} (hinner : Enclosed true inner)
      (hrest : Enclosed inside rest) : Enclosed inside ('(' :: (inner ++ ')' :: rest))
  | surplus {rest : Text} (hrest : Enclosed false rest) : Enclosed false (')' :: rest)

theorem after?_quoteFree {cuts : Char → Bool} {depth : Nat} {inner : Text} (h : quoteMark ∉ inner) :
    Nesting.after? cuts depth true inner = some (depth, true) := by
  induction inner with
  | nil => rfl
  | cons c inner ih =>
      rw [List.mem_cons, not_or] at h
      rw [Nesting.after?, step_inside (Ne.symm h.1)]
      exact ih h.2

/-- The scan passes over an enclosed text and is as deep behind it as before. -/
theorem spanTopLevel_enclosed {inside : Bool} {value : Text} (h : Enclosed inside value) {depth : Nat}
    (hdepth : inside = true ↔ depth ≠ 0) (rest : Text) :
    spanTopLevel depth false (value ++ rest) =
      (value ++ (spanTopLevel depth false rest).1, (spanTopLevel depth false rest).2) := by
  let cuts : Char → Bool := (· == '&')
  have hcut : cuts '&' = true := rfl
  induction h generalizing depth rest with
  | nil => rfl
  | @plain inside c _ hc hseparator _ ih =>
      have hstep : step cuts depth false c = some (depth, false) := by
        have hmarks : "\x27()".toList = [quoteMark, '(', ')'] := by decide
        rw [hmarks] at hc
        simp only [List.mem_cons, not_or] at hc
        obtain ⟨hquote, hopen, hclose, -⟩ := hc
        rw [step, if_neg hquote, if_neg Bool.false_ne_true, if_neg hopen, if_neg hclose, if_neg]
        rw [Bool.and_eq_true, beq_iff_eq, decide_eq_true_eq]
        exact fun hmark => hdepth.mp (hseparator hmark.1) hmark.2
      rw [List.cons_append, spanTopLevel_of_step hcut hstep, ih hdepth]
      rfl
  | @quoted inside inner value hinner _ ih =>
      have hquoted : Nesting.after? cuts depth false (quoteMark :: inner ++ [quoteMark]) =
          some (depth, false) := by
        rw [List.cons_append, Nesting.after?, step_quote, Option.bind_some]
        refine (after?_append_of_eq (after?_quoteFree hinner)).trans ?_
        rw [Nesting.after?, step_quote]
        rfl
      have htext : quoteMark :: (inner ++ quoteMark :: value) ++ rest =
          quoteMark :: inner ++ [quoteMark] ++ (value ++ rest) := by simp
      rw [htext, spanTopLevel_append hcut hquoted, ih hdepth]
      simp
  | @group inside inner value _ _ ihinner ihrest =>
      have hopen : step cuts depth false '(' = some (depth + 1, false) := rfl
      have hclose : step cuts (depth + 1) false ')' = some (depth, false) := rfl
      have htext : '(' :: (inner ++ ')' :: value) ++ rest = '(' :: (inner ++ ')' :: (value ++ rest)) := by
        simp
      rw [htext, spanTopLevel_of_step hcut hopen, ihinner (iff_of_true rfl (Nat.succ_ne_zero depth)),
        spanTopLevel_of_step hcut hclose, ihrest hdepth]
      simp
  | @surplus value _ ih =>
      obtain rfl : depth = 0 := by
        by_contra hne
        exact Bool.false_ne_true (hdepth.mpr hne)
      have hsurplus : spanTopLevel 0 false (')' :: (value ++ rest)) =
          (')' :: (spanTopLevel 0 false (value ++ rest)).1,
            (spanTopLevel 0 false (value ++ rest)).2) := rfl
      rw [List.cons_append, hsurplus, ih hdepth]
      rfl

theorem spanValue_eq {name : QueryOptionName} {value rest : Text}
    (h : if name.isExpression then Enclosed false value else '&' ∉ value) (hrest : EndsPair rest) :
    spanValue name (value ++ rest) = (value, rest) := by
  have hplain (h : '&' ∉ value) :
      ((value ++ rest).takeWhile (· != '&'), (value ++ rest).dropWhile (· != '&')) = (value, rest) := by
    have hrun : value.all (· != '&') = true :=
      List.all_eq_true.mpr fun c hc => bne_iff_ne.mpr fun heq => h (heq ▸ hc)
    have hhead : rest.head?.any (· != '&') = false := by
      rcases hrest with rfl | ⟨others, rfl⟩ <;> rfl
    rw [takeWhile_run hrun hhead, dropWhile_run hrun hhead]
  have hzero : false = true ↔ (0 : Nat) ≠ 0 := by decide
  cases name with
  | system option =>
      rw [QueryOptionName.isExpression, QueryOptionName.system?, Option.any_some] at h
      rw [spanValue.eq_def]
      dsimp only
      split
      · rename_i hexpression
        rw [if_pos hexpression] at h
        rw [spanTopLevel_enclosed h hzero, spanTopLevel_of_endsPair hrest, List.append_nil]
      · rename_i hother
        rw [if_neg hother] at h
        exact hplain h
  | custom name => exact hplain h

end RawRequest

/-! ### Raw pairs -/

/-- What stands between two separators of pairs: a name, alone or before an equals sign and a value. -/
structure RawPair where
  name : Text
  /-- The value as written, none for a name alone. -/
  value? : Option Text
  deriving DecidableEq

namespace RawPair

open RawRequest

def text (raw : RawPair) : Text :=
  raw.name ++ raw.value?.elim [] ('=' :: ·)

def value (raw : RawPair) : Text :=
  raw.value?.getD []

def readName (raw : RawPair) : Except MalformedOption QueryOptionName :=
  decode raw.name raw.name >>= QueryOptionName.parse

/-- What the decoded name stands for, if it can be read. -/
def name? (raw : RawPair) : Option QueryOptionName :=
  raw.readName.toOption

/-- A raw pair that cannot be mistaken for more or less than it is. -/
structure WellFormed (raw : RawPair) : Prop where
  name : raw.name.all isNameChar = true
  fragment : '#' ∉ raw.text
  /-- An expression is closed against the separator of pairs; any other value does not have it. -/
  value : ∀ name, raw.readName = .ok name →
    if name.isExpression then Enclosed false raw.value else '&' ∉ raw.value

/-- A query pair that is a raw pair decoded. -/
structure Reads (raw : RawPair) (pair : QueryPair) : Prop where
  name : Percent.unescape raw.name = .ok pair.name.render
  value : Percent.unescape raw.value = .ok pair.value

/-- What is wrong with a raw pair by itself. -/
inductive Rejects (raw : RawPair) : MalformedOption → Prop
  | undecodableName {e : Utf8.DecodeError} (h : Percent.unescape raw.name = .error e) :
      Rejects raw ⟨raw.name, e.validUpTo, .decodableText, some raw.name⟩
  | emptyName (h : Percent.unescape raw.name = .ok []) : Rejects raw ⟨[], 0, .optionName, some []⟩
  | nestedOption (h : Percent.unescape raw.name = .ok SystemOption.levels.name) :
      Rejects raw ⟨SystemOption.levels.name, 0, .topLevelOption, some SystemOption.levels.name⟩
  | unknownName {word : Text} (h : Percent.unescape raw.name = .ok ('$' :: word))
      (hunknown : ∀ option : SystemOption, option.name ≠ '$' :: word) :
      Rejects raw ⟨'$' :: word, 0, .knownOption, some ('$' :: word)⟩
  | undecodableValue {e : Utf8.DecodeError} (h : Percent.unescape raw.value = .error e) :
      Rejects raw ⟨raw.name, e.validUpTo, .decodableText, some raw.value⟩

variable {raw : RawPair} {raws : List RawPair} {name : QueryOptionName} {seen : List QueryOptionName}

theorem decode_eq_ok_iff {rawName text decoded : Text} :
    decode rawName text = .ok decoded ↔ Percent.unescape text = .ok decoded := by
  rw [decode]
  split <;> simp_all

theorem decode_eq_error {rawName text : Text} {e : MalformedOption} (h : decode rawName text = .error e) :
    ∃ cause, Percent.unescape text = .error cause ∧
      e = ⟨rawName, cause.validUpTo, .decodableText, some text⟩ := by
  rw [decode] at h
  split at h
  · cases h
  · rename_i cause hcause
    cases h
    exact ⟨cause, hcause, rfl⟩

theorem readName_eq_ok_iff :
    raw.readName = .ok name ↔ Percent.unescape raw.name = .ok name.render ∧ name.Proper := by
  rw [readName, bind_eq_ok]
  simp only [decode_eq_ok_iff, QueryOptionName.parse_eq_ok_iff]
  constructor
  · rintro ⟨_, hdecoded, rfl, hproper⟩
    exact ⟨hdecoded, hproper⟩
  · exact fun h => ⟨_, h.1, rfl, h.2⟩

/-- A name that cannot be read is undecodable, empty, the one of nested lists, or unknown. -/
theorem rejects_of_readName {e : MalformedOption} (h : raw.readName = .error e) : raw.Rejects e := by
  rcases bind_eq_error h with hdecode | ⟨decoded, hdecoded, hparse⟩
  · obtain ⟨cause, hcause, rfl⟩ := decode_eq_error hdecode
    exact .undecodableName hcause
  rw [decode_eq_ok_iff] at hdecoded
  rw [QueryOptionName.parse] at hparse
  split at hparse
  · rename_i hempty
    cases hparse
    rw [List.isEmpty_iff] at hempty
    rw [hempty] at hdecoded ⊢
    exact .emptyName hdecoded
  split at hparse
  · cases hparse
  rename_i hdollar
  split at hparse
  · rename_i hlevels
    cases hparse
    rw [SystemOption.ofName?_eq_some_iff] at hlevels
    rw [hlevels] at hdecoded ⊢
    exact .nestedOption hdecoded
  · cases hparse
  · rename_i hunknown
    cases hparse
    obtain ⟨word, rfl⟩ := List.head?_eq_some_iff.mp (not_not.mp hdollar)
    refine .unknownName hdecoded fun option hname => ?_
    rw [← hname, SystemOption.ofName?_name] at hunknown
    cases hunknown

/-! ### From the joined text to the pairs -/

theorem spanAfter_text {rest : Text} (h : raw.WellFormed) (hname : raw.readName = .ok name)
    (hrest : EndsPair rest) :
    spanAfter name (raw.value?.elim [] ('=' :: ·) ++ rest) = (raw.value, rest) := by
  have hspan := spanValue_eq (h.value name hname) hrest
  rw [value] at hspan ⊢
  cases hvalue : raw.value? with
  | none => rcases hrest with rfl | ⟨others, rfl⟩ <;> rfl
  | some value =>
      rw [hvalue] at hspan
      exact hspan

/-- A pair that is written properly is read by itself, and the others from the next separator on. -/
theorem pairs_text {fuel : Nat} {rest : Text} (h : raw.WellFormed) (hraw : raw.text ≠ [])
    (hrest : EndsPair rest) :
    pairs (fuel + 1) seen (raw.text ++ rest) = (do
      let name ← raw.readName
      checkDistinct seen name
      let value ← decode raw.name raw.value
      let others ← pairs fuel (name :: seen) (rest.drop 1)
      .ok (⟨name, value⟩ :: others)) := by
  have hafter : (raw.value?.elim [] ('=' :: ·) ++ rest).head?.any isNameChar = false := by
    cases raw.value? with
    | none => rcases hrest with rfl | ⟨others, rfl⟩ <;> rfl
    | some value => rfl
  have hskip : (raw.name.isEmpty && (raw.value?.elim [] ('=' :: ·) ++ rest).head? ≠ some '=') = false := by
    rw [text] at hraw
    cases hvalue : raw.value? with
    | none =>
        rw [hvalue] at hraw
        have hname : raw.name ≠ [] := by simpa using hraw
        simp [hname]
    | some value => simp
  cases htext : raw.text ++ rest with
  | nil => exact absurd (List.append_eq_nil_iff.mp htext).1 hraw
  | cons c others =>
      rw [pairs_cons, ← htext, text, List.append_assoc, takeWhile_run h.name hafter,
        dropWhile_run h.name hafter]
      dsimp only
      rw [hskip, if_neg Bool.false_ne_true]
      cases hdecoded : decode raw.name raw.name with
      | error e => rw [readName, hdecoded]; rfl
      | ok decoded =>
          cases hparse : QueryOptionName.parse decoded with
          | error e => rw [readName, hdecoded, ok_bind, ok_bind, hparse]; rfl
          | ok name =>
              have hname : raw.readName = .ok name := by rw [readName, hdecoded, ok_bind, hparse]
              rw [ok_bind, hparse, ok_bind, spanAfter_text h hname hrest, hname]
              rfl

/-- What a list of raw pairs tells after pairs of the given names. -/
structure Tells (seen : List QueryOptionName) (raws : List RawPair)
    (result : Except MalformedOption (List QueryPair)) : Prop where
  ok_iff : ∀ query, result = .ok query ↔
    List.Forall₂ Reads raws query ∧ QueryOptionName.Accepted seen (query.map QueryPair.name)
  /-- It is rejected for one raw pair, or for a system option that is there again. -/
  error : ∀ e, result = .error e → (∃ raw ∈ raws, raw.Rejects e) ∨
    ∃ option, e = repeated option ∧ 2 ≤ (seen ++ raws.filterMap name?).count (.system option)

theorem Tells.nil : Tells seen [] (.ok []) where
  ok_iff := by
    intro query
    constructor
    · rintro ⟨⟩
      exact ⟨.nil, trivial⟩
    · rintro ⟨hreads, -⟩
      cases hreads
      rfl
  error := fun e h => by cases h

/-- A further raw pair in front. -/
theorem Tells.cons {others : QueryOptionName → Except MalformedOption (List QueryPair)}
    (h : ∀ name, Tells (name :: seen) raws (others name)) :
    Tells seen (raw :: raws) (do
      let name ← raw.readName
      checkDistinct seen name
      let value ← decode raw.name raw.value
      let others ← others name
      .ok (⟨name, value⟩ :: others)) where
  ok_iff := by
    intro query
    constructor
    · intro hok
      obtain ⟨name, hname, hok⟩ := bind_eq_ok.mp hok
      obtain ⟨_, hdistinct, hok⟩ := bind_eq_ok.mp hok
      obtain ⟨value, hvalue, hok⟩ := bind_eq_ok.mp hok
      obtain ⟨rest, hrest, hok⟩ := bind_eq_ok.mp hok
      cases hok
      obtain ⟨hreads, haccepted⟩ := ((h name).ok_iff rest).mp hrest
      obtain ⟨hunescaped, hproper⟩ := readName_eq_ok_iff.mp hname
      exact ⟨.cons ⟨hunescaped, decode_eq_ok_iff.mp hvalue⟩ hreads,
        QueryOptionName.parse_of_proper hproper, hdistinct, haccepted⟩
    · rintro ⟨hreads, haccepted⟩
      cases hreads with
      | @cons _ pair _ rest hpair hreads =>
          obtain ⟨hparse, hdistinct, haccepted⟩ := haccepted
          have hname : raw.readName = .ok pair.name :=
            readName_eq_ok_iff.mpr ⟨hpair.name, QueryOptionName.proper_of_parse hparse⟩
          rw [hname, ok_bind, hdistinct, ok_bind, decode_eq_ok_iff.mpr hpair.value, ok_bind,
            ((h pair.name).ok_iff rest).mpr ⟨hreads, haccepted⟩]
          rfl
  error := by
    intro e he
    rcases bind_eq_error he with hname | ⟨name, hname, he⟩
    · exact Or.inl ⟨raw, List.mem_cons_self, rejects_of_readName hname⟩
    have hnames : (raw :: raws).filterMap name? = name :: raws.filterMap name? :=
      List.filterMap_cons_some (by rw [name?, hname]; rfl)
    rw [hnames]
    rcases bind_eq_error he with hdistinct | ⟨_, -, he⟩
    · obtain ⟨option, rfl, rfl, hmem⟩ := checkDistinct_eq_error hdistinct
      have hcount := List.count_pos_iff.mpr hmem
      refine Or.inr ⟨option, rfl, ?_⟩
      rw [List.count_append, List.count_cons_self]
      omega
    rcases bind_eq_error he with hvalue | ⟨value, -, he⟩
    · obtain ⟨cause, hcause, rfl⟩ := decode_eq_error hvalue
      exact Or.inl ⟨raw, List.mem_cons_self, .undecodableValue hcause⟩
    rcases bind_eq_error he with hothers | ⟨rest, -, he⟩
    · rcases (h name).error e hothers with ⟨other, hmem, hother⟩ | ⟨option, rfl, hcount⟩
      · exact Or.inl ⟨other, List.mem_cons_of_mem raw hmem, hother⟩
      · refine Or.inr ⟨option, rfl, ?_⟩
        rwa [List.perm_middle.count_eq]
    · cases he

def written (raws : List RawPair) : List RawPair :=
  raws.filter (·.text ≠ [])

def join (raws : List RawPair) : Text :=
  joinTexts '&' (raws.map text)

theorem join_cons (raw : RawPair) (raws : List RawPair) :
    join (raw :: raws) = raw.text ++ raws.flatMap ('&' :: ·.text) := by
  rw [join, List.map_cons, joinTexts_cons, List.flatMap_map]

/-- Behind a pair stands the separator with the other pairs joined, or nothing. -/
theorem flatMap_endsPair (raws : List RawPair) :
    EndsPair (raws.flatMap ('&' :: ·.text)) ∧ (raws.flatMap ('&' :: ·.text)).drop 1 = join raws := by
  cases raws with
  | nil => exact ⟨Or.inl rfl, rfl⟩
  | cons raw raws =>
      rw [List.flatMap_cons, join_cons]
      exact ⟨Or.inr ⟨_, rfl⟩, rfl⟩

theorem not_mem_join (h : ∀ raw ∈ raws, raw.WellFormed) : '#' ∉ join raws := by
  cases raws with
  | nil => exact List.not_mem_nil
  | cons raw raws =>
      obtain ⟨hraw, hraws⟩ := List.forall_mem_cons.mp h
      rw [join_cons, List.mem_append, List.mem_flatMap, not_or]
      refine ⟨hraw.fragment, ?_⟩
      rintro ⟨other, hmem, hmark⟩
      rw [List.mem_cons] at hmark
      exact (hraws other hmem).fragment (hmark.resolve_left (by decide))

/-- The pairs of the joined text are read one by one. -/
theorem tells_pairs {fuel : Nat} (h : ∀ raw ∈ raws, raw.WellFormed) (hfuel : (join raws).length ≤ fuel) :
    Tells seen (written raws) (pairs fuel seen (join raws)) := by
  induction raws generalizing fuel seen with
  | nil =>
      have hempty : pairs fuel seen (join []) = .ok [] := by cases fuel <;> rfl
      rw [hempty]
      exact .nil
  | cons raw raws ih =>
      obtain ⟨hraw, hraws⟩ := List.forall_mem_cons.mp h
      obtain ⟨hends, hdrop⟩ := flatMap_endsPair raws
      rw [join_cons] at hfuel ⊢
      have hlength := congrArg List.length hdrop
      rw [List.length_drop] at hlength
      rw [List.length_append] at hfuel
      by_cases hempty : raw.text = []
      · have hwritten : written (raw :: raws) = written raws :=
          List.filter_cons_of_neg (by simpa using hempty)
        rw [hwritten, hempty, List.nil_append]
        rcases hends with htail | ⟨others, htail⟩
        · rw [htail] at hdrop ⊢
          have hothers : Tells seen (written raws) (pairs fuel seen (join raws)) := ih hraws (by omega)
          rwa [← hdrop] at hothers
        · rw [htail] at hdrop hfuel ⊢
          have hothers : others = join raws := hdrop
          rw [List.length_cons, hothers] at hfuel
          obtain ⟨fuel, rfl⟩ : ∃ n, fuel = n + 1 := ⟨fuel - 1, by omega⟩
          have hskip : pairs (fuel + 1) seen ('&' :: others) = pairs fuel seen others := rfl
          rw [hskip, hothers]
          exact ih hraws (by omega)
      · have hwritten : written (raw :: raws) = raw :: written raws :=
          List.filter_cons_of_pos (by simpa using hempty)
        have hpos := List.length_pos_iff.mpr hempty
        obtain ⟨fuel, rfl⟩ : ∃ n, fuel = n + 1 := ⟨fuel - 1, by omega⟩
        rw [hwritten, pairs_text hraw hempty hends, hdrop]
        exact Tells.cons fun name => ih hraws (by omega)

/-- **Raw pairs are found again one by one.** From well-formed raw pairs joined behind a path a
request gets exactly those that are not empty, in order, with names and values decoded, and it is
accepted whenever that is an admissible query. It is rejected only for one raw pair by itself or for
a system option that two of them name. No request of any text has an option that is repeated, that
belongs to nested lists only, or whose custom name is empty or begins with a dollar sign. -/
theorem parse_join {path : Text} (hpath : '?' ∉ path ∧ '#' ∉ path)
    (hraws : ∀ raw ∈ raws, raw.WellFormed) :
    (∀ request, RawRequest.parse (path ++ '?' :: join raws) = .ok request ↔
      request.path = path ∧ List.Forall₂ Reads (written raws) request.query ∧
        Admissible request.query) ∧
      (∀ e, RawRequest.parse (path ++ '?' :: join raws) = .error e →
        (∃ raw ∈ written raws, raw.Rejects e) ∨
          ∃ option, e = repeated option ∧ 2 ≤ ((written raws).filterMap name?).count (.system option)) ∧
      ∀ text request, RawRequest.parse text = .ok request → Admissible request.query := by
  have htells : Tells [] (written raws) (pairs (join raws).length [] (join raws)) :=
    tells_pairs hraws (Nat.le_refl _)
  have hadmissible : ∀ query : List QueryPair,
      QueryOptionName.Accepted [] (query.map QueryPair.name) ↔ Admissible query := by
    intro query
    rw [accepted_iff]
    exact and_iff_left fun _ _ _ _ => List.not_mem_nil
  rw [parse_query hpath.1 hpath.2 (not_mem_join hraws)]
  refine ⟨fun request => ?_, fun e he => ?_, fun _ _ => admissible_of_parse⟩
  · rw [bind_eq_ok]
    constructor
    · rintro ⟨query, hquery, ⟨⟩⟩
      obtain ⟨hreads, haccepted⟩ := (htells.ok_iff query).mp hquery
      exact ⟨rfl, hreads, (hadmissible query).mp haccepted⟩
    · rintro ⟨rfl, hreads, hquery⟩
      exact ⟨request.query, (htells.ok_iff _).mpr ⟨hreads, (hadmissible _).mpr hquery⟩, rfl⟩
  · rcases bind_eq_error he with he | ⟨query, -, he⟩
    · exact htells.error e he
    · cases he

/-- An option with a separator within quotes, an empty pair, a name alone and an escaped name. -/
def mixed : List RawPair :=
  [⟨"$filter".toList, some "'a&b'".toList⟩, ⟨[], none⟩, ⟨"flag".toList, none⟩,
    ⟨"%24top".toList, some "5".toList⟩]

theorem parse_join_mixed :
    ('?' ∉ "Items".toList ∧ '#' ∉ "Items".toList) ∧ (∀ raw ∈ mixed, raw.WellFormed) ∧
      RawRequest.parse ("Items".toList ++ '?' :: join mixed) =
        .ok ⟨"Items".toList, [⟨.system .filter, "'a&b'".toList⟩, ⟨.custom "flag".toList, []⟩,
          ⟨.system .top, "5".toList⟩]⟩ := by
  have hpath : '?' ∉ "Items".toList ∧ '#' ∉ "Items".toList := by decide
  have hmixed : ∀ raw ∈ mixed, raw.WellFormed := by
    have hinner : quoteMark ∉ "a&b".toList := by decide
    have hquoted : Enclosed false "'a&b'".toList := .quoted hinner .nil
    simp only [mixed, List.forall_mem_cons]
    refine ⟨⟨by decide, by decide, fun name hname => ?_⟩, ⟨by decide, by decide, fun name _ => ?_⟩,
      ⟨by decide, by decide, fun name _ => ?_⟩, ⟨by decide, by decide, fun name hname => ?_⟩, by simp⟩
    · have hfilter : readName ⟨"$filter".toList, some "'a&b'".toList⟩ = .ok (.system .filter) := by
        decide +kernel
      cases hfilter.symm.trans hname
      exact hquoted
    · split
      · exact .nil
      · exact List.not_mem_nil
    · split
      · exact .nil
      · exact List.not_mem_nil
    · have htop : readName ⟨"%24top".toList, some "5".toList⟩ = .ok (.system .top) := by
        decide +kernel
      cases htop.symm.trans hname
      exact show '&' ∉ "5".toList by decide
  refine ⟨hpath, hmixed, ((parse_join hpath hmixed).1 _).mpr ⟨rfl, ?_, ?_, by decide⟩⟩
  · have hwritten : written mixed = [⟨"$filter".toList, some "'a&b'".toList⟩, ⟨"flag".toList, none⟩,
        ⟨"%24top".toList, some "5".toList⟩] := by decide
    rw [hwritten]
    exact .cons ⟨by decide +kernel, by decide +kernel⟩ (.cons ⟨by decide +kernel, by decide +kernel⟩
      (.cons ⟨by decide +kernel, by decide +kernel⟩ .nil))
  · simp [QueryOptionName.Proper]

end RawPair

end ODataRequest
