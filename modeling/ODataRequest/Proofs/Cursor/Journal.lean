import Mathlib.Data.List.Chain
import ODataRequest.Proofs.Cursor.Slices

/-! What a run over a source does, event by event. A journal is lawful if each event is as the ones before
it allow: a slice lies between boundaries, the reading position only moves on, a token begins where only
white space was skipped, the raw value of an option begins where the last token ended while no token waits,
and a stage of the grammar is not entered again before a token was taken. Main statement: of a whole lawful
run, this says that all positions are in order, that the spans of all tokens and raw values are apart with
nothing but white space between neighbours, and that a token is taken between any two entries of a stage. -/

namespace ODataRequest

open Text

namespace Cursor

/-- A part of the grammar that a run can come back to: one that it enters, or a loop that it turns. -/
inductive Stage where
  | optionList | optionTurn | value | commaList | commaTurn | memberPath | memberTurn
  | expression | operators (strength : Nat) | operatorTurn (strength : Nat)
  | operand | primary | call | arguments | path | pathTurn | lambda
  deriving DecidableEq

/-- A step of a run over a source. -/
inductive Event where
  | sliced (start stop : Nat)
  | moved (start stop : Nat)
  | lexed (start stop : Nat)
  /-- The raw value of an option was kept, while so many tokens were queued. -/
  | kept (start stop queued : Nat)
  | taken
  | entered (stage : Stage)
  deriving DecidableEq

namespace Event

/-- The offsets that the reading position moves between. -/
def offsets : Event → List Nat
  | .moved start stop => [start, stop]
  | _ => []

/-- The part of the source that a token or a raw value takes. -/
def span? : Event → Option (Nat × Nat)
  | .lexed start stop => some (start, stop)
  | .kept start stop _ => some (start, stop)
  | _ => none

end Event

/-- The events of a run so far, the last one first. -/
abbrev Journal := List Event

namespace Journal

/-- Where the reading position is. -/
def position : Journal → Nat
  | [] => 0
  | .moved _ stop :: _ => stop
  | _ :: journal => position journal

/-- Where the last token or raw value ends. -/
def readTo : Journal → Nat
  | [] => 0
  | .lexed _ stop :: _ => stop
  | .kept _ stop _ :: _ => stop
  | _ :: journal => readTo journal

/-- The stages that were entered since a token was taken. -/
def pending : Journal → List Stage
  | [] => []
  | .taken :: _ => []
  | .entered stage :: journal => stage :: pending journal
  | _ :: journal => pending journal

end Journal

open Journal

/-- An event that may follow a journal. -/
def Event.Follows (source : Text) (journal : Journal) : Event → Prop
  | .sliced start stop => start ≤ stop ∧ source.IsBoundary start ∧ source.IsBoundary stop
  | .moved start stop => start = position journal ∧ start ≤ stop ∧ source.IsBoundary stop
  | .lexed start stop => start < stop ∧ stop = position journal ∧ source.IsBlank (readTo journal) start
  | .kept start stop queued =>
    queued = 0 ∧ start = position journal ∧ start = readTo journal ∧ start ≤ stop
  | .taken => True
  | .entered stage => stage ∉ pending journal

/-- A journal of which every event follows the ones before it. -/
def Journal.Lawful (source : Text) : Journal → Prop
  | [] => True
  | event :: journal => event.Follows source journal ∧ Lawful source journal

/-- What a whole run keeps to, its events from the first on. -/
structure Safe (source : Text) (events : List Event) : Prop where
  sliced : ∀ start stop, .sliced start stop ∈ events → start ≤ stop ∧ stop ≤ utf8Length source ∧
    source.IsBoundary start ∧ source.IsBoundary stop
  boundary : ∀ start stop, .moved start stop ∈ events → source.IsBoundary stop
  /-- The reading position never moves back. -/
  monotone : (events.flatMap Event.offsets).Pairwise (· ≤ ·)
  nonempty : ∀ start stop, .lexed start stop ∈ events → start < stop
  apart : (events.filterMap Event.span?).Pairwise fun earlier later => earlier.2 ≤ later.1
  /-- Between neighbours, and before the first of them, is only white space. -/
  blank : ((0, 0) :: events.filterMap Event.span?).IsChain fun earlier later =>
    source.IsBlank earlier.2 later.1
  /-- No token waits where a raw value is kept. -/
  unqueued : ∀ start stop queued, .kept start stop queued ∈ events → queued = 0
  /-- Between two entries of a stage, a token is taken. -/
  progress : ∀ before between after stage,
    events = before ++ .entered stage :: (between ++ .entered stage :: after) → .taken ∈ between

namespace Journal.Lawful

variable {source : Text} {journal : Journal} {event : Event}

theorem follows_of_mem (h : Lawful source journal) (hmem : event ∈ journal) :
    ∃ earlier, event.Follows source earlier := by
  induction journal with
  | nil => cases hmem
  | cons first journal ih =>
      rcases List.mem_cons.mp hmem with rfl | hmem
      · exact ⟨journal, h.1⟩
      · exact ih h.2 hmem

theorem suffix {later : Journal} (h : Lawful source (later ++ journal)) : Lawful source journal := by
  induction later with
  | nil => exact h
  | cons first later ih => exact ih h.2

theorem offsets_le (h : Lawful source journal) : ∀ offset ∈ journal.flatMap Event.offsets,
    offset ≤ position journal := by
  induction journal with
  | nil => exact nofun
  | cons event journal ih =>
      intro offset hmem
      rw [List.flatMap_cons, List.mem_append] at hmem
      have hearlier := fun hmem => ih h.2 offset hmem
      cases event with
      | moved start stop =>
          obtain ⟨rfl, hle, -⟩ := h.1
          rcases hmem with hmem | hmem
          · simp only [Event.offsets, List.mem_cons, List.not_mem_nil, or_false] at hmem
            rcases hmem with rfl | rfl
            · exact hle
            · exact Nat.le_refl _
          · exact (hearlier hmem).trans hle
      | _ => exact hearlier (hmem.resolve_left (List.not_mem_nil))

theorem monotone (h : Lawful source journal) :
    (journal.reverse.flatMap Event.offsets).Pairwise (· ≤ ·) := by
  induction journal with
  | nil => exact .nil
  | cons event journal ih =>
      rw [List.reverse_cons, List.flatMap_append, List.flatMap_singleton, List.pairwise_append]
      refine ⟨ih h.2, ?_, ?_⟩
      · cases event with
        | moved start stop => exact List.pairwise_pair.mpr h.1.2.1
        | _ => exact .nil
      · intro earlier hearlier later hlater
        rw [List.mem_flatMap] at hearlier
        obtain ⟨e, he, hearlier⟩ := hearlier
        have hle := h.2.offsets_le earlier (List.mem_flatMap.mpr ⟨e, List.mem_reverse.mp he, hearlier⟩)
        cases event with
        | moved start stop =>
            obtain ⟨rfl, hmoved, -⟩ := h.1
            simp only [Event.offsets, List.mem_cons, List.not_mem_nil, or_false] at hlater
            rcases hlater with rfl | rfl
            · exact hle
            · exact hle.trans hmoved
        | _ => cases hlater

/-- A token or raw value comes after the last one, with only white space skipped. -/
theorem blank_span (h : event.Follows source journal) {span : Nat × Nat} (hspan : event.span? = some span)
    (hboundary : source.IsBoundary (position journal)) :
    source.IsBlank (readTo journal) span.1 ∧ span.1 ≤ span.2 := by
  cases event with
  | lexed start stop =>
      cases hspan
      exact ⟨h.2.2, h.1.le⟩
  | kept start stop queued =>
      cases hspan
      obtain ⟨-, hposition, hread, hle⟩ := h
      obtain ⟨before, after, hsource, hbefore⟩ := hboundary
      refine ⟨⟨before, [], after, hsource, rfl, ?_, ?_⟩, hle⟩
      · rw [← hread, hposition, hbefore]
      · exact hposition.trans hbefore
  | _ => cases hspan

theorem isBoundary_position (h : Lawful source journal) : source.IsBoundary (position journal) := by
  induction journal with
  | nil => exact ⟨[], source, rfl, rfl⟩
  | cons event journal ih =>
      cases event with
      | moved start stop => exact h.1.2.2
      | _ => exact ih h.2

theorem readTo_of_span {span : Nat × Nat} (h : event.span? = some span) :
    readTo (event :: journal) = span.2 := by
  cases event <;> cases h <;> rfl

theorem readTo_of_no_span (h : event.span? = none) : readTo (event :: journal) = readTo journal := by
  cases event <;> first | rfl | cases h

theorem spans_le (h : Lawful source journal) : ∀ span ∈ journal.filterMap Event.span?,
    span.2 ≤ readTo journal := by
  induction journal with
  | nil => exact nofun
  | cons event journal ih =>
      intro earlier hmem
      cases hspan : event.span? with
      | none =>
          rw [List.filterMap_cons_none hspan] at hmem
          rw [readTo_of_no_span hspan]
          exact ih h.2 earlier hmem
      | some span =>
          rw [List.filterMap_cons_some hspan, List.mem_cons] at hmem
          rw [readTo_of_span hspan]
          rcases hmem with rfl | hmem
          · exact Nat.le_refl _
          · obtain ⟨hblank, hle⟩ := blank_span h.1 hspan h.2.isBoundary_position
            exact ((ih h.2 earlier hmem).trans hblank.le).trans hle

theorem apart (h : Lawful source journal) : (journal.reverse.filterMap Event.span?).Pairwise
    fun earlier later => earlier.2 ≤ later.1 := by
  induction journal with
  | nil => exact .nil
  | cons event journal ih =>
      rw [List.reverse_cons, List.filterMap_append]
      cases hspan : event.span? with
      | none =>
          rw [List.filterMap_cons_none hspan, List.filterMap_nil, List.append_nil]
          exact ih h.2
      | some span =>
          rw [List.filterMap_cons_some hspan, List.filterMap_nil, List.pairwise_append]
          refine ⟨ih h.2, List.pairwise_singleton _ _, ?_⟩
          intro earlier hearlier later hlater
          rw [List.mem_singleton.mp hlater]
          rw [List.filterMap_reverse, List.mem_reverse] at hearlier
          exact (h.2.spans_le earlier hearlier).trans (blank_span h.1 hspan h.2.isBoundary_position).1.le

/-- The last span, or the beginning of the source where there is none yet. -/
theorem getLast?_spans (journal : Journal) :
    ∀ last ∈ ((0, 0) :: journal.reverse.filterMap Event.span?).getLast?, last.2 = readTo journal := by
  induction journal with
  | nil =>
      intro last hlast
      cases hlast
      rfl
  | cons event journal ih =>
      rw [List.reverse_cons, List.filterMap_append]
      cases hspan : event.span? with
      | none =>
          rw [List.filterMap_cons_none hspan, List.filterMap_nil, List.append_nil, readTo_of_no_span hspan]
          exact ih
      | some span =>
          intro last hlast
          rw [List.filterMap_cons_some hspan, List.filterMap_nil, ← List.cons_append,
            List.getLast?_concat] at hlast
          cases hlast
          exact (readTo_of_span hspan).symm

theorem blank (h : Lawful source journal) :
    ((0, 0) :: journal.reverse.filterMap Event.span?).IsChain fun earlier later =>
      source.IsBlank earlier.2 later.1 := by
  induction journal with
  | nil => exact .singleton _
  | cons event journal ih =>
      have hlast := getLast?_spans journal
      rw [List.reverse_cons, List.filterMap_append]
      cases hspan : event.span? with
      | none =>
          rw [List.filterMap_cons_none hspan, List.filterMap_nil, List.append_nil]
          exact ih h.2
      | some span =>
          rw [List.filterMap_cons_some hspan, List.filterMap_nil, ← List.cons_append, List.isChain_append]
          refine ⟨ih h.2, .singleton _, ?_⟩
          intro last hmem next hnext
          cases hnext
          rw [hlast last hmem]
          exact (blank_span h.1 hspan h.2.isBoundary_position).1

theorem mem_pending {between : Journal} {stage : Stage} (h : Event.taken ∉ between) :
    stage ∈ pending (between ++ .entered stage :: journal) := by
  induction between with
  | nil => exact List.mem_cons_self
  | cons event between ih =>
      rw [List.mem_cons, not_or] at h
      have hmem := ih h.2
      cases event with
      | taken => exact absurd rfl h.1
      | entered other => exact List.mem_cons_of_mem other hmem
      | _ => exact hmem

/-- Between two entries of a stage, a token is taken. -/
theorem taken_of_entered {between : Journal} {stage : Stage}
    (h : Lawful source (.entered stage :: (between ++ .entered stage :: journal))) :
    Event.taken ∈ between := by
  by_contra hnot
  exact h.1 (mem_pending hnot)

/-- **A lawful run is safe.** What every event keeps to is kept by the whole run. -/
theorem safe (h : Lawful source journal) : Safe source journal.reverse where
  sliced := by
    intro start stop hmem
    obtain ⟨-, hle, hstart, hstop⟩ := h.follows_of_mem (List.mem_reverse.mp hmem)
    exact ⟨hle, hstop.le, hstart, hstop⟩
  boundary := by
    intro start stop hmem
    obtain ⟨-, -, -, hstop⟩ := h.follows_of_mem (List.mem_reverse.mp hmem)
    exact hstop
  monotone := h.monotone
  nonempty := by
    intro start stop hmem
    obtain ⟨-, hlt, -⟩ := h.follows_of_mem (List.mem_reverse.mp hmem)
    exact hlt
  apart := h.apart
  blank := h.blank
  unqueued := by
    intro start stop queued hmem
    obtain ⟨-, hqueued, -⟩ := h.follows_of_mem (List.mem_reverse.mp hmem)
    exact hqueued
  progress := by
    intro before between after stage hsplit
    have hjournal : journal = after.reverse ++
        .entered stage :: (between.reverse ++ .entered stage :: before.reverse) := by
      rw [← List.reverse_reverse journal, hsplit]
      simp
    rw [hjournal] at h
    exact List.mem_reverse.mp h.suffix.taken_of_entered

end Journal.Lawful

end Cursor

end ODataRequest
