import LiteralPool.Plan
import LiteralPool.Proofs.Layout
import LiteralPool.Proofs.Listings

/-!
# Events and texts

What is reported of a part of a run agrees with what the part does. A source reports the tokens that
are read from it, and at most one more, which was refused for what stands behind it
(`Source.events_eq`). A request reports the labels that it takes from the pool
(`Pool.literalEvents_spec`).

**Theorem (`Options.planLiterals_spec`).** What is reported of the literals of a source are these
literals, the labels that were given away, and the constants that are stored, each in their order.
The texts in between, `Output.ownText`, are the listing, if it was asked for.

Texts and events are brought out in turns, literal by literal. Both are followed along the literals,
the last one split off: its line and its events come behind all others (`Pooling.add_spec`).
-/

namespace LiteralPool

/-! ## Events of reading -/

namespace Cursor

variable {c : Cursor}

theorem tokensFrom_of_token {t : Token} (h : c.step.answer = .ok (some t)) (before : List Token) :
    tokensFrom before c = tokensFrom (t :: before) c.step.next := by
  rw [tokensFrom]
  split
  · next t' h' =>
    obtain rfl : t' = t := Option.some.inj (Except.ok.inj (h'.symm.trans h))
    rfl
  · next h' => exact absurd h (h' t)

theorem tokensFrom_of_no_token (h : ∀ t, c.step.answer ≠ .ok (some t)) (before : List Token) :
    tokensFrom before c = (c.token?.toList ++ before).reverse := by
  rw [tokensFrom]
  split
  · next t h' => exact absurd h' (h t)
  · rfl

/-- At the end of the text no token is read. -/
theorem token?_of_end (h : c.step.answer = .ok none) : c.token? = none := by
  have hanswer : (Scan.ofText c.skipTrivia.rest).answer = .ok none := by
    simp only [step] at h
    split at h
    · assumption
    · cases h
    · cases h
  rw [token?, Scan.answer_of_delimited hanswer]

/-- The tokens that are found are read, and perhaps one more in front of a fault. -/
theorem tokensFrom_eq (before : List Token) (c : Cursor) :
    ∃ more, tokensFrom before c = before.reverse ++ (c.read.tokens ++ more) ∧
      more.length ≤ 1 ∧ (c.read.fault = none → more = []) := by
  induction c using stepwise generalizing before with
  | token c t h ih =>
    obtain ⟨more, heq, hlength, hfault⟩ := ih (t :: before)
    refine ⟨more, ?_, hlength, ?_⟩
    · rw [tokensFrom_of_token h, heq, read_of_token h]
      simp
    · rw [read_of_token h]
      exact hfault
  | done c h =>
    have hnone : ∀ t, c.step.answer ≠ .ok (some t) := by simp [h]
    refine ⟨[], ?_, Nat.zero_le _, fun _ => rfl⟩
    rw [tokensFrom_of_no_token hnone, token?_of_end h, read_of_end h]
    simp
  | fault c f h =>
    have hnone : ∀ t, c.step.answer ≠ .ok (some t) := by simp [h]
    refine ⟨c.token?.toList, ?_, ?_, ?_⟩
    · rw [tokensFrom_of_no_token hnone, read_of_fault h]
      cases c.token? <;> simp
    · cases c.token? <;> simp
    · rw [read_of_fault h]
      intro hfault
      cases hfault

end Cursor

/-- A source reports the tokens that are found in it. Only a source with a fault can report another
one behind them. -/
theorem Source.events_eq (s : Source) :
    ∃ more, s.events = (s.read.tokens ++ more).map .token ∧ more.length ≤ 1 ∧
      (s.read.fault = none → more = []) := by
  obtain ⟨more, heq, hlength, hfault⟩ := s.start.tokensFrom_eq []
  refine ⟨more, ?_, hlength, hfault⟩
  rw [events, heq, List.reverse_nil, List.nil_append]
  rfl

/-! ## Events of requests -/

namespace Event

/-- The token that was read. -/
def token? : Event → Option Token
  | token t => some t
  | _ => none

/-- The label that was given away. -/
def label? : Event → Option Label
  | label l => some l
  | _ => none

/-- The constant that is stored. -/
def constant? : Event → Option Constant
  | constant c => some c
  | _ => none

end Event

namespace Pool

/-- A value with a label is reported with it, unless it is a Boolean. -/
theorem requestEvents_of_some {p : Pool} {v : Value} {l : Label} (h : p.label? v = some l) :
    p.requestEvents v = if v.isBool then [] else [.reused ⟨l, v⟩] := by
  cases v with
  | bool b => rfl
  | int n => simp [requestEvents, h, Value.isBool]
  | string s => simp [requestEvents, h, Value.isBool]

/-- A value without a label is reported with the next free one. -/
theorem requestEvents_of_none {p : Pool} {v : Value} (h : p.label? v = none) :
    p.requestEvents v = [.label ⟨p.free⟩, .entered ⟨⟨p.free⟩, v⟩] := by
  cases v with
  | bool b => cases isBool_of_label?_eq_none h
  | int n => simp [requestEvents, h]
  | string s => simp [requestEvents, h]

/-- A literal reports no token and no constant, and the labels that it takes. -/
theorem literalEvents_spec (p : Pool) (l : Literal) :
    (p.literalEvents l).filterMap Event.token? = [] ∧
      (p.literalEvents l).filterMap Event.constant? = [] ∧
      List.range p.free ++ ((p.literalEvents l).filterMap Event.label?).map Label.suffix =
        List.range (p.requestLiteral l).2.free := by
  cases l with
  | nothing => simp [literalEvents, requestLiteral]
  | value v =>
    cases hlabel : p.label? v with
    | some label =>
      rw [literalEvents, requestEvents_of_some hlabel, requestLiteral, request_of_some hlabel]
      split
      · simp
      · simp [Event.token?, Event.constant?, Event.label?]
    | none =>
      rw [literalEvents, requestEvents_of_none hlabel, requestLiteral, request_of_none hlabel]
      simp [Event.token?, Event.constant?, Event.label?, List.range_succ]

end Pool

/-! ## Texts and events apart -/

namespace Output

/-- The text that is printed, if it is not an event. -/
def own : Output → String
  | text t => t
  | event _ => ""

/-- The event, if it is one. -/
def event? : Output → Option Event
  | text _ => none
  | event e => some e

/-- The texts among some outputs, one behind the other. -/
def ownText (outputs : List Output) : String := String.join (outputs.map own)

/-- The events among some outputs. -/
def events (outputs : List Output) : List Event := outputs.filterMap event?

section

variable (outputs more : List Output) (es : List Event)

theorem ownText_cons (x : Output) : ownText (x :: outputs) = x.own ++ ownText outputs := by
  simp [ownText]

theorem ownText_append : ownText (outputs ++ more) = ownText outputs ++ ownText more := by
  simp [ownText]

theorem events_append : events (outputs ++ more) = events outputs ++ events more :=
  List.filterMap_append

theorem ownText_events : ownText (es.map .event) = "" := by
  induction es with
  | nil => rfl
  | cons e es ih =>
    rw [List.map_cons, ownText_cons, ih, own, String.append_empty]

theorem events_events : events (es.map .event) = es := by
  rw [events, List.filterMap_map]
  exact List.filterMap_some

end

end Output

open Output

/-! ## Pooling -/

/-- One more literal has its line, if lines are asked for, behind its events. -/
theorem Pooling.add_spec (labels : Bool) (s : Pooling) (l : Literal) :
    ownText (s.add labels l).backwards.reverse = ownText s.backwards.reverse ++
        (if labels then l.listed (s.pool.requestLiteral l).1 else "") ∧
      events (s.add labels l).backwards.reverse =
        events s.backwards.reverse ++ s.pool.literalEvents l := by
  have hbackwards : (s.add labels l).backwards.reverse =
      s.backwards.reverse ++ (s.pool.literalEvents l).map .event ++
        if labels then [.text (l.listed (s.pool.requestLiteral l).1)] else [] := by
    cases labels <;> simp [add]
  rw [hbackwards, ownText_append, ownText_append, ownText_events, events_append, events_append,
    events_events]
  cases labels with
  | false => simp [ownText, events]
  | true => simp [ownText, events, own, event?]

namespace Options

variable (o : Options)

/-- What is printed for these literals. -/
def listing (literals : List Literal) : String :=
  if o.labels then (Pool.empty.list literals).text else ""

theorem pooling_concat (literals : List Literal) (l : Literal) :
    o.pooling (literals ++ [l]) = (o.pooling literals).add o.labels l := List.foldl_concat ..

/-- Pooling leaves the pool that listing leaves. -/
theorem pool_pooling (literals : List Literal) :
    (o.pooling literals).pool = (Pool.empty.list literals).pool := by
  induction literals using List.reverseRecOn with
  | nil => rfl
  | append_singleton literals l ih =>
    rw [pooling_concat, Pool.list_concat, Pooling.add, Listing.add, ih]

/-- The lines of the listing are printed, if they were asked for. -/
theorem ownText_pooling (literals : List Literal) :
    ownText (o.pooling literals).backwards.reverse = o.listing literals := by
  induction literals using List.reverseRecOn with
  | nil =>
    rw [listing]
    split <;> rfl
  | append_singleton literals l ih =>
    rw [pooling_concat, (Pooling.add_spec ..).1, ih, pool_pooling, listing, listing,
      Pool.list_concat]
    split <;> rfl

/-- Pooling reports the labels that are given away. -/
theorem events_pooling (literals : List Literal) :
    let es := events (o.pooling literals).backwards.reverse
    es.filterMap Event.token? = [] ∧ es.filterMap Event.constant? = [] ∧
      [0, 1] ++ (es.filterMap Event.label?).map Label.suffix =
        List.range (o.pooling literals).pool.free := by
  induction literals using List.reverseRecOn with
  | nil => exact ⟨rfl, rfl, rfl⟩
  | append_singleton literals l ih =>
    obtain ⟨htoken, hconstant, hlabel⟩ := ih
    obtain ⟨htoken', hconstant', hlabel'⟩ := (o.pooling literals).pool.literalEvents_spec l
    dsimp only
    rw [pooling_concat, (Pooling.add_spec ..).2, List.filterMap_append, List.filterMap_append,
      List.filterMap_append, htoken, hconstant, htoken', hconstant', List.map_append,
      ← List.append_assoc, hlabel, hlabel']
    exact ⟨rfl, rfl, rfl⟩

/-- Only the lines of the listing are printed for the literals of an input. -/
theorem ownText_planLiterals (output : Path) (es : List Event) (literals : List Literal) :
    ownText (o.planLiterals output es literals).outputs = o.listing literals := by
  simp only [planLiterals, ownText_append, ownText_events, ownText_pooling]
  simp [ownText, own]

theorem events_planLiterals (output : Path) (es : List Event) (literals : List Literal) :
    let pool := (Pool.empty.list literals).pool
    events (o.planLiterals output es literals).outputs =
      es ++ [.literals literals.length o.file] ++ events (o.pooling literals).backwards.reverse ++
        [.labels pool.allocated] ++ pool.dataEvents := by
  simp only [planLiterals, events_append, events_events, pool_pooling]
  rfl

/-- **An accepted input is reported.** Of the literals of a source all tokens are reported, in
their order; so are the labels that are given away, from the first one behind the two of the
Booleans on; and so are the constants that are stored. The texts in between are the listing, if it
was asked for. -/
theorem planLiterals_spec (output : Path) {s : Source} {literals : List Literal}
    (h : s.literals = .ok literals) :
    let plan := o.planLiterals output s.events literals
    let es := events plan.outputs
    let pool := (Pool.empty.list literals).pool
    (es.filterMap Event.token?).map Token.literal = literals ∧
      [0, 1] ++ (es.filterMap Event.label?).map Label.suffix = List.range pool.allocated ∧
      es.filterMap Event.constant? = pool.constants ∧
      ownText plan.outputs = o.listing literals := by
  obtain ⟨hfault, hliterals⟩ := Source.literals_eq_ok_iff.mp h
  obtain ⟨more, hevents, -, hmore⟩ := s.events_eq
  rw [hmore hfault, List.append_nil] at hevents
  obtain ⟨htoken, hconstant, hlabel⟩ := o.events_pooling literals
  rw [pool_pooling] at hlabel
  dsimp only
  rw [events_planLiterals, hevents, Pool.dataEvents]
  refine ⟨?_, ?_, ?_, o.ownText_planLiterals ..⟩
  · simp only [List.filterMap_append, htoken, List.filterMap_map, List.filterMap_cons]
    simp [Event.token?, Function.comp_def, hliterals]
  · rw [Pool.allocated, ← hlabel]
    simp only [List.filterMap_append, List.filterMap_map, List.filterMap_cons]
    simp [Event.label?, Function.comp_def]
  · simp only [List.filterMap_append, hconstant, List.filterMap_map, List.filterMap_cons]
    simp [Event.constant?, Function.comp_def]

end Options

end LiteralPool
