import Mathlib
import LiteralPool.Proofs.Readback

/-!
# Integers

Digits mean a number: the last digit counts ones, the one in front of it tens, and so on
(`decimalValue`). A minus sign in front of them makes it negative (`signedNumber`).

**Theorem (`integers_are_exact`).** However many digits there are, and however many zeros in front:
behind trivia and in front of a delimiter or the end, a step reads just this text, and yields the
number if it is a signed 32-bit number. Otherwise it complains about the text as it stands there.
And every displayed integer reads back.

The digits can be read one by one in 32 bits, with a check of every product and every sum
(`accumulate?`), and this makes no difference (`accumulate?_eq`). What carries the induction is that
every digit leads away from zero (`signedNumber_concat_cases`): so a product that does not fit is
not mended by the digit behind it (`pushDigit?_eq`), and a number that does not fit is not mended by
one more digit (`fit?_concat_eq_none`).
-/

namespace LiteralPool

open Text

/-! ## The number that digits mean -/

/-- The number that a digit counts. -/
def digitValue (c : Char) : Nat := c.toNat - '0'.toNat

/-- The number that decimal digits mean. -/
def decimalValue (digits : List Char) : Nat := Nat.ofDigits 10 (digits.reverse.map digitValue)

/-- The number that decimal digits mean behind a minus sign, or behind none. -/
def signedNumber (negative : Bool) (digits : List Char) : Int :=
  if negative then -decimalValue digits else decimalValue digits

theorem decimalValue_concat (digits : List Char) (c : Char) :
    decimalValue (digits ++ [c]) = 10 * decimalValue digits + digitValue c := by
  rw [decimalValue, List.reverse_append, List.reverse_singleton, List.singleton_append,
    List.map_cons, Nat.ofDigits_cons, Nat.add_comm]
  rfl

/-- To read digits from the left is to count ones, tens and so on from the right. -/
theorem ofDigitChars_eq (digits : List Char) :
    Nat.ofDigitChars 10 digits 0 = decimalValue digits := by
  induction digits using List.reverseRecOn with
  | nil => rfl
  | append_singleton digits c ih =>
    rw [Nat.ofDigitChars_append, ih, Nat.ofDigitChars_cons, Nat.ofDigitChars_nil,
      decimalValue_concat]
    rfl

theorem signedValue_eq (negative : Bool) (digits : List Char) :
    signedValue negative digits = signedNumber negative digits := by
  rw [signedValue, signedNumber, ofDigitChars_eq]

theorem signedNumber_concat (negative : Bool) (digits : List Char) (c : Char) :
    signedNumber negative (digits ++ [c]) = 10 * signedNumber negative digits +
      (if negative then -(digitValue c : Int) else digitValue c) := by
  rw [signedNumber, signedNumber, decimalValue_concat]
  cases negative with
  | false => simp
  | true =>
    simp
    ring

/-- One more digit leads away from zero, at least ten times as far. -/
theorem signedNumber_concat_cases (negative : Bool) (digits : List Char) (c : Char) :
    (0 ≤ signedNumber negative digits ∧
      10 * signedNumber negative digits ≤ signedNumber negative (digits ++ [c])) ∨
    (signedNumber negative digits ≤ 0 ∧
      signedNumber negative (digits ++ [c]) ≤ 10 * signedNumber negative digits) := by
  rw [signedNumber_concat]
  cases negative with
  | false =>
    left
    simp [signedNumber]
  | true =>
    right
    simp [signedNumber]

/-! ## Digit by digit -/

namespace Scan

/-- One more digit behind a number: ten times the number, and then the digit added, or taken away
behind a minus sign. Both have to fit. -/
def pushDigit? (negative : Bool) (n : Int32) (c : Char) : Option Int32 :=
  (fit? (10 * n.toInt)).bind fun tens =>
    fit? (tens.toInt + if negative then -(digitValue c : Int) else digitValue c)

/-- The number of digits that are read one by one. -/
def accumulate? (negative : Bool) (digits : List Char) : Option Int32 :=
  digits.foldlM (pushDigit? negative) 0

theorem fit?_eq_none_iff {number : Int} :
    fit? number = none ↔ ¬ (-2147483648 ≤ number ∧ number ≤ 2147483647) := by
  rw [fit?, ite_eq_right_iff]
  simp only [reduceCtorEq, imp_false]
  rfl

/-- A product that does not fit is not mended by the digit behind it. -/
theorem pushDigit?_eq {negative : Bool} {digits : List Char} {n : Int32}
    (h : n.toInt = signedNumber negative digits) (c : Char) :
    pushDigit? negative n c = fit? (signedNumber negative (digits ++ [c])) := by
  rw [pushDigit?, h]
  cases hproduct : fit? (10 * signedNumber negative digits) with
  | some tens => rw [Option.bind_some, fit?_eq_some_iff.mp hproduct, signedNumber_concat]
  | none =>
    have hbeyond := signedNumber_concat_cases negative digits c
    rw [Option.bind_none, eq_comm, fit?_eq_none_iff]
    rw [fit?_eq_none_iff] at hproduct
    omega

/-- A number that does not fit is not mended by one more digit. -/
theorem fit?_concat_eq_none {negative : Bool} {digits : List Char}
    (h : fit? (signedNumber negative digits) = none) (c : Char) :
    fit? (signedNumber negative (digits ++ [c])) = none := by
  have hbeyond := signedNumber_concat_cases negative digits c
  rw [fit?_eq_none_iff] at h ⊢
  omega

/-- To check every product and every sum is to check the number in the end. -/
theorem accumulate?_eq (negative : Bool) (digits : List Char) :
    accumulate? negative digits = fit? (signedNumber negative digits) := by
  induction digits using List.reverseRecOn with
  | nil => cases negative <;> rfl
  | append_singleton digits c ih =>
    have hstep : accumulate? negative (digits ++ [c]) =
        (accumulate? negative digits).bind fun n => pushDigit? negative n c := by
      rw [accumulate?, List.foldlM_append]
      simp [accumulate?]
    rw [hstep, ih]
    cases hfit : fit? (signedNumber negative digits) with
    | some n => exact pushDigit?_eq (fit?_eq_some_iff.mp hfit) c
    | none => exact (fit?_concat_eq_none hfit c).symm

end Scan

/-! ## Steps in front of digits -/

namespace Cursor

variable {c : Cursor} {lead digits rest : List Char} {negative : Bool}

/-- A step in front of digits that mean a 32-bit number yields it. -/
theorem step_of_fit? {n : Int32} (hc : c.rest = lead ++ (signedText negative digits ++ rest))
    (hlead : Trivia false lead) (hne : digits ≠ []) (hdigits : ∀ d ∈ digits, d.isDigit = true)
    (hrest : Delimited rest) (h : Scan.fit? (signedNumber negative digits) = some n) :
    c.step = ⟨.ok (some ⟨.value (.int n),
        ⟨c.offset + utf8Length lead, utf8Length (signedText negative digits)⟩,
        String.ofList (signedText negative digits)⟩),
      ⟨c.offset + utf8Length lead + utf8Length (signedText negative digits), rest⟩⟩ := by
  have hn : n.toInt = signedValue negative digits := by
    rw [signedValue_eq]
    exact Scan.fit?_eq_some_iff.mp h
  exact step_of_written hc hlead (.integer hne hdigits hn) hrest

/-- A step in front of other digits complains about their text, and reads it nevertheless. -/
theorem step_of_fit?_eq_none (hc : c.rest = lead ++ (signedText negative digits ++ rest))
    (hlead : Trivia false lead) (hne : digits ≠ []) (hdigits : ∀ d ∈ digits, d.isDigit = true)
    (hrest : Delimited rest) (h : Scan.fit? (signedNumber negative digits) = none) :
    c.step = ⟨.error ⟨.integerOutOfRange (String.ofList (signedText negative digits)),
        c.offset + utf8Length lead, ["integer"]⟩,
      ⟨c.offset + utf8Length lead + utf8Length (signedText negative digits), rest⟩⟩ := by
  have hrange : ∀ n : Int32, n.toInt ≠ signedValue negative digits := by
    intro n hn
    rw [signedValue_eq] at hn
    rw [Scan.fit?_eq_some_iff.mpr hn] at h
    cases h
  have habout : Complaint.About
      ⟨.integerOutOfRange (String.ofList (signedText negative digits)), [], ["integer"]⟩
      (signedText negative digits) rest :=
    .range hne hdigits (fun d hd => isDigit_of_isDelimiter (hrest d hd)) hrange
  exact step_of_about hc hlead habout

end Cursor

/-- **Integers are exact at every length.** Take digits, with a minus sign or without, behind any
trivia and in front of a delimiter or the end, anywhere in a source. A step of a cursor in front of
the trivia leaves just what is behind the digits. If the number that they mean is a signed 32-bit
number, the step yields it, with a span that covers the text; and this is the number that is found
by reading the digits one by one. Otherwise the step finds the fault that this text is out of range,
with the position of its first character and the note that an integer was being read. And every
signed 32-bit number reads back as it is displayed. -/
theorem integers_are_exact (s : Source) :
    (∀ (before lead digits rest : List Char) (negative : Bool),
      s.text.toList = before ++ (lead ++ (signedText negative digits ++ rest)) →
      Trivia false lead → digits ≠ [] → (∀ d ∈ digits, d.isDigit = true) → Delimited rest →
      let text := signedText negative digits
      let number := signedNumber negative digits
      let start := utf8Length (before ++ lead)
      let step := (⟨utf8Length before, lead ++ (text ++ rest)⟩ : Cursor).step
      step.next = ⟨start + utf8Length text, rest⟩ ∧
      (-2147483648 ≤ number ∧ number ≤ 2147483647 → ∃ n : Int32, n.toInt = number ∧
        Scan.accumulate? negative digits = some n ∧
        step.answer =
          .ok (some ⟨.value (.int n), ⟨start, utf8Length text⟩, String.ofList text⟩)) ∧
      (¬ (-2147483648 ≤ number ∧ number ≤ 2147483647) →
        Scan.accumulate? negative digits = none ∧
        ∃ f, step.answer = .error f ∧
          (s.diagnose f).cause = .integerOutOfRange (String.ofList text) ∧
          (s.diagnose f).notes = ["integer"] ∧
          (s.diagnose f).position? =
            some ⟨(before ++ lead).count '\n', (lastLine (before ++ lead)).length⟩)) ∧
    ∀ n : Int32,
      (Source.mk s.file (Literal.value (.int n)).display).literals = .ok [.value (.int n)] := by
  constructor
  · intro before lead digits rest negative hs hlead hne hdigits hrest text number start step
    have hsize : start = utf8Length before + utf8Length lead := utf8Length_append before lead
    cases hfit : Scan.fit? number with
    | some n =>
      have hn : n.toInt = number := Scan.fit?_eq_some_iff.mp hfit
      have hstep := Cursor.step_of_fit? (c := ⟨utf8Length before, lead ++ (text ++ rest)⟩) rfl hlead
        hne hdigits hrest hfit
      rw [← hsize] at hstep
      refine ⟨congrArg Step.next hstep, fun _ => ⟨n, hn, ?_, congrArg Step.answer hstep⟩, ?_⟩
      · rw [Scan.accumulate?_eq]
        exact hfit
      · intro hrange
        rw [Scan.fit?_eq_none_iff.mpr hrange] at hfit
        cases hfit
    | none =>
      have hstep := Cursor.step_of_fit?_eq_none
        (c := ⟨utf8Length before, lead ++ (text ++ rest)⟩) rfl hlead hne hdigits hrest hfit
      rw [← hsize] at hstep
      refine ⟨congrArg Step.next hstep, fun hrange => ?_,
        fun _ => ⟨?_, _, congrArg Step.answer hstep, ?_, ?_, ?_⟩⟩
      · exact absurd hrange (Scan.fit?_eq_none_iff.mp hfit)
      · rw [Scan.accumulate?_eq]
        exact hfit
      · rw [Source.diagnose_eq]
      · rw [Source.diagnose_eq]
      · obtain ⟨d, ds, htext, -⟩ := signedText_head negative hne hdigits
        rw [← List.append_assoc] at hs
        exact Source.position?_diagnose hs (by simp [htext]) rfl
  · intro n
    refine Literal.Readable.literals_eq ?_ s.file
    intro t ht
    cases ht

/-- The least number with zeros in front, behind a word and a comment; and behind it the number that
is the greatest one and one more. -/
theorem integers_around_limits :
    let s : Source := ⟨none, "x#\n -0002147483648\t2147483648#"⟩
    (⟨1, "#\n -0002147483648\t2147483648#".toList⟩ : Cursor).step =
      ⟨.ok (some ⟨.value (.int Int32.minValue), ⟨4, 14⟩, "-0002147483648"⟩),
        ⟨18, "\t2147483648#".toList⟩⟩ ∧
    Scan.accumulate? false "2147483648".toList = none ∧
    (∃ f, (⟨18, "\t2147483648#".toList⟩ : Cursor).step.answer = .error f ∧
      (s.diagnose f).cause = .integerOutOfRange "2147483648" ∧
      (s.diagnose f).position? = some ⟨1, 16⟩) ∧
    (Source.mk none (Literal.value (.int Int32.minValue)).display).literals =
      .ok [.value (.int Int32.minValue)] := by
  intro s
  obtain ⟨hscan, hdisplay⟩ := integers_are_exact s
  have hnumber : signedNumber true "0002147483648".toList = -2147483648 := by decide
  have hbeyond : signedNumber false "2147483648".toList = 2147483648 := by decide
  have hlead : Trivia false ['#', '\n', ' '] :=
    @Trivia.comment _ [] [' '] List.not_mem_nil (.blank rfl .nil)
  obtain ⟨hnext, hfits, -⟩ := hscan ['x'] ['#', '\n', ' '] "0002147483648".toList
    "\t2147483648#".toList true (by decide) hlead (by decide) (List.all_eq_true.mp rfl)
    (delimited_cons.mpr rfl)
  obtain ⟨n, hn, -, hanswer⟩ := hfits (by rw [hnumber]; decide)
  obtain ⟨-, -, hfault⟩ := hscan "x#\n -0002147483648".toList ['\t'] "2147483648".toList ['#'] false
    (by decide) (.blank rfl .nil) (by decide) (List.all_eq_true.mp rfl) (delimited_cons.mpr rfl)
  obtain ⟨haccumulate, f, hf, hcause, -, hposition⟩ := hfault (by rw [hbeyond]; decide)
  obtain rfl : n = Int32.minValue := Int32.toInt_inj.mp (hn.trans hnumber)
  refine ⟨?_, haccumulate, ⟨f, hf, hcause, hposition⟩, hdisplay Int32.minValue⟩
  exact congrArg₂ Step.mk hanswer hnext

end LiteralPool
