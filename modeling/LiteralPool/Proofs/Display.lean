import LiteralPool.Proofs.Directives
import LiteralPool.Proofs.Sinks
import LiteralPool.Proofs.Spelling

/-!
# Displayed literals

A string is displayed character by character. Six characters have an escape of their own; of the
others, those that are hidden are written as their code point, and the rest as themselves
(`Shown`). Nothing here depends on which characters are hidden: `Literal.displayWith` displays
literals for any choice of them.

**Theorem (`listing_determines_entries`).** Different literals are displayed differently, each in
one line, and a listing has one line for each literal. So a listing determines the literals that
were listed and the labels that they got.

The texts that characters are shown as are a prefix code: whatever follows, the front of a text
tells which character is shown there (`firstShown?_append`), and no character is shown as a bare
quote. An escaped code point has as many digits as it needs, but it ends in a brace, and no
hexadecimal digit is one. So strings can be read back from their display (`flatMap_shown_inj`).
The other literals are displayed as they may be written, and what is written is read back.
-/

namespace LiteralPool

namespace Text

/-! ## Characters -/

/-- The characters with an escape of their own between quotes, and the letter of each. -/
def namedEscapes : List (Char × Char) :=
  [('\x00', '0'), ('\t', 't'), ('\n', 'n'), ('\r', 'r'), ('\\', '\\'), ('"', '"')]

/-- The ways to show a character between quotes. -/
inductive Shown (hidden : Char → Bool) : Char → List Char → Prop
  | named {c letter : Char} : (c, letter) ∈ namedEscapes → Shown hidden c ['\\', letter]
  | codePoint {c : Char} : c ∉ namedEscapes.map Prod.fst → hidden c = true →
      Shown hidden c ('\\' :: 'u' :: '\x7b' :: (Nat.toDigits 16 c.toNat ++ ['\x7d']))
  | itself {c : Char} : c ∉ namedEscapes.map Prod.fst → hidden c = false → Shown hidden c [c]

theorem mem_namedEscapes_of_shortForm? {c letter : Char} (h : shortForm? c = some letter) :
    (c, letter) ∈ namedEscapes := by
  unfold shortForm? at h
  split at h
  all_goals cases h
  all_goals decide

theorem notMem_namedEscapes {c : Char} (h : shortForm? c = none) (hquote : c ≠ '"') :
    c ∉ namedEscapes.map Prod.fst := by
  intro hmem
  simp only [namedEscapes, List.map_cons, List.map_nil, List.mem_cons, List.not_mem_nil,
    or_false] at hmem
  rcases hmem with rfl | rfl | rfl | rfl | rfl | rfl
  · cases h
  · cases h
  · cases h
  · cases h
  · cases h
  · exact hquote rfl

/-- Every character is shown in one of these ways. -/
theorem shown_spec (hidden : Char → Bool) (c : Char) : Shown hidden c (shown hidden '"' c) := by
  unfold shown
  split
  · exact .named (mem_namedEscapes_of_shortForm? ‹_›)
  · next hshort =>
    split_ifs with hquote hhidden
    · subst hquote
      exact .named (by decide)
    · exact .codePoint (notMem_namedEscapes hshort hquote) hhidden
    · exact .itself (notMem_namedEscapes hshort hquote) (Bool.not_eq_true _ ▸ hhidden)

/-! ## Code points -/

/-- The value of a hexadecimal digit. -/
def hexDigit (c : Char) : Nat := if c.isDigit then c.toNat - '0'.toNat else c.toNat - 'a'.toNat + 10

/-- The number that hexadecimal digits mean. -/
def ofHex (digits : List Char) : Nat := digits.foldl (fun n c => 16 * n + hexDigit c) 0

theorem hexDigit_digitChar : ∀ d < 16, hexDigit (Nat.digitChar d) = d := by decide

theorem ofHex_toDigits (n : Nat) : ofHex (Nat.toDigits 16 n) = n := by
  induction n using Nat.strongRecOn with
  | ind n ih =>
    rw [Nat.toDigits_eq_if (by decide)]
    split_ifs with hn
    · exact (Nat.zero_add _).trans (hexDigit_digitChar n hn)
    · have hfront : ofHex (Nat.toDigits 16 (n / 16)) = n / 16 :=
        ih _ (Nat.div_lt_self (by omega) (by decide))
      have hlast : hexDigit (Nat.digitChar (n % 16)) = n % 16 :=
        hexDigit_digitChar _ (Nat.mod_lt n (by decide))
      rw [ofHex] at hfront
      rw [ofHex, List.foldl_append, List.foldl_cons, List.foldl_nil, hfront, hlast]
      exact Nat.div_add_mod n 16

theorem brace_notMem_toDigits (n : Nat) : '\x7d' ∉ Nat.toDigits 16 n := by
  intro h
  obtain ⟨d, -, hd⟩ := exists_of_mem_toDigits (by decide) h
  exact Nat.digitChar_ne '\x7d' rfl hd.symm

/-! ## Reading what is shown -/

/-- The character with this letter behind the backslash. -/
def ofLetter (letter : Char) : Char :=
  ((namedEscapes.find? (·.2 == letter)).map Prod.fst).getD letter

/-- The code point between braces, as a character, and what follows the braces. -/
def codePoint (cs : List Char) : Char × List Char :=
  let inner := cs.drop 1
  (Char.ofNat (ofHex (inner.takeWhile (· != '\x7d'))), (inner.dropWhile (· != '\x7d')).drop 1)

/-- The character shown at the front of a text, and what follows it. A bare quote shows none. -/
def firstShown? : List Char → Option (Char × List Char)
  | [] => none
  | c :: cs =>
    if c = '"' then none
    else if c = '\\' then
      match cs with
      | [] => none
      | letter :: cs => some (if letter = 'u' then codePoint cs else (ofLetter letter, cs))
    else some (c, cs)

theorem codePoint_append (c : Char) (rest : List Char) :
    codePoint ('\x7b' :: (Nat.toDigits 16 c.toNat ++ '\x7d' :: rest)) = (c, rest) := by
  have hdigits : ∀ d ∈ Nat.toDigits 16 c.toNat, (d != '\x7d') = true := by
    intro d hd
    rw [bne_iff_ne]
    rintro rfl
    exact brace_notMem_toDigits c.toNat hd
  have hbrace : ∀ d ∈ ('\x7d' :: rest).head?, (d != '\x7d') = false := by simp
  obtain ⟨htake, hdrop⟩ := run_append hdigits hbrace
  simp only [codePoint, List.drop_succ_cons, List.drop_zero, htake, hdrop, ofHex_toDigits,
    Char.ofNat_toNat]

/-- Whatever follows, the front of a text tells which character is shown there. -/
theorem firstShown?_append {hidden : Char → Bool} {c : Char} {text : List Char}
    (h : Shown hidden c text) (rest : List Char) :
    firstShown? (text ++ rest) = some (c, rest) := by
  cases h with
  | named hmem =>
    simp only [namedEscapes, List.mem_cons, Prod.mk.injEq, List.not_mem_nil, or_false] at hmem
    rcases hmem with ⟨rfl, rfl⟩ | ⟨rfl, rfl⟩ | ⟨rfl, rfl⟩ | ⟨rfl, rfl⟩ | ⟨rfl, rfl⟩ | ⟨rfl, rfl⟩
    all_goals rfl
  | codePoint _ _ =>
    have htext : '\\' :: 'u' :: '\x7b' :: (Nat.toDigits 16 c.toNat ++ ['\x7d']) ++ rest =
        '\\' :: 'u' :: '\x7b' :: (Nat.toDigits 16 c.toNat ++ '\x7d' :: rest) := by simp
    rw [htext]
    exact congrArg some (codePoint_append c rest)
  | itself hnamed _ =>
    have hquote : c ≠ '"' := by
      rintro rfl
      exact hnamed (by decide)
    have hbackslash : c ≠ '\\' := by
      rintro rfl
      exact hnamed (by decide)
    simp [firstShown?, hquote, hbackslash]

theorem firstShown?_shown (hidden : Char → Bool) (c : Char) (rest : List Char) :
    firstShown? (shown hidden '"' c ++ rest) = some (c, rest) :=
  firstShown?_append (shown_spec hidden c) rest

/-- Characters that are shown up to a quote can be read back. -/
theorem flatMap_shown_inj {hidden hidden' : Char → Bool} {cs ds : List Char}
    (h : cs.flatMap (shown hidden '"') ++ ['"'] = ds.flatMap (shown hidden' '"') ++ ['"']) :
    cs = ds := by
  have hquote : firstShown? ['"'] = none := rfl
  induction cs generalizing ds with
  | nil =>
    cases ds with
    | nil => rfl
    | cons d ds =>
      have hfirst := congrArg firstShown? h
      rw [List.flatMap_nil, List.nil_append, hquote, List.flatMap_cons, List.append_assoc,
        firstShown?_shown] at hfirst
      cases hfirst
  | cons c cs ih =>
    have hfirst := congrArg firstShown? h
    rw [List.flatMap_cons, List.append_assoc, firstShown?_shown] at hfirst
    cases ds with
    | nil =>
      rw [List.flatMap_nil, List.nil_append, hquote] at hfirst
      cases hfirst
    | cons d ds =>
      rw [List.flatMap_cons, List.append_assoc, firstShown?_shown] at hfirst
      obtain ⟨rfl, hmore⟩ := Prod.mk.inj (Option.some.inj hfirst)
      rw [ih hmore]

end Text

open Text

/-! ## Literals -/

/-- The text of a literal when the characters in `hidden` are written as their code points. -/
def Literal.displayWith (hidden : Char → Bool) : Literal → String
  | .value (.string s) => String.ofList ('"' :: (s.toList.flatMap (shown hidden '"') ++ ['"']))
  | l => l.display

theorem Literal.displayWith_isHidden (l : Literal) : l.displayWith isHidden = l.display := by
  match l with
  | .value (.bool _) => rfl
  | .value (.int _) => rfl
  | .value (.string _) => rfl
  | .nothing => rfl

/-- Is the literal a string? -/
def Literal.isString : Literal → Bool
  | .value (.string _) => true
  | _ => false

theorem Literal.eq_string_of_isString {l : Literal} (h : l.isString = true) :
    ∃ s, l = .value (.string s) := by
  match l with
  | .value (.bool _) => cases h
  | .value (.int _) => cases h
  | .value (.string s) => exact ⟨s, rfl⟩
  | .nothing => cases h

theorem Literal.Written.head?_ne_quote {l : Literal} {text : List Char} (h : l.Written text)
    (hl : l.isString = false) : text.head? ≠ some '"' := by
  cases h with
  | wordTrue => decide
  | wordFalse => decide
  | wordNone => decide
  | @integer negative digits n hne hdigits _ =>
    obtain ⟨d, digits, rfl⟩ := List.exists_cons_of_ne_nil hne
    have hd : d.isDigit = true := hdigits d (by simp)
    intro hhead
    cases negative with
    | true => cases hhead
    | false =>
      obtain rfl : d = '"' := Option.some.inj hhead
      cases hd
  | string _ => cases hl

theorem Literal.written_displayWith (hidden : Char → Bool) {l : Literal}
    (hl : l.isString = false) : l.Written (l.displayWith hidden).toList := by
  match l with
  | .value (.bool b) => exact written_spelling (.value (.bool b))
  | .value (.int n) => exact written_spelling (.value (.int n))
  | .nothing => exact written_spelling .nothing

theorem Literal.head?_displayWith (hidden : Char → Bool) (l : Literal) :
    (l.displayWith hidden).toList.head? = some '"' ↔ l.isString = true := by
  cases hl : l.isString with
  | true =>
    obtain ⟨s, rfl⟩ := eq_string_of_isString hl
    simp [displayWith]
  | false => simpa using (written_displayWith hidden hl).head?_ne_quote hl

/-- Literals are displayed differently, even with different hidden characters. -/
theorem Literal.displayWith_inj {hidden hidden' : Char → Bool} {l m : Literal}
    (h : l.displayWith hidden = m.displayWith hidden') : l = m := by
  have hkind : l.isString = m.isString := by
    rw [Bool.eq_iff_iff, ← head?_displayWith hidden, h, head?_displayWith]
  cases hl : l.isString with
  | true =>
    obtain ⟨s, rfl⟩ := eq_string_of_isString hl
    obtain ⟨t, rfl⟩ := eq_string_of_isString (hkind.symm.trans hl)
    have hbody := congrArg String.toList h
    simp only [displayWith, String.toList_ofList, List.cons.injEq, true_and] at hbody
    rw [String.toList_inj.mp (flatMap_shown_inj hbody)]
  | false =>
    have hm : m.isString = false := hkind.symm.trans hl
    have hread := read?_of_written (written_displayWith hidden hl)
    rw [h, read?_of_written (written_displayWith hidden' hm)] at hread
    exact (Option.some.inj hread).symm

theorem Literal.oneLine_displayWith (hidden : Char → Bool) (l : Literal) :
    OneLine (l.displayWith hidden) := by
  match l with
  | .value (.bool b) => exact oneLine_display (.value (.bool b))
  | .value (.int n) => exact oneLine_display (.value (.int n))
  | .value (.string s) =>
    have hchars : ∀ c, '\n' ∉ shown hidden '"' c := lineFeed_notMem_shown hidden (by decide)
    simp [OneLine, displayWith, hchars]
  | .nothing => exact oneLine_display .nothing

/-! ## Listings -/

/-- The line of a literal and its label in a listing. -/
def listingEntry (hidden : Char → Bool) (entry : Literal × Option Label) : String :=
  listingLine (entry.1.displayWith hidden) entry.2

/-- The listing of these literals with these labels. -/
def listingWith (hidden : Char → Bool) (entries : List (Literal × Option Label)) : String :=
  unlines (entries.map (listingEntry hidden))

theorem listingEntry_injective (hidden : Char → Bool) :
    Function.Injective (listingEntry hidden) := by
  intro a b h
  obtain ⟨hdisplay, hlabel⟩ := listingLine_inj h
  exact Prod.ext (Literal.displayWith_inj hdisplay) hlabel

theorem lines_listingWith (hidden : Char → Bool) (entries : List (Literal × Option Label)) :
    lines (listingWith hidden entries) = entries.map (listingEntry hidden) := by
  refine lines_unlines fun line hline => ?_
  obtain ⟨entry, -, rfl⟩ := List.mem_map.mp hline
  exact oneLine_listingLine (entry.1.oneLine_displayWith hidden) entry.2

theorem listingWith_injective (hidden : Char → Bool) :
    Function.Injective (listingWith hidden) := by
  intro a b h
  have hlines := congrArg lines h
  rw [lines_listingWith, lines_listingWith] at hlines
  exact List.map_injective_iff.mpr (listingEntry_injective hidden) hlines

namespace Pool

theorem length_answers (p : Pool) (rs : List Request) : (p.answers rs).length = rs.length := by
  induction rs generalizing p with
  | nil => rfl
  | cons r rs ih => exact congrArg (· + 1) (ih _)

/-- A listing is that of its literals with the answers to them. -/
theorem text_list_eq (p : Pool) (literals : List Literal) :
    (p.list literals).text =
      listingWith isHidden (literals.zip (p.answers (literals.map .literal))) := by
  rw [text_list_answers, listingWith]
  refine congrArg unlines (List.map_congr_left fun entry _ => ?_)
  exact congrArg (listingLine · entry.2) entry.1.displayWith_isHidden.symm

end Pool

/-- A hidden character is neither printable ASCII nor one with an escape of its own. -/
theorem Text.not_printable_of_isHidden {c : Char} (h : isHidden c = true) :
    ¬ (0x20 ≤ c.toNat ∧ c.toNat < 0x7f) ∧ c ∉ namedEscapes.map Prod.fst := by
  constructor
  · intro ⟨hlow, hhigh⟩
    rw [isHidden_eq_false_of_printable hlow hhigh] at h
    cases h
  · intro hmem
    have hnamed : (namedEscapes.map Prod.fst).all (!isHidden ·) = true := by decide
    have hc := List.all_eq_true.mp hnamed c hmem
    rw [h] at hc
    cases hc

/-- **A listing determines what was listed.** Whatever characters are hidden: a string is displayed
character by character between quotes, literals are displayed differently, each in one line, and a
listing has one line for each of its entries and determines them. Hidden are none of the characters
that are printable or have an escape of their own. What a pool lists are the literals in order with
the labels that answer them; so the texts of two listings, of any pools, are equal exactly if the
same literals were listed and got the same labels. -/
theorem listing_determines_entries :
    (∀ hidden : Char → Bool,
      (∀ s : String, ∃ texts, List.Forall₂ (Shown hidden) s.toList texts ∧
        ((Literal.value (.string s)).displayWith hidden).toList =
          '"' :: (texts.flatten ++ ['"'])) ∧
      Function.Injective (Literal.displayWith hidden) ∧
      (∀ l : Literal, OneLine (l.displayWith hidden)) ∧
      Function.Injective (listingWith hidden) ∧
      ∀ entries, lines (listingWith hidden entries) = entries.map (listingEntry hidden)) ∧
    (∀ c, isHidden c = true →
      ¬ (0x20 ≤ c.toNat ∧ c.toNat < 0x7f) ∧ c ∉ namedEscapes.map Prod.fst) ∧
    (∀ l : Literal, l.displayWith isHidden = l.display) ∧
    (∀ (p : Pool) (literals : List Literal),
      (p.list literals).text =
        listingWith isHidden (literals.zip (p.answers (literals.map .literal))) ∧
      (p.answers (literals.map .literal)).length = literals.length ∧
      (lines (p.list literals).text).length = literals.length) ∧
    ∀ (p q : Pool) (L M : List Literal), (p.list L).text = (q.list M).text ↔
      L = M ∧ p.answers (L.map .literal) = q.answers (M.map .literal) := by
  refine ⟨fun hidden => ⟨fun s => ?_, fun l m => Literal.displayWith_inj,
    Literal.oneLine_displayWith hidden, listingWith_injective hidden, lines_listingWith hidden⟩,
    fun c => not_printable_of_isHidden, Literal.displayWith_isHidden,
    fun p literals => ⟨p.text_list_eq literals, ?_, ?_⟩, fun p q L M => ⟨fun h => ?_, ?_⟩⟩
  · refine ⟨s.toList.map (shown hidden '"'), ?_, ?_⟩
    · rw [List.forall₂_map_right_iff, List.forall₂_same]
      exact fun c _ => shown_spec hidden c
    · rw [Literal.displayWith, String.toList_ofList, ← List.flatMap_def]
  · rw [Pool.length_answers, List.length_map]
  · rw [Pool.lines_list, List.length_map]
  · rw [Pool.text_list_eq, Pool.text_list_eq] at h
    have hzip := listingWith_injective isHidden h
    have hlength : ∀ (p : Pool) (L : List Literal),
        L.length = (p.answers (L.map .literal)).length := by
      intro p L
      rw [Pool.length_answers, List.length_map]
    have hunzip := congrArg List.unzip hzip
    rw [List.unzip_zip (hlength p L), List.unzip_zip (hlength q M)] at hunzip
    exact Prod.mk.inj hunzip
  · rintro ⟨rfl, hanswers⟩
    rw [Pool.text_list_eq, Pool.text_list_eq, hanswers]

/-- A hidden character, and a string that spells out its escape. -/
theorem listing_of_spelled_escape :
    isHidden '\x01' = true ∧ (¬ (0x20 ≤ '\x01'.toNat ∧ '\x01'.toNat < 0x7f) ∧
      '\x01' ∉ namedEscapes.map Prod.fst) ∧
    (Pool.empty.list [.value (.string "\x01")]).text ≠
      (Pool.empty.list [.value (.string "\\u\x7b1\x7d")]).text := by
  have hhidden : isHidden '\x01' = true := by decide
  refine ⟨hhidden, listing_determines_entries.2.1 '\x01' hhidden, fun h => ?_⟩
  have hliterals := ((listing_determines_entries.2.2.2.2 _ _ _ _).mp h).1
  exact absurd hliterals (by decide)

end LiteralPool
