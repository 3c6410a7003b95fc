import Mathlib
import LiteralPool.Proofs.Paths

/-!
# Stems and extensions

The *stem* of a name is what stands in front of its last point, unless that point is the first
character; every name has one stem (`existsUnique_hasStem`).

**Another extension leaves everything but the extension (`Path.endsIn_withExtension`).** If a path
ends in a name with a stem, then with another extension it ends in the stem with that extension,
after the same pieces.

The old extension is cut off the end of the text, however, and not off the name. Where idle pieces
stand behind the name, the cut takes them first and may leave characters of the old extension
(`Path.endsIn_cut`). They go when the new extension is set, for what is left is a name with the same
stem. The exception is two points with an extension and nothing behind it: the cut leaves `..`,
which is no name, and nothing is set (`Path.endsIn_withExtension_of_dots`).
-/

namespace LiteralPool

open Text

namespace Path

variable {p q : Path} {front slack : List String} {name stem extension new : String}

/-! ## Stems -/

/-- What stands in front of the last point of a name, or the whole name if no point stands behind
its first character. -/
inductive HasStem : String → String → Prop
  | extended {stem extension : String} : stem ≠ "" → '.' ∉ extension.toList →
      HasStem (stem ++ "." ++ extension) stem
  | whole {name : String} : '.' ∉ name.toList.tail → HasStem name name

theorem HasStem.ne_empty (h : HasStem name stem) (hname : name ≠ "") : stem ≠ "" := by
  cases h with
  | extended hstem => exact hstem
  | whole => exact hname

theorem ne_point_of_notMem {cs : List Char} (h : '.' ∉ cs) :
    ∀ c ∈ cs.reverse, (c != '.') = true := by
  intro c hc
  rw [bne_iff_ne]
  rintro rfl
  exact h (List.mem_reverse.mp hc)

theorem splitExtension_extended (hstem : stem ≠ "") (hextension : '.' ∉ extension.toList) :
    splitExtension (stem ++ "." ++ extension) = (stem, some extension) := by
  have hreverse : (stem ++ "." ++ extension).toList.reverse =
      extension.toList.reverse ++ '.' :: stem.toList.reverse := by simp
  have hpoints := ne_point_of_notMem hextension
  obtain ⟨c, cs, hcs⟩ := List.exists_cons_of_ne_nil
    (mt List.reverse_eq_nil_iff.mp (mt String.toList_eq_nil_iff.mp hstem))
  have hback : String.ofList (c :: cs).reverse = stem := by
    rw [← hcs, List.reverse_reverse, String.ofList_toList]
  rw [splitExtension, hreverse, List.takeWhile_append_of_pos hpoints,
    List.dropWhile_append_of_pos hpoints, hcs, List.dropWhile_cons_of_neg (by simp),
    List.takeWhile_cons_of_neg (by simp)]
  simp only [List.append_nil, List.reverse_reverse, String.ofList_toList, hback]

theorem splitExtension_whole (h : '.' ∉ name.toList.tail) : splitExtension name = (name, none) := by
  rw [splitExtension]
  cases hname : name.toList with
  | nil => rfl
  | cons c cs =>
    rw [hname, List.tail_cons] at h
    rw [List.reverse_cons, List.dropWhile_append_of_pos (ne_point_of_notMem h)]
    by_cases hc : c = '.'
    · simp [hc]
    · simp [hc]

/-- A name is split behind its stem. -/
theorem HasStem.splitExtension_fst (h : HasStem name stem) : (splitExtension name).1 = stem := by
  cases h with
  | extended hstem hextension => rw [splitExtension_extended hstem hextension]
  | whole h => rw [splitExtension_whole h]

theorem exists_hasStem (name : String) : ∃ stem, HasStem name stem := by
  by_cases h : '.' ∈ name.toList.tail
  · obtain ⟨c, cs, hname⟩ : ∃ c cs, name.toList = c :: cs := by
      cases hname : name.toList with
      | nil =>
        rw [hname] at h
        cases h
      | cons c cs => exact ⟨c, cs, rfl⟩
    rw [hname, List.tail_cons, ← List.mem_reverse] at h
    obtain ⟨behind, front, hsplit, hbehind⟩ := List.eq_append_cons_of_mem h
    have hcs : cs = front.reverse ++ '.' :: behind.reverse := by
      rw [← List.reverse_reverse cs, hsplit]
      simp
    have hpoint : name =
        String.ofList (c :: front.reverse) ++ "." ++ String.ofList behind.reverse := by
      rw [← String.toList_inj, hname, hcs]
      simp
    rw [hpoint]
    exact ⟨_, .extended (by simp) (by simpa using hbehind)⟩
  · exact ⟨name, .whole h⟩

/-- Every name has one stem. -/
theorem existsUnique_hasStem (name : String) : ∃! stem, HasStem name stem := by
  obtain ⟨stem, hstem⟩ := exists_hasStem name
  refine ⟨stem, hstem, fun other hother => ?_⟩
  rw [← hother.splitExtension_fst, hstem.splitExtension_fst]

/-! ## Another extension for a name -/

theorem isIdle_append_point (hstem : stem ≠ "") : isIdle (stem ++ "." ++ extension) = false := by
  obtain ⟨c, cs, hcs⟩ := exists_toList_cons hstem
  have hlength : 2 ≤ (stem ++ "." ++ extension).toList.length := by
    simp [hcs]
    omega
  rw [isIdle, Bool.or_eq_false_iff, beq_eq_false_iff_ne, beq_eq_false_iff_ne]
  constructor
  · intro h
    simp [h] at hlength
  · intro h
    simp [h] at hlength

/-- Another extension for the name at the end, whose stem is kept. -/
theorem endsIn_setExtension (h : p.EndsIn front name slack) (hname : name ≠ "..")
    (hstem : HasStem name stem) (hnew : '/' ∉ new.toList) :
    (p.setExtension new).EndsIn front (stem ++ "." ++ new) [] := by
  have hset : p.setExtension new = ofPieces (front ++ [stem ++ "." ++ new]) := by
    rw [setExtension, h.name?, if_neg hname, h.trimmed, List.dropLast_concat]
    simp only [hstem.splitExtension_fst]
  have hslash : '/' ∉ stem.toList := by
    have hname := h.slash_notMem_name
    cases hstem with
    | whole => exact hname
    | extended =>
      rw [String.toList_append, String.toList_append, List.mem_append, List.mem_append] at hname
      exact fun hstem => hname (.inl (.inl hstem))
  have hne : stem ≠ "" := hstem.ne_empty (ne_empty_of_not_idle h.not_idle)
  rw [hset]
  exact endsIn_ofPieces h.slash_notMem_front (by simp [hslash, hnew]) (isIdle_append_point hne)
    (by simp)

/-! ## Cutting bytes off the end -/

theorem dropBytes_zero (cs : List Char) : dropBytes 0 cs = cs := by
  cases cs with
  | nil => rfl
  | cons c cs => rw [dropBytes, if_neg (by have := c.utf8Size_pos; omega)]

/-- Where characters take enough bytes, those behind them stay. -/
theorem dropBytes_append {bytes : Nat} {cs : List Char} (h : bytes ≤ utf8Length cs)
    (ds : List Char) : dropBytes bytes (cs ++ ds) = dropBytes bytes cs ++ ds := by
  induction cs generalizing bytes with
  | nil =>
    obtain rfl : bytes = 0 := Nat.le_zero.mp h
    exact dropBytes_zero ds
  | cons c cs ih =>
    rw [utf8Length_cons] at h
    rw [List.cons_append, dropBytes, dropBytes]
    split_ifs with hc
    · exact ih (by omega)
    · rfl

theorem dropBytes_suffix (bytes : Nat) (cs : List Char) : dropBytes bytes cs <:+ cs := by
  induction cs generalizing bytes with
  | nil => exact List.suffix_rfl
  | cons c cs ih =>
    rw [dropBytes]
    split_ifs
    · exact (ih _).trans (List.suffix_cons c cs)
    · exact List.suffix_rfl

/-- Everything is dropped if and only if the bytes allow it. -/
theorem dropBytes_eq_nil_iff {bytes : Nat} {cs : List Char} :
    dropBytes bytes cs = [] ↔ utf8Length cs ≤ bytes := by
  induction cs generalizing bytes with
  | nil => exact ⟨fun _ => Nat.zero_le _, fun _ => rfl⟩
  | cons c cs ih =>
    rw [dropBytes, utf8Length_cons]
    split_ifs with hc
    · rw [ih]
      omega
    · refine iff_of_false not_false ?_
      omega

theorem utf8Length_reverse (cs : List Char) : utf8Length cs.reverse = utf8Length cs := by
  induction cs with
  | nil => rfl
  | cons c cs ih =>
    rw [List.reverse_cons, utf8Length_append, ih, utf8Length_cons, utf8Length_cons, utf8Length_nil]
    omega

/-- A cut that takes no more bytes than the end of the text has leaves a front part of that end. -/
theorem toList_cut {cs ds : List Char} {bytes : Nat} (htext : p.text.toList = cs ++ ds)
    (h : bytes ≤ utf8Length ds) :
    ∃ left, left <+: ds ∧ (p.cut bytes).text.toList = cs ++ left ∧
      (left = [] ↔ utf8Length ds ≤ bytes) := by
  refine ⟨(dropBytes bytes ds.reverse).reverse, ?_, ?_, ?_⟩
  · have hsuffix := dropBytes_suffix bytes ds.reverse
    rwa [← List.reverse_prefix, List.reverse_reverse] at hsuffix
  · rw [← utf8Length_reverse] at h
    simp [cut, htext, dropBytes_append h]
  · rw [List.reverse_eq_nil_iff, dropBytes_eq_nil_iff, utf8Length_reverse]

/-! ## What a cut leaves of an extension -/

/-- A front part of an idle piece is idle. -/
theorem isIdle_of_prefix {piece : String} (h : isIdle piece = true) {cs : List Char}
    (hcs : cs <+: piece.toList) : isIdle (String.ofList cs) = true := by
  obtain rfl | rfl := isIdle_iff.mp h
  · rw [List.prefix_nil.mp hcs]
    rfl
  · obtain rfl | ⟨rest, rfl, hrest⟩ := List.prefix_cons_iff.mp hcs
    · rfl
    · rw [List.prefix_nil.mp hrest]
      rfl

/-- A front part of the text of idle pieces is the text of idle pieces. -/
theorem exists_slack_of_prefix (hidle : ∀ piece ∈ slack, isIdle piece = true) {cs : List Char}
    (h : cs <+: slack.flatMap fun piece => '/' :: piece.toList) :
    ∃ slack' : List String, (∀ piece ∈ slack', isIdle piece = true) ∧
      cs = slack'.flatMap fun piece => '/' :: piece.toList := by
  induction slack generalizing cs with
  | nil => exact ⟨[], by simp, List.prefix_nil.mp h⟩
  | cons piece slack ih =>
    rw [List.forall_mem_cons] at hidle
    obtain rfl | ⟨rest, rfl, behind, hrest⟩ := List.prefix_cons_iff.mp h
    · exact ⟨[], by simp, rfl⟩
    · obtain ⟨more, hpiece, -⟩ | ⟨more, rfl, hmore⟩ := List.append_eq_append_iff.mp hrest
      · refine ⟨[String.ofList rest], ?_, by simp⟩
        simpa using isIdle_of_prefix hidle.1 ⟨more, hpiece.symm⟩
      · obtain ⟨slack', hslack', rfl⟩ := ih hidle.2 ⟨behind, hmore.symm⟩
        exact ⟨piece :: slack', List.forall_mem_cons.mpr ⟨hidle.1, hslack'⟩, rfl⟩

/-- A front part of an extension with idle pieces behind it is a front part of the extension, with
idle pieces behind it only if it is all of the extension. -/
theorem exists_of_prefix_extension (hidle : ∀ piece ∈ slack, isIdle piece = true) {cs : List Char}
    (h : cs <+: extension.toList ++ slack.flatMap fun piece => '/' :: piece.toList) :
    ∃ (left : String) (slack' : List String), left.toList <+: extension.toList ∧
      (∀ piece ∈ slack', isIdle piece = true) ∧
      cs = left.toList ++ slack'.flatMap (fun piece => '/' :: piece.toList) ∧
      (left = "" → cs = [] ∨ extension = "") := by
  obtain ⟨behind, hcs⟩ := h
  -- The front part ends within the extension, or behind it.
  obtain ⟨more, hextension, -⟩ | ⟨more, rfl, hmore⟩ := List.append_eq_append_iff.mp hcs
  · refine ⟨String.ofList cs, [], ⟨more, by simp [hextension]⟩, by simp, by simp, ?_⟩
    exact fun hnil => .inl (by simpa using hnil)
  · obtain ⟨slack', hslack', rfl⟩ := exists_slack_of_prefix hidle ⟨behind, hmore.symm⟩
    exact ⟨extension, slack', List.prefix_rfl, hslack', rfl, .inr⟩

/-- A cut by the bytes of the extension leaves a name with the same stem, and all of the extension
is cut off if nothing stands behind it. -/
theorem endsIn_cut (h : p.EndsIn front (stem ++ "." ++ extension) slack) (hstem : stem ≠ "") :
    ∃ left slack', (p.cut (utf8Length extension.toList)).EndsIn front (stem ++ "." ++ left) slack' ∧
      left.toList <+: extension.toList ∧ (left = "" ↔ extension = "" ∨ slack = []) := by
  have htext : p.text.toList =
      (front.flatMap (fun piece => piece.toList ++ ['/']) ++ (stem ++ ".").toList) ++
        (extension.toList ++ slack.flatMap fun piece => '/' :: piece.toList) := by
    rw [toList_text h.pieces]
    simp
  have hbytes : utf8Length extension.toList ≤
      utf8Length (extension.toList ++ slack.flatMap fun piece => '/' :: piece.toList) := by
    rw [utf8Length_append]
    omega
  obtain ⟨cs, hprefix, hcut, hnil⟩ := toList_cut htext hbytes
  obtain ⟨left, slack', hleft, hslack', rfl, hempty⟩ := exists_of_prefix_extension h.idle hprefix
  have hofPieces : p.cut (utf8Length extension.toList) =
      ofPieces (front ++ (stem ++ "." ++ left) :: slack') := by
    refine eq_of_toList ?_
    rw [hcut, toList_ofPieces]
    simp
  refine ⟨left, slack', ?_, hleft, ?_, ?_⟩
  · have hname : '/' ∉ (stem ++ "." ++ left).toList := by
      intro hslash
      refine h.slash_notMem_name ?_
      rw [String.toList_append] at hslash ⊢
      exact ((List.prefix_append_right_inj _).mpr hleft).subset hslash
    rw [hofPieces]
    exact endsIn_ofPieces h.slash_notMem_front hname (isIdle_append_point hstem) hslack'
  · intro hl
    obtain hcs | hextension := hempty hl
    · have hall := hnil.mp hcs
      cases slack with
      | nil => exact .inr rfl
      | cons piece slack =>
        -- The slash behind the extension takes a byte of the cut, so the extension is not used up.
        rw [List.flatMap_cons, List.cons_append, utf8Length_append, utf8Length_cons] at hall
        have hslash := Char.utf8Size_pos '/'
        omega
    · exact .inl hextension
  · rintro (rfl | rfl)
    · exact String.toList_eq_nil_iff.mp (List.prefix_nil.mp hleft)
    · have hcs := hnil.mpr (by simp)
      exact String.toList_eq_nil_iff.mp (List.append_eq_nil_iff.mp hcs).1

/-! ## Another extension for a path -/

/-- The last piece of the path is two points with an extension behind them. -/
def EndsInDots (p : Path) : Prop :=
  ∃ front extension, p.pieces = front ++ [".." ++ extension] ∧ extension ≠ "" ∧
    '.' ∉ extension.toList

theorem not_endsInDots (front : List String) (name : String) (h : p.pieces = front ++ [name])
    (hname : ¬ ['.', '.'] <+: name.toList) :
    ¬ p.EndsInDots := by
  rintro ⟨front', extension, hpieces, -⟩
  obtain ⟨-, hlast⟩ := List.append_inj' (h.symm.trans hpieces) rfl
  obtain rfl : name = ".." ++ extension := List.singleton_inj.mp hlast
  exact hname ⟨extension.toList, by simp⟩

theorem withExtension_of_extended (h : p.EndsIn front (stem ++ "." ++ extension) slack)
    (hname : stem ++ "." ++ extension ≠ "..") (hstem : stem ≠ "")
    (hextension : '.' ∉ extension.toList) :
    p.withExtension new = (p.cut (utf8Length extension.toList)).setExtension new := by
  have hold : p.extension? = some extension := by
    rw [extension?, h.name?, if_neg hname, Option.bind_some,
      splitExtension_extended hstem hextension]
  rw [withExtension, hold]

theorem append_point_eq_dots (hstem : stem ≠ "") (h : stem ++ "." ++ extension = "..") :
    stem = "." ∧ extension = "" := by
  have hlist : stem.toList ++ '.' :: extension.toList = ['.', '.'] := by
    simpa using congrArg String.toList h
  obtain ⟨c, cs, hcs⟩ := exists_toList_cons hstem
  have hlength := congrArg List.length hlist
  simp only [hcs, List.length_append, List.length_cons, List.length_nil] at hlength
  obtain rfl : cs = [] := List.length_eq_zero_iff.mp (by omega)
  rw [hcs, List.cons_append, List.nil_append, List.cons.injEq, List.cons.injEq] at hlist
  obtain ⟨rfl, -, hextension⟩ := hlist
  exact ⟨String.toList_inj.mp hcs, String.toList_eq_nil_iff.mp hextension⟩

/-- **Another extension leaves everything but the extension**, unless the path ends in two points
with an extension. -/
theorem endsIn_withExtension (h : p.EndsIn front name slack) (hname : name ≠ "..")
    (hstem : HasStem name stem) (hnew : '/' ∉ new.toList) (hdots : ¬ p.EndsInDots) :
    (p.withExtension new).EndsIn front (stem ++ "." ++ new) [] := by
  cases hstem with
  | whole hwhole =>
    have hnone : p.extension? = none := by
      rw [extension?, h.name?, if_neg hname, Option.bind_some, splitExtension_whole hwhole]
    rw [withExtension, hnone]
    exact endsIn_setExtension h hname (.whole hwhole) hnew
  | @extended _ extension hstem hextension =>
    rw [withExtension_of_extended h hname hstem hextension]
    obtain ⟨left, slack', hcut, hleft, hempty⟩ := endsIn_cut h hstem
    have hpoint : '.' ∉ left.toList := fun hpoint => hextension (hleft.subset hpoint)
    refine endsIn_setExtension hcut ?_ (.extended hstem hpoint) hnew
    -- What is left could only be two points if all of the extension was cut off behind them.
    intro hleftDots
    obtain ⟨rfl, hnothing⟩ := append_point_eq_dots hstem hleftDots
    obtain rfl | rfl := hempty.mp hnothing
    · exact hname rfl
    · refine hdots ⟨front, extension, h.pieces, ?_, hextension⟩
      rintro rfl
      exact hname rfl

/-- If a path ends in two points with an extension, the extension is cut off, and no other is
set. -/
theorem endsIn_withExtension_of_dots (h : p.EndsInDots) (new : String) :
    ∃ front name slack, p.EndsIn front name [] ∧ name ≠ ".." ∧
      (p.withExtension new).EndsIn front ".." slack := by
  obtain ⟨front, extension, hpieces, hne, hextension⟩ := h
  have hends : p.EndsIn front ("." ++ "." ++ extension) [] :=
    ⟨hpieces, isIdle_append_point (by decide), by simp⟩
  have hname : "." ++ "." ++ extension ≠ ".." :=
    fun hdots => hne (append_point_eq_dots (by decide) hdots).2
  obtain ⟨left, slack, hcut, -, hleft⟩ := endsIn_cut hends (by decide)
  obtain rfl := hleft.mpr (.inr rfl)
  have hcutDots : (p.cut (utf8Length extension.toList)).EndsIn front ".." slack := hcut
  refine ⟨front, _, slack, hends, hname, ?_⟩
  rw [withExtension_of_extended hends hname (by decide) hextension, setExtension, hcutDots.name?,
    if_pos rfl]
  exact hcutDots

/-- A path that ends in no name keeps what it has. -/
theorem withExtension_of_name? (h : p.name? = none) (new : String) : p.withExtension new = p := by
  have hnone : p.extension? = none := by rw [extension?, h, Option.bind_none]
  rw [withExtension, hnone, setExtension, h]

end Path

end LiteralPool
