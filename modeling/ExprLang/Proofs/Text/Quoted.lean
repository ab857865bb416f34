import ExprLang.Text.Quoted
import Mathlib.Algebra.Group.Nat.Defs
import Mathlib.Tactic.SplitIfs

/-!
# Quoted texts are read back

An escaped character can be told from what follows it, whichever mark encloses
the text: a backslash is followed by a letter for the kind of escape, and the
letter fixes the number of hexadecimal digits.  So no two texts are quoted
alike, and a quoted text holds no line feed.
-/

namespace ExprLang.Text

/-! ## Hexadecimal digits -/

def hexDigitValue (digit : Char) : Nat := "0123456789abcdef".toList.idxOf digit

def hexValue (digits : List Char) : Nat :=
  digits.foldl (fun value digit => 16 * value + hexDigitValue digit) 0

theorem hexDigitValue_digitChar :
    ∀ digit < 16, hexDigitValue (Nat.digitChar digit) = digit := by
  decide

theorem hexValue_toDigits (number : Nat) :
    hexValue (Nat.toDigits 16 number) = number := by
  induction number using Nat.strongRecOn with
  | ind number ih =>
      by_cases hsmall : number < 16
      · rw [Nat.toDigits_of_lt_base hsmall, hexValue, List.foldl_cons,
          List.foldl_nil, hexDigitValue_digitChar number hsmall]
        omega
      · have hrest := ih (number / 16) (by omega)
        rw [hexValue] at hrest
        rw [Nat.toDigits_of_base_le (by decide) (by omega), hexValue,
          List.foldl_append, hrest, List.foldl_cons, List.foldl_nil,
          hexDigitValue_digitChar _ (Nat.mod_lt _ (by decide))]
        omega

theorem hexValue_hexDigits (width number : Nat) :
    hexValue (hexDigits width number) = number := by
  have hzeros : ∀ count, (List.replicate count '0').foldl
      (fun value digit => 16 * value + hexDigitValue digit) 0 = 0 := by
    intro count
    induction count with
    | zero => rfl
    | succ count ih => exact ih
  rw [hexDigits, hexValue, List.foldl_append, hzeros]
  exact hexValue_toDigits number

theorem length_hexDigits {width number : Nat} (hwidth : 0 < width)
    (h : number < 16 ^ width) : (hexDigits width number).length = width := by
  have hle := (Nat.length_toDigits_le_iff (by decide : 1 < 16) hwidth).mpr h
  rw [hexDigits, List.length_append, List.length_replicate]
  omega

/-! ## One character -/

def readEscaped : List Char → Option (Char × List Char)
  | [] => none
  | '\\' :: letter :: rest =>
      if letter = 'n' then some ('\n', rest)
      else if letter = 'r' then some ('\r', rest)
      else if letter = 't' then some ('\t', rest)
      else if letter = 'x' then some (readCode 2 rest)
      else if letter = 'u' then some (readCode 4 rest)
      else if letter = 'U' then some (readCode 8 rest)
      else some (letter, rest)
  | character :: rest => some (character, rest)
where
  readCode (width : Nat) (rest : List Char) : Char × List Char :=
    (Char.ofNat (hexValue (rest.take width)), rest.drop width)

theorem readCode_hexDigits {width number : Nat} (hwidth : 0 < width)
    (h : number < 16 ^ width) (rest : List Char) :
    readEscaped.readCode width (hexDigits width number ++ rest) =
      (Char.ofNat number, rest) := by
  have hlength := length_hexDigits hwidth h
  rw [readEscaped.readCode, List.take_left' hlength, List.drop_left' hlength,
    hexValue_hexDigits]

theorem readEscaped_escapeCode {code : Nat} (h : code < 0x110000)
    (rest : List Char) :
    readEscaped (escapeCode code ++ rest) = some (Char.ofNat code, rest) := by
  rw [escapeCode]
  split
  · exact congrArg some (readCode_hexDigits (by decide) (by omega) rest)
  · split
    · exact congrArg some (readCode_hexDigits (by decide) (by omega) rest)
    · exact congrArg some (readCode_hexDigits (by decide) (by omega) rest)

theorem readEscaped_plain {character : Char} (h : character ≠ '\\')
    (rest : List Char) :
    readEscaped (character :: rest) = some (character, rest) := by
  rw [readEscaped]
  intro letter rest' hbackslash
  exact absurd hbackslash h

theorem quotationMark_cases (text : List Char) :
    quotationMark text = singleMark ∨ quotationMark text = doubleMark := by
  rw [quotationMark]
  split
  · exact .inr rfl
  · exact .inl rfl

theorem readEscaped_escapeChar {mark : Char}
    (hmark : mark = singleMark ∨ mark = doubleMark) (character : Char)
    (rest : List Char) :
    readEscaped (escapeChar mark character ++ rest) =
      some (character, rest) := by
  rw [escapeChar]
  split_ifs with hescaped hfeed hreturn htab hprintable
  · rcases hescaped with rfl | rfl
    · rcases hmark with rfl | rfl <;> rfl
    · rfl
  · rw [hfeed]
    rfl
  · rw [hreturn]
    rfl
  · rw [htab]
    rfl
  · exact readEscaped_plain (fun h => hescaped (.inr h)) rest
  · have hcode : character.toNat < 0x110000 := by
      have hvalid := character.valid
      simp only [UInt32.isValidChar, Nat.isValidChar] at hvalid
      simp only [Char.toNat]
      omega
    rw [readEscaped_escapeCode hcode, Char.ofNat_toNat]

/-! ## Whole texts -/

theorem flatMap_escapeChar_injective {mark : Char}
    (hmark : mark = singleMark ∨ mark = doubleMark) {text other : List Char}
    (h : text.flatMap (escapeChar mark) = other.flatMap (escapeChar mark)) :
    text = other := by
  induction text generalizing other with
  | nil =>
      cases other with
      | nil => rfl
      | cons character rest =>
          have hread := readEscaped_escapeChar hmark character
            (rest.flatMap (escapeChar mark))
          rw [← List.flatMap_cons, ← h] at hread
          cases hread
  | cons first text ih =>
      have hread := readEscaped_escapeChar hmark first
        (text.flatMap (escapeChar mark))
      rw [← List.flatMap_cons, h] at hread
      cases other with
      | nil => cases hread
      | cons character rest =>
          rw [List.flatMap_cons, readEscaped_escapeChar hmark,
            Option.some.injEq, Prod.mk.injEq] at hread
          rw [hread.1, ih hread.2.symm]

theorem quoted_injective {text other : String} (h : quoted text = quoted other) :
    text = other := by
  rw [quoted, quoted, String.ofList_inj, List.cons_append, List.cons_append] at h
  obtain ⟨hmark, hbody⟩ := List.cons.inj h
  rw [hmark, List.append_cancel_right_eq] at hbody
  exact String.toList_inj.mp
    (flatMap_escapeChar_injective (quotationMark_cases _) hbody)

/-! ## Line feeds -/

theorem digitChar_of_mem_toDigits (number : Nat) :
    ∀ digit ∈ Nat.toDigits 16 number, ∃ value < 16,
      digit = Nat.digitChar value := by
  induction number using Nat.strongRecOn with
  | ind number ih =>
      by_cases hsmall : number < 16
      · rw [Nat.toDigits_of_lt_base hsmall, List.forall_mem_singleton]
        exact ⟨number, hsmall, rfl⟩
      · rw [Nat.toDigits_of_base_le (by decide) (by omega),
          List.forall_mem_append, List.forall_mem_singleton]
        exact ⟨ih (number / 16) (by omega),
          ⟨number % 16, Nat.mod_lt _ (by decide), rfl⟩⟩

theorem hexDigits_unbroken (width number : Nat) :
    '\n' ∉ hexDigits width number := by
  have hdigit : ∀ value < 16, '\n' ≠ Nat.digitChar value := by decide
  rw [hexDigits, List.mem_append, List.mem_replicate]
  rintro (hzero | hmem)
  · exact absurd hzero.2 (by decide)
  · obtain ⟨value, hvalue, hfeed⟩ := digitChar_of_mem_toDigits number _ hmem
    exact hdigit value hvalue hfeed

theorem escapeChar_unbroken {mark : Char}
    (hmark : mark = singleMark ∨ mark = doubleMark) (character : Char) :
    '\n' ∉ escapeChar mark character := by
  rw [escapeChar]
  split_ifs with hescaped hfeed hreturn htab hprintable
  · rcases hescaped with rfl | rfl
    · rcases hmark with rfl | rfl <;> decide
    · decide
  · decide
  · decide
  · decide
  · simpa [eq_comm] using hfeed
  · rw [escapeCode]
    split_ifs <;> simp [hexDigits_unbroken]

theorem quoted_unbroken (text : String) : '\n' ∉ (quoted text).toList := by
  have hmark := quotationMark_cases text.toList
  have hmarkUnbroken : '\n' ≠ quotationMark text.toList := by
    rcases hmark with h | h <;> rw [h] <;> decide
  rw [quoted, String.toList_ofList]
  simp only [List.cons_append, List.mem_cons, List.mem_append,
    List.not_mem_nil, or_false, not_or]
  refine ⟨hmarkUnbroken, ?_, hmarkUnbroken⟩
  intro hmem
  obtain ⟨character, -, hfeed⟩ := List.mem_flatMap.mp hmem
  exact escapeChar_unbroken hmark character hfeed

end ExprLang.Text
