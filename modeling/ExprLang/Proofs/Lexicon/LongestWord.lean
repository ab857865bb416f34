import ExprLang.Proofs.Lexicon.Languages
import Mathlib.Data.List.TakeWhile

/-!
# The longest word at the head of a text

`Measures` relates the function that finds words of one class to the language
of the class: it finds a word, and no longer prefix of the text is one.
-/

namespace ExprLang.Lexicon

/-- The lengths found are those of words, and no word goes beyond them. -/
structure Measures (scan : List Char → Option Nat)
    (language : Language Char) : Prop where
  sound : ∀ {text length}, scan text = some length →
    length ≤ text.length ∧ text.take length ∈ language
  longest : ∀ {word} rest, word ∈ language →
    ∃ length, scan (word ++ rest) = some length ∧ word.length ≤ length

/-! ## Runs of characters -/

theorem take_length_takeWhile (accepts : Char → Bool) (text : List Char) :
    text.take (text.takeWhile accepts).length = text.takeWhile accepts :=
  (List.prefix_iff_eq_take.mp (List.takeWhile_prefix accepts)).symm

theorem length_takeWhile_le (accepts : Char → Bool) (text : List Char) :
    (text.takeWhile accepts).length ≤ text.length :=
  (List.takeWhile_prefix accepts).length_le

theorem takeWhile_append_cons {accepts : Char → Bool} {word : List Char}
    {character : Char} (hword : ∀ c ∈ word, accepts c = true)
    (hcharacter : accepts character = false) (rest : List Char) :
    (word ++ character :: rest).takeWhile accepts = word := by
  rw [List.takeWhile_append_of_pos hword]
  simp [hcharacter]

theorem length_le_takeWhile {accepts : Char → Bool} {word : List Char}
    (hword : ∀ c ∈ word, accepts c = true) (rest : List Char) :
    word.length ≤ ((word ++ rest).takeWhile accepts).length := by
  rw [List.takeWhile_append_of_pos hword, List.length_append]
  omega

/-! ## Names and integers -/

theorem nameLength?_measures : Measures nameLength? names where
  sound := by
    intro text length h
    cases text with
    | nil => simp [nameLength?] at h
    | cons first rest =>
        simp only [nameLength?] at h
        split at h
        · rename_i hfirst
          cases h
          refine ⟨Nat.succ_le_succ (length_takeWhile_le _ rest), ?_⟩
          rw [List.take_succ_cons, take_length_takeWhile]
          exact mem_names.mpr ⟨first, _, rfl, hfirst,
            fun character hmem => List.mem_takeWhile_imp hmem⟩
        · simp at h
  longest := by
    intro word rest hword
    obtain ⟨first, others, rfl, hfirst, hothers⟩ := mem_names.mp hword
    refine ⟨_, by rw [List.cons_append, nameLength?, if_pos hfirst], ?_⟩
    exact Nat.succ_le_succ (length_le_takeWhile hothers rest)

theorem digitsLength?_eq_some {text : List Char} {length : Nat} :
    digitsLength? text = some length ↔
      length = (text.takeWhile Char.isDigit).length ∧ 0 < length := by
  unfold digitsLength?
  split
  · rename_i hzero
    constructor
    · simp
    · omega
  · rename_i count hcount
    simp only [Option.some.injEq]
    omega

theorem digitsLength?_measures : Measures digitsLength? digits where
  sound := by
    intro text length h
    obtain ⟨rfl, hpos⟩ := digitsLength?_eq_some.mp h
    refine ⟨length_takeWhile_le _ text, ?_⟩
    rw [take_length_takeWhile]
    exact mem_digits.mpr ⟨List.ne_nil_of_length_pos hpos,
      fun character hmem => List.mem_takeWhile_imp hmem⟩
  longest := by
    intro word rest hword
    obtain ⟨hnonempty, hdigits⟩ := mem_digits.mp hword
    have hle := length_le_takeWhile hdigits rest
    have hpos := List.length_pos_of_ne_nil hnonempty
    exact ⟨_, digitsLength?_eq_some.mpr ⟨rfl, by omega⟩, hle⟩

theorem exists_cons_of_mem_digits {word : List Char} (h : word ∈ digits) :
    ∃ first rest, word = first :: rest ∧ first.isDigit = true := by
  obtain ⟨hnonempty, hdigits⟩ := mem_digits.mp h
  obtain ⟨first, rest, rfl⟩ := List.exists_cons_of_ne_nil hnonempty
  exact ⟨first, rest, rfl, hdigits first List.mem_cons_self⟩

theorem ne_of_isDigit {first character : Char} (h : first.isDigit = true)
    (hcharacter : character.isDigit = false) : first ≠ character := by
  rintro rfl
  rw [h] at hcharacter
  contradiction

theorem integerLength?_measures : Measures integerLength? integers where
  sound := by
    intro text length h
    unfold integerLength? at h
    split at h
    · rename_i rest
      obtain ⟨count, hcount, rfl⟩ := Option.map_eq_some_iff.mp h
      obtain ⟨hle, hmem⟩ := digitsLength?_measures.sound hcount
      refine ⟨Nat.succ_le_succ hle, ?_⟩
      exact mem_integers.mpr (.inr ⟨_, hmem, List.take_succ_cons⟩)
    · obtain ⟨hle, hmem⟩ := digitsLength?_measures.sound h
      exact ⟨hle, mem_integers.mpr (.inl hmem)⟩
  longest := by
    intro word rest hword
    rcases mem_integers.mp hword with hnumber | ⟨number, hnumber, rfl⟩
    · obtain ⟨length, hlength, hle⟩ :=
        digitsLength?_measures.longest rest hnumber
      obtain ⟨first, others, rfl, hfirst⟩ := exists_cons_of_mem_digits hnumber
      refine ⟨length, ?_, hle⟩
      rw [← hlength]
      unfold integerLength?
      split
      · rename_i hminus
        have hdiffer : first ≠ '-' := ne_of_isDigit hfirst (by decide)
        exact absurd (List.cons.inj hminus).1 hdiffer
      · rfl
    · obtain ⟨length, hlength, hle⟩ :=
        digitsLength?_measures.longest rest hnumber
      refine ⟨length + 1, ?_, Nat.succ_le_succ hle⟩
      simp [integerLength?, hlength]

/-! ## Floats -/

theorem exponentLength?_append {marker : Char} {sign number : List Char}
    (hmarker : marker = 'e' ∨ marker = 'E') (hsign : IsSign sign)
    (hnumber : number ∈ digits) (rest : List Char) :
    exponentLength? (marker :: (sign ++ number ++ rest)) =
      (digitsLength? (number ++ rest)).map (· + (sign.length + 1)) := by
  unfold exponentLength?
  dsimp only
  rw [if_pos hmarker]
  rcases hsign with rfl | rfl | rfl
  · obtain ⟨first, others, rfl, hfirst⟩ := exists_cons_of_mem_digits hnumber
    split
    · rename_i hplus
      have hdiffer : first ≠ '+' := ne_of_isDigit hfirst (by decide)
      exact absurd (List.cons.inj hplus).1 hdiffer
    · rename_i hminus
      have hdiffer : first ≠ '-' := ne_of_isDigit hfirst (by decide)
      exact absurd (List.cons.inj hminus).1 hdiffer
    · rfl
  · rfl
  · rfl

theorem exponentLength?_measures : Measures exponentLength? exponents where
  sound := by
    intro text length h
    cases text with
    | nil => simp [exponentLength?] at h
    | cons marker rest =>
        unfold exponentLength? at h
        dsimp only at h
        split at h
        case isFalse => simp at h
        case isTrue hmarker =>
          -- The sign, if there is one, is split off before the digits.
          have hsplit : ∃ sign others count, IsSign sign ∧
              rest = sign ++ others ∧ digitsLength? others = some count ∧
                length = (sign.length + count) + 1 := by
            split at h
            · obtain ⟨count, hcount, rfl⟩ := Option.map_eq_some_iff.mp h
              exact ⟨['+'], _, count, .inr (.inl rfl), rfl, hcount,
                by rw [List.length_singleton]; omega⟩
            · obtain ⟨count, hcount, rfl⟩ := Option.map_eq_some_iff.mp h
              exact ⟨['-'], _, count, .inr (.inr rfl), rfl, hcount,
                by rw [List.length_singleton]; omega⟩
            · obtain ⟨count, hcount, rfl⟩ := Option.map_eq_some_iff.mp h
              exact ⟨[], _, count, .inl rfl, rfl, hcount, by simp⟩
          obtain ⟨sign, others, count, hsign, rfl, hcount, rfl⟩ := hsplit
          obtain ⟨hle, hmem⟩ := digitsLength?_measures.sound hcount
          refine ⟨?_, ?_⟩
          · simp only [List.length_cons, List.length_append]
            omega
          · rw [List.take_succ_cons, List.take_length_add_append]
            exact mem_exponents.mpr
              ⟨marker, sign, _, hmarker, hsign, hmem, rfl⟩
  longest := by
    intro word rest hword
    obtain ⟨marker, sign, number, hmarker, hsign, hnumber, rfl⟩ :=
      mem_exponents.mp hword
    obtain ⟨count, hcount, hle⟩ := digitsLength?_measures.longest rest hnumber
    refine ⟨count + (sign.length + 1), ?_, ?_⟩
    · rw [List.cons_append, exponentLength?_append hmarker hsign hnumber,
        hcount]
      rfl
    · simp only [List.length_cons, List.length_append]
      omega

def wholeLength (text : List Char) : Nat := (text.takeWhile Char.isDigit).length

theorem floatLength?_of_point {text rest : List Char}
    (hdrop : text.drop (wholeLength text) = '.' :: rest) :
    floatLength? text =
      (digitsLength? rest).map fun fraction =>
        wholeLength text + 1 + fraction +
          (exponentLength? (rest.drop fraction)).getD 0 := by
  rw [wholeLength] at hdrop
  simp only [floatLength?, hdrop]
  rfl

theorem floatLength?_of_other {text : List Char}
    (hdrop : ∀ rest, text.drop (wholeLength text) ≠ '.' :: rest) :
    floatLength? text =
      if wholeLength text = 0 then none
      else
        (exponentLength? (text.drop (wholeLength text))).map
          (wholeLength text + ·) := by
  rw [wholeLength] at hdrop
  unfold floatLength?
  dsimp only
  split
  · rename_i rest hpoint
    exact absurd hpoint (hdrop rest)
  · rfl

theorem wholeLength_append {whole : List Char} {character : Char}
    (hwhole : ∀ c ∈ whole, c.isDigit = true)
    (hcharacter : character.isDigit = false) (rest : List Char) :
    wholeLength (whole ++ character :: rest) = whole.length := by
  rw [wholeLength, takeWhile_append_cons hwhole hcharacter]

theorem isDigit_of_marker {marker : Char} (h : marker = 'e' ∨ marker = 'E') :
    marker.isDigit = false := by
  rcases h with rfl | rfl <;> decide

theorem exponent_sound (text : List Char) :
    (exponentLength? text).getD 0 ≤ text.length ∧
      (text.take ((exponentLength? text).getD 0) = [] ∨
        text.take ((exponentLength? text).getD 0) ∈ exponents) := by
  cases hlength : exponentLength? text with
  | none => exact ⟨Nat.zero_le _, .inl rfl⟩
  | some length =>
      obtain ⟨hle, hmem⟩ := exponentLength?_measures.sound hlength
      exact ⟨hle, .inr hmem⟩

theorem floatLength?_sound {text : List Char} {length : Nat}
    (h : floatLength? text = some length) :
    length ≤ text.length ∧ text.take length ∈ floats := by
  have hwhole : ∀ character ∈ text.take (wholeLength text),
      character.isDigit = true := by
    rw [wholeLength, take_length_takeWhile]
    exact fun character hmem => List.mem_takeWhile_imp hmem
  by_cases hpoint : ∃ rest, text.drop (wholeLength text) = '.' :: rest
  · obtain ⟨rest, hdrop⟩ := hpoint
    rw [floatLength?_of_point hdrop] at h
    obtain ⟨fraction, hfraction, rfl⟩ := Option.map_eq_some_iff.mp h
    obtain ⟨hle, hmem⟩ := digitsLength?_measures.sound hfraction
    obtain ⟨hexponentLe, hexponent⟩ :=
      exponent_sound (rest.drop fraction)
    have hlength := congrArg List.length hdrop
    simp only [List.length_drop, List.length_cons] at hlength hexponentLe
    refine ⟨by omega, ?_⟩
    rw [Nat.add_assoc, Nat.add_assoc, List.take_add, hdrop, Nat.add_comm 1,
      List.take_succ_cons, List.take_add]
    exact mem_floats.mpr (.inl ⟨_, _, _, hwhole, hmem, hexponent, rfl⟩)
  · have hother : ∀ rest, text.drop (wholeLength text) ≠ '.' :: rest :=
      fun rest hdrop => hpoint ⟨rest, hdrop⟩
    rw [floatLength?_of_other hother] at h
    split at h
    case isTrue => contradiction
    case isFalse hzero =>
      obtain ⟨exponent, hexponent, rfl⟩ := Option.map_eq_some_iff.mp h
      obtain ⟨hle, hmem⟩ := exponentLength?_measures.sound hexponent
      rw [List.length_drop] at hle
      have hrun := length_takeWhile_le Char.isDigit text
      rw [← wholeLength] at hrun
      refine ⟨by omega, ?_⟩
      rw [List.take_add]
      refine mem_floats.mpr (.inr ⟨_, mem_digits.mpr ⟨?_, hwhole⟩, _, hmem, rfl⟩)
      apply List.ne_nil_of_length_pos
      rw [List.length_take]
      omega

theorem fraction_longest {fraction exponent : List Char}
    (hfraction : fraction ∈ digits)
    (hexponent : exponent = [] ∨ exponent ∈ exponents) (rest : List Char) :
    ∃ length, digitsLength? (fraction ++ (exponent ++ rest)) = some length ∧
      fraction.length + exponent.length ≤ length +
        (exponentLength? ((fraction ++ (exponent ++ rest)).drop length)).getD 0 := by
  rcases hexponent with rfl | hexponent
  · obtain ⟨length, hlength, hle⟩ :=
      digitsLength?_measures.longest rest hfraction
    exact ⟨length, hlength, by rw [List.length_nil]; omega⟩
  · obtain ⟨count, hcount, hle⟩ :=
      exponentLength?_measures.longest rest hexponent
    -- The marker of the exponent ends the digits of the fraction.
    obtain ⟨marker, sign, number, hmarker, -, -, rfl⟩ :=
      mem_exponents.mp hexponent
    obtain ⟨hnonempty, hdigits⟩ := mem_digits.mp hfraction
    have hrun : (fraction ++ marker :: (sign ++ number ++ rest)).takeWhile
        Char.isDigit = fraction :=
      takeWhile_append_cons hdigits (isDigit_of_marker hmarker) _
    have hpos := List.length_pos_of_ne_nil hnonempty
    refine ⟨fraction.length, ?_, ?_⟩
    · exact digitsLength?_eq_some.mpr
        ⟨by rw [List.cons_append, hrun], hpos⟩
    · rw [List.drop_left, hcount, Option.getD_some]
      omega

theorem floatLength?_measures : Measures floatLength? floats where
  sound := floatLength?_sound
  longest := by
    intro word rest hword
    rcases mem_floats.mp hword with
      ⟨whole, fraction, exponent, hwhole, hfraction, hexponent, rfl⟩ |
        ⟨whole, hwhole, exponent, hexponent, rfl⟩
    · obtain ⟨length, hlength, hle⟩ :=
        fraction_longest hfraction hexponent rest
      have hsplit : whole ++ '.' :: (fraction ++ exponent) ++ rest =
          whole ++ '.' :: (fraction ++ (exponent ++ rest)) := by simp
      have hrun := wholeLength_append hwhole (by decide : '.'.isDigit = false)
        (fraction ++ (exponent ++ rest))
      rw [hsplit, floatLength?_of_point (by rw [hrun, List.drop_left]), hrun,
        hlength]
      refine ⟨_, rfl, ?_⟩
      simp only [List.length_append, List.length_cons]
      omega
    · obtain ⟨count, hcount, hle⟩ :=
        exponentLength?_measures.longest rest hexponent
      obtain ⟨marker, sign, number, hmarker, -, -, rfl⟩ :=
        mem_exponents.mp hexponent
      obtain ⟨hnonempty, hdigits⟩ := mem_digits.mp hwhole
      have hpos := List.length_pos_of_ne_nil hnonempty
      have hrun := wholeLength_append hdigits (isDigit_of_marker hmarker)
        (sign ++ number ++ rest)
      have hsplit : whole ++ marker :: (sign ++ number) ++ rest =
          whole ++ marker :: (sign ++ number ++ rest) := by
        rw [List.append_assoc, List.cons_append]
      rw [List.cons_append] at hcount
      rw [hsplit, floatLength?_of_other, hrun, List.drop_left, hcount,
        if_neg (by omega)]
      · refine ⟨_, rfl, ?_⟩
        rw [List.length_append]
        exact Nat.add_le_add_left hle whole.length
      · intro others hpoint
        rw [hrun, List.drop_left] at hpoint
        obtain ⟨rfl, -⟩ := List.cons.inj hpoint
        rcases hmarker with h | h <;> contradiction

/-! ## Strings -/

theorem quotedLength?_sound {text : List Char} {length : Nat}
    (h : quotedLength? text = some length) :
    length ≤ text.length ∧ ∃ items : List (List Char),
      (∀ item ∈ items, item ∈ stringItems) ∧
        text.take length = items.flatten ++ ['\x22'] := by
  fun_induction quotedLength? text generalizing length with
  | case1 => contradiction
  | case2 rest =>
      cases h
      exact ⟨by simp, [], by simp, rfl⟩
  | case3 => contradiction
  | case4 escape rest hescape ih =>
      obtain ⟨count, hcount, rfl⟩ := Option.map_eq_some_iff.mp h
      obtain ⟨hle, items, hitems, htake⟩ := ih hcount
      refine ⟨Nat.succ_le_succ (Nat.succ_le_succ hle),
        ['\\', escape] :: items, ?_, ?_⟩
      · exact List.forall_mem_cons.mpr
          ⟨mem_stringItems.mpr (.inr ⟨escape, hescape, rfl⟩), hitems⟩
      · rw [List.take_succ_cons, List.take_succ_cons, htake]
        rfl
  | case5 => contradiction
  | case6 character rest hquote hlast hescape ih =>
      obtain ⟨count, hcount, rfl⟩ := Option.map_eq_some_iff.mp h
      obtain ⟨hle, items, hitems, htake⟩ := ih hcount
      have hbackslash : character ≠ '\\' := by
        rintro rfl
        cases rest with
        | nil => exact hlast rfl rfl
        | cons escape others => exact hescape escape others rfl rfl
      refine ⟨Nat.succ_le_succ hle, [character] :: items, ?_, ?_⟩
      · exact List.forall_mem_cons.mpr
          ⟨mem_stringItems.mpr (.inl ⟨character, ⟨hquote, hbackslash⟩, rfl⟩),
            hitems⟩
      · rw [List.take_succ_cons, htake]
        rfl

theorem quotedLength?_append {items : List (List Char)}
    (h : ∀ item ∈ items, item ∈ stringItems) (rest : List Char) :
    quotedLength? (items.flatten ++ '\x22' :: rest) =
      some (items.flatten.length + 1) := by
  induction items with
  | nil => rfl
  | cons item items ih =>
      obtain ⟨hitem, hitems⟩ := List.forall_mem_cons.mp h
      rcases mem_stringItems.mp hitem with
        ⟨character, ⟨hquote, hbackslash⟩, rfl⟩ | ⟨escape, hescape, rfl⟩
      · rw [List.flatten_cons, List.append_assoc, List.singleton_append]
        rw [quotedLength?.eq_def]
        split
        · contradiction
        · simp_all
        · simp_all
        · simp_all
        · rename_i hcons
          obtain ⟨rfl, rfl⟩ := List.cons.inj hcons
          rw [ih hitems]
          simp
      · rw [List.flatten_cons, List.append_assoc]
        simp [quotedLength?, hescape, ih hitems]

theorem stringLength?_append {word : List Char} (h : word ∈ strings)
    (rest : List Char) : stringLength? (word ++ rest) = some word.length := by
  obtain ⟨items, hitems, rfl⟩ := mem_strings.mp h
  rw [List.cons_append, List.append_assoc, List.singleton_append,
    stringLength?, quotedLength?_append hitems]
  simp

theorem stringLength?_measures : Measures stringLength? strings where
  sound := by
    intro text length h
    unfold stringLength? at h
    split at h
    · obtain ⟨count, hcount, rfl⟩ := Option.map_eq_some_iff.mp h
      obtain ⟨hle, items, hitems, htake⟩ := quotedLength?_sound hcount
      refine ⟨Nat.succ_le_succ hle, mem_strings.mpr ⟨items, hitems, ?_⟩⟩
      rw [List.take_succ_cons, htake]
    · contradiction
  longest rest hword := ⟨_, stringLength?_append hword rest, Nat.le_refl _⟩

end ExprLang.Lexicon
