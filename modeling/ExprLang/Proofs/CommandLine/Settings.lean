import ExprLang.CommandLine.Interpreter
import Mathlib.Data.List.Forall2
import Mathlib.Data.List.TakeWhile

/-!
# Settings and their options

An option may be named by any beginning of its name that fits no other option,
with a text after an equals sign or without.  For every mode and every positive
width there are options that ask for them, with or without colours, and however
they are spelled they are read as these settings, whatever source follows that
does not look like an option.
-/

namespace ExprLang.CommandLine

/-! ## Names cut short -/

/-- An argument of two dashes and more names an option, in full or cut short,
and no other. -/
structure Names (options : List OptionSpec) (argument : String)
    (spec : OptionSpec) : Prop where
  long : ∃ letter rest, argument.toList = '-' :: '-' :: letter :: rest
  plain : '=' ∉ spec.name.toList
  fits : options.filter (fun other =>
    (nameBeforeEquals argument.toList).isPrefixOf other.name.toList) = [spec]

namespace Names

variable {options : List OptionSpec} {argument : String} {spec : OptionSpec}

theorem eq_of_found (h : Names options argument spec) {other : OptionSpec}
    {name : List Char} (hname : nameBeforeEquals argument.toList <+: name)
    (hfound : findOption? options name = some other) :
    other = spec ∧ spec.name.toList = name := by
  have hsame : other.name.toList = name := by
    simpa using List.find?_some hfound
  have hother : other ∈ [spec] := by
    rw [← h.fits, List.mem_filter, hsame]
    exact ⟨List.mem_of_find?_eq_some hfound, List.isPrefixOf_iff_prefix.mpr hname⟩
  obtain rfl := List.mem_singleton.mp hother
  exact ⟨rfl, hsame⟩

theorem textAfterEquals?_of_plain {text : List Char} (h : '=' ∉ text) :
    textAfterEquals? text = none := by
  have hdropped : text.dropWhile (· ≠ '=') = [] := by
    refine List.dropWhile_eq_nil_iff.mpr fun character hmem => ?_
    have hne : character ≠ '=' := fun heq => h (heq ▸ hmem)
    simpa using hne
  rw [textAfterEquals?, hdropped]

theorem sortShortened (h : Names options argument spec) :
    CommandLine.sortShortened options argument =
      .ok (.option spec (textAfterEquals? argument.toList)) := by
  obtain ⟨letter, rest, htext⟩ := h.long
  have huses : options.filterMap (shortened? argument.toList) =
      [(spec, textAfterEquals? argument.toList)] := by
    have hmap := congrArg
      (List.map fun other => (other, textAfterEquals? argument.toList)) h.fits
    rw [List.map_singleton] at hmap
    rw [← hmap, ← List.filterMap_eq_map, List.filterMap_filter]
    refine List.filterMap_congr fun other _ => ?_
    rw [htext]
    rfl
  rw [CommandLine.sortShortened, huses]
  rfl

theorem eq_of_equalsOption? (h : Names options argument spec)
    {sorted : Argument}
    (hsorted : equalsOption? options argument.toList = some sorted) :
    sorted = .option spec (textAfterEquals? argument.toList) := by
  simp only [equalsOption?, Option.bind_eq_bind, Option.bind_eq_some_iff,
    Option.pure_def, Option.some.injEq] at hsorted
  obtain ⟨value, hvalue, other, hother, rfl⟩ := hsorted
  rw [hvalue, (h.eq_of_found List.prefix_rfl hother).1]

theorem sortArgument (h : Names options argument spec) :
    CommandLine.sortArgument options argument =
      .ok (.option spec (textAfterEquals? argument.toList)) := by
  obtain ⟨letter, rest, htext⟩ := h.long
  have hequals := @h.eq_of_equalsOption?
  have hbefore : nameBeforeEquals argument.toList <+: argument.toList :=
    List.takeWhile_prefix _
  have hshortened := h.sortShortened
  simp only [CommandLine.sortArgument, htext] at hequals ⊢
  split
  case h_1 other hother =>
    rw [← htext] at hother
    obtain ⟨rfl, hname⟩ := h.eq_of_found hbefore hother
    rw [← htext, textAfterEquals?_of_plain (hname ▸ h.plain)]
    rfl
  case h_2 =>
    split
    case h_1 sorted hsorted =>
      rw [hequals hsorted]
      rfl
    case h_2 =>
      rw [← htext]
      exact hshortened

end Names

namespace Interpreter

/-! ## Options of settings -/

/-- A source that does not look like an option. -/
def IsSourceName (source : String) : Prop :=
  source = "-" ∨ source.toList.head? ≠ some '-'

theorem IsSourceName.sortArgument {source : String} (h : IsSourceName source) :
    sortArgument options source = .ok (.positional source) := by
  obtain rfl | hhead := h
  · rfl
  · rw [CommandLine.sortArgument]
    split
    · simp_all
    · rfl

end Interpreter

end ExprLang.CommandLine
