import ExprLang.Analysis
import ExprLang.Proofs.Lexicon.Tiling
import ExprLang.Proofs.Reading.Sites
import ExprLang.Proofs.Report.StableOrder

/-!
# The order of a report

The diagnostics of a text come in two runs, those of tokenizing and those of
reading.  Each run goes forward in the text, and the two never meet: what is no
word lies apart from all tokens.  Hence sorting by start and end is the same as
sorting stably by start alone, and merges the runs.
-/

namespace ExprLang

namespace Span

def Before (first second : Span) : Prop :=
  first.start < second.start ∧ first.stop ≤ second.start

def Apart (first second : Span) : Prop :=
  first.Before second ∨ second.Before first

/-- The first span does not come after the second one in the order of report. -/
def Reaches (first second : Span) : Prop :=
  first.start < second.start ∨
    first.start = second.start ∧ first.stop ≤ second.stop

theorem Apart.symm {first second : Span} (h : first.Apart second) :
    second.Apart first :=
  Or.symm h

theorem Apart.start_ne {first second : Span} (h : first.Apart second) :
    first.start ≠ second.start := by
  simp only [Apart, Before] at h
  omega

theorem Before.reaches {first second : Span} (h : first.Before second) :
    first.Reaches second :=
  .inl h.1

theorem reaches_refl (span : Span) : span.Reaches span :=
  .inr ⟨rfl, le_rfl⟩

theorem eq_of_start_eq {spans : List Span} (h : spans.Pairwise Before)
    {first second : Span} (hfirst : first ∈ spans) (hsecond : second ∈ spans)
    (hstart : first.start = second.start) : first = second := by
  have hstarts : (spans.map Span.start).Nodup := by
    refine List.pairwise_map.mpr (h.imp ?_)
    intro earlier later hbefore
    exact hbefore.1.ne
  exact List.inj_on_of_nodup_map hstarts hfirst hsecond hstart

end Span

/-! ## The places of tokens and unknown stretches -/

section

variable (source : String)

def sites : List Span :=
  Piece.placeSpans 0 (Piece.pieces source.toList) ++
    [(tokenize source).tokens.terminal.span]

theorem sites_before : (sites source).Pairwise Span.Before := by
  have htiles := Piece.tiles_placeSpans 0 (Piece.pieces_isProper source.toList)
  rw [Piece.flatMap_text_pieces] at htiles
  refine List.pairwise_append.mpr ⟨?_, List.pairwise_singleton _ _, ?_⟩
  · refine htiles.ordered.imp_of_mem ?_
    intro earlier later hearlier _ hle
    -- No span is empty, so ends in order make starts in order.
    have hbounds := htiles.bounds earlier hearlier
    exact ⟨by omega, hle⟩
  · intro span hspan ending hending
    have hbounds := htiles.bounds span hspan
    rw [List.mem_singleton.mp hending]
    simp only [Span.Before, tokenize, Token.endOfText, Span.covering]
    omega

theorem tokens_sublist_sites :
    ((tokenize source).tokens.toList.map Token.span).Sublist (sites source) := by
  rw [TokenSequence.toList, List.map_append]
  exact (Piece.placeTokens_sublist 0 _).append (List.Sublist.refl _)

theorem faults_sublist_sites :
    ((tokenize source).faults.map Fault.span).Sublist (sites source) :=
  (Piece.placeUnknown_sublist 0 _).trans (List.sublist_append_left _ _)

theorem faults_nonempty :
    ∀ span ∈ (tokenize source).faults.map Fault.span, span.start < span.stop := by
  intro span hspan
  have htiles := Piece.tiles_placeSpans 0 (Piece.pieces_isProper source.toList)
  have hmem := (Piece.placeUnknown_sublist 0 _).subset hspan
  exact (htiles.bounds span hmem).2.1

theorem faults_apart_tokens :
    ∀ first ∈ (tokenize source).faults.map Fault.span,
      ∀ second ∈ (tokenize source).tokens.toList.map Token.span,
        first.Apart second := by
  have hperm : ((tokenize source).tokens.toList.map Token.span ++
      (tokenize source).faults.map Fault.span).Perm (sites source) := by
    have hplaced := Piece.placed_perm 0 (Piece.pieces source.toList)
    rw [TokenSequence.toList, List.map_append, List.append_assoc]
    refine (List.perm_append_comm.append_left _).trans ?_
    rw [← List.append_assoc]
    exact hplaced.append_right _
  have hapart : (sites source).Pairwise Span.Apart :=
    (sites_before source).imp .inl
  have hboth := (hperm.pairwise_iff Span.Apart.symm).mpr hapart
  intro first hfirst second hsecond
  exact ((List.pairwise_append.mp hboth).2.2 second hsecond first hfirst).symm

theorem tokens_reach (surplus : Nat) :
    (((tokenize source).tokens.body ++ List.replicate surplus
      (tokenize source).tokens.terminal).map Token.span).Pairwise
        Span.Reaches := by
  have hbefore := (sites_before source).sublist (tokens_sublist_sites source)
  rw [TokenSequence.toList, List.map_append, List.pairwise_append] at hbefore
  rw [List.map_append, List.map_replicate, List.pairwise_append]
  refine ⟨hbefore.1.imp Span.Before.reaches, ?_, ?_⟩
  · exact List.pairwise_replicate.mpr (.inr (Span.reaches_refl _))
  · intro first hfirst second hsecond
    rw [List.eq_of_mem_replicate hsecond]
    exact (hbefore.2.2 first hfirst _ List.mem_cons_self).reaches

end

/-! ## Two runs of diagnostics -/

def Diagnostic.start (diagnostic : Diagnostic) : Int := diagnostic.span.start

/-- The diagnostics of tokenizing and those of reading, about some tokens. -/
structure OrderedRuns (tokens : List Token)
    (lexical grammar : List Diagnostic) : Prop where
  nonempty : ∀ diagnostic ∈ lexical,
    diagnostic.span.start < diagnostic.span.stop
  disjoint : lexical.Pairwise fun earlier later =>
    earlier.span.Before later.span
  advancing : grammar.Pairwise fun earlier later =>
    earlier.span.Reaches later.span
  placed : ∀ diagnostic ∈ grammar, ∃ token ∈ tokens,
    diagnostic.span = token.span
  apart : ∀ first ∈ lexical, ∀ second ∈ grammar,
    first.span.Apart second.span
  distinct : ∀ first ∈ tokens, ∀ second ∈ tokens,
    first.span.start = second.span.start → first.span = second.span

namespace OrderedRuns

variable {tokens : List Token} {lexical grammar : List Diagnostic}

theorem span_eq_of_start_eq (h : OrderedRuns tokens lexical grammar) :
    ∀ first ∈ lexical ++ grammar, ∀ second ∈ lexical ++ grammar,
      first.span.start = second.span.start → first.span = second.span := by
  have hspans : (lexical.map Diagnostic.span).Pairwise Span.Before :=
    List.pairwise_map.mpr h.disjoint
  intro first hfirst second hsecond hstart
  rcases List.mem_append.mp hfirst with hfirst | hfirst <;>
    rcases List.mem_append.mp hsecond with hsecond | hsecond
  · exact Span.eq_of_start_eq hspans (List.mem_map_of_mem hfirst)
      (List.mem_map_of_mem hsecond) hstart
  · exact absurd hstart (h.apart first hfirst second hsecond).start_ne
  · exact absurd hstart.symm (h.apart second hsecond first hfirst).start_ne
  · obtain ⟨token, htoken, hspan⟩ := h.placed first hfirst
    obtain ⟨other, hother, hotherSpan⟩ := h.placed second hsecond
    rw [hspan, hotherSpan] at hstart ⊢
    exact h.distinct token htoken other hother hstart

/-- The end never decides which diagnostic comes first. -/
theorem sorted_eq (h : OrderedRuns tokens lexical grammar) :
    Bag.sorted ⟨lexical ++ grammar⟩ =
      (lexical ++ grammar).mergeSort (keyLe Diagnostic.start) := by
  have hagree : ∀ first ∈ lexical ++ grammar, ∀ second ∈ lexical ++ grammar,
      Bag.precedes first second = keyLe Diagnostic.start first second := by
    intro first hfirst second hsecond
    have hsame := h.span_eq_of_start_eq first hfirst second hsecond
    rw [Bool.eq_iff_iff]
    simp only [Bag.precedes, keyLe, Bool.or_eq_true, Bool.and_eq_true,
      decide_eq_true_eq]
    simp only [Diagnostic.start]
    constructor
    · omega
    · intro hle
      rcases hle.lt_or_eq with hlt | hstart
      · exact .inl hlt
      · exact .inr ⟨hstart, le_of_eq (by rw [hsame hstart])⟩
  have hmap := List.map_mergeSort (f := id) hagree
  rwa [List.map_id, List.map_id] at hmap

theorem sorted_stable (h : OrderedRuns tokens lexical grammar) :
    StableOrder Diagnostic.start (lexical ++ grammar)
      (Bag.sorted ⟨lexical ++ grammar⟩) := by
  rw [h.sorted_eq]
  exact stableOrder_mergeSort Diagnostic.start (lexical ++ grammar)

theorem sorted_eq_merge (h : OrderedRuns tokens lexical grammar) :
    Bag.sorted ⟨lexical ++ grammar⟩ =
      lexical.merge grammar (keyLe Diagnostic.start) := by
  refine h.sorted_stable.unique (stableOrder_merge ?_ ?_)
  · refine h.disjoint.imp ?_
    intro earlier later hbefore
    exact decide_eq_true hbefore.1.le
  · refine h.advancing.imp ?_
    intro earlier later hreaches
    refine decide_eq_true ?_
    simp only [Span.Reaches] at hreaches
    simp only [Diagnostic.start]
    omega

theorem filter_sorted (h : OrderedRuns tokens lexical grammar) :
    ∀ diagnostic ∈ grammar,
      (Bag.sorted ⟨lexical ++ grammar⟩).filter
          (fun other => other.span = diagnostic.span) =
        grammar.filter fun other => other.span = diagnostic.span := by
  intro diagnostic hdiagnostic
  have hmem : diagnostic ∈ lexical ++ grammar :=
    List.mem_append_right _ hdiagnostic
  have hspan : ∀ other ∈ lexical ++ grammar,
      decide (other.span = diagnostic.span) =
        decide (other.start = diagnostic.start) := by
    intro other hother
    refine decide_eq_decide.mpr ⟨congrArg Span.start, ?_⟩
    exact h.span_eq_of_start_eq other hother diagnostic hmem
  have hnone : lexical.filter
      (fun other => other.start = diagnostic.start) = [] := by
    simp only [List.filter_eq_nil_iff, decide_eq_true_eq]
    intro other hother
    exact (h.apart other hother diagnostic hdiagnostic).start_ne
  have hstable := h.sorted_stable.stable diagnostic.start
  rw [withKey, withKey, List.filter_append, hnone, List.nil_append] at hstable
  rw [List.filter_congr fun other hother => hspan other
      (h.sorted_stable.perm.mem_iff.mp hother),
    List.filter_congr fun other hother => hspan other
      (List.mem_append_right _ hother)]
  exact hstable

end OrderedRuns

/-! ## The diagnostics of a source -/

theorem grammarFault_found (source : String) :
    ∀ fault ∈ (analyze source).grammarFaults,
      ∃ token ∈ (tokenize source).tokens.toList, fault.found? = some token := by
  have hfills := Reading.statements_accounts
    (tokenize source).tokens.terminal_kind (tokenize source).tokens.body 0
  intro fault hfault
  obtain ⟨token, htoken, hfound⟩ := hfills.foundAmong fault hfault
  refine ⟨token, ?_, hfound⟩
  rcases List.mem_append.mp htoken with hbody | hterminal
  · exact List.mem_append_left _ hbody
  · exact List.mem_append_right _
      (List.mem_singleton.mpr (List.eq_of_mem_replicate hterminal))

theorem orderedRuns_of_source (source : String) :
    OrderedRuns (tokenize source).tokens.toList
      ((tokenize source).faults.map Fault.diagnostic)
      ((analyze source).grammarFaults.map Fault.diagnostic) := by
  have hfills := Reading.statements_accounts
    (tokenize source).tokens.terminal_kind (tokenize source).tokens.body 0
  have hbefore := sites_before source
  have hplaced : ∀ fault ∈ (analyze source).grammarFaults,
      ∃ token ∈ (tokenize source).tokens.toList, fault.span = token.span := by
    intro fault hfault
    obtain ⟨token, htoken, hfound⟩ := grammarFault_found source fault hfault
    exact ⟨token, htoken, Fault.span_of_found? hfound⟩
  constructor
  case nonempty =>
    refine List.forall_mem_map.mpr ?_
    intro fault hfault
    exact faults_nonempty source fault.span (List.mem_map_of_mem hfault)
  case disjoint =>
    have hfaults := hbefore.sublist (faults_sublist_sites source)
    exact List.pairwise_map.mpr (List.pairwise_map.mp hfaults)
  case advancing =>
    have hgrammar := hfills.ordered Span.reaches_refl (tokens_reach source _)
    exact List.pairwise_map.mpr (List.pairwise_map.mp hgrammar)
  case placed => exact List.forall_mem_map.mpr hplaced
  case apart =>
    simp only [List.forall_mem_map]
    intro first hfirst second hsecond
    obtain ⟨token, htoken, hspan⟩ := hplaced second hsecond
    have hapart := faults_apart_tokens source first.span
      (List.mem_map_of_mem hfirst) token.span (List.mem_map_of_mem htoken)
    rwa [← hspan] at hapart
  case distinct =>
    have hsites := (tokens_sublist_sites source).subset
    intro first hfirst second hsecond hstart
    exact Span.eq_of_start_eq hbefore (hsites (List.mem_map_of_mem hfirst))
      (hsites (List.mem_map_of_mem hsecond)) hstart

namespace Session

/-- Reading all statements of a source into an empty bag leaves the diagnostics
of tokenizing and after them those of reading, in two ordered runs.  Diagnostics
with one start have one span, and the sorted bag is the one stable order by start:
a merge of the runs, in which those at one token stand as they were found. -/
theorem allStatements_report_order (source : String) :
    ∃ grammar,
      ((ofSource source Bag.empty).perform .allStatements).2.bag =
        ⟨(Bag.empty.tokenize source).2.entries ++ grammar⟩ ∧
      (analyze source).diagnostics =
        (Bag.empty.tokenize source).2.entries ++ grammar ∧
      OrderedRuns (Bag.empty.tokenize source).1.toList
        (Bag.empty.tokenize source).2.entries grammar ∧
      let bag := ((ofSource source Bag.empty).perform .allStatements).2.bag
      (∀ first ∈ bag.entries, ∀ second ∈ bag.entries,
        first.span.start = second.span.start → first.span = second.span) ∧
      (∀ ordered, StableOrder Diagnostic.start bag.entries ordered ↔
        ordered = bag.sorted) ∧
      bag.sorted = (Bag.empty.tokenize source).2.entries.merge grammar
        (keyLe Diagnostic.start) ∧
      ∀ diagnostic ∈ grammar,
        bag.sorted.filter (fun other => other.span = diagnostic.span) =
          grammar.filter fun other => other.span = diagnostic.span := by
  have hruns := orderedRuns_of_source source
  refine ⟨(analyze source).grammarFaults.map Fault.diagnostic, rfl,
    List.map_append, hruns, hruns.span_eq_of_start_eq, ?_,
    hruns.sorted_eq_merge, hruns.filter_sorted⟩
  intro ordered
  constructor
  · intro hordered
    exact hordered.unique hruns.sorted_stable
  · rintro rfl
    exact hruns.sorted_stable

end Session

end ExprLang
