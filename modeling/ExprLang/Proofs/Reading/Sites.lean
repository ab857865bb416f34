import ExprLang.Proofs.Reading.Account

/-!
# Where faults are found

A fault of reading is said of a token.  As the entries of a tree are filled from
one end of the tokens to the other, every fault is said of a token of the part
that was taken, or of a semicolon that was left where it stood, and the faults
come in the order of their tokens.
-/

namespace ExprLang

namespace Fault

def found? : Fault → Option Token
  | unknownToken _ => none
  | unexpectedToken _ found => some found
  | expectedExpression found => some found

theorem span_of_found? {fault : Fault} {token : Token}
    (h : fault.found? = some token) : fault.span = token.span := by
  cases fault <;> simp_all [found?, span]

def FoundAmong (tokens : List Token) (faults : List Fault) : Prop :=
  ∀ fault ∈ faults, ∃ token ∈ tokens, fault.found? = some token

namespace FoundAmong

variable {tokens : List Token} {faults : List Fault} {token : Token}

theorem of_tail (h : FoundAmong tokens faults) (token : Token) :
    FoundAmong (token :: tokens) faults := by
  intro fault hfault
  obtain ⟨found, hmem, hfound⟩ := h fault hfault
  exact ⟨found, List.mem_cons_of_mem token hmem, hfound⟩

theorem cons {fault : Fault} (h : FoundAmong tokens faults)
    (hfound : fault.found? = some token) (hmem : token ∈ tokens) :
    FoundAmong tokens (fault :: faults) :=
  List.forall_mem_cons.mpr ⟨⟨token, hmem, hfound⟩, h⟩

end FoundAmong

end Fault

namespace Node

namespace Fills

variable {entries : List Entry} {tokens rest : List Token} {faults : List Fault}

theorem foundAmong (h : Fills entries tokens rest faults) :
    Fault.FoundAmong tokens faults := by
  induction h with
  | done => simp [Fault.FoundAmong]
  | held _ _ ih => exact ih.of_tail _
  | misfit _ _ ih => exact (ih.of_tail _).cons rfl List.mem_cons_self
  | broken _ _ ih => exact (ih.of_tail _).cons rfl List.mem_cons_self
  | interrupted _ _ ih => exact ih.cons rfl List.mem_cons_self
  | unterminated _ _ ih => exact ih

theorem forall_span {property : Span → Prop}
    (h : Fills entries tokens rest faults)
    (htokens : ∀ span ∈ tokens.map Token.span, property span) :
    ∀ span ∈ faults.map Fault.span, property span := by
  intro span hspan
  obtain ⟨fault, hfault, rfl⟩ := List.mem_map.mp hspan
  obtain ⟨token, htoken, hfound⟩ := h.foundAmong fault hfault
  rw [Fault.span_of_found? hfound]
  exact htokens _ (List.mem_map_of_mem htoken)

theorem exists_taken (h : Fills entries tokens rest faults) :
    ∃ taken, tokens = taken ++ rest := by
  induction h with
  | done => exact ⟨[], rfl⟩
  | held _ _ ih =>
      obtain ⟨taken, rfl⟩ := ih
      exact ⟨_ :: taken, rfl⟩
  | misfit _ _ ih =>
      obtain ⟨taken, rfl⟩ := ih
      exact ⟨_ :: taken, rfl⟩
  | broken _ _ ih =>
      obtain ⟨taken, rfl⟩ := ih
      exact ⟨_ :: taken, rfl⟩
  | interrupted _ _ ih => exact ih
  | unterminated _ _ ih => exact ih

/-- Along tokens in order of some kind, the faults come in this order. -/
theorem ordered {before : Span → Span → Prop} (hrefl : ∀ span, before span span)
    (h : Fills entries tokens rest faults)
    (htokens : (tokens.map Token.span).Pairwise before) :
    (faults.map Fault.span).Pairwise before := by
  induction h with
  | done => exact .nil
  | held _ _ ih => exact ih (List.pairwise_cons.mp htokens).2
  | misfit _ hothers ih =>
      obtain ⟨hfirst, htokens⟩ := List.pairwise_cons.mp htokens
      exact List.pairwise_cons.mpr ⟨hothers.forall_span hfirst, ih htokens⟩
  | broken _ hothers ih =>
      obtain ⟨hfirst, htokens⟩ := List.pairwise_cons.mp htokens
      exact List.pairwise_cons.mpr ⟨hothers.forall_span hfirst, ih htokens⟩
  | interrupted _ hothers ih =>
      -- The semicolon stays, so it may be found again.
      obtain ⟨hfirst, -⟩ := List.pairwise_cons.mp htokens
      have hagain := List.forall_mem_cons.mpr ⟨hrefl _, hfirst⟩
      exact List.pairwise_cons.mpr ⟨hothers.forall_span hagain, ih htokens⟩
  | unterminated _ _ ih => exact ih htokens

end Fills

end Node

end ExprLang
