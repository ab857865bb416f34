import ExprLang.Proofs.Reading.Grammar

/-!
# Programs with wrong or missing tokens

The sign of an assignment, the closing of a parenthesis and the semicolon of an
assignment are slots of a program.  Any other token in a slot is taken for the
one that belongs there, and past the end the terminal token is taken for the
slots that are missing.  So the statements stay the same whatever the slots
hold, and each of them is reported once (`allStatements_repairs`).
-/

namespace ExprLang

namespace Reading

/-! ## Terminal tokens past the end -/

inductive Padded (terminal : Token) : List Token → List Token → Prop
  | ended (count : Nat) : Padded terminal [] (List.replicate count terminal)
  | cons {token : Token} {tokens padded : List Token}
      (h : Padded terminal tokens padded) :
      Padded terminal (token :: tokens) (token :: padded)

section

variable {terminal : Token} {tokens padded : List Token}

theorem Padded.drop (h : Padded terminal tokens padded) (count : Nat) :
    Padded terminal (tokens.drop count) (padded.drop count) := by
  induction h generalizing count with
  | ended surplus =>
      rw [List.drop_nil, List.drop_replicate]
      exact .ended _
  | cons h ih =>
      cases count with
      | zero => exact .cons h
      | succ count => exact ih count

theorem Padded.headD_eq (h : Padded terminal tokens padded) :
    padded.headD terminal = tokens.headD terminal := by
  cases h with
  | ended count => cases count <;> rfl
  | cons => rfl

theorem Padded.leadingOperator?_eq (h : Padded terminal tokens padded)
    (hterminal : terminal.kind = .endOfText) :
    leadingOperator? padded = leadingOperator? tokens := by
  rw [leadingOperator?_eq_headD hterminal, leadingOperator?_eq_headD hterminal,
    h.headD_eq]

/-- Past the end the terminal token is found whether it stands there or not. -/
theorem padded_invariant (hterminal : terminal.kind = .endOfText) :
    Invariant terminal
      (fun tokens reading => ∀ padded, Padded terminal tokens padded →
        operand terminal padded = reading)
      (fun least tokens reading => ∀ padded, Padded terminal tokens padded →
        expression terminal least padded = reading)
      (fun least left tokens reading => ∀ padded,
        Padded terminal tokens padded →
          continuation terminal least left padded = reading) where
  ended := by
    rintro padded ⟨count⟩
    cases count with
    | zero => exact operand_nil terminal
    | succ count => apply operand_of_other terminal <;> simp [hterminal]
  semicolon := by
    rintro token rest hkind padded (_ | _)
    exact operand_of_semicolon terminal _ hkind
  integer := by
    rintro token rest hkind padded (_ | _)
    exact operand_of_integer terminal _ hkind
  identifier := by
    rintro token rest hkind padded (_ | _)
    exact operand_of_identifier terminal _ hkind
  unexpected := by
    rintro token rest hsemicolon hinteger hparen hidentifier padded (_ | _)
    exact operand_of_other terminal _ hsemicolon hinteger hparen hidentifier
  parenthesized := by
    rintro token rest inner hkind hinner padded (_ | hrest)
    rw [operand_of_paren terminal _ hkind, hinner _ hrest]
    simp only [expect, (hrest.drop inner.taken).headD_eq]
  continued := by
    intro least tokens first whole hfirst hwhole padded h
    rw [expression, hfirst padded h, hwhole _ (h.drop first.taken)]
  finished := by
    intro least left tokens hlt padded h
    apply continuation_of_lt
    rw [h.leadingOperator?_eq hterminal]
    exact hlt
  operated := by
    rintro least left token rest operator right whole hoperator hle hright
      hwhole padded (_ | hrest)
    rw [continuation_of_le terminal left _ hoperator hle, hright _ hrest]
    simp only [hwhole _ (hrest.drop right.taken)]

theorem expression_padded (hterminal : terminal.kind = .endOfText)
    (h : Padded terminal tokens padded) :
    expression terminal 0 padded = expression terminal 0 tokens :=
  (padded_invariant hterminal).expression 0 tokens padded h

theorem statement_padded (hterminal : terminal.kind = .endOfText)
    (h : Padded terminal tokens padded) :
    statement terminal padded = statement terminal tokens := by
  simp only [statement, assignment, expressionStatement, expect, h.headD_eq,
    (h.drop _).headD_eq, expression_padded hterminal h,
    expression_padded hterminal (h.drop 2)]

theorem statements_padded (hterminal : terminal.kind = .endOfText)
    (h : Padded terminal tokens padded) :
    statements terminal padded = statements terminal tokens := by
  fun_induction statements terminal tokens generalizing padded with
  | case1 =>
      obtain ⟨count⟩ := h
      cases count with
      | zero => rw [List.replicate_zero, statements]
      | succ count => rw [List.replicate_succ, statements, if_pos hterminal]
  | case2 token rest hkind =>
      cases h
      rw [statements, if_pos hkind]
  | @case3 token rest hkind first others ih =>
      have hfirst : statement terminal padded = first :=
        statement_padded hterminal h
      have hothers := ih (h.drop first.taken)
      cases h
      rw [statements, if_neg hkind, hfirst]
      simp only [hothers, others]

end

end Reading

namespace Grammar

/-! ## Slots and what they hold -/

structure Place where
  token : Token
  isSlot : Bool
  deriving DecidableEq, Repr

/-- In a statement that begins with a name, that is in an assignment, the
semicolon is a slot. -/
def isSlot (named : Bool) (token : Token) : Bool :=
  match token.kind with
  | .assign => true
  | .rightParen => true
  | .semicolon => named
  | _ => false

def places (named : Bool) (tokens : List Token) : List Place :=
  tokens.map fun token => ⟨token, isSlot named token⟩

def isNamed (segment : List Token) : Bool :=
  segment.head?.any fun token => token.kind = .identifier

def programPlaces (segments : List (List Token)) : List Place :=
  segments.flatMap fun segment => places (isNamed segment) segment

/-- The tokens are left of those at the places when slots hold other tokens and
the last slots are missing, which the faults tell in order.  An operator can
only be held by the slot of a sign, for after an operand it would be read. -/
inductive Damaged (terminal : Token) :
    List Place → List Token → List Fault → Prop
  | kept {place : Place} {places : List Place} {present : List Token}
      {faults : List Fault} (h : Damaged terminal places present faults) :
      Damaged terminal (place :: places) (place.token :: present) faults
  | replaced {place : Place} {places : List Place} {found : Token}
      {present : List Token} {faults : List Fault}
      (hslot : place.isSlot = true) (hfound : found.kind ≠ place.token.kind)
      (hoperator : place.token.kind ≠ .assign → found.kind ∉ operators)
      (h : Damaged terminal places present faults) :
      Damaged terminal (place :: places) (found :: present)
        (.unexpectedToken place.token.kind found :: faults)
  | missing {places : List Place}
      (hslots : ∀ place ∈ places, place.isSlot = true) :
      Damaged terminal places [] (places.map fun place =>
        .unexpectedToken place.token.kind terminal)

def Place.Holds (place : Place) (found : Token) : Prop :=
  found = place.token ∨ place.isSlot = true ∧
    (place.token.kind ≠ .assign → Operator.ofToken? found = none)

inductive Held : List Place → List Token → List Fault → Prop
  | nil : Held [] [] []
  | cons {place : Place} {places : List Place} {found : Token}
      {tokens : List Token} {faults : List Fault} (hplace : place.Holds found)
      (hothers : Held places tokens faults) :
      Held (place :: places) (found :: tokens)
        (Fault.ofSlot place.token.kind found ++ faults)

theorem ofToken?_eq_none_of_notMem {token : Token}
    (h : token.kind ∉ operators) : Operator.ofToken? token = none := by
  by_contra hsome
  obtain ⟨operator, hoperator⟩ := Option.ne_none_iff_exists'.mp hsome
  exact h ((mem_operators_iff token).mpr ⟨operator, hoperator⟩)

theorem held_missing {terminal : Token}
    (hterminal : terminal.kind = .endOfText) {places : List Place}
    (hslots : ∀ place ∈ places, place.isSlot = true)
    (hkinds : ∀ place ∈ places, place.token.kind ≠ .endOfText) :
    Held places (List.replicate places.length terminal)
      (places.map fun place =>
        .unexpectedToken place.token.kind terminal) := by
  induction places with
  | nil => exact .nil
  | cons place places ih =>
      obtain ⟨hslot, hothers⟩ := List.forall_mem_cons.mp hslots
      obtain ⟨hkind, hkinds⟩ := List.forall_mem_cons.mp hkinds
      have hnone : Operator.ofToken? terminal = none :=
        Operator.ofToken?_of_kind_eq_none hterminal rfl
      have hfault : Fault.ofSlot place.token.kind terminal =
          [.unexpectedToken place.token.kind terminal] :=
        Fault.ofSlot_of_ne (hterminal ▸ Ne.symm hkind)
      have hheld : Held (place :: places) (terminal :: _) _ :=
        .cons (.inr ⟨hslot, fun _ => hnone⟩) (ih hothers hkinds)
      rw [hfault] at hheld
      exact hheld

theorem Damaged.exists_held {terminal : Token}
    (hterminal : terminal.kind = .endOfText) {places : List Place}
    {present : List Token} {faults : List Fault}
    (h : Damaged terminal places present faults)
    (hkinds : ∀ place ∈ places, place.isSlot = true →
      place.token.kind ≠ .endOfText) :
    ∃ padded, Reading.Padded terminal present padded ∧
      Held places padded faults := by
  induction h with
  | kept _ ih =>
      obtain ⟨padded, hpadded, hheld⟩ := ih (List.forall_mem_cons.mp hkinds).2
      refine ⟨_, .cons hpadded, ?_⟩
      simpa using Held.cons (.inl rfl) hheld
  | replaced hslot hfound hoperator _ ih =>
      obtain ⟨padded, hpadded, hheld⟩ := ih (List.forall_mem_cons.mp hkinds).2
      have hwhole := Held.cons (.inr ⟨hslot, fun hkind =>
        ofToken?_eq_none_of_notMem (hoperator hkind)⟩) hheld
      rw [Fault.ofSlot_of_ne hfound] at hwhole
      exact ⟨_, .cons hpadded, hwhole⟩
  | missing hslots =>
      exact ⟨_, .ended _, held_missing hterminal hslots fun place hplace =>
        hkinds place hplace (hslots place hplace)⟩

theorem Held.split {first second : List Place} {tokens : List Token}
    {faults : List Fault} (h : Held (first ++ second) tokens faults) :
    ∃ before after earlier later, tokens = before ++ after ∧
      faults = earlier ++ later ∧ Held first before earlier ∧
      Held second after later := by
  induction first generalizing tokens faults with
  | nil => exact ⟨[], tokens, [], faults, rfl, rfl, .nil, h⟩
  | cons place first ih =>
      cases h with
      | cons hplace hothers =>
          obtain ⟨before, after, earlier, later, rfl, rfl, hbefore, hafter⟩ :=
            ih hothers
          exact ⟨_ :: before, after, _ ++ earlier, later, rfl,
            (List.append_assoc ..).symm, .cons hplace hbefore, hafter⟩

section

variable {named : Bool} {token : Token} {rest tokens : List Token}
  {faults : List Fault}

theorem Held.kept (h : Held (places named (token :: rest)) tokens faults)
    (hkind : isSlot named token = false) :
    ∃ others, tokens = token :: others ∧
      Held (places named rest) others faults := by
  cases h with
  | cons hplace hothers =>
      rcases hplace with rfl | ⟨hslot, -⟩
      · rw [Fault.ofSlot_of_eq rfl]
        exact ⟨_, rfl, hothers⟩
      · simp [hkind] at hslot

theorem Held.first (h : Held (places named (token :: rest)) tokens faults) :
    ∃ found others later, tokens = found :: others ∧
      faults = Fault.ofSlot token.kind found ++ later ∧
      Held (places named rest) others later := by
  cases h with
  | cons _ hothers => exact ⟨_, _, _, rfl, rfl, hothers⟩

theorem Held.single (h : Held (places named [token]) tokens faults)
    (hkind : token.kind ≠ .assign) (hnone : Operator.ofToken? token = none) :
    ∃ found, tokens = [found] ∧ Operator.ofToken? found = none ∧
      faults = Fault.ofSlot token.kind found := by
  cases h with
  | @cons _ _ found _ _ hplace hothers =>
      cases hothers
      refine ⟨found, rfl, ?_, List.append_nil _⟩
      rcases hplace with rfl | ⟨-, hoperator⟩
      · exact hnone
      · exact hoperator hkind

theorem Held.nil_eq (h : Held (places named []) tokens faults) :
    tokens = [] ∧ faults = [] := by
  cases h
  exact ⟨rfl, rfl⟩

theorem isSlot_of_kind_eq {kind : TokenKind} (hkind : token.kind = kind)
    (h : kind ≠ .assign ∧ kind ≠ .rightParen ∧ kind ≠ .semicolon) :
    isSlot named token = false := by
  subst hkind
  simp only [isSlot]
  split <;> simp_all

theorem isSlot_of_operator {operator : Operator}
    (h : Operator.ofToken? token = some operator) :
    isSlot named token = false := by
  have hmem := (mem_operators_iff token).mpr ⟨operator, h⟩
  simp only [operators, List.mem_cons, List.not_mem_nil, or_false] at hmem
  rcases hmem with hkind | hkind | hkind | hkind | hkind <;>
    exact isSlot_of_kind_eq hkind (by decide)

end

theorem kind_ne_endOfText_of_isSlot {segments : List (List Token)}
    {place : Place} (hplace : place ∈ programPlaces segments)
    (hslot : place.isSlot = true) : place.token.kind ≠ .endOfText := by
  simp only [programPlaces, places, List.mem_flatMap, List.mem_map] at hplace
  obtain ⟨segment, -, token, -, rfl⟩ := hplace
  intro hkind
  have hnone : isSlot (isNamed segment) token = false :=
    isSlot_of_kind_eq hkind (by decide)
  rw [hnone] at hslot
  contradiction

theorem places_append (named : Bool) (before after : List Token) :
    places named (before ++ after) = places named before ++ places named after :=
  List.map_append

end Grammar

namespace Node

open Grammar

/-! ## What the slots hold mends the trees -/

theorem SpelledBy.mended_of_held {named : Bool} {node : Node}
    {tokens found : List Token} {faults : List Fault}
    (h : node.SpelledBy tokens) (hheld : Held (places named tokens) found faults) :
    node.MendedFrom found faults := by
  induction h generalizing found faults with
  | number hkind =>
      obtain ⟨others, rfl, hothers⟩ :=
        hheld.kept (isSlot_of_kind_eq hkind (by decide))
      obtain ⟨rfl, rfl⟩ := hothers.nil_eq
      exact .number hkind
  | reference hkind =>
      obtain ⟨others, rfl, hothers⟩ :=
        hheld.kept (isSlot_of_kind_eq hkind (by decide))
      obtain ⟨rfl, rfl⟩ := hothers.nil_eq
      exact .reference hkind
  | parenthesized hopening _ hclosing ih =>
      obtain ⟨others, rfl, hothers⟩ :=
        hheld.kept (isSlot_of_kind_eq hopening (by decide))
      rw [places_append] at hothers
      obtain ⟨inner, last, earlier, later, rfl, rfl, hinner, hlast⟩ :=
        hothers.split
      obtain ⟨closing, rfl, hnone, rfl⟩ := hlast.single (by simp [hclosing])
        (Operator.ofToken?_of_kind_eq_none hclosing rfl)
      rw [hclosing]
      exact .parenthesized hopening (ih hinner) hnone
  | @binary left right operator token _ _ _ hoperator _ ihLeft ihRight =>
      rw [places_append] at hheld
      obtain ⟨before, last, earlier, later, rfl, rfl, hbefore, hlast⟩ :=
        hheld.split
      obtain ⟨after, rfl, hafter⟩ := hlast.kept (isSlot_of_operator hoperator)
      exact .binary (ihLeft hbefore) hoperator (ihRight hafter)

theorem isNamed_of_beginsUnnamed {tokens : List Token}
    (h : BeginsUnnamed tokens) (rest : List Token) :
    isNamed (tokens ++ rest) = false := by
  obtain ⟨token, others, rfl, hkind⟩ := h
  simp [isNamed, hkind]

theorem SpelledBy.beginsUnnamed_of_held {named : Bool} {node : Node}
    {tokens found : List Token} {faults : List Fault}
    (h : node.SpelledBy tokens) (hbegins : BeginsUnnamed tokens)
    (hheld : Held (places named tokens) found faults) :
    BeginsUnnamed found := by
  obtain ⟨token, rest, rfl, hkind⟩ := hbegins
  obtain ⟨first, others, hsame, hfirst⟩ := h.begins
  obtain ⟨rfl, rfl⟩ := List.cons.inj hsame
  have hslot : isSlot named token = false := by
    rcases hfirst with hfirst | hfirst | hfirst <;>
      exact isSlot_of_kind_eq hfirst (by decide)
  obtain ⟨others, rfl, -⟩ := hheld.kept hslot
  exact ⟨token, others, rfl, hkind⟩

theorem StatementSpelledBy.mended_of_held {node : Node}
    {segment found : List Token} {faults : List Fault}
    (h : node.StatementSpelledBy segment)
    (hheld : Held (places (isNamed segment) segment) found faults) :
    node.StatementMendedFrom found faults := by
  cases h with
  | @assignment identifier sign ending _ tokens hidentifier hsign
      hinitializer hending =>
      obtain ⟨others, rfl, hothers⟩ :=
        hheld.kept (isSlot_of_kind_eq hidentifier (by decide))
      obtain ⟨found, others, more, rfl, rfl, hrest⟩ := hothers.first
      rw [places_append] at hrest
      obtain ⟨inner, last, earlier, later, rfl, rfl, hinner, hlast⟩ :=
        hrest.split
      obtain ⟨closing, rfl, hnone, rfl⟩ := hlast.single (by simp [hending])
        (Operator.ofToken?_of_kind_eq_none hending rfl)
      rw [hsign, hending, ← List.append_assoc]
      exact .assignment hidentifier (hinitializer.mended_of_held hinner) hnone
  | expression hbody hbegins =>
      exact .expression (hbody.mended_of_held hheld)
        (hbody.beginsUnnamed_of_held hbegins hheld)
  | @terminated body tokens ending hbody hbegins hending =>
      rw [isNamed_of_beginsUnnamed hbegins, places_append] at hheld
      obtain ⟨before, last, earlier, later, rfl, rfl, hbefore, hlast⟩ :=
        hheld.split
      obtain ⟨others, rfl, hothers⟩ :=
        hlast.kept (by simp [isSlot, hending])
      obtain ⟨rfl, rfl⟩ := hothers.nil_eq
      rw [List.append_nil]
      exact .terminated (hbody.mended_of_held hbefore)
        (hbody.beginsUnnamed_of_held hbegins hbefore) hending

theorem allMended_of_held {nodes : List Node} {segments : List (List Token)}
    {found : List Token} {faults : List Fault}
    (h : List.Forall₂ StatementSpelledBy nodes segments)
    (hheld : Held (programPlaces segments) found faults) :
    AllMendedFrom nodes found faults := by
  induction h generalizing found faults with
  | nil =>
      cases hheld
      exact .nil
  | cons hfirst _ ih =>
      rw [programPlaces, List.flatMap_cons] at hheld
      obtain ⟨before, after, earlier, later, rfl, rfl, hbefore, hafter⟩ :=
        hheld.split
      exact .cons (hfirst.mended_of_held hbefore) (ih hafter)

end Node

theorem Reading.statements_of_damaged {terminal : Token}
    (hterminal : terminal.kind = .endOfText) {tokens present : List Token}
    {segments : List (List Token)} {faults : List Fault}
    (hprogram : Grammar.Derivation tokens segments)
    (hdamaged : Grammar.Damaged terminal (Grammar.programPlaces segments)
      present faults) :
    (statements terminal present).value = (statements terminal tokens).value ∧
      (statements terminal present).faults = faults := by
  obtain ⟨nodes, hnodes, hgrouped⟩ := Grammar.exists_trees hprogram.statement
  obtain ⟨padded, hpadded, hheld⟩ := hdamaged.exists_held hterminal
    fun place => Grammar.kind_ne_endOfText_of_isSlot
  have hintact := statements_of_spelled hterminal hnodes hgrouped
  have hread := statements_of_mended hterminal
    (Node.allMended_of_held hnodes hheld) hgrouped
  rw [hprogram.flatten] at hintact
  rw [← statements_padded hterminal hpadded, hread, hintact]
  exact ⟨rfl, rfl⟩

namespace Session

open Grammar

/-- Wrong tokens in the slots of a program and missing slots at its end change
none of its statements.  For each of them, in order, there is one diagnostic,
which says what was expected and what was found. -/
theorem allStatements_repairs {tokens : TokenSequence}
    {segments : List (List Token)} {present : List Token} {faults : List Fault}
    (hprogram : Derivation tokens.body segments)
    (hdamaged : Damaged tokens.terminal (programPlaces segments) present faults)
    (bag : Bag) :
    let intact := (ofTokens tokens bag).perform .allStatements
    let repaired :=
      (ofTokens { tokens with body := present } bag).perform .allStatements
    repaired.1 = intact.1 ∧ intact.2.bag = bag ∧
      repaired.2.bag = bag.append (faults.map Fault.diagnostic) := by
  obtain ⟨hvalue, hfaults⟩ := Reading.statements_of_damaged
    tokens.terminal_kind hprogram hdamaged
  obtain ⟨hnone, -⟩ :=
    Reading.statements_of_derivation tokens.terminal_kind hprogram
  refine ⟨?_, ?_, ?_⟩
  · exact congrArg Answer.nodes hvalue
  · exact (append_eq_self_iff bag _).mpr hnone
  · exact congrArg (fun found => bag.append (found.map Fault.diagnostic)) hfaults

def enclosedNumber : TokenSequence :=
  ⟨[⟨.identifier, "x", Span.covering 0 ['x'], .text "x"⟩,
      ⟨.assign, ":=", Span.covering 2 [':', '='], .absent⟩,
      ⟨.leftParen, "(", Span.covering 5 ['('], .absent⟩,
      ⟨.integerLiteral, "1", Span.covering 6 ['1'], .integer 1⟩,
      ⟨.rightParen, ")", Span.covering 7 [')'], .absent⟩,
      ⟨.semicolon, ";", Span.covering 9 [';'], .absent⟩],
    Token.endOfText 10, rfl⟩

def equalSign : Token := ⟨.equal, "=", Span.covering 2 ['='], .absent⟩

def openedNumber : TokenSequence :=
  { enclosedNumber with
    body := [⟨.identifier, "x", Span.covering 0 ['x'], .text "x"⟩, equalSign,
      ⟨.leftParen, "(", Span.covering 5 ['('], .absent⟩,
      ⟨.integerLiteral, "1", Span.covering 6 ['1'], .integer 1⟩] }

def openedFaults : List Fault :=
  [.unexpectedToken .assign equalSign,
    .unexpectedToken .rightParen (Token.endOfText 10),
    .unexpectedToken .semicolon (Token.endOfText 10)]

theorem openedNumber_repaired :
    Derivation enclosedNumber.body [enclosedNumber.body] ∧
      Damaged enclosedNumber.terminal (programPlaces [enclosedNumber.body])
        openedNumber.body openedFaults ∧
      ((ofTokens openedNumber Bag.empty).perform .allStatements).1 =
        ((ofTokens enclosedNumber Bag.empty).perform .allStatements).1 ∧
      ((ofTokens openedNumber Bag.empty).perform .allStatements).2.bag.entries =
        [⟨.error, "expected <:=>, found <=>", equalSign.span⟩,
          ⟨.error, "expected <)>, found <EOF>", (Token.endOfText 10).span⟩,
          ⟨.error, "expected <;>, found <EOF>", (Token.endOfText 10).span⟩] := by
  have hprogram : Derivation enclosedNumber.body [enclosedNumber.body] := by
    refine ⟨?_, by simp⟩
    intro segment hsegment
    rw [List.mem_singleton.mp hsegment]
    exact .assignment rfl rfl
      (.single (.parenthesized rfl (.single (.integer rfl)) rfl)) rfl
  have hdamaged : Damaged enclosedNumber.terminal
      (programPlaces [enclosedNumber.body]) openedNumber.body openedFaults :=
    .kept (.replaced rfl (by decide) (by simp)
      (.kept (.kept (.missing (by decide)))))
  obtain ⟨hnodes, -, hbag⟩ := allStatements_repairs hprogram hdamaged Bag.empty
  refine ⟨hprogram, hdamaged, hnodes, (congrArg Bag.entries hbag).trans ?_⟩
  decide +kernel

end Session

end ExprLang
