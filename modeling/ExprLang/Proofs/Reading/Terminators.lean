import ExprLang.Proofs.Reading.Ingredients
import ExprLang.Proofs.Reading.Sites

/-!
# Semicolons found in place of operands

A semicolon where an operand should begin is reported and left where it stands.
What comes next in the tree takes it.  That is the end of the statement if no
parenthesis of the statement is open, and the closing of the innermost open
parenthesis otherwise, which reports the semicolon once more.
-/

namespace ExprLang

/-! ## Lists split at an item -/

section

variable {α β : Type} {item : α} {before after : List α}

theorem not_split {items : List α} (h : item ∉ items) :
    items ≠ before ++ item :: after := by
  rintro rfl
  simp at h

theorem split_cons {first : α} {others : List α}
    (h : first :: others = before ++ item :: after) (hne : first ≠ item) :
    ∃ more, before = first :: more ∧ others = more ++ item :: after := by
  cases before with
  | nil =>
      rw [List.nil_append, List.cons.injEq] at h
      exact absurd h.1 hne
  | cons other before =>
      rw [List.cons_append, List.cons.injEq] at h
      exact ⟨before, by rw [h.1], h.2⟩

theorem split_append {first second : List α}
    (h : first ++ second = before ++ item :: after) :
    (∃ more, first = before ++ item :: more ∧ after = more ++ second) ∨
      ∃ more, before = first ++ more ∧ second = more ++ item :: after := by
  rw [List.append_eq_append_iff] at h
  rcases h with ⟨more, hbefore, hsecond⟩ | ⟨more, hfirst, hitem⟩
  · exact .inr ⟨more, hbefore, hsecond⟩
  · cases more with
    | nil => exact .inr ⟨[], by simpa using hfirst.symm, hitem.symm⟩
    | cons other more =>
        rw [List.cons_append, List.cons.injEq] at hitem
        exact .inl ⟨more, by rw [hfirst, hitem.1], hitem.2⟩

theorem split_flatMap {parts : β → List α} {items : List β}
    (h : items.flatMap parts = before ++ item :: after) :
    ∃ earlier current following within beyond,
      items = earlier ++ current :: following ∧
        parts current = within ++ item :: beyond ∧
        before = earlier.flatMap parts ++ within ∧
        after = beyond ++ following.flatMap parts := by
  induction items generalizing before with
  | nil => simp at h
  | cons first items ih =>
      rw [List.flatMap_cons] at h
      rcases split_append h with ⟨beyond, hfirst, rfl⟩ | ⟨more, rfl, hmore⟩
      · exact ⟨[], first, items, before, beyond, rfl, hfirst, rfl, rfl⟩
      · obtain ⟨earlier, current, following, within, beyond, rfl, hcurrent, rfl,
          rfl⟩ := ih hmore
        exact ⟨first :: earlier, current, following, within, beyond, rfl,
          hcurrent, by simp, rfl⟩

end

namespace Node

/-! ## What follows a broken part -/

def depth (entries : List Entry) : Int :=
  entries.count .opening - entries.count (.slot .rightParen)

theorem depth_append (first second : List Entry) :
    depth (first ++ second) = depth first + depth second := by
  simp only [depth, List.count_append]
  omega

theorem depth_cons (entry : Entry) (entries : List Entry) :
    depth (entry :: entries) = depth [entry] + depth entries :=
  depth_append [entry] entries

theorem IsExpression.depth_entries {node : Node} (h : node.IsExpression) :
    depth node.entries = 0 := by
  induction node with
  | number value => rfl
  | reference identifier => rfl
  | error span => rfl
  | parenthesized inner ih =>
      have hopening : depth [.opening] = 1 := rfl
      have hclosing : depth [.slot .rightParen] = -1 := rfl
      rw [entries, depth_cons, depth_append, ih h]
      omega
  | binary left operator right ihLeft ihRight =>
      have hoperator : depth [.operator operator] = 0 := rfl
      rw [entries, depth_append, depth_cons, ihLeft h.1, ihRight h.2]
      omega
  | expressionStatement body => contradiction
  | assignStatement identifier initializer => contradiction

/-- What may stand after a broken part in the entries of a tree that are closed
by an ending: the ending, if no parenthesis is open, an operator, or the closing
of an open parenthesis. -/
inductive FollowsBroken (ending within : List Entry) : List Entry → Prop
  | ended (hdepth : depth within = 0) : FollowsBroken ending within ending
  | operator (sign : Operator) (more : List Entry) :
      FollowsBroken ending within (.operator sign :: more)
  | closing (hdepth : 0 < depth within) (more : List Entry) :
      FollowsBroken ending within (.slot .rightParen :: more)

theorem FollowsBroken.append {within after : List Entry}
    (h : FollowsBroken [] within after) (ending : List Entry) :
    FollowsBroken ending within (after ++ ending) := by
  cases h with
  | ended hdepth => exact .ended hdepth
  | operator sign more => exact .operator sign _
  | closing hdepth more => exact .closing hdepth _

theorem FollowsBroken.prepend {ending within after : List Entry}
    (h : FollowsBroken ending within after) {before : List Entry}
    (hbefore : depth before = 0) :
    FollowsBroken ending (before ++ within) after := by
  have hdepth : depth (before ++ within) = depth within := by
    rw [depth_append, hbefore, Int.zero_add]
  cases h with
  | ended hwithin => exact .ended (hdepth.trans hwithin)
  | operator sign more => exact .operator sign more
  | closing hwithin more => exact .closing (by omega) more

theorem FollowsBroken.parenthesize {within after : List Entry}
    (h : FollowsBroken [] within after) :
    FollowsBroken [] (.opening :: within) (after ++ [.slot .rightParen]) := by
  have hdepth : depth (.opening :: within) = 1 + depth within :=
    depth_cons .opening within
  cases h with
  | ended hwithin => exact .closing (by omega) []
  | operator sign more => exact .operator sign _
  | closing hwithin more => exact .closing (by omega) _

theorem IsExpression.follows_broken {node : Node} (h : node.IsExpression)
    {within after : List Entry} {span : Span}
    (hsplit : node.entries = within ++ .broken span :: after) :
    FollowsBroken [] within after := by
  induction node generalizing within after with
  | number value =>
      exact absurd hsplit (not_split (by simp [entries]))
  | reference identifier =>
      exact absurd hsplit (not_split (by simp [entries]))
  | error other =>
      cases within with
      | nil =>
          simp only [entries, List.nil_append, List.cons.injEq] at hsplit
          rw [← hsplit.2]
          exact .ended rfl
      | cons entry within => simp [entries] at hsplit
  | parenthesized inner ih =>
      obtain ⟨more, rfl, hmore⟩ := split_cons hsplit (by simp)
      rcases split_append hmore with ⟨others, hinner, rfl⟩ | ⟨others, -, hclosing⟩
      · exact (ih h hinner).parenthesize
      · exact absurd hclosing (not_split (by simp))
  | binary left operator right ihLeft ihRight =>
      rcases split_append hsplit with ⟨more, hleft, rfl⟩ | ⟨more, rfl, hright⟩
      · -- Whatever ends the left operand is followed by the operator.
        cases ihLeft h.1 hleft with
        | ended => exact .operator operator _
        | operator sign others => exact .operator sign _
        | closing hdepth others => exact .closing hdepth _
      · obtain ⟨others, rfl, hothers⟩ := split_cons hright (by simp)
        have hbefore : depth (left.entries ++ [.operator operator]) = 0 := by
          rw [depth_append, h.1.depth_entries]
          rfl
        simpa using (ihRight h.2 hothers).prepend hbefore
  | expressionStatement body => contradiction
  | assignStatement identifier initializer => contradiction

def ending : Node → List Entry
  | expressionStatement _ => [.terminator]
  | assignStatement _ _ => [.slot .semicolon]
  | _ => []

theorem IsStatement.follows_broken {node : Node} (h : node.IsStatement)
    {within after : List Entry} {span : Span}
    (hsplit : node.entries = within ++ .broken span :: after) :
    FollowsBroken node.ending within after := by
  cases node with
  | expressionStatement body =>
      have hbody : body.IsExpression := h
      rcases split_append hsplit with ⟨more, hmore, rfl⟩ | ⟨more, -, hmore⟩
      · exact (hbody.follows_broken hmore).append [.terminator]
      · exact absurd hmore (not_split (by simp))
  | assignStatement identifier initializer =>
      have hinitializer : initializer.IsExpression := h
      have hsign : depth [.identifier identifier, .slot .assign] = 0 := rfl
      obtain ⟨named, rfl, hnamed⟩ := split_cons hsplit (by simp)
      obtain ⟨signed, rfl, hsigned⟩ := split_cons hnamed (by simp)
      rcases split_append hsigned with ⟨more, hmore, rfl⟩ | ⟨more, -, hmore⟩
      · have hwithin := (hinitializer.follows_broken hmore).append
          [.slot .semicolon]
        exact hwithin.prepend hsign
      · exact absurd hmore (not_split (by simp))
  | _ => contradiction

def Entry.EndsBroken : Entry → Prop
  | .operator _ => True
  | .slot required => required = .rightParen ∨ required = .semicolon
  | .terminator => True
  | _ => False

def BrokenEnded (entries : List Entry) : Prop :=
  ∀ within span after, entries = within ++ .broken span :: after →
    ∃ entry more, after = entry :: more ∧ entry.EndsBroken

theorem BrokenEnded.tail {entry : Entry} {entries : List Entry}
    (h : BrokenEnded (entry :: entries)) : BrokenEnded entries := by
  intro within span after hsplit
  exact h (entry :: within) span after (by rw [hsplit, List.cons_append])

theorem IsStatement.broken_ended {node : Node} (h : node.IsStatement) :
    BrokenEnded node.entries := by
  intro within span after hsplit
  cases h.follows_broken hsplit with
  | ended =>
      cases node with
      | expressionStatement body => exact ⟨_, [], rfl, trivial⟩
      | assignStatement identifier initializer =>
          exact ⟨_, [], rfl, .inr rfl⟩
      | _ => contradiction
  | operator sign more => exact ⟨_, more, rfl, trivial⟩
  | closing _ more => exact ⟨_, more, rfl, .inl rfl⟩

theorem brokenEnded_flatMap {statements : List Node}
    (h : ∀ node ∈ statements, node.IsStatement) :
    BrokenEnded (statements.flatMap entries) := by
  intro within span after hsplit
  obtain ⟨earlier, current, following, own, beyond, rfl, hcurrent, -, rfl⟩ :=
    split_flatMap hsplit
  obtain ⟨entry, more, rfl, hentry⟩ :=
    (h current (by simp)).broken_ended own span beyond hcurrent
  exact ⟨entry, more ++ following.flatMap entries, rfl, hentry⟩

def BrokenApart (entries : List Entry) : Prop :=
  ∀ within span after, entries = within ++ .broken span :: after →
    ∃ entry more, after = entry :: more ∧ ∀ other, entry ≠ .broken other

theorem BrokenApart.tail {entry : Entry} {entries : List Entry}
    (h : BrokenApart (entry :: entries)) : BrokenApart entries := by
  intro within span after hsplit
  exact h (entry :: within) span after (by rw [hsplit, List.cons_append])

theorem BrokenApart.before_broken {before after : List Entry} {span : Span}
    (h : BrokenApart (before ++ .broken span :: after)) : BrokenApart before := by
  intro within other between hsplit
  obtain ⟨entry, more, hmore, hentry⟩ := h within other
    (between ++ .broken span :: after) (by simp [hsplit])
  cases between with
  | nil =>
      simp only [List.nil_append, List.cons.injEq] at hmore
      exact absurd hmore.1.symm (hentry span)
  | cons next between =>
      simp only [List.cons_append, List.cons.injEq] at hmore
      exact ⟨next, between, rfl, by simpa [hmore.1] using hentry⟩

theorem BrokenEnded.apart {entries : List Entry} (h : BrokenEnded entries) :
    BrokenApart entries := by
  intro within span after hsplit
  obtain ⟨entry, more, rfl, hentry⟩ := h within span after hsplit
  refine ⟨entry, more, rfl, ?_⟩
  rintro other rfl
  exact hentry

/-! ## What takes the semicolon -/

namespace Fills

variable {entries : List Entry} {tokens others rest : List Token}
  {faults before after : List Fault} {token : Token}

theorem at_semicolon (h : Fills entries tokens rest faults)
    (hsplit : faults = before ++ .expectedExpression token :: after)
    (hkind : token.kind = .semicolon) :
    ∃ within beyond others, entries = within ++ .broken token.span :: beyond ∧
      Fills within tokens (token :: others) before ∧
      Fills beyond (token :: others) rest after := by
  induction h generalizing before with
  | done => simp at hsplit
  | held hholds _ ih =>
      obtain ⟨within, beyond, others, rfl, hwithin, hbeyond⟩ := ih hsplit
      exact ⟨_ :: within, beyond, others, rfl, .held hholds hwithin, hbeyond⟩
  | misfit hmisfit _ ih =>
      obtain ⟨more, rfl, hmore⟩ := split_cons hsplit (by simp)
      obtain ⟨within, beyond, others, rfl, hwithin, hbeyond⟩ := ih hmore
      exact ⟨_ :: within, beyond, others, rfl, .misfit hmisfit hwithin, hbeyond⟩
  | @broken found _ _ _ _ hfound _ ih =>
      have hne : Fault.expectedExpression found ≠ .expectedExpression token := by
        rw [Ne, Fault.expectedExpression.injEq]
        rintro rfl
        exact hfound hkind
      obtain ⟨more, rfl, hmore⟩ := split_cons hsplit hne
      obtain ⟨within, beyond, others, rfl, hwithin, hbeyond⟩ := ih hmore
      exact ⟨_ :: within, beyond, others, rfl, .broken hfound hwithin, hbeyond⟩
  | interrupted hfound hothers ih =>
      -- This is the fault itself, or one that comes before it.
      cases before with
      | nil =>
          simp only [List.nil_append, List.cons.injEq,
            Fault.expectedExpression.injEq] at hsplit
          obtain ⟨rfl, rfl⟩ := hsplit
          exact ⟨[], _, _, rfl, .done, hothers⟩
      | cons fault before =>
          simp only [List.cons_append, List.cons.injEq] at hsplit
          obtain ⟨rfl, hmore⟩ := hsplit
          obtain ⟨within, beyond, others, rfl, hwithin, hbeyond⟩ := ih hmore
          exact ⟨_ :: within, beyond, others, rfl, .interrupted hfound hwithin,
            hbeyond⟩
  | unterminated hnext _ ih =>
      obtain ⟨within, beyond, others, rfl, hwithin, hbeyond⟩ := ih hsplit
      exact ⟨_ :: within, beyond, others, rfl, .unterminated hnext hwithin,
        hbeyond⟩

theorem of_ending {node : Node} (hnode : node.IsStatement)
    (h : Fills (node.ending ++ entries) (token :: others) rest faults)
    (hkind : token.kind = .semicolon) : Fills entries others rest faults := by
  cases node with
  | expressionStatement body =>
      cases h with
      | held _ hothers => exact hothers
      | unterminated hnext _ => exact absurd hkind (hnext token rfl)
  | assignStatement identifier initializer =>
      cases h with
      | held _ hothers => exact hothers
      | misfit hmisfit _ => exact absurd hkind hmisfit
  | _ => contradiction

theorem of_closing
    (h : Fills (.slot .rightParen :: entries) (token :: others) rest faults)
    (hkind : token.kind = .semicolon) :
    ∃ later, faults = .unexpectedToken .rightParen token :: later ∧
      Fills entries others rest later := by
  cases h with
  | held hholds _ =>
      have hparen : token.kind = .rightParen := hholds
      simp [hkind] at hparen
  | misfit _ hothers => exact ⟨_, rfl, hothers⟩

theorem not_operator {sign : Operator} (hkind : token.kind = .semicolon) :
    ¬ Fills (.operator sign :: entries) (token :: others) rest faults := by
  intro h
  cases h with
  | held hholds _ =>
      have hsign := hholds.2
      rw [hkind] at hsign
      contradiction

theorem takes_semicolon {entry : Entry}
    (h : Fills (entry :: entries) (token :: others) rest faults)
    (hentry : ∀ span, entry ≠ .broken span) (hkind : token.kind = .semicolon) :
    ∃ taken, others = taken ++ rest := by
  cases h with
  | held _ hothers => exact hothers.exists_taken
  | misfit _ hothers => exact hothers.exists_taken
  | broken => exact absurd rfl (hentry _)
  | interrupted => exact absurd rfl (hentry _)
  | unterminated hnext _ => exact absurd hkind (hnext token rfl)

/-- If something else follows every broken part, then even a semicolon that was
left where it stood is taken before the entries end. -/
theorem found_taken (h : Fills entries tokens rest faults)
    (hapart : BrokenApart entries) :
    ∃ taken, tokens = taken ++ rest ∧ Fault.FoundAmong taken faults := by
  induction h with
  | done => exact ⟨[], rfl, by simp [Fault.FoundAmong]⟩
  | held _ _ ih =>
      obtain ⟨taken, rfl, htaken⟩ := ih hapart.tail
      exact ⟨_ :: taken, rfl, htaken.of_tail _⟩
  | misfit _ _ ih =>
      obtain ⟨taken, rfl, htaken⟩ := ih hapart.tail
      exact ⟨_ :: taken, rfl, (htaken.of_tail _).cons rfl List.mem_cons_self⟩
  | broken _ _ ih =>
      obtain ⟨taken, rfl, htaken⟩ := ih hapart.tail
      exact ⟨_ :: taken, rfl, (htaken.of_tail _).cons rfl List.mem_cons_self⟩
  | @interrupted token _ _ rest _ hkind hothers ih =>
      -- The entry after the broken part takes the semicolon.
      obtain ⟨entry, more, rfl, hentry⟩ := hapart [] _ _ rfl
      obtain ⟨later, rfl⟩ := hothers.takes_semicolon hentry hkind
      obtain ⟨taken, hsplit, htaken⟩ := ih hapart.tail
      have htoken : token :: later = taken := by
        rw [← List.cons_append] at hsplit
        exact List.append_cancel_right hsplit
      exact ⟨taken, hsplit, htaken.cons rfl (by simp [← htoken])⟩
  | unterminated _ _ ih => exact ih hapart.tail

end Fills

end Node

/-! ## Interruptions -/

/-- Where reading is interrupted by a semicolon in place of an operand: the
statement, what of it and of the tokens was read before and what comes after. -/
structure Interruption where
  earlier : List Node
  statement : Node
  following : List Node
  within : List Node.Entry
  beyond : List Node.Entry
  taken : List Token
  semicolon : Token
  others : List Token

namespace Interruption

open Node

/-- The interruption is met in the statements that are read from the tokens,
after the faults that were found in the tokens before the semicolon. -/
structure Occurs (place : Interruption) (statements : List Node)
    (tokens : List Token) (before : List Fault) : Prop where
  statements_eq :
    statements = place.earlier ++ place.statement :: place.following
  entries_eq : place.statement.entries =
    place.within ++ .broken place.semicolon.span :: place.beyond
  tokens_eq : tokens = place.taken ++ place.semicolon :: place.others
  fills : Fills (place.earlier.flatMap entries ++ place.within) tokens
    (place.semicolon :: place.others) before
  found : Fault.FoundAmong place.taken before

/-- The semicolon ends its statement.  The next statement begins with the token
after it, and no further fault is said of it. -/
structure EndsStatement (place : Interruption) (rest : List Token)
    (after : List Fault) : Prop where
  beyond_eq : place.beyond = place.statement.ending
  fills : Fills (place.following.flatMap entries) place.others rest after
  found : Fault.FoundAmong place.others after

/-- The semicolon is taken to close a parenthesis, and reported once more.  What
is left of the statement goes on with the token after it. -/
structure ClosesParenthesis (place : Interruption) (rest : List Token)
    (after : List Fault) (more : List Entry) (later : List Fault) : Prop where
  beyond_eq : place.beyond = .slot .rightParen :: more
  after_eq : after = .unexpectedToken .rightParen place.semicolon :: later
  fills : Fills (more ++ place.following.flatMap entries) place.others rest later
  found : Fault.FoundAmong place.others later

/-- The semicolon ends the statement if no parenthesis of it is open, and closes
a parenthesis otherwise. -/
def Resolves (place : Interruption) (rest : List Token)
    (after : List Fault) : Prop :=
  depth place.within = 0 ∧ place.EndsStatement rest after ∨
    0 < depth place.within ∧
      ∃ more later, place.ClosesParenthesis rest after more later

theorem exists_resolves {statements : List Node} {tokens rest : List Token}
    {before after : List Fault} {semicolon : Token}
    (hstatements : ∀ node ∈ statements, node.IsStatement)
    (hfills : Fills (statements.flatMap entries) tokens rest
      (before ++ .expectedExpression semicolon :: after))
    (hkind : semicolon.kind = .semicolon) :
    ∃ place : Interruption, place.semicolon = semicolon ∧
      place.Occurs statements tokens before ∧ place.Resolves rest after := by
  have hapart := (brokenEnded_flatMap hstatements).apart
  obtain ⟨filled, unfilled, others, hsplit, hfilled, hunfilled⟩ :=
    hfills.at_semicolon rfl hkind
  rw [hsplit] at hapart
  obtain ⟨taken, rfl, hbefore⟩ := hfilled.found_taken hapart.before_broken
  obtain ⟨earlier, statement, following, within, beyond, rfl, hentries, rfl,
    rfl⟩ := split_flatMap hsplit
  have hstatement : statement.IsStatement := hstatements statement (by simp)
  let place : Interruption := ⟨earlier, statement, following, within, beyond,
    taken, semicolon, others⟩
  refine ⟨place, rfl, ⟨rfl, hentries, rfl, hfilled, hbefore⟩, ?_⟩
  cases hstatement.follows_broken hentries with
  | ended hdepth =>
      have hfollowing := hunfilled.of_ending hstatement hkind
      exact .inl ⟨hdepth, rfl, hfollowing, hfollowing.foundAmong⟩
  | operator sign more => exact absurd hunfilled (Fills.not_operator hkind)
  | closing hdepth more =>
      obtain ⟨later, rfl, hlater⟩ := hunfilled.of_closing hkind
      exact .inr ⟨hdepth, more, later, rfl, rfl, hlater, hlater.foundAmong⟩

/-- An outcome that every semicolon has that is found in place of an operand
when all statements of the tokens are read. -/
def Always (outcome : Interruption → List Token → List Fault → Prop)
    (tokens : TokenSequence) : Prop :=
  let reading := Reading.statements tokens.terminal tokens.body
  let surplus := reading.taken - tokens.body.length
  ∀ before semicolon after,
    reading.faults = before ++ .expectedExpression semicolon :: after →
    semicolon.kind = .semicolon →
    ∃ place : Interruption, place.semicolon = semicolon ∧
      place.Occurs reading.value
        (tokens.body ++ List.replicate surplus tokens.terminal) before ∧
      outcome place (tokens.body.drop reading.taken) after

end Interruption

namespace Session

/-- Whatever the tokens are, a semicolon that is found in place of an operand
ends its statement and is reported once if no parenthesis is open.  Otherwise it
is taken to close the innermost open parenthesis and reported twice. -/
theorem allStatements_resolves_interruptions (tokens : TokenSequence)
    (bag : Bag) :
    let reading := Reading.statements tokens.terminal tokens.body
    ((ofTokens tokens bag).perform .allStatements).1 = .nodes reading.value ∧
      ((ofTokens tokens bag).perform .allStatements).2.bag.entries =
        bag.entries ++ reading.faults.map Fault.diagnostic ∧
      Interruption.Always Interruption.Resolves tokens := by
  refine ⟨rfl, rfl, ?_⟩
  intro before semicolon after hfaults hkind
  have hstatements :=
    Reading.statements_isStatement tokens.terminal tokens.body
  have hfills := Reading.statements_accounts tokens.terminal_kind tokens.body 0
  rw [hfaults, Nat.zero_add, List.replicate_zero, List.append_nil] at hfills
  exact Interruption.exists_resolves hstatements hfills hkind

end Session

def unclosedParenthesis : TokenSequence := (tokenize "x := (; 1").tokens

/-- The semicolon does not end the assignment: it is reported once more, as the
token found where the parenthesis should close. -/
theorem unclosedParenthesis_takes_semicolon :
    ¬ Interruption.Always Interruption.EndsStatement unclosedParenthesis := by
  let semicolon : Token := ⟨.semicolon, ";", Span.covering 6 [';'], .absent⟩
  let number : Token := ⟨.integerLiteral, "1", Span.covering 8 ['1'], .integer 1⟩
  let supply := unclosedParenthesis.body ++
    List.replicate ((Reading.statements unclosedParenthesis.terminal
      unclosedParenthesis.body).taken - unclosedParenthesis.body.length)
      unclosedParenthesis.terminal
  intro halways
  have hfaults : (Reading.statements unclosedParenthesis.terminal
      unclosedParenthesis.body).faults =
        [] ++ .expectedExpression semicolon ::
          [.unexpectedToken .rightParen semicolon,
            .unexpectedToken .semicolon number] := by decide +kernel
  have honce : supply.count semicolon = 1 := by decide +kernel
  obtain ⟨place, hplace, hoccurs, hends⟩ := halways _ _ _ hfaults rfl
  have hsupply : supply = place.taken ++ semicolon :: place.others :=
    hplace ▸ hoccurs.tokens_eq
  obtain ⟨token, htoken, hfound⟩ := hends.found _ List.mem_cons_self
  have hagain : semicolon ∈ place.others := by
    simp only [Fault.found?, Option.some.injEq] at hfound
    rwa [hfound]
  have hpos : 0 < place.others.count semicolon := List.count_pos_iff.mpr hagain
  rw [hsupply, List.count_append, List.count_cons_self] at honce
  omega

end ExprLang
