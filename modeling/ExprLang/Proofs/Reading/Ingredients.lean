import ExprLang.Proofs.Reading.Invariant

/-!
# What trees are made of

Reading puts tokens into a tree only where their kinds allow it, and takes them
from the tokens that it reads.  So whatever is known of all these tokens is
known of those in the tree, and a statement that is only an expression begins
with no identifier.
-/

namespace ExprLang

namespace Node

/-- The tokens of the expression come from the supply, each of the kind that its
place demands. -/
def MadeOf (supply : Token → Prop) : Node → Prop
  | number value => ∃ token, supply token ∧ token.kind = .integerLiteral ∧
      token.number = value
  | binary left operator right =>
      left.MadeOf supply ∧
        (supply operator.token ∧
          Operator.ofToken? operator.token = some operator) ∧
        right.MadeOf supply
  | parenthesized inner => inner.MadeOf supply
  | reference identifier => supply identifier ∧ identifier.kind = .identifier
  | error _ => True
  | expressionStatement _ => False
  | assignStatement _ _ => False

def beginsNamed : Node → Bool
  | reference _ => true
  | binary left _ _ => left.beginsNamed
  | _ => false

def StatementMadeOf (supply : Token → Prop) : Node → Prop
  | expressionStatement body => body.MadeOf supply ∧ body.beginsNamed = false
  | assignStatement identifier initializer =>
      (supply identifier ∧ identifier.kind = .identifier) ∧
        initializer.MadeOf supply
  | _ => False

theorem MadeOf.isExpression {supply : Token → Prop} {node : Node}
    (h : node.MadeOf supply) : node.IsExpression := by
  induction node with
  | number value => trivial
  | reference identifier => trivial
  | error span => trivial
  | parenthesized inner ih => exact ih h
  | binary left operator right ihLeft ihRight =>
      exact ⟨ihLeft h.1, ihRight h.2.2⟩
  | expressionStatement body => contradiction
  | assignStatement identifier initializer => contradiction

theorem StatementMadeOf.isStatement {supply : Token → Prop} {node : Node}
    (h : node.StatementMadeOf supply) : node.IsStatement := by
  cases node with
  | expressionStatement body => exact h.1.isExpression
  | assignStatement identifier initializer => exact h.2.isExpression
  | _ => contradiction

end Node

namespace Reading

open Node

variable {terminal : Token} {supply : Token → Prop}

theorem madeOf_invariant (terminal : Token) (supply : Token → Prop) :
    Invariant terminal
      (fun tokens reading => (∀ token ∈ tokens, supply token) →
        reading.value.MadeOf supply)
      (fun _ tokens reading => (∀ token ∈ tokens, supply token) →
        reading.value.MadeOf supply)
      (fun _ left tokens reading => (∀ token ∈ tokens, supply token) →
        left.MadeOf supply → reading.value.MadeOf supply) where
  ended _ := trivial
  semicolon _ _ _ _ := trivial
  unexpected _ _ _ _ _ _ _ := trivial
  integer token _ hkind hsupply :=
    ⟨token, hsupply token List.mem_cons_self, hkind, rfl⟩
  identifier token _ hkind hsupply :=
    ⟨hsupply token List.mem_cons_self, hkind⟩
  parenthesized token _ _ _ hinner hsupply :=
    hinner fun other hother => hsupply other (List.mem_cons_of_mem token hother)
  continued _ _ _ _ hfirst hwhole hsupply :=
    hwhole (fun other hother => hsupply other (List.mem_of_mem_drop hother))
      (hfirst hsupply)
  finished _ _ _ _ _ hleft := hleft
  operated := by
    intro least left token rest operator right whole hoperator _ hright hwhole
      hsupply hleft
    have hrest : ∀ other ∈ rest, supply other :=
      fun other hother => hsupply other (List.mem_cons_of_mem token hother)
    refine hwhole (fun other hother => hrest other (List.mem_of_mem_drop hother))
      ⟨hleft, ?_, hright hrest⟩
    rw [Operator.token_of_ofToken? hoperator]
    exact ⟨hsupply token List.mem_cons_self, hoperator⟩

theorem beginsNamed_invariant (terminal : Token) :
    Invariant terminal
      (fun tokens reading => (tokens.headD terminal).kind ≠ .identifier →
        reading.value.beginsNamed = false)
      (fun _ tokens reading => (tokens.headD terminal).kind ≠ .identifier →
        reading.value.beginsNamed = false)
      (fun _ left _ reading => left.beginsNamed = false →
        reading.value.beginsNamed = false) where
  ended _ := rfl
  semicolon _ _ _ _ := rfl
  unexpected _ _ _ _ _ _ _ := rfl
  integer _ _ _ _ := rfl
  identifier _ _ hkind hunnamed := absurd hkind hunnamed
  parenthesized _ _ _ _ _ _ := rfl
  continued _ _ _ _ hfirst hwhole hunnamed := hwhole (hfirst hunnamed)
  finished _ _ _ _ hleft := hleft
  operated _ _ _ _ _ _ _ _ _ _ hwhole hleft := hwhole hleft

theorem expression_madeOf {tokens : List Token} (least : Int)
    (h : ∀ token ∈ tokens, supply token) :
    (expression terminal least tokens).value.MadeOf supply :=
  (madeOf_invariant terminal supply).expression least tokens h

theorem statement_madeOf {token : Token} {rest : List Token}
    (h : ∀ other ∈ token :: rest, supply other) :
    (statement terminal (token :: rest)).value.StatementMadeOf supply := by
  rw [statement, List.headD_cons]
  split
  case isTrue hkind =>
    refine ⟨⟨h token List.mem_cons_self, hkind⟩, expression_madeOf 0 ?_⟩
    intro other hother
    exact h other (List.mem_of_mem_drop hother)
  case isFalse hkind =>
    exact ⟨expression_madeOf 0 h,
      (beginsNamed_invariant terminal).expression 0 (token :: rest) hkind⟩

theorem statements_madeOf {tokens : List Token}
    (h : ∀ token ∈ tokens, supply token) :
    ∀ node ∈ (statements terminal tokens).value, node.StatementMadeOf supply := by
  fun_induction statements terminal tokens with
  | case1 => simp
  | case2 token rest hkind => simp
  | case3 token rest hkind first others ih =>
      refine List.forall_mem_cons.mpr ⟨statement_madeOf h, ih ?_⟩
      intro other hother
      exact h other (List.mem_of_mem_drop hother)

theorem statements_isStatement (terminal : Token) (tokens : List Token) :
    ∀ node ∈ (statements terminal tokens).value, node.IsStatement :=
  fun node hnode =>
    (statements_madeOf (fun _ _ => trivial) node hnode).isStatement

end Reading

end ExprLang
