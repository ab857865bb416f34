import ExprLang.Proofs.Reading.Stratified

/-!
# Regrouping

An expression without its grouping is a chain, operands with operators between
them.  Regrouping makes the chain a tree again: a multiplicative operator takes
the product that follows, an additive one takes the whole sum, so operators of
equal precedence group to the right.  The result is the one grouped tree that
has the same chain.
-/

namespace ExprLang

/-- Operands with the operators between them, in the order of the text. -/
inductive Chain where
  | single (operand : Node)
  | more (operand : Node) (operator : Operator) (rest : Chain)
  deriving DecidableEq, Repr

def Chain.join : Chain → Operator → Chain → Chain
  | single operand, operator, after => more operand operator after
  | more operand first rest, operator, after =>
      more operand first (rest.join operator after)

namespace Node

/-- An operand put before a tree.  Before a sum, a multiplicative operator takes
the first product of the sum only. -/
def prepend (operand : Node) (operator : Operator) : Node → Node
  | binary left other right =>
      if operator.kind.isMultiplicative && other.kind.isAdditive then
        binary (binary operand operator left) other right
      else binary operand operator (binary left other right)
  | tree => binary operand operator tree

end Node

def Chain.tree : Chain → Node
  | single operand => operand
  | more operand operator rest => operand.prepend operator rest.tree

namespace Node

/-- The chain of an expression.  Other nodes are operands as a whole, in which
what is inside is regrouped likewise. -/
def chain : Node → Chain
  | binary left operator right => left.chain.join operator right.chain
  | parenthesized inner => .single (.parenthesized inner.chain.tree)
  | number value => .single (.number value)
  | reference identifier => .single (.reference identifier)
  | error span => .single (.error span)
  | expressionStatement body => .single (.expressionStatement body.chain.tree)
  | assignStatement identifier initializer =>
      .single (.assignStatement identifier initializer.chain.tree)

def regroup (node : Node) : Node := node.chain.tree

/-! ## Grouped trees stay as they are -/

theorem prepend_of_isAdditive {operator : Operator}
    (h : operator.kind.isAdditive = true) (operand tree : Node) :
    operand.prepend operator tree = binary operand operator tree := by
  cases tree <;> simp [prepend, h]

theorem prepend_of_not_isAdditive {tree : Node} (h : tree.isAdditive = false)
    (operand : Node) (operator : Operator) :
    operand.prepend operator tree = binary operand operator tree := by
  cases tree with
  | binary left other right =>
      have hother : other.kind.isAdditive = false := h
      simp [prepend, hother]
  | _ => rfl

theorem prepend_sum {operator other : Operator}
    (h : operator.kind.isAdditive = false) (hother : other.kind.isAdditive = true)
    (operand left right : Node) :
    operand.prepend operator (binary left other right) =
      binary (binary operand operator left) other right := by
  simp [prepend, h, hother]

theorem chain_of_operand {node : Node} (h : node.isBinary = false) :
    node.chain = .single node.regroup := by
  cases node with
  | binary left operator right => contradiction
  | _ => rfl

/-- A tree is its own regrouping, and if it is no sum, it stays together before
an additive operator. -/
structure Steady (node : Node) : Prop where
  regroup : node.regroup = node
  join : node.isAdditive = false → ∀ (operator : Operator) (after : Chain),
    operator.kind.isAdditive = true →
      (node.chain.join operator after).tree = binary node operator after.tree

theorem Steady.of_operand {node : Node} (hoperand : node.isBinary = false)
    (hregroup : node.regroup = node) : node.Steady where
  regroup := hregroup
  join _ operator after hadditive := by
    rw [chain_of_operand hoperand, hregroup]
    exact prepend_of_isAdditive hadditive node after.tree

theorem Grouped.steady {node : Node} (h : node.Grouped) : node.Steady := by
  induction node with
  | number value => exact .of_operand rfl rfl
  | reference identifier => exact .of_operand rfl rfl
  | error span => exact .of_operand rfl rfl
  | parenthesized inner ih =>
      exact .of_operand rfl (congrArg parenthesized (ih h).regroup)
  | expressionStatement body ih =>
      exact .of_operand rfl (congrArg expressionStatement (ih h).regroup)
  | assignStatement identifier initializer ih =>
      exact .of_operand rfl (congrArg (assignStatement identifier) (ih h).regroup)
  | binary left operator right ihLeft ihRight =>
      obtain ⟨hsum, hproduct, hleft, hright⟩ := h
      have hrightTree : right.chain.tree = right := (ihRight hright).regroup
      cases hadditive : operator.kind.isAdditive with
      | true =>
          have hjoin := (ihLeft hleft).join (hsum hadditive) operator right.chain
            hadditive
          rw [hrightTree] at hjoin
          exact ⟨hjoin, fun hnot => by simp [isAdditive, hadditive] at hnot⟩
      | false =>
          -- The left operand is a single one, and the right one is no sum.
          obtain ⟨hoperand, hrightProduct⟩ := hproduct (by simp [hadditive])
          have hchain : left.chain = .single left := by
            rw [chain_of_operand hoperand, (ihLeft hleft).regroup]
          refine ⟨?_, ?_⟩
          · rw [regroup, chain, hchain, Chain.join, Chain.tree, hrightTree,
              prepend_of_not_isAdditive hrightProduct]
          · intro _ other after hother
            rw [chain, hchain, Chain.join, Chain.join, Chain.tree,
              (ihRight hright).join hrightProduct other after hother,
              prepend_sum hadditive hother]

/-! ## Regrouping yields grouped trees -/

theorem Grouped.prepend {operand tree : Node} (hoperand : operand.Grouped)
    (hsingle : operand.isBinary = false) (operator : Operator)
    (htree : tree.Grouped) : (operand.prepend operator tree).Grouped := by
  cases hadditive : operator.kind.isAdditive with
  | true =>
      rw [prepend_of_isAdditive hadditive]
      exact ⟨fun _ => isAdditive_of_isBinary hsingle, by simp [hadditive],
        hoperand, htree⟩
  | false =>
      cases hsum : tree.isAdditive with
      | false =>
          rw [prepend_of_not_isAdditive hsum]
          exact ⟨by simp [hadditive], fun _ => ⟨hsingle, hsum⟩, hoperand, htree⟩
      | true =>
          cases tree with
          | binary left other right =>
              obtain ⟨hleftProduct, -, hleft, hright⟩ := htree
              rw [prepend_sum hadditive hsum]
              exact ⟨fun _ => hadditive, fun hother => by simp_all [isAdditive],
                ⟨by simp [hadditive], fun _ => ⟨hsingle, hleftProduct hsum⟩,
                  hoperand, hleft⟩, hright⟩
          | _ => cases hsum

end Node

namespace Chain

def Settled : Chain → Prop
  | single operand => operand.Grouped ∧ operand.isBinary = false
  | more operand _ rest =>
      (operand.Grouped ∧ operand.isBinary = false) ∧ rest.Settled

theorem Settled.join {before after : Chain} (hbefore : before.Settled)
    (operator : Operator) (hafter : after.Settled) :
    (before.join operator after).Settled := by
  induction before with
  | single operand => exact ⟨hbefore, hafter⟩
  | more operand first rest ih => exact ⟨hbefore.1, ih hbefore.2⟩

theorem Settled.tree_grouped {chain : Chain} (h : chain.Settled) :
    chain.tree.Grouped := by
  induction chain with
  | single operand => exact h.1
  | more operand operator rest ih =>
      exact h.1.1.prepend h.1.2 operator (ih h.2)

theorem join_assoc (first second third : Chain) (operator other : Operator) :
    (first.join operator second).join other third =
      first.join operator (second.join other third) := by
  induction first with
  | single operand => rfl
  | more operand before rest ih => exact congrArg (more operand before) ih

end Chain

namespace Node

theorem chain_settled (node : Node) : node.chain.Settled := by
  induction node with
  | binary left operator right ihLeft ihRight =>
      exact ihLeft.join operator ihRight
  | parenthesized inner ih => exact ⟨ih.tree_grouped, rfl⟩
  | expressionStatement body ih => exact ⟨ih.tree_grouped, rfl⟩
  | assignStatement identifier initializer ih => exact ⟨ih.tree_grouped, rfl⟩
  | number value => exact ⟨trivial, rfl⟩
  | reference identifier => exact ⟨trivial, rfl⟩
  | error span => exact ⟨trivial, rfl⟩

theorem regroup_grouped (node : Node) : node.regroup.Grouped :=
  node.chain_settled.tree_grouped

/-! ## Regrouping changes nothing but the grouping -/

inductive Reassociated : Node → Node → Prop
  | refl (node : Node) : Reassociated node node
  | symm {node other : Node} (h : Reassociated node other) :
      Reassociated other node
  | trans {first second third : Node} (h : Reassociated first second)
      (hnext : Reassociated second third) : Reassociated first third
  | rotated (first second third : Node) (operator other : Operator) :
      Reassociated (.binary (.binary first operator second) other third)
        (.binary first operator (.binary second other third))
  | binary {left left' right right' : Node} (hleft : Reassociated left left')
      (operator : Operator) (hright : Reassociated right right') :
      Reassociated (.binary left operator right) (.binary left' operator right')
  | parenthesized {inner other : Node} (hinner : Reassociated inner other) :
      Reassociated (.parenthesized inner) (.parenthesized other)
  | expressionStatement {body other : Node} (hbody : Reassociated body other) :
      Reassociated (.expressionStatement body) (.expressionStatement other)
  | assignStatement (identifier : Token) {initializer other : Node}
      (hinitializer : Reassociated initializer other) :
      Reassociated (.assignStatement identifier initializer)
        (.assignStatement identifier other)

theorem prepend_reassociated (operand : Node) (operator : Operator)
    (tree : Node) :
    Reassociated (operand.prepend operator tree)
      (.binary operand operator tree) := by
  cases tree with
  | binary left other right =>
      rw [prepend]
      split
      · exact .rotated operand left right operator other
      · exact .refl _
  | _ => exact .refl _

theorem join_reassociated (before : Chain) (operator : Operator)
    (after : Chain) :
    Reassociated (before.join operator after).tree
      (.binary before.tree operator after.tree) := by
  induction before with
  | single operand => exact prepend_reassociated operand operator after.tree
  | more operand first rest ih =>
      -- Both sides turn into the tree that has the first operand by itself.
      have hjoined : Reassociated
          (operand.prepend first (rest.join operator after).tree)
          (.binary operand first (.binary rest.tree operator after.tree)) :=
        (prepend_reassociated operand first _).trans (.binary (.refl _) first ih)
      have hapart : Reassociated
          (.binary (operand.prepend first rest.tree) operator after.tree)
          (.binary operand first (.binary rest.tree operator after.tree)) :=
        .trans (.binary (prepend_reassociated operand first rest.tree) operator
          (.refl _)) (.rotated operand rest.tree after.tree first operator)
      exact hjoined.trans hapart.symm

theorem regroup_reassociated (node : Node) :
    Reassociated node.regroup node := by
  induction node with
  | binary left operator right ihLeft ihRight =>
      exact (join_reassociated left.chain operator right.chain).trans
        (.binary ihLeft operator ihRight)
  | parenthesized inner ih => exact .parenthesized ih
  | expressionStatement body ih => exact .expressionStatement ih
  | assignStatement identifier initializer ih =>
      exact .assignStatement identifier ih
  | _ => exact .refl _

theorem Reassociated.chain {node other : Node} (h : Reassociated node other) :
    node.chain = other.chain := by
  induction h with
  | refl node => rfl
  | symm _ ih => exact ih.symm
  | trans _ _ ih ihNext => exact ih.trans ihNext
  | rotated first second third operator other =>
      exact Chain.join_assoc first.chain second.chain third.chain operator other
  | binary _ operator _ ihLeft ihRight =>
      rw [Node.chain, Node.chain, ihLeft, ihRight]
  | parenthesized _ ih => rw [Node.chain, Node.chain, ih]
  | expressionStatement _ ih => rw [Node.chain, Node.chain, ih]
  | assignStatement identifier _ ih => rw [Node.chain, Node.chain, ih]

/-- The regrouping is the one grouped tree with the same chain. -/
theorem eq_regroup_iff {node tree : Node} :
    tree = node.regroup ↔ tree.Grouped ∧ tree.chain = node.chain := by
  constructor
  · rintro rfl
    exact ⟨node.regroup_grouped, node.regroup_reassociated.chain⟩
  · rintro ⟨hgrouped, hchain⟩
    rw [← hgrouped.steady.regroup, regroup, regroup, hchain]

end Node

end ExprLang
