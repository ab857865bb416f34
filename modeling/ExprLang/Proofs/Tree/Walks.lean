import ExprLang.Tree.Walk

/-!
# Walks

A walk enters three hooks for every node of a tree, the wrapper, the dispatcher
and the one for the sort of node, and takes the nodes in textual order.  The
calls of the hooks are nested, and pruning a hook cuts out what is recorded
during its calls and nothing else (`Walk.statements_pruned`).
-/

namespace ExprLang

/-! ## The visits of a full walk -/

namespace Node

def hooks : Node → List Hook
  | expressionStatement _ => [.statement, .dispatchStatement, .expressionStatement]
  | assignStatement _ _ => [.statement, .dispatchStatement, .assignStatement]
  | number _ => [.expression, .dispatchExpression, .number]
  | binary _ _ _ => [.expression, .dispatchExpression, .binary]
  | parenthesized _ => [.expression, .dispatchExpression, .parenthesized]
  | reference _ => [.expression, .dispatchExpression, .reference]
  | error _ => [.expression, .dispatchExpression, .error]

def visits (node : Node) : List Visit := node.hooks.map fun hook => ⟨hook, node⟩

def allVisits (node : Node) : List Visit :=
  node.visits ++
    match node with
    | expressionStatement body => body.allVisits
    | assignStatement _ initializer => initializer.allVisits
    | binary left _ right => left.allVisits ++ right.allVisits
    | parenthesized inner => inner.allVisits
    | number _ => []
    | reference _ => []
    | error _ => []

theorem allVisits_eq_preorder (node : Node) (depth : Nat) :
    node.allVisits =
      (node.preorder depth).flatMap fun place => place.2.visits := by
  induction node generalizing depth with
  | expressionStatement body ih =>
      rw [allVisits, preorder, List.flatMap_cons, ih (depth + 1)]
  | assignStatement identifier initializer ih =>
      rw [allVisits, preorder, List.flatMap_cons, ih (depth + 1)]
  | binary left operator right ihLeft ihRight =>
      rw [allVisits, preorder, List.flatMap_cons, List.flatMap_append,
        ihLeft (depth + 1), ihRight (depth + 1)]
  | parenthesized inner ih =>
      rw [allVisits, preorder, List.flatMap_cons, ih (depth + 1)]
  | number value => rfl
  | reference identifier => rfl
  | error span => rfl

end Node

/-! ## Nested calls -/

/-- What a hook does when it is not overridden: the hooks it enters, in order.  A
hook for one sort of node is entered with such a node only. -/
def Visit.leads : Visit → Except Misplaced (List Visit)
  | ⟨.statement, node⟩ => pure [⟨.dispatchStatement, node⟩]
  | ⟨.dispatchStatement, node⟩ =>
      match node with
      | .expressionStatement _ => pure [⟨.expressionStatement, node⟩]
      | .assignStatement _ _ => pure [⟨.assignStatement, node⟩]
      | other => throw (.statement other)
  | ⟨.expression, node⟩ => pure [⟨.dispatchExpression, node⟩]
  | ⟨.dispatchExpression, node⟩ =>
      match node with
      | .number _ => pure [⟨.number, node⟩]
      | .binary _ _ _ => pure [⟨.binary, node⟩]
      | .parenthesized _ => pure [⟨.parenthesized, node⟩]
      | .reference _ => pure [⟨.reference, node⟩]
      | .error _ => pure [⟨.error, node⟩]
      | other => throw (.expression other)
  | ⟨_, .expressionStatement body⟩ => pure [⟨.expression, body⟩]
  | ⟨_, .assignStatement _ initializer⟩ => pure [⟨.expression, initializer⟩]
  | ⟨_, .binary left _ right⟩ => pure [⟨.expression, left⟩, ⟨.expression, right⟩]
  | ⟨_, .parenthesized inner⟩ => pure [⟨.expression, inner⟩]
  | ⟨_, _⟩ => pure []

/-- Calls of hooks one after another, each with the calls made during it. -/
inductive Calls where
  | done
  | call (visit : Visit) (during after : Calls)

namespace Calls

def visits : Calls → List Visit
  | done => []
  | call visit during after => visit :: (during.visits ++ after.visits)

/-- The calls without those made during the call of a pruned hook. -/
def cut (pruned : Hook → Bool) : Calls → Calls
  | done => done
  | call visit during after =>
      call visit (if pruned visit.hook then done else during.cut pruned)
        (after.cut pruned)

def append : Calls → Calls → Calls
  | done, others => others
  | call visit during after, others => call visit during (after.append others)

@[simp] theorem visits_append (calls others : Calls) :
    (calls.append others).visits = calls.visits ++ others.visits := by
  induction calls with
  | done => rfl
  | call visit during after _ ih => simp [append, visits, ih]

@[simp] theorem cut_append (pruned : Hook → Bool) (calls others : Calls) :
    (calls.append others).cut pruned =
      (calls.cut pruned).append (others.cut pruned) := by
  induction calls with
  | done => rfl
  | call visit during after _ ih => simp [append, cut, ih]

theorem cut_nothing (calls : Calls) : calls.cut (fun _ => false) = calls := by
  induction calls with
  | done => rfl
  | call visit during after ihDuring ihAfter => simp [cut, ihDuring, ihAfter]

inductive MadeBy : List Visit → Calls → Prop
  | done : MadeBy [] done
  | call {visit : Visit} {next others : List Visit} {during after : Calls}
      (hleads : visit.leads = .ok next) (hduring : MadeBy next during)
      (hafter : MadeBy others after) :
      MadeBy (visit :: others) (call visit during after)

theorem MadeBy.append {first second : List Visit} {calls others : Calls}
    (hcalls : MadeBy first calls) (hothers : MadeBy second others) :
    MadeBy (first ++ second) (calls.append others) := by
  induction hcalls with
  | done => exact hothers
  | call hleads hduring _ _ ih => exact .call hleads hduring ih

end Calls

/-- The calls made for a node: the dispatcher is called by the wrapper and calls
the hook for the sort of node, which leads to the nodes below. -/
def Node.calls (node : Node) : Calls :=
  node.hooks.foldr (fun hook during => .call ⟨hook, node⟩ during .done) <|
    match node with
    | expressionStatement body => body.calls
    | assignStatement _ initializer => initializer.calls
    | binary left _ right => left.calls.append right.calls
    | parenthesized inner => inner.calls
    | number _ => .done
    | reference _ => .done
    | error _ => .done

def Calls.ofNodes : List Node → Calls
  | [] => done
  | node :: nodes => node.calls.append (ofNodes nodes)

namespace Node

theorem visits_nested (node : Node) (hooks : List Hook) (during : Calls) :
    (hooks.foldr (fun hook during => Calls.call ⟨hook, node⟩ during .done)
        during).visits =
      (hooks.map fun hook => ⟨hook, node⟩) ++ during.visits := by
  induction hooks with
  | nil => rfl
  | cons hook hooks ih => simp [Calls.visits, ih]

theorem visits_calls (node : Node) : node.calls.visits = node.allVisits := by
  induction node with
  | number value => rfl
  | reference identifier => rfl
  | error span => rfl
  | expressionStatement body ih =>
      rw [calls, visits_nested, ih]
      rfl
  | assignStatement identifier initializer ih =>
      rw [calls, visits_nested, ih]
      rfl
  | parenthesized inner ih =>
      rw [calls, visits_nested, ih]
      rfl
  | binary left operator right ihLeft ihRight =>
      rw [calls, visits_nested, Calls.visits_append, ihLeft, ihRight]
      rfl

open Calls (MadeBy)

theorem madeBy_calls {node : Node} (h : node.IsExpression) :
    MadeBy [⟨.expression, node⟩] node.calls := by
  induction node with
  | number value => exact .call rfl (.call rfl (.call rfl .done .done) .done) .done
  | reference identifier =>
      exact .call rfl (.call rfl (.call rfl .done .done) .done) .done
  | error span => exact .call rfl (.call rfl (.call rfl .done .done) .done) .done
  | parenthesized inner ih =>
      exact .call rfl (.call rfl (.call rfl (ih h) .done) .done) .done
  | binary left operator right ihLeft ihRight =>
      have hoperands := (ihLeft h.1).append (ihRight h.2)
      exact .call rfl (.call rfl (.call rfl hoperands .done) .done) .done
  | expressionStatement body => contradiction
  | assignStatement identifier initializer => contradiction

theorem madeBy_calls_statement {node : Node} (h : node.IsStatement) :
    MadeBy [⟨.statement, node⟩] node.calls := by
  cases node with
  | expressionStatement body =>
      exact .call rfl (.call rfl (.call rfl (madeBy_calls h) .done) .done) .done
  | assignStatement identifier initializer =>
      exact .call rfl (.call rfl (.call rfl (madeBy_calls h) .done) .done) .done
  | _ => contradiction

end Node

theorem Calls.madeBy_ofNodes {nodes : List Node}
    (h : ∀ node ∈ nodes, node.IsStatement) :
    MadeBy (nodes.map fun node => ⟨.statement, node⟩) (ofNodes nodes) := by
  induction nodes with
  | nil => exact .done
  | cons node nodes ih =>
      obtain ⟨hnode, hnodes⟩ := List.forall_mem_cons.mp h
      exact (Node.madeBy_calls_statement hnode).append (ih hnodes)

theorem Calls.visits_ofNodes (nodes : List Node) :
    (ofNodes nodes).visits = nodes.flatMap Node.allVisits := by
  induction nodes with
  | nil => rfl
  | cons node nodes ih =>
      rw [List.flatMap_cons, ← ih, ← node.visits_calls]
      exact visits_append _ _

/-! ## Pruned walks -/

namespace Walk

theorem enter_cut (pruned : Hook → Bool) (hook : Hook) (node : Node)
    {below : Except Misplaced (List Visit)} {during : Calls}
    (h : below = .ok (during.cut pruned).visits) :
    enter pruned hook node below =
      .ok ((Calls.call ⟨hook, node⟩ during .done).cut pruned).visits := by
  subst h
  rw [enter, Calls.cut]
  split
  · rfl
  · simp only [Calls.visits, Calls.cut, List.append_nil]
    rfl

theorem expression_cut (pruned : Hook → Bool) {node : Node}
    (h : node.IsExpression) :
    expression pruned node = .ok (node.calls.cut pruned).visits := by
  induction node with
  | number value =>
      exact enter_cut _ _ _ (enter_cut _ _ _ (enter_cut _ _ _ rfl))
  | reference identifier =>
      exact enter_cut _ _ _ (enter_cut _ _ _ (enter_cut _ _ _ rfl))
  | error span =>
      exact enter_cut _ _ _ (enter_cut _ _ _ (enter_cut _ _ _ rfl))
  | parenthesized inner ih =>
      exact enter_cut _ _ _ (enter_cut _ _ _ (enter_cut _ _ _ (ih h)))
  | binary left operator right ihLeft ihRight =>
      have hoperands :
          (do
            let first ← expression pruned left
            let second ← expression pruned right
            pure (first ++ second)) =
            .ok ((left.calls.append right.calls).cut pruned).visits := by
        rw [ihLeft h.1, ihRight h.2, Calls.cut_append, Calls.visits_append]
        rfl
      exact enter_cut _ _ _ (enter_cut _ _ _ (enter_cut _ _ _ hoperands))
  | expressionStatement body => contradiction
  | assignStatement identifier initializer => contradiction

theorem statement_cut (pruned : Hook → Bool) {node : Node}
    (h : node.IsStatement) :
    statement pruned node = .ok (node.calls.cut pruned).visits := by
  cases node with
  | expressionStatement body =>
      exact enter_cut _ _ _ (enter_cut _ _ _ (enter_cut _ _ _ (expression_cut _ h)))
  | assignStatement identifier initializer =>
      exact enter_cut _ _ _ (enter_cut _ _ _ (enter_cut _ _ _ (expression_cut _ h)))
  | _ => contradiction

theorem statements_cut (pruned : Hook → Bool) {nodes : List Node}
    (h : ∀ node ∈ nodes, node.IsStatement) :
    statements pruned nodes = .ok ((Calls.ofNodes nodes).cut pruned).visits := by
  induction nodes with
  | nil => rfl
  | cons node nodes ih =>
      obtain ⟨hnode, hnodes⟩ := List.forall_mem_cons.mp h
      rw [statements, statement_cut pruned hnode, ih hnodes, Calls.ofNodes,
        Calls.cut_append, Calls.visits_append]
      rfl

theorem statements_full {nodes : List Node}
    (h : ∀ node ∈ nodes, node.IsStatement) :
    statements (fun _ => false) nodes = .ok (nodes.flatMap Node.allVisits) := by
  rw [statements_cut _ h, Calls.cut_nothing, Calls.visits_ofNodes]

/-- Over well-formed trees the calls of a walk are nested as the default hooks
lead from one to the next.  A full walk records all of them, three for every node
of the trees in textual order, and a walk that prunes hooks records the same but
for what is recorded during the calls of these hooks. -/
theorem statements_pruned {nodes : List Node}
    (h : ∀ node ∈ nodes, node.IsStatement) :
    ∃ calls : Calls,
      calls.MadeBy (nodes.map fun node => ⟨.statement, node⟩) ∧
      statements (fun _ => false) nodes = .ok calls.visits ∧
      (∀ pruned : Hook → Bool,
        statements pruned nodes = .ok (calls.cut pruned).visits) ∧
      calls.visits = nodes.flatMap fun node =>
        (node.preorder 0).flatMap fun place => place.2.visits := by
  refine ⟨.ofNodes nodes, Calls.madeBy_ofNodes h, ?_,
    fun pruned => statements_cut pruned h, ?_⟩
  · rw [statements_full h, Calls.visits_ofNodes]
  · rw [Calls.visits_ofNodes]
    exact congrArg (nodes.flatMap ·) <|
      funext fun node => node.allVisits_eq_preorder 0

def groupedSum : Node :=
  let name : Token := ⟨.identifier, "x", Span.covering 0 ['x'], .absent⟩
  .assignStatement name <|
    .binary (.parenthesized (.number 1))
      ⟨.plus, ⟨.plus, "+", Span.covering 8 ['+'], .absent⟩⟩ (.reference name)

theorem groupedSum_pruned :
    (∀ node ∈ [groupedSum], node.IsStatement) ∧
      ∃ calls : Calls,
        calls.MadeBy [⟨.statement, groupedSum⟩] ∧
        calls.visits.length = 15 ∧
        statements (fun _ => false) [groupedSum] = .ok calls.visits ∧
        statements (· = .parenthesized) [groupedSum] =
          .ok (calls.cut (· = .parenthesized)).visits := by
  have hstatements : ∀ node ∈ [groupedSum], node.IsStatement :=
    List.forall_mem_singleton.mpr ⟨trivial, trivial⟩
  obtain ⟨calls, hcalls, hfull, hpruned, hvisits⟩ := statements_pruned hstatements
  refine ⟨hstatements, calls, hcalls, ?_, hfull, hpruned _⟩
  rw [hvisits]
  rfl

end Walk

end ExprLang
