import ExprLang.Corpus.Programs
import ExprLang.Proofs.Evaluation.SafeDivision
import ExprLang.Proofs.Lexicon.CarriageReturns
import ExprLang.Proofs.Text.Joining

/-!
# Generated programs are valid

Whatever is drawn, every line of a generated program is that of a statement
that can be written, so the program is read without faults into one statement
for each line.  Without names the divisors are numbers other than zero, and
every statement has a value.
-/

namespace ExprLang

namespace Corpus

namespace Generator

variable {State α β : Type}

/-! ## What holds for all draws -/

def Always (generator : Generator State α) (property : α → Prop) : Prop :=
  ∀ source state, property (generator source state).1

section

variable {property : α → Prop}

theorem always_pure {value : α} (h : property value) :
    Always (fun _ : DrawSource State => pure value) property :=
  fun _ _ => h

theorem Always.bind {generator : Generator State α}
    {next : α → Generator State β} {result : β → Prop}
    (h : generator.Always property)
    (hnext : ∀ value, property value → (next value).Always result) :
    Always (fun source => generator source >>= fun value => next value source)
      result :=
  fun source state => hnext _ (h source state) source _

theorem Always.ite {first second : Generator State α} {condition : Prop}
    [Decidable condition] (hfirst : condition → first.Always property)
    (hsecond : ¬ condition → second.Always property) :
    Always (fun source => if condition then first source else second source)
      property := by
  intro source state
  dsimp only
  split
  · exact hfirst ‹_› source state
  · exact hsecond ‹_› source state

theorem Always.mono {generator : Generator State α} {other : α → Prop}
    (h : generator.Always property)
    (himplies : ∀ value, property value → other value) :
    generator.Always other :=
  fun source state => himplies _ (h source state)

theorem always_any (generator : Generator State α) :
    generator.Always fun _ => True :=
  fun _ _ => trivial

theorem always_oneOf {items : List α} (nonempty : 0 < items.length) :
    (oneOf items nonempty : Generator State α).Always (· ∈ items) :=
  fun _ _ => List.get_mem items _

theorem always_between (low : Int) {count : Nat} (positive : 0 < count) :
    (between low count positive : Generator State Int).Always
      fun number => low ≤ number ∧ number < low + count := by
  intro source state
  have hstep := (source.below count positive state).1.isLt
  change low ≤ low + ((source.below count positive state).1.val : Int) ∧
    low + ((source.below count positive state).1.val : Int) < low + count
  omega

theorem always_times {generator : Generator State α}
    (h : generator.Always property) (count : Nat) :
    (times count generator).Always fun values =>
      values.length = count ∧ ∀ value ∈ values, property value := by
  induction count with
  | zero => exact always_pure ⟨rfl, by simp⟩
  | succ count ih =>
      refine Always.bind h fun first hfirst => ?_
      refine Always.bind ih fun others hothers => ?_
      exact always_pure ⟨congrArg (· + 1) hothers.1,
        List.forall_mem_cons.mpr ⟨hfirst, hothers.2⟩⟩

end

end Generator

/-! ## Expressions -/

def nameToken (text : String) : Token :=
  ⟨.identifier, text, Span.nowhere, .text text⟩

def operatorOf (kind : OperatorKind) : Operator :=
  ⟨kind, ⟨kind.tokenKind, kind.tokenKind.name, Span.nowhere, .absent⟩⟩

/-- The text of an expression.  Without names it divides by numbers other than
zero only, and never outside of parentheses. -/
structure Writes (names : Bool) (text : String) (node : Node) : Prop where
  text_eq : text.toList = node.pieces.flatMap Piece.text
  spellable : node.Spellable
  safe : names = false → node.chain.Safe ∧ node.chain.Undivided

namespace Writes

variable {names : Bool} {text : String}

theorem number {number : Int} (h : Lexicon.isRepresentable number = true) :
    Writes names (toString number) (.number number) where
  text_eq := by simp [Node.pieces, Piece.text]
  spellable := h
  safe _ := ⟨trivial, trivial⟩

theorem name (h : (nameToken text).IsName) :
    Writes true text (.reference (nameToken text)) where
  text_eq := by simp [Node.pieces, Piece.text, nameToken]
  spellable := h
  safe hnames := absurd hnames (by decide)

theorem parenthesized {node : Node}
    (htext : text.toList = node.pieces.flatMap Piece.text)
    (hspellable : node.Spellable) (hsafe : names = false → node.chain.Safe) :
    Writes names ("(" ++ text ++ ")") (.parenthesized node) where
  text_eq := by simp [Node.pieces, Piece.text, htext]
  spellable := hspellable
  safe hnames := ⟨(hsafe hnames).tree, trivial⟩

theorem text_binary {left right : String} {first second : Node}
    (hleft : left.toList = first.pieces.flatMap Piece.text)
    (kind : OperatorKind)
    (hright : right.toList = second.pieces.flatMap Piece.text) :
    (left ++ " " ++ kind.tokenKind.name ++ " " ++ right).toList =
      (Node.binary first (operatorOf kind) second).pieces.flatMap
        Piece.text := by
  simp [Node.pieces, Piece.text, Operator.symbol, operatorOf, hleft, hright]

theorem division {node : Node} (h : Writes names text node)
    (kind : OperatorKind) {divisor : Int} (hdivisor : divisor ≠ 0)
    (hrepresentable : Lexicon.isRepresentable divisor = true) :
    Writes names
      ("(" ++ (text ++ " " ++ kind.tokenKind.name ++ " " ++ toString divisor) ++
        ")")
      (.parenthesized (.binary node (operatorOf kind) (.number divisor))) := by
  refine parenthesized ?_ ⟨h.spellable, rfl, hrepresentable⟩ fun hnames => ?_
  · exact text_binary h.text_eq kind
      (number hrepresentable : Writes names _ _).text_eq
  · obtain ⟨hsafe, hundivided⟩ := h.safe hnames
    exact hsafe.join hundivided trivial fun _ => ⟨divisor, rfl, hdivisor⟩

theorem operation {left right : String} {first second : Node}
    (hleft : Writes names left first) {kind : OperatorKind}
    (hkind : kind.divides = false) (hright : Writes names right second) :
    Writes names (left ++ " " ++ kind.tokenKind.name ++ " " ++ right)
      (.binary first (operatorOf kind) second) where
  text_eq := text_binary hleft.text_eq kind hright.text_eq
  spellable := ⟨hleft.spellable, rfl, hright.spellable⟩
  safe hnames := by
    obtain ⟨hfirst, hfirstUndivided⟩ := hleft.safe hnames
    obtain ⟨hsecond, hsecondUndivided⟩ := hright.safe hnames
    refine ⟨hfirst.join hfirstUndivided hsecond ?_,
      hfirstUndivided.join hkind hsecondUndivided⟩
    intro hdivides
    exact absurd hdivides (by simp [operatorOf, hkind])

end Writes

theorem isRepresentable_of_small {number : Int} (hlow : -50 ≤ number)
    (hhigh : number ≤ 1000) : Lexicon.isRepresentable number = true := by
  simp only [Lexicon.isRepresentable, Bool.and_eq_true, decide_eq_true_eq]
  omega

theorem exists_kind_of_symbol :
    ∀ symbol ∈ Generator.operatorSymbols, ∃ kind : OperatorKind,
      symbol = kind.tokenKind.name ∧
        (symbol = "/" ∨ symbol = "%" ↔ kind.divides = true) := by
  simp only [Generator.operatorSymbols, List.forall_mem_cons]
  exact ⟨⟨.plus, by decide⟩, ⟨.minus, by decide⟩, ⟨.multiply, by decide⟩,
    ⟨.divide, by decide⟩, ⟨.mod, by decide⟩, by simp⟩

theorem isName_of_drawn {first : Char} {rest : List Char} {text : String}
    (hfirst : first ∈ Generator.nameStarts)
    (hrest : ∀ character ∈ rest, character ∈ Generator.nameParts)
    (htext : text = String.ofList (first :: rest))
    (hkeyword : ∀ keyword ∈ TokenKind.keywords, text ≠ keyword.name) :
    (nameToken text).IsName := by
  have hstarts : ∀ character ∈ Generator.nameStarts,
      Lexicon.isNameStart character = true := List.all_eq_true.mp (by decide)
  have hparts : ∀ character ∈ Generator.nameParts,
      Lexicon.isNamePart character = true := List.all_eq_true.mp (by decide)
  subst htext
  refine ⟨Lexicon.mem_names.mpr ⟨first, rest, ?_, hstarts first hfirst, ?_⟩,
    hkeyword⟩
  · exact String.toList_ofList
  · intro character hmem
    exact hparts character (hrest character hmem)

namespace Generator

variable {State : Type}

theorem always_name :
    (name : Generator State String).Always fun text =>
      (nameToken text).IsName := by
  refine Always.bind (always_oneOf _) fun first hfirst => ?_
  refine Always.bind (always_any _) fun length _ => ?_
  refine Always.bind (always_times (always_oneOf _) _) fun rest hrest => ?_
  refine Always.ite (fun hkeyword => always_pure ?_)
    (fun hkeyword => always_pure ?_)
  · obtain ⟨keyword, hmem, hspelled⟩ := List.any_eq_true.mp hkeyword
    have hlonger : ∀ first ∈ TokenKind.keywords, ∀ second ∈ TokenKind.keywords,
        first.name ++ "_" ≠ second.name := by decide
    have hparts : ∀ character ∈ rest ++ ['_'], character ∈ nameParts :=
      List.forall_mem_append.mpr
        ⟨hrest.2, List.forall_mem_singleton.mpr (by decide)⟩
    refine isName_of_drawn hfirst hparts ?_ ?_
    · simp [← String.toList_inj]
    · rw [← eq_of_beq hspelled]
      exact hlonger keyword hmem
  · refine isName_of_drawn hfirst hrest.2 rfl ?_
    intro keyword hmem hspelled
    exact hkeyword (List.any_eq_true.mpr ⟨keyword, hmem, by simp [hspelled]⟩)

theorem always_number (names : Bool) :
    Always (operand.number : Generator State String) fun text =>
      ∃ node, Writes names text node := by
  refine Always.bind (always_between _ _) fun number hnumber => always_pure ?_
  exact ⟨.number number, .number (isRepresentable_of_small hnumber.1 (by omega))⟩

theorem always_operand {names : Bool} {inner : Option (Generator State String)}
    (hinner : ∀ expression ∈ inner,
      expression.Always fun text => ∃ node, Writes names text node) :
    (operand names inner).Always fun text => ∃ node, Writes names text node := by
  refine Always.bind (always_any _) fun drawn _ => ?_
  refine Always.ite (fun hdrawn => ?_) fun _ => ?_
  · obtain rfl : names = true := (Bool.and_eq_true_iff.mp hdrawn).1
    exact always_name.mono fun text htext => ⟨_, .name htext⟩
  · cases inner with
    | none => exact always_number names
    | some expression =>
        refine Always.ite (fun _ => ?_) fun _ => always_number names
        refine Always.bind (hinner expression rfl) fun text htext => ?_
        obtain ⟨node, hnode⟩ := htext
        exact always_pure ⟨_, .parenthesized hnode.text_eq hnode.spellable
          fun hnames => (hnode.safe hnames).1⟩

theorem always_expression (names : Bool) (room : Nat) :
    (expression names room : Generator State String).Always fun text =>
      ∃ node, Writes names text node := by
  -- An expression drawn with more room is built of those drawn with less.
  induction room with
  | zero => exact always_operand (by simp)
  | succ room ih =>
      refine Always.bind (always_any _) fun alone _ => ?_
      refine Always.ite (fun _ => always_operand (by simpa using ih)) fun _ => ?_
      refine Always.bind (always_oneOf _) fun symbol hsymbol => ?_
      refine Always.bind ih fun left hleft => ?_
      obtain ⟨first, hfirst⟩ := hleft
      obtain ⟨kind, rfl, hdivides⟩ := exists_kind_of_symbol symbol hsymbol
      refine Always.ite (fun _ => ?_) fun hother => ?_
      · refine Always.bind (always_between _ _) fun divisor hdivisor => ?_
        have hrepresentable := @isRepresentable_of_small divisor
          (by omega) (by omega)
        exact always_pure ⟨_, hfirst.division kind (by omega) hrepresentable⟩
      · refine Always.bind ih fun right hright => always_pure ?_
        obtain ⟨second, hsecond⟩ := hright
        have hundivided : kind.divides = false := by
          rwa [hdivides, Bool.not_eq_true] at hother
        exact ⟨_, hfirst.operation hundivided hsecond⟩

end Generator
end Corpus

/-! ## Lines -/

theorem Node.Writable.unbroken {node : Node} (h : node.Writable) :
    '\n' ∉ node.pieces.flatMap Piece.text := by
  induction node with
  | number value =>
      simpa [Node.pieces, Piece.text] using toString_unbroken value
  | reference identifier =>
      simpa [Node.pieces, Piece.text] using h.1.unbroken (by simp [h.2])
  | parenthesized inner ih => simpa [Node.pieces, Piece.text] using ih h
  | binary left operator right ihLeft ihRight =>
      obtain ⟨hleft, ⟨hlexical, hoperator⟩, hright⟩ := h
      have hkind : operator.token.kind ≠ .stringLiteral := by
        intro hstring
        simp [Operator.ofToken?, OperatorKind.ofTokenKind?, hstring] at hoperator
      have hsymbol := hlexical.unbroken hkind
      simp only [Node.pieces, Piece.text, Operator.symbol, List.flatMap_append,
        List.flatMap_cons, List.mem_append, List.mem_singleton, not_or]
      exact ⟨ihLeft hleft, by decide, hsymbol, by decide, ihRight hright⟩
  | error span => exact h.elim
  | expressionStatement body _ => exact h.elim
  | assignStatement identifier initializer _ => exact h.elim

namespace Corpus

/-- The line of a statement that is grouped as reading yields it.  Without names
the statement has a value. -/
structure Holds (names : Bool) (line : String) (node : Node) : Prop where
  spelled : ∃ pieces, Node.LineOf node pieces ∧
    line.toList ++ ['\n'] = pieces.flatMap Piece.text
  unbroken : '\n' ∉ line.toList
  writable : node.StatementWritable
  grouped : node.Grouped
  safe : names = false → node.StatementSafe

namespace Writes

variable {names : Bool} {text : String} {node : Node}

theorem text_regrouped (h : Writes names text node) :
    text.toList = node.regroup.respelled.pieces.flatMap Piece.text := by
  have hsame := node.regroup_reassociated
  rw [(hsame.spellable.mpr h.spellable).text_respelled, hsame.pieces, h.text_eq]

theorem writable (h : Writes names text node) :
    node.regroup.respelled.Writable :=
  (node.regroup_reassociated.spellable.mpr h.spellable).writable

theorem unbroken (h : Writes names text node) : '\n' ∉ text.toList := by
  rw [h.text_regrouped]
  exact h.writable.unbroken

theorem expressionLine (h : Writes false text node) (terminated : Bool) :
    Holds names (if terminated then text ++ ";" else text)
      (.expressionStatement node.regroup.respelled) where
  spelled := by
    cases terminated with
    | true => exact ⟨_, .terminated _, by simp [h.text_regrouped, Piece.text]⟩
    | false =>
        exact ⟨_, .canonical _,
          by simp [Node.statementPieces, h.text_regrouped, Piece.text]⟩
  unbroken := by cases terminated <;> simp [h.unbroken]
  writable := ⟨h.writable, (h.safe rfl).1.tree.respelled.beginsNamed⟩
  grouped := node.regroup_grouped.respelled
  safe _ := (h.safe rfl).1.tree.respelled

theorem assignmentLine (h : Writes true text node) {target : String}
    (htarget : (nameToken target).IsName) :
    Holds true (target ++ " := " ++ text ++ ";")
      (.assignStatement ((nameToken target).respelled .identifier)
        node.regroup.respelled) where
  spelled := ⟨_, .canonical _, by
    simp [Node.statementPieces, h.text_regrouped, Piece.text,
      Token.lexeme_respelled, nameToken]⟩
  unbroken := by
    have hname := htarget.isLexical.unbroken TokenKind.noConfusion
    rw [Token.lexeme_respelled] at hname
    change '\n' ∉ target.toList at hname
    simp [h.unbroken, hname]
  writable := ⟨⟨htarget.isLexical, rfl⟩, h.writable⟩
  grouped := node.regroup_grouped.respelled
  safe hnames := absurd hnames (by decide)

end Writes

namespace Generator

variable {State : Type}

theorem always_line (names : Bool) :
    (line names : Generator State String).Always fun text =>
      ∃ node, Holds names text node := by
  have hexpression : (expressionLine : Generator State String).Always
      fun text => ∃ node, Holds names text node := by
    refine Always.bind (always_expression false nesting) fun text htext => ?_
    obtain ⟨node, hnode⟩ := htext
    refine Always.bind (always_any _) fun terminated _ => always_pure ?_
    exact ⟨_, hnode.expressionLine terminated⟩
  refine Always.ite (fun hnames => ?_) fun _ => hexpression
  subst hnames
  refine Always.bind (always_any _) fun assigned _ => ?_
  refine Always.ite (fun _ => ?_) fun _ => hexpression
  refine Always.bind always_name fun target htarget => ?_
  refine Always.bind (always_expression true nesting) fun text htext => ?_
  obtain ⟨node, hnode⟩ := htext
  exact always_pure ⟨_, hnode.assignmentLine htarget⟩

end Generator

/-! ## Programs -/

section

variable {names : Bool} {lines : List String} {nodes : List Node}

theorem exists_statements {lines : List String}
    (h : ∀ line ∈ lines, ∃ node, Holds names line node) :
    ∃ nodes, List.Forall₂ (Holds names) lines nodes := by
  induction lines with
  | nil => exact ⟨[], .nil⟩
  | cons line lines ih =>
      obtain ⟨⟨node, hnode⟩, hlines⟩ := List.forall_mem_cons.mp h
      obtain ⟨nodes, hnodes⟩ := ih hlines
      exact ⟨node :: nodes, .cons hnode hnodes⟩

theorem lines_of_holds (h : List.Forall₂ (Holds names) lines nodes) :
    ∃ pieces, List.Forall₂ Node.LineOf nodes pieces ∧
      (Text.terminated lines).toList = pieces.flatten.flatMap Piece.text := by
  induction h with
  | nil => exact ⟨[], .nil, by simp [Text.terminated]⟩
  | cons hfirst _ ih =>
      obtain ⟨first, hline, htext⟩ := hfirst.spelled
      obtain ⟨others, hothers, hrest⟩ := ih
      refine ⟨first :: others, .cons hline hothers, ?_⟩
      rw [List.flatten_cons, List.flatMap_append, ← htext, ← hrest]
      simp [Text.terminated]

theorem members_of_holds (h : List.Forall₂ (Holds names) lines nodes) :
    (∀ line ∈ lines, '\n' ∉ line.toList) ∧
      ∀ node ∈ nodes, node.StatementWritable ∧ node.Grouped ∧
        (names = false → node.StatementSafe) := by
  induction h with
  | nil => simp
  | cons hfirst _ ih =>
      exact ⟨List.forall_mem_cons.mpr ⟨hfirst.unbroken, ih.1⟩,
        List.forall_mem_cons.mpr
          ⟨⟨hfirst.writable, hfirst.grouped, hfirst.safe⟩, ih.2⟩⟩

theorem analyze_of_holds (h : List.Forall₂ (Holds names) lines nodes) :
    (analyze (Text.terminated lines)).diagnostics = [] ∧
      List.Forall₂ Node.StatementAlike nodes
        (analyze (Text.terminated lines)).statements := by
  obtain ⟨pieces, hlines, htext⟩ := lines_of_holds h
  have hnodes := (members_of_holds h).2
  exact Node.analyze_lines hlines (fun node hmem => (hnodes node hmem).1)
    (fun node hmem => (hnodes node hmem).2.1) htext

theorem analyze_line {line : String} {node : Node} (h : Holds names line node) :
    (analyze (line ++ "\n")).diagnostics = [] ∧
      ∃ other, (analyze (line ++ "\n")).statements = [other] ∧
        node.StatementAlike other := by
  have hended : Text.terminated [line] = line ++ "\n" := by
    simp [Text.terminated]
  obtain ⟨hclean, halike⟩ := analyze_of_holds (.cons h .nil)
  rw [hended] at hclean halike
  obtain ⟨other, others, hother, hothers, hread⟩ :=
    List.forall₂_cons_left_iff.mp halike
  rw [List.forall₂_nil_left_iff.mp hothers] at hread
  exact ⟨hclean, other, hread, hother⟩

theorem read_by_lines (h : List.Forall₂ (Holds names) lines nodes)
    {statements : List Node}
    (halike : List.Forall₂ Node.StatementAlike nodes statements) :
    List.Forall₂ (fun line statement =>
        (analyze (line ++ "\n")).diagnostics = [] ∧
          (analyze (line ++ "\n")).statements.map Node.unplaced =
            [statement.unplaced])
      lines statements := by
  induction h generalizing statements with
  | nil =>
      cases halike
      exact .nil
  | cons hfirst _ ih =>
      cases halike with
      | cons hsame hrest =>
          obtain ⟨hclean, other, hread, hother⟩ := analyze_line hfirst
          refine .cons ⟨hclean, ?_⟩ (ih hrest)
          rw [hread, List.map_singleton, ← hother.unplaced, hsame.unplaced]

theorem terminated_valid (h : List.Forall₂ (Holds names) lines nodes) :
    (analyze (Text.terminated lines)).diagnostics = [] ∧
      List.Forall₂ (fun line statement =>
          (analyze (line ++ "\n")).diagnostics = [] ∧
            (analyze (line ++ "\n")).statements.map Node.unplaced =
              [statement.unplaced])
        lines (analyze (Text.terminated lines)).statements ∧
      (names = false → ∃ values,
        evaluateSource (Text.terminated lines) = .ok values ∧
          values.length = lines.length) := by
  obtain ⟨hclean, halike⟩ := analyze_of_holds h
  refine ⟨hclean, ?_, ?_⟩
  · exact read_by_lines h halike
  · intro hnames
    have hsafe := (members_of_holds h).2
    obtain ⟨values, hvalues, hlength⟩ :=
      evaluate_of_safe fun node hmem => (hsafe node hmem).2.2 hnames
    refine ⟨values, ?_, hlength.trans h.length_eq.symm⟩
    rw [evaluateSource_of_clean hclean, evaluate_of_alike halike hvalues]
    rfl

end

namespace Generator

variable {State : Type}

theorem always_program (names : Bool) :
    (program names : Generator State String).Always fun text =>
      ∃ lines nodes, text = Text.terminated lines ∧
        List.Forall₂ (Holds names) lines nodes := by
  refine Always.bind (always_between _ _) fun count hcount => ?_
  refine Always.bind (always_times (always_line names) _) fun lines hlines => ?_
  obtain ⟨hlength, hstatements⟩ := hlines
  obtain ⟨nodes, hnodes⟩ := exists_statements hstatements
  have hnonempty : lines ≠ [] := by
    rintro rfl
    simp only [List.length_nil] at hlength
    omega
  exact always_pure ⟨lines, nodes, Text.intercalate_ended hnonempty, hnodes⟩

end Generator

/-- Whatever is drawn, and so for every seed and every count, a generated
program is without faults.  It is read line by line, each line as the one
statement that it is by itself, and without names it has a value for every
line. -/
theorem programs_valid {State : Type} (source : DrawSource State) (names : Bool)
    (count : Int) (state : State) {text : String}
    (h : text ∈ (programs source names count state).1) :
    ∃ lines : List String, text = Text.terminated lines ∧
      (∀ line ∈ lines, '\n' ∉ line.toList) ∧
      (analyze text).diagnostics = [] ∧
      (analyze text).statements.length = lines.length ∧
      List.Forall₂ (fun line statement =>
          (analyze (line ++ "\n")).diagnostics = [] ∧
            (analyze (line ++ "\n")).statements.map Node.unplaced =
              [statement.unplaced])
        lines (analyze text).statements ∧
      (names = false → ∃ values, evaluateSource text = .ok values ∧
        values.length = lines.length) := by
  have hprograms := Generator.always_times
    (Generator.always_program names) count.toNat source state
  obtain ⟨lines, nodes, rfl, hholds⟩ := hprograms.2 text h
  obtain ⟨hclean, hread, hvalued⟩ := terminated_valid hholds
  exact ⟨lines, rfl, (members_of_holds hholds).1, hclean,
    hread.length_eq.symm, hread, hvalued⟩

def listed : DrawSource (List Nat) where
  below bound positive draws :=
    (⟨draws.headD 0 % bound, Nat.mod_lt _ positive⟩, draws.tail)
  fraction draws :=
    (⟨draws.headD 0 % 0x20000000000000, Nat.mod_lt _ (by decide)⟩, draws.tail)

def twoLineDraws : List Nat :=
  let most := 0x1fffffffffffff
  [1, most, 2, most, 3, most, 3, 0, 782, 3, 3, 0, most, 927, most,
    most, 4, 0, most, 291, 1, most]

/-- The second program takes the least draws throughout, and so nests a number
in parentheses as deeply as possible. -/
theorem listed_programs_valid :
    (programs listed false 2 twoLineDraws).1 =
        ["((732 / 4) / 4) * 877\n(241 % 2)\n", "(((-50)));\n"] ∧
      ∀ text ∈ ["((732 / 4) / 4) * 877\n(241 % 2)\n", "(((-50)));\n"],
        ∃ lines : List String, text = Text.terminated lines ∧
          (analyze text).diagnostics = [] ∧
          (analyze text).statements.length = lines.length ∧
          ∃ values, evaluateSource text = .ok values ∧
            values.length = lines.length := by
  have hdrawn : (programs listed false 2 twoLineDraws).1 =
      ["((732 / 4) / 4) * 877\n(241 % 2)\n", "(((-50)));\n"] := by
    decide +kernel
  refine ⟨hdrawn, ?_⟩
  intro text hmem
  obtain ⟨lines, hlines, -, hclean, hcount, -, hvalued⟩ :=
    programs_valid listed false 2 twoLineDraws (hdrawn ▸ hmem)
  exact ⟨lines, hlines, hclean, hcount, hvalued rfl⟩

end Corpus
end ExprLang
