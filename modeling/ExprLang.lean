import ExprLang.Main
import ExprLang.Proofs.Evaluation.Course
import ExprLang.Proofs.Layout.RoundTrip
import ExprLang.Proofs.Lexicon.Tiling
import ExprLang.Proofs.Reading.Account
import ExprLang.Proofs.Reading.Grammar
import ExprLang.Proofs.Reading.Progress
import ExprLang.Tree.Walk
import ExprLang.Proofs.Evaluation.Source
import ExprLang.Proofs.Reading.Correspondence
import ExprLang.Proofs.Lexicon.Concatenation
import ExprLang.Proofs.Tree.Displacement
import ExprLang.Proofs.Evaluation.Composition
import ExprLang.Proofs.Layout.Spacing
import ExprLang.Proofs.Layout.HandBuilt
import ExprLang.Proofs.Reading.ErrorNodes
import ExprLang.Proofs.Reading.Sites
import ExprLang.Proofs.Reading.Terminators
import ExprLang.Proofs.Report.Order
import ExprLang.Proofs.Lexicon.CarriageReturns
import ExprLang.Proofs.Report.Lines
import ExprLang.Proofs.Report.CarriageReturns
import ExprLang.Proofs.Corpus.Validity
import ExprLang.Proofs.Report.Pointers
import ExprLang.Proofs.Text.Quoted
import ExprLang.Proofs.Tree.Outline
import ExprLang.Proofs.CommandLine.Conclusion
import ExprLang.Proofs.Lexicon.Cuts
import ExprLang.Proofs.Reading.Charges
import ExprLang.Proofs.Reading.Resumption
import ExprLang.Proofs.Reading.Repairs
import ExprLang.Proofs.Reading.Lookahead
import ExprLang.Proofs.Tree.Succession
import ExprLang.Proofs.Lexicon.StringLiterals
import ExprLang.Proofs.Evaluation.Truncation
