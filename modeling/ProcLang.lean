import ProcLang.Grammar.Progress
import ProcLang.Main
import ProcLang.Proofs.Typing.Frames
import ProcLang.Tree.Equality
import ProcLang.Proofs.Typing.Agreement
import ProcLang.Proofs.Typing.Idempotent
import ProcLang.Proofs.Lexical.Tiling
import ProcLang.Proofs.Grammar.Concrete
import ProcLang.Proofs.Grammar.Level
import ProcLang.Proofs.Grammar.Complete
import ProcLang.Proofs.Grammar.Sound
import ProcLang.Proofs.Grammar.Unambiguous
import ProcLang.Proofs.Grammar.Exact
import ProcLang.Proofs.Grammar.Blame
import ProcLang.Proofs.Printing.Printer
import ProcLang.Proofs.Printing.Scan
import ProcLang.Proofs.Printing.Words
import ProcLang.Proofs.Printing.RoundTrip
import ProcLang.Proofs.Scope.Outline
import ProcLang.Proofs.Typing.Footprint
import ProcLang.Proofs.Typing.Declared
import ProcLang.Proofs.Typing.Annotated
import ProcLang.Proofs.Typing.Siblings
import ProcLang.Proofs.Typing.Lines
import ProcLang.Proofs.Grammar.Places
import ProcLang.Proofs.Layout
import ProcLang.Proofs.Typing.Origin
import ProcLang.Proofs.Command.Status
import ProcLang.Proofs.Typing.Shape
import ProcLang.Proofs.Typing.Success
import ProcLang.Proofs.Typing.Nodes
import ProcLang.Proofs.Typing.Consistent
import ProcLang.Proofs.Typing.Values
import ProcLang.Proofs.Lexical.Separator
import ProcLang.Proofs.Scope.Renaming
import ProcLang.Proofs.Typing.Names
import ProcLang.Proofs.Typing.Renaming
import ProcLang.Proofs.Typing.Absent
import ProcLang.Proofs.Typing.Site
import ProcLang.Proofs.Typing.Entry
import ProcLang.Proofs.Typing.Weakening
import ProcLang.Proofs.Typing.FailFast
import ProcLang.Proofs.Grammar.Number
import ProcLang.Proofs.Diagnosis
import ProcLang.Proofs.Source.Place
import ProcLang.Proofs.Excerpt
import ProcLang.Proofs.Grammar.Termination
import ProcLang.Proofs.Scope.Listing
import ProcLang.Proofs.Canonical
import ProcLang.Proofs.Typing.Reading
