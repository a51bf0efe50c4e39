import Scriptlet.Proofs.Append.Program
import Scriptlet.Proofs.Grammar.Precedence
import Scriptlet.Proofs.Heap.Comparison
import Scriptlet.Proofs.Heap.Element
import Scriptlet.Proofs.Heap.Lifetime
import Scriptlet.Proofs.Host.Arrays
import Scriptlet.Proofs.Host.Atomic
import Scriptlet.Proofs.Host.Placeholders
import Scriptlet.Proofs.Host.Unknown
import Scriptlet.Proofs.Loop.Integers
import Scriptlet.Proofs.Loop.Progress
import Scriptlet.Proofs.Output.Limit
import Scriptlet.Proofs.Report.Pointing
import Scriptlet.Proofs.Parser.FirstError
import Scriptlet.Proofs.Parser.Local
import Scriptlet.Proofs.Return.Citation
import Scriptlet.Proofs.Return.Policies
import Scriptlet.Proofs.Scan.Layout
import Scriptlet.Proofs.Scan.Sites
import Scriptlet.Proofs.Scan.Tokenize
import Scriptlet.Proofs.Scope.Isolation
import Scriptlet.Proofs.Survey.Lexical
import Scriptlet.Proofs.Watch.Typed
import Scriptlet.Folder
import Scriptlet.Host.Scripted
import Scriptlet.Main
import Scriptlet.Session
