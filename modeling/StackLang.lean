import StackLang.Main
import StackLang.Text.View
import StackLang.Proofs.Text.Ascii
import StackLang.Proofs.Text.Splitting
import StackLang.Proofs.Numeric.Numerals
import StackLang.Proofs.Numeric.Patterns
import StackLang.Proofs.Bytecode.Damage
import StackLang.Proofs.Bytecode.FileFormat
import StackLang.Proofs.Assembly.Acceptance
import StackLang.Proofs.Assembly.Collected
import StackLang.Proofs.Assembly.Escaped
import StackLang.Proofs.Assembly.Executable
import StackLang.Proofs.Assembly.Grammar
import StackLang.Proofs.Assembly.Integers
import StackLang.Proofs.Assembly.Jumps
import StackLang.Proofs.Assembly.Labels
import StackLang.Proofs.Assembly.Placed
import StackLang.Proofs.Assembly.ReadBack
import StackLang.Proofs.Assembly.References
import StackLang.Proofs.Assembly.Rejection
import StackLang.Proofs.Assembly.Renaming
import StackLang.Proofs.Assembly.Resolution
import StackLang.Proofs.Assembly.Rewriting
import StackLang.Proofs.Assembly.Spelling
import StackLang.Proofs.Machine.Bounds
import StackLang.Proofs.Machine.ByteStore
import StackLang.Proofs.Machine.Calls
import StackLang.Proofs.Machine.Cells
import StackLang.Proofs.Machine.Conservation
import StackLang.Proofs.Machine.Failure
import StackLang.Proofs.Machine.Flaws
import StackLang.Proofs.Machine.Foreign
import StackLang.Proofs.Machine.Frame
import StackLang.Proofs.Machine.Freeing
import StackLang.Proofs.Machine.Locality
import StackLang.Proofs.Machine.Modular
import StackLang.Proofs.Machine.Narrow
import StackLang.Proofs.Machine.Operands
import StackLang.Proofs.Machine.Printing
import StackLang.Proofs.Machine.Raised
import StackLang.Proofs.Machine.Remainder
import StackLang.Proofs.Machine.Runs
import StackLang.Proofs.Machine.Sessions
import StackLang.Proofs.Machine.ZeroDivision
import StackLang.Proofs.Source.Blocks
import StackLang.Proofs.Source.Building
import StackLang.Proofs.Source.Constants
import StackLang.Proofs.Source.Declarations
import StackLang.Proofs.Source.Diagnostics
import StackLang.Proofs.Source.Expressions
import StackLang.Proofs.Source.Faults
import StackLang.Proofs.Source.Fields
import StackLang.Proofs.Source.Forest
import StackLang.Proofs.Source.Growth
import StackLang.Proofs.Source.Integers
import StackLang.Proofs.Source.Labels
import StackLang.Proofs.Source.Layout
import StackLang.Proofs.Source.Lines
import StackLang.Proofs.Source.Literals
import StackLang.Proofs.Source.Locations
import StackLang.Proofs.Source.Moves
import StackLang.Proofs.Source.Nodes
import StackLang.Proofs.Source.Precedence
import StackLang.Proofs.Source.Reading
import StackLang.Proofs.Source.Records
import StackLang.Proofs.Source.Recursion
import StackLang.Proofs.Source.Scopes
import StackLang.Proofs.Source.Scripts
import StackLang.Proofs.Source.Slices
import StackLang.Proofs.Source.Statements
import StackLang.Proofs.Source.Tables
import StackLang.Proofs.Source.Traversal
import StackLang.Proofs.Source.Typing
