import Z80Workbench.Assembly.Aliasing
import Z80Workbench.Assembly.Analysis
import Z80Workbench.Assembly.Image
import Z80Workbench.Assembly.Layout
import Z80Workbench.Assembly.Listing
import Z80Workbench.Assembly.Run
import Z80Workbench.Assembly.Step
import Z80Workbench.Cells
import Z80Workbench.Cli.Arguments
import Z80Workbench.Cli.Assembler
import Z80Workbench.Cli.Invocation
import Z80Workbench.Cli.Simulator
import Z80Workbench.Cli.Transcript
import Z80Workbench.Code.Field
import Z80Workbench.Code.Form
import Z80Workbench.Code.LookUp
import Z80Workbench.Code.Size
import Z80Workbench.Diagnostic
import Z80Workbench.Expr.Basic
import Z80Workbench.Expr.Literal
import Z80Workbench.Expr.Scope
import Z80Workbench.Fault
import Z80Workbench.Firmware
import Z80Workbench.Isa.Condition
import Z80Workbench.Isa.Instruction
import Z80Workbench.Isa.Mnemonic
import Z80Workbench.Isa.Operand
import Z80Workbench.Isa.Register
import Z80Workbench.Isa.Timing
import Z80Workbench.Machine.Arithmetic
import Z80Workbench.Machine.Basic
import Z80Workbench.Machine.Execute
import Z80Workbench.Machine.Flags
import Z80Workbench.Machine.Registers
import Z80Workbench.Machine.Video
import Z80Workbench.Main
import Z80Workbench.Memory
import Z80Workbench.Proofs.Assembly.Aliasing
import Z80Workbench.Proofs.Assembly.Alike
import Z80Workbench.Proofs.Assembly.Binding
import Z80Workbench.Proofs.Assembly.ByteItems
import Z80Workbench.Proofs.Assembly.Comments
import Z80Workbench.Proofs.Assembly.Consistency
import Z80Workbench.Proofs.Assembly.Contiguous
import Z80Workbench.Proofs.Assembly.Declarations
import Z80Workbench.Proofs.Assembly.LetterCase
import Z80Workbench.Proofs.Assembly.Rewording
import Z80Workbench.Proofs.Assembly.Run
import Z80Workbench.Proofs.Assembly.Sections
import Z80Workbench.Proofs.Assembly.SizeAgreement
import Z80Workbench.Proofs.Assembly.Symbols
import Z80Workbench.Proofs.Assembly.Unresolved
import Z80Workbench.Proofs.Assembly.Yield
import Z80Workbench.Proofs.Code.Boundaries
import Z80Workbench.Proofs.Code.Branch
import Z80Workbench.Proofs.Code.Decode
import Z80Workbench.Proofs.Code.Failure
import Z80Workbench.Proofs.Code.Fields
import Z80Workbench.Proofs.Code.Length
import Z80Workbench.Proofs.Code.LookUp
import Z80Workbench.Proofs.Code.ReadBack
import Z80Workbench.Proofs.Code.Reads
import Z80Workbench.Proofs.Code.Rewriting
import Z80Workbench.Proofs.Code.RoundTrip
import Z80Workbench.Proofs.Code.Uniform
import Z80Workbench.Proofs.Except
import Z80Workbench.Proofs.Expansion
import Z80Workbench.Proofs.Export
import Z80Workbench.Proofs.Expr.Arithmetic
import Z80Workbench.Proofs.Expr.CharacterLiteral
import Z80Workbench.Proofs.Expr.Formula
import Z80Workbench.Proofs.Expr.Growth
import Z80Workbench.Proofs.Expr.LetterCase
import Z80Workbench.Proofs.Expr.Literal
import Z80Workbench.Proofs.Expr.Pieces
import Z80Workbench.Proofs.Fault
import Z80Workbench.Proofs.Firmware
import Z80Workbench.Proofs.Machine.Block.Copy
import Z80Workbench.Proofs.Machine.Block.Repetition
import Z80Workbench.Proofs.Machine.Block.Search
import Z80Workbench.Proofs.Machine.Block.Steps
import Z80Workbench.Proofs.Machine.CarryChain
import Z80Workbench.Proofs.Machine.Counter
import Z80Workbench.Proofs.Machine.FlagEffect
import Z80Workbench.Proofs.Machine.Flat
import Z80Workbench.Proofs.Machine.Inert.Basic
import Z80Workbench.Proofs.Machine.Inert.Control
import Z80Workbench.Proofs.Machine.Inert.Data
import Z80Workbench.Proofs.Machine.NoValue
import Z80Workbench.Proofs.Machine.ProgramCounter
import Z80Workbench.Proofs.Machine.Refusal
import Z80Workbench.Proofs.Machine.SameCode
import Z80Workbench.Proofs.Machine.Spelling
import Z80Workbench.Proofs.Machine.Stack
import Z80Workbench.Proofs.Machine.Stray
import Z80Workbench.Proofs.Machine.Transfer
import Z80Workbench.Proofs.Machine.VideoPorts
import Z80Workbench.Proofs.Machine.VideoUsage
import Z80Workbench.Proofs.Machine.WellFormed
import Z80Workbench.Proofs.Memory
import Z80Workbench.Proofs.Nesting
import Z80Workbench.Proofs.Origins
import Z80Workbench.Proofs.Rounds
import Z80Workbench.Proofs.Source.Capitals
import Z80Workbench.Proofs.Source.ColonLabels
import Z80Workbench.Proofs.Source.Comment
import Z80Workbench.Proofs.Source.KeptLabels
import Z80Workbench.Proofs.Source.LabelLine
import Z80Workbench.Proofs.Source.Labels
import Z80Workbench.Proofs.Source.Operands
import Z80Workbench.Proofs.StableOrder
import Z80Workbench.Proofs.Table
import Z80Workbench.Proofs.Text.Capital
import Z80Workbench.Proofs.Text.Fixed
import Z80Workbench.Proofs.Text.Lines
import Z80Workbench.Proofs.Text.Sign
import Z80Workbench.Proofs.Text.Trim
import Z80Workbench.Proofs.Walk.Addressed
import Z80Workbench.Proofs.Walk.BlackBox
import Z80Workbench.Proofs.Walk.CallEffect
import Z80Workbench.Proofs.Walk.CallStack
import Z80Workbench.Proofs.Walk.ComputedJump
import Z80Workbench.Proofs.Walk.Condition
import Z80Workbench.Proofs.Walk.CountedLoop
import Z80Workbench.Proofs.Walk.Flat
import Z80Workbench.Proofs.Walk.LastLine
import Z80Workbench.Proofs.Walk.Moves
import Z80Workbench.Proofs.Walk.Numbering
import Z80Workbench.Proofs.Walk.Operand
import Z80Workbench.Proofs.Walk.Refusal
import Z80Workbench.Proofs.Walk.Replay
import Z80Workbench.Proofs.Walk.Resumption
import Z80Workbench.Proofs.Walk.Stages
import Z80Workbench.Proofs.Walk.Targets
import Z80Workbench.Proofs.Walk.Visits
import Z80Workbench.Proofs.Walk.WellFormed
import Z80Workbench.Repeat
import Z80Workbench.Settings
import Z80Workbench.Source.Line
import Z80Workbench.Source.Quote
import Z80Workbench.Table
import Z80Workbench.Text.Blank
import Z80Workbench.Text.Digit
import Z80Workbench.Text.Hex
import Z80Workbench.Text.Integer
import Z80Workbench.Text.Json
import Z80Workbench.Text.Letter
import Z80Workbench.Text.Lines
import Z80Workbench.Text.Quoted
import Z80Workbench.Text.Similar
import Z80Workbench.Text.Split
import Z80Workbench.Text.Terminal
import Z80Workbench.Text.Upper
import Z80Workbench.Text.Utf8
import Z80Workbench.Walk.Breakpoint
import Z80Workbench.Walk.Program
import Z80Workbench.Walk.Report
import Z80Workbench.Walk.Run
import Z80Workbench.Walk.Step
import Z80Workbench.Word
