import WordMachine.Assembly.Constant
import WordMachine.Assembly.Error
import WordMachine.Assembly.Operand
import WordMachine.Assembly.Statement
import WordMachine.Assembly.Token
import WordMachine.CommandLine.Arguments
import WordMachine.CommandLine.Report
import WordMachine.CommandLine.Run
import WordMachine.Config
import WordMachine.Console.Command
import WordMachine.Console.Session
import WordMachine.Cpu
import WordMachine.Diagnostic
import WordMachine.Dump.Machine
import WordMachine.Dump.Table
import WordMachine.Dump.Words
import WordMachine.Event
import WordMachine.Host
import WordMachine.Isa.Instruction
import WordMachine.Isa.Opcode
import WordMachine.Isa.Register
import WordMachine.Machine.Basic
import WordMachine.Machine.Operation
import WordMachine.Machine.Run
import WordMachine.Main
import WordMachine.Memory
import WordMachine.Memory.Operation
import WordMachine.Processor
import WordMachine.Program.Basic
import WordMachine.Program.File
import WordMachine.Program.HexImage
import WordMachine.Program.Source
import WordMachine.Proofs.Assembly.Grammar
import WordMachine.Proofs.Assembly.Line
import WordMachine.Proofs.Assembly.Literal
import WordMachine.Proofs.Assembly.Position
import WordMachine.Proofs.Console.Command
import WordMachine.Proofs.Console.Output
import WordMachine.Proofs.Console.Script
import WordMachine.Proofs.Console.Stepping
import WordMachine.Proofs.Dump.Table
import WordMachine.Proofs.Dump.Machine
import WordMachine.Proofs.Isa.Arithmetic
import WordMachine.Proofs.Isa.Fault
import WordMachine.Proofs.Isa.Table
import WordMachine.Proofs.Machine.Capacity
import WordMachine.Proofs.Machine.Load
import WordMachine.Proofs.Machine.Reload
import WordMachine.Proofs.Machine.Source
import WordMachine.Proofs.Machine.Steps
import WordMachine.Proofs.Memory.Access
import WordMachine.Proofs.Program.File
import WordMachine.Proofs.Program.HexText
import WordMachine.Proofs.Program.Save
import WordMachine.Proofs.Storage.FileTree
import WordMachine.Proofs.Storage.Path
import WordMachine.Proofs.Text.Lines
import WordMachine.Proofs.Text.Numeral
import WordMachine.Proofs.Traversal
import WordMachine.Proofs.Word.Digits
import WordMachine.Storage.Fault
import WordMachine.Storage.FileTree
import WordMachine.Storage.Path
import WordMachine.Text.Basic
import WordMachine.Text.Blank
import WordMachine.Text.Encoding
import WordMachine.Text.Lines
import WordMachine.Text.Numeral
import WordMachine.Word
import WordMachine.World
import WordMachine.Proofs.Console.Break
import WordMachine.Proofs.Console.Dialogue
import WordMachine.Proofs.Assembly.Listing
import WordMachine.Proofs.Machine.Loadc
import WordMachine.Proofs.Console.Effect
import WordMachine.Proofs.Machine.History
import WordMachine.Proofs.Machine.SourceMap
import WordMachine.Proofs.Assembly.Constant
import WordMachine.Proofs.Assembly.Operand
import WordMachine.Proofs.Assembly.Letters
import WordMachine.Proofs.Assembly.Layout
import WordMachine.Proofs.Assembly.Spelling
import WordMachine.Proofs.CommandLine.Arguments
import WordMachine.Proofs.CommandLine.Run
import WordMachine.Proofs.Isa.Encoding
import WordMachine.Proofs.Machine.Budget
import WordMachine.Proofs.Assembly.Refusal
import WordMachine.Proofs.Assembly.Continuation
import WordMachine.Proofs.Assembly.Prefix
import WordMachine.Proofs.Isa.Footprint
import WordMachine.Proofs.Text.Words
import WordMachine.Proofs.Program.HexImage
import WordMachine.Proofs.Assembly.Combinators
import WordMachine.Proofs.Assembly.Scanner
import WordMachine.Proofs.Program.SourceMap
import WordMachine.Proofs.Memory.History
import WordMachine.Proofs.Text.Trim
import WordMachine.Proofs.Config
import WordMachine.Proofs.CommandLine.Configuration
import WordMachine.Proofs.Isa.Diagnostic
import WordMachine.Proofs.Console.Attempt
import WordMachine.Proofs.Console.Diagnostic
import WordMachine.Proofs.Machine.Diagnostic
import WordMachine.Proofs.Isa.ProgramCounter
import WordMachine.Proofs.Machine.ProgramCounter
