import RobotScript.Bytecode
import RobotScript.Bytecode.Binary
import RobotScript.Bytecode.Listing
import RobotScript.Bytecode.Text
import RobotScript.CommandLine.Files
import RobotScript.CommandLine.Options
import RobotScript.CommandLine.Run
import RobotScript.CommandLine.Session
import RobotScript.Compile
import RobotScript.Condition
import RobotScript.Definitions
import RobotScript.Event
import RobotScript.Grammar.Block
import RobotScript.Grammar.Error
import RobotScript.Grammar.Program
import RobotScript.Grammar.Reader
import RobotScript.Main
import RobotScript.Opcode
import RobotScript.Program
import RobotScript.Program.Layout
import RobotScript.Statement
import RobotScript.Statement.Layout
import RobotScript.Text.Blank
import RobotScript.Text.Capital
import RobotScript.Text.Decimal
import RobotScript.Text.Outline
import RobotScript.Text.Plain
import RobotScript.Text.Quoted
import RobotScript.Text.Split
import RobotScript.Text.Terminal
import RobotScript.Token
import RobotScript.Token.Dump
import RobotScript.Token.Scan
import RobotScript.Proofs.Expansion
import RobotScript.Proofs.Execution
import RobotScript.Proofs.Simulation
import RobotScript.Proofs.BoundedExpansion
import RobotScript.Proofs.BlockReading
import RobotScript.Proofs.Lookup
import RobotScript.Proofs.ProgramReading
import RobotScript.Proofs.Canonical
import RobotScript.Proofs.RoundTrip
import RobotScript.Proofs.WellFormedCode
import RobotScript.Proofs.Flattening
import RobotScript.Proofs.Inlining
import RobotScript.Proofs.CodeInjectivity
import RobotScript.Proofs.ViablePrefix
import RobotScript.Proofs.BranchExchange
import RobotScript.Proofs.Renaming
import RobotScript.Proofs.TextFormat
import RobotScript.Proofs.BinaryFormat
import RobotScript.Proofs.Spacing
import RobotScript.Proofs.Reordering
import RobotScript.Proofs.Rewriting
import RobotScript.Proofs.Descent
import RobotScript.Proofs.DescentReading
import RobotScript.Proofs.RepeatedReading
import RobotScript.Proofs.Decoding
import RobotScript.Proofs.ErrorEvidence
import RobotScript.Proofs.Lexemes
import RobotScript.Proofs.FileStorage
import RobotScript.Proofs.CommandRun
import RobotScript.Proofs.JumpStructure
import RobotScript.Proofs.Relocation
import RobotScript.Proofs.SequenceNesting
import RobotScript.Proofs.UnusedInstructions
import RobotScript.Proofs.ActionOrder
import RobotScript.Proofs.AffirmativeForm
import RobotScript.Proofs.DepthLimits
import RobotScript.Proofs.RenamingBack
import RobotScript.Proofs.DelimitedText
import RobotScript.Proofs.TokenDump
import RobotScript.Proofs.CodeListing
import RobotScript.Proofs.Backpatching
import RobotScript.Proofs.ExpansionStack
import RobotScript.Proofs.WordClasses
