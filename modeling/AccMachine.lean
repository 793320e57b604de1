import AccMachine.Table
import AccMachine.Decimal
import AccMachine.Text.Blank
import AccMachine.Text.Unprintable
import AccMachine.Text.Quoted
import AccMachine.Source
import AccMachine.Mnemonic
import AccMachine.Operand
import AccMachine.Line
import AccMachine.Program
import AccMachine.Fault
import AccMachine.FileTree
import AccMachine.Output
import AccMachine.Console
import AccMachine.Console.Buffer
import AccMachine.Console.Limited
import AccMachine.Trace
import AccMachine.Log
import AccMachine.Dialogue
import AccMachine.Host
import AccMachine.Session
import AccMachine.Machine.Basic
import AccMachine.Machine.Act
import AccMachine.Machine.Execute
import AccMachine.Machine.Chain
import AccMachine.Machine.Run
import AccMachine.CommandLine.Options
import AccMachine.CommandLine.Terminal
import AccMachine.CommandLine.Invocation
import AccMachine.Main
import AccMachine.Proofs.EffectOrder
import AccMachine.Proofs.LineDialogue
import AccMachine.Proofs.LineEffect
import AccMachine.Proofs.Turns
import AccMachine.Proofs.Tree
import AccMachine.Proofs.CallChain
import AccMachine.Proofs.FailureTrail
import AccMachine.Proofs.TreeInvariant
import AccMachine.Proofs.Halting
import AccMachine.Proofs.Handshake
import AccMachine.Proofs.ThreadInvariant
import AccMachine.Proofs.SynchronousCall
import AccMachine.Proofs.Agreement
import AccMachine.Proofs.TraceModes
import AccMachine.Proofs.SheetRecord
import AccMachine.Proofs.SourceText
import AccMachine.Proofs.StraightLine
import AccMachine.Proofs.Parallel
import AccMachine.Proofs.Simulation
import AccMachine.Proofs.InlinedProgram
import AccMachine.Proofs.Inlining
import AccMachine.Proofs.Cutoff
import AccMachine.Proofs.Input
import AccMachine.Proofs.Spacing
import AccMachine.Proofs.Blame
import AccMachine.Proofs.PhysicalLines
import AccMachine.Proofs.Layout
import AccMachine.Proofs.Stripping
import AccMachine.Proofs.CommentLines
import AccMachine.Proofs.Rereading
import AccMachine.Proofs.LineGrammar
import AccMachine.Proofs.Sayings
import AccMachine.Proofs.Deeds
import AccMachine.Proofs.StorageHistory
import AccMachine.Proofs.Partners
import AccMachine.Proofs.UnreadSlot
import AccMachine.Proofs.LoosenedProgram
import AccMachine.Proofs.Loosening
import AccMachine.Proofs.RenamedLabels
import AccMachine.Proofs.Voices
import AccMachine.Proofs.Renaming
import AccMachine.Proofs.SameWords
import AccMachine.Proofs.CallRuns
import AccMachine.Proofs.ForwardCalls
import AccMachine.Proofs.TrimmedInput
import AccMachine.Proofs.InputBytes
import AccMachine.Proofs.Command
import AccMachine.Proofs.LineLog
import AccMachine.Proofs.Nesting
import AccMachine.Proofs.RunLog
import AccMachine.Proofs.JumpTargets
import AccMachine.Proofs.FailedInstructions
import AccMachine.Proofs.OwnRuns
import AccMachine.Proofs.ProgramCounter
import AccMachine.Proofs.ExactArithmetic
import AccMachine.Proofs.Numerals
import AccMachine.Proofs.IntegerTexts
import AccMachine.Proofs.ReadableSheet
