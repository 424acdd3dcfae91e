import CellMachine.Main
import CellMachine.Proofs.Machine.Attempt
import CellMachine.Proofs.Machine.Rest
import CellMachine.Proofs.Machine.Intents
import CellMachine.Proofs.Machine.InPlace
import CellMachine.Proofs.Machine.Session
import CellMachine.Proofs.Machine.Chunking
import CellMachine.Proofs.Machine.Finality
import CellMachine.Proofs.Machine.History
import CellMachine.Proofs.Machine.Refusal
import CellMachine.Proofs.Image.Patch
import CellMachine.Proofs.Machine.Layout
import CellMachine.Proofs.Reference.Machine
import CellMachine.Proofs.Reference.Refinement
import CellMachine.Proofs.Network.Basic
import CellMachine.Proofs.Network.Confluence
import CellMachine.Proofs.Network.RoundRobin
import CellMachine.Proofs.Network.Schedules
import CellMachine.Proofs.Amplifier.Bound
import CellMachine.Proofs.Amplifier.Agreement
import CellMachine.Proofs.Network.Deadlock
import CellMachine.Proofs.Image.Grammar
import CellMachine.Proofs.Image.Spacing
import CellMachine.Proofs.Amplifier.Arrangements
import CellMachine.Proofs.Amplifier.Search
import CellMachine.Proofs.Command.Request
import CellMachine.Proofs.Image.Overlong
import CellMachine.Proofs.Image.Loading
import CellMachine.Proofs.Machine.Emission
import CellMachine.Proofs.Command.Ending
import CellMachine.Proofs.Command.Reproduction
import CellMachine.Proofs.Command.Exits
import CellMachine.Proofs.Instruction.Digits
import CellMachine.Proofs.Machine.Checks
import CellMachine.Proofs.Machine.Suspension
import CellMachine.Proofs.Text.Position
import CellMachine.Proofs.Image.Rejection
import CellMachine.Proofs.Amplifier.Composition
import CellMachine.Proofs.Memory.Accesses
import CellMachine.Proofs.Machine.Discipline
import CellMachine.Proofs.Image.Overwriting
import CellMachine.Proofs.Machine.Tracing
import CellMachine.Proofs.Machine.StepCount
import CellMachine.Proofs.Command.Unloadable
import CellMachine.Proofs.Text.Ascii
import CellMachine.Proofs.Text.Report
