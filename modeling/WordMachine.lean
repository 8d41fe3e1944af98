import WordMachine.Device.Broken
import WordMachine.Main
import WordMachine.Network.Report
import WordMachine.Session
import WordMachine.Proofs.Flat
import WordMachine.Proofs.Memory
import WordMachine.Proofs.Refinement.Engine
import WordMachine.Proofs.Channel
import WordMachine.Proofs.Network.Move
import WordMachine.Proofs.Network.Alone
import WordMachine.Proofs.Network.Closing
import WordMachine.Proofs.Network.Deadlock
import WordMachine.Proofs.Network.Kahn
import WordMachine.Proofs.Engine.Faults
import WordMachine.Proofs.Network.Sends
import WordMachine.Proofs.Memory.History
import WordMachine.Proofs.Memory.Growth
import WordMachine.Proofs.Arrangement
import WordMachine.Proofs.Network.Search
import WordMachine.Proofs.Network.Ring
import WordMachine.Proofs.Network.Hook
import WordMachine.Proofs.Network.Waiting
import WordMachine.Proofs.Engine.Range
import WordMachine.Proofs.Device.Coupling
import WordMachine.Proofs.Text.Numeral
import WordMachine.Proofs.Device.Bindings
import WordMachine.Proofs.Device.Exchange
import WordMachine.Proofs.Device.Session
import WordMachine.Proofs.Device.Late
import WordMachine.Proofs.Channel.History
import WordMachine.Proofs.Text.Fields
import WordMachine.Proofs.Image
import WordMachine.Proofs.Engine.Lifecycle
import WordMachine.Proofs.Engine.Suspension
import WordMachine.Proofs.Device.Overlap
import WordMachine.Proofs.Device.Atomic
import WordMachine.Proofs.Decoding
import WordMachine.Proofs.Image.Written
import WordMachine.Proofs.Robot
import WordMachine.Proofs.Robot.Picture
import WordMachine.Proofs.Robot.Keys
import WordMachine.Proofs.Arrangement.Enumeration
import WordMachine.Proofs.Text.Lines
import WordMachine.Proofs.Text.Trim
import WordMachine.Proofs.Device.Console
import WordMachine.Proofs.Device.Surplus
import WordMachine.Proofs.Device.Mirror
import WordMachine.Proofs.Device.Residues
import WordMachine.Proofs.Network.Residues
import WordMachine.Proofs.Disassembly
import WordMachine.Proofs.CommandLine.Word
import WordMachine.Proofs.CommandLine.Range
import WordMachine.Proofs.Engine.Trace
