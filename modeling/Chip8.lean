import Chip8.Instruction.Decode
import Chip8.Instruction.Mnemonic
import Chip8.Registers
import Chip8.Memory.Dump
import Chip8.CallStack
import Chip8.Keypad
import Chip8.Keypad.Layout
import Chip8.Plane
import Chip8.Timer
import Chip8.Divider
import Chip8.Random.Generator
import Chip8.Machine.Step
import Chip8.Snapshot
import Chip8.CommandLine
import Chip8.Scheduler.Thread
import Chip8.Session
import Chip8.Sound.Card
import Chip8.Main
import Chip8.Proofs.Instruction.Encode
import Chip8.Proofs.Machine.Bounds
import Chip8.Proofs.Machine.Calls
import Chip8.Proofs.Machine.Faults
import Chip8.Proofs.Machine.Load
import Chip8.Proofs.Machine.Picture
import Chip8.Proofs.Scheduler.Control
import Chip8.Proofs.Scheduler.InTurn
import Chip8.Proofs.Scheduler.Clock
import Chip8.Proofs.Scheduler.Load
import Chip8.Proofs.Scheduler.Paused
import Chip8.Proofs.Scheduler.FreeRun
import Chip8.Proofs.Scheduler.Death
import Chip8.Proofs.Numeric.Count
import Chip8.Proofs.Divider.Advance
import Chip8.Proofs.Divider.Split
import Chip8.Proofs.Scheduler.Pace
import Chip8.Proofs.Instruction.Kind
import Chip8.Proofs.Machine.Footprint
import Chip8.Proofs.Machine.Commute
import Chip8.Proofs.Machine.Feedback
import Chip8.Proofs.Machine.Randomness
import Chip8.Proofs.Scheduler.Tones
import Chip8.Proofs.CommandLine.Usable
import Chip8.Proofs.CommandLine.Arrangement
import Chip8.Proofs.Machine.Draw
import Chip8.Proofs.Plane.Parity
import Chip8.Proofs.Machine.Arithmetic
import Chip8.Proofs.Machine.Transfer
import Chip8.Proofs.Machine.Wait
import Chip8.Proofs.Machine.Boundary
import Chip8.Proofs.Text.ReadBack
import Chip8.Proofs.Instruction.Assembly
import Chip8.Proofs.Memory.Dump
import Chip8.Proofs.Snapshot.Text
import Chip8.Proofs.CallStack.Order
import Chip8.Proofs.Keypad.Course
import Chip8.Proofs.Settings.Colour
import Chip8.Proofs.Settings.Number
