import ChipEight.Clock
import ChipEight.Devices.Recorder
import ChipEight.Instruction.Encode
import ChipEight.Machine.Run
import ChipEight.Main
import ChipEight.Memory.Lemmas
import ChipEight.Memory.Listing
import ChipEight.Screen.Lemmas
import ChipEight.Proofs.Effects
import ChipEight.Proofs.Course
import ChipEight.Proofs.Bounds
import ChipEight.Proofs.Guarded
import ChipEight.Proofs.Safety
import ChipEight.Proofs.Failure
import ChipEight.Proofs.Composition
import ChipEight.Proofs.Reload
import ChipEight.Proofs.RegisterFile
import ChipEight.Proofs.Writes
import ChipEight.Proofs.Subroutines
import ChipEight.Proofs.Alike
import ChipEight.Proofs.Encounter
import ChipEight.Proofs.Frames
import ChipEight.Proofs.Schedules
import ChipEight.Proofs.RandomBytes
import ChipEight.Proofs.Countdown
import ChipEight.Proofs.KeyQueue
import ChipEight.Proofs.TypedKeys
import ChipEight.Proofs.Resemblance
import ChipEight.Proofs.Solo
import ChipEight.Proofs.Performance
import ChipEight.Proofs.Terminal
import ChipEight.Proofs.TakenKeys
import ChipEight.Proofs.TickSchedules
import ChipEight.Proofs.UnreadMemory
import ChipEight.Proofs.Assembly
import ChipEight.Proofs.Shown
import ChipEight.Proofs.Collisions
import ChipEight.Proofs.Redrawing
import ChipEight.Proofs.Drawing
import ChipEight.Proofs.Arithmetic
import ChipEight.Proofs.RegisterFrame
import ChipEight.Proofs.Skips
import ChipEight.Proofs.SavedRegisters
import ChipEight.Proofs.StraightSteps
import ChipEight.Proofs.Listings
import ChipEight.Proofs.MemoryMap
import ChipEight.Proofs.ScreenGrid
import ChipEight.Proofs.Pictures
import ChipEight.Proofs.TypedLines
import ChipEight.Proofs.Numerals
import ChipEight.Proofs.EntryLines
import ChipEight.Proofs.Overlay
import ChipEight.Proofs.Descriptions
