import MiddleEnd.Source.Node
import MiddleEnd.Source.Draft
import MiddleEnd.Code.Listing
import MiddleEnd.Translate
import MiddleEnd.Proofs.Lowered.Labels
import MiddleEnd.Proofs.Meaning.Machine
import MiddleEnd.Proofs.Meaning.Evaluate
import MiddleEnd.Proofs.Lowered.Bindings
import MiddleEnd.Proofs.Meaning.Simulation
import MiddleEnd.Proofs.Meaning.Preservation
import MiddleEnd.Proofs.Scoping.Declared
import MiddleEnd.Proofs.Checked.Shape
import MiddleEnd.Proofs.Scoping.Placed
import MiddleEnd.Proofs.Scoping.Visible
import MiddleEnd.Proofs.Checked.Resolution
import MiddleEnd.Proofs.Checked.Numbering
import MiddleEnd.Proofs.Meaning.Translated
import MiddleEnd.Proofs.Lowered.Needs
import MiddleEnd.Proofs.Lowered.Obstacles
import MiddleEnd.Proofs.Lowered.Slots
import MiddleEnd.Proofs.Lowered.Mentions
import MiddleEnd.Proofs.Lowered.Paths
import MiddleEnd.Proofs.Lowered.Temporaries
import MiddleEnd.Proofs.Lowered.Failures
import MiddleEnd.Proofs.Checked.Typing
import MiddleEnd.Proofs.Checked.WellTyped
import MiddleEnd.Proofs.Checked.Reached
import MiddleEnd.Proofs.Checked.Mistakes
import MiddleEnd.Proofs.Checked.Reported
import MiddleEnd.Proofs.Scoping.Recorded
import MiddleEnd.Proofs.Checked.Agreement
import MiddleEnd.Proofs.Lowered.Foreign
import MiddleEnd.Proofs.Lowered.Conditions
import MiddleEnd.Proofs.Lockstep
import MiddleEnd.Proofs.Renaming.Renamed
import MiddleEnd.Proofs.Checked.InStep
import MiddleEnd.Proofs.Renaming.Checked
import MiddleEnd.Proofs.Checked.Strict
import MiddleEnd.Proofs.Renaming.Declared
import MiddleEnd.Proofs.Lowered.InStep
import MiddleEnd.Proofs.Renaming.Translated
import MiddleEnd.Proofs.Scoping.Alone
import MiddleEnd.Proofs.Checked.Alone
import MiddleEnd.Proofs.Lowered.Alone
import MiddleEnd.Proofs.Reordered
import MiddleEnd.Proofs.Rejections
import MiddleEnd.Proofs.Meaning.Operands
import MiddleEnd.Proofs.Lowered.Jumps
import MiddleEnd.Proofs.Lowered.Settings
import MiddleEnd.Proofs.Checked.Balanced
import MiddleEnd.Proofs.Checked.Erased
import MiddleEnd.Proofs.Listing
import MiddleEnd.Proofs.Lowered.Records
import MiddleEnd.Proofs.Parameters
import MiddleEnd.Proofs.Scoping.Innermost
import MiddleEnd.Proofs.Lowered.Frame
import MiddleEnd.Proofs.LabelNames
import MiddleEnd.Proofs.Building.Order
import MiddleEnd.Fixed.Builder
import MiddleEnd.Fixed.Translate
import MiddleEnd.Proofs.Fixed.Foreign
import MiddleEnd.Proofs.Fixed.Translated
import MiddleEnd.Proofs.Fixed.Transcript
import MiddleEnd.Proofs.Fixed.Built
