import PipelineEditor.Format.Catalogue
import PipelineEditor.Format.Change
import PipelineEditor.Format.Content
import PipelineEditor.Format.Event
import PipelineEditor.Format.Propagation
import PipelineEditor.Format.Validation
import PipelineEditor.Format.View
import PipelineEditor.Place
import PipelineEditor.Proofs.Answer
import PipelineEditor.Proofs.Attaching
import PipelineEditor.Proofs.Attempt
import PipelineEditor.Proofs.Backlog
import PipelineEditor.Proofs.Bundling
import PipelineEditor.Proofs.Corrections
import PipelineEditor.Proofs.Culprit
import PipelineEditor.Proofs.Delivery
import PipelineEditor.Proofs.Depiction
import PipelineEditor.Proofs.Dequeuing
import PipelineEditor.Proofs.Draft
import PipelineEditor.Proofs.Drawing
import PipelineEditor.Proofs.Echoes
import PipelineEditor.Proofs.Effect
import PipelineEditor.Proofs.Entry
import PipelineEditor.Proofs.Evolution
import PipelineEditor.Proofs.Exchange
import PipelineEditor.Proofs.Findings
import PipelineEditor.Proofs.Forms
import PipelineEditor.Proofs.Frozen
import PipelineEditor.Proofs.Granted
import PipelineEditor.Proofs.Grouping
import PipelineEditor.Proofs.Immunity
import PipelineEditor.Proofs.Inert
import PipelineEditor.Proofs.Inversion
import PipelineEditor.Proofs.Issuing
import PipelineEditor.Proofs.LastAnswer
import PipelineEditor.Proofs.Lasting
import PipelineEditor.Proofs.Learning
import PipelineEditor.Proofs.Ledger
import PipelineEditor.Proofs.Leftover
import PipelineEditor.Proofs.Listing
import PipelineEditor.Proofs.Loading
import PipelineEditor.Proofs.Marks
import PipelineEditor.Proofs.Nesting
import PipelineEditor.Proofs.Once
import PipelineEditor.Proofs.Peeling
import PipelineEditor.Proofs.Program
import PipelineEditor.Proofs.Refusal
import PipelineEditor.Proofs.Replay
import PipelineEditor.Proofs.Restored
import PipelineEditor.Proofs.Reversal
import PipelineEditor.Proofs.Run
import PipelineEditor.Proofs.Selection
import PipelineEditor.Proofs.Settled
import PipelineEditor.Proofs.Shapes
import PipelineEditor.Proofs.Single
import PipelineEditor.Proofs.Sketching
import PipelineEditor.Proofs.Stage
import PipelineEditor.Proofs.Subscriber
import PipelineEditor.Proofs.Timeline
import PipelineEditor.Proofs.Turns
import PipelineEditor.Proofs.Twin
import PipelineEditor.Proofs.Underway
import PipelineEditor.Proofs.Verdict
import PipelineEditor.Proofs.Waiting
import PipelineEditor.Proofs.WellFormed
import PipelineEditor.Proofs.Wire
import PipelineEditor.Proofs.Written
import PipelineEditor.Session
import PipelineEditor.Sketch
