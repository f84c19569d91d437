import Storyboard.Figure.Wire
import Storyboard.Json.Reader
import Storyboard.Json.Writer
import Storyboard.Model.Wire
import Storyboard.Preparation.Wire
import Storyboard.Proofs.Figure.Cycles
import Storyboard.Proofs.Figure.RigidMotion
import Storyboard.Proofs.Preparation.Acceptance
import Storyboard.Proofs.Review.KnownPoints
import Storyboard.Proofs.Review.Remaining
import Storyboard.Proofs.Script.Grammar
import Storyboard.Proofs.Solid.Winding
import Storyboard.Proofs.Timeline.Continuity
import Storyboard.Proofs.Timeline.Cursor
import Storyboard.Proofs.Timeline.Driven
import Storyboard.Proofs.Timeline.Elements
import Storyboard.Proofs.Timeline.Estimate
import Storyboard.Proofs.Timeline.Exchange
import Storyboard.Proofs.Timeline.LookAt
import Storyboard.Proofs.Timeline.Onset
import Storyboard.Proofs.Timeline.Pulses
import Storyboard.Proofs.Timeline.Regrouping
import Storyboard.Proofs.Timeline.Sliding
import Storyboard.Proofs.Timeline.Stored
import Storyboard.Proofs.Timeline.Tweening
import Storyboard.Proofs.Timeline.WellFormed
