import Wi.Session
import Wi.FieldOps
import Wi.ContentOps
import Wi.Evolution
import Wi.Lifecycle
import Wi.ExactlyOnce
import Wi.Chaining
import Wi.Recovery
import Wi.Running
import Wi.Prolog
import Wi.BrowserSse
import Wi.Consistent
import Wi.Shutdown
import Wi.Rotation
import Wi.KeyText
import Wi.ChunkStorage
import Wi.Snapshots
import Wi.Presentation
import Wi.Intervals
import Wi.TextRanges
import Wi.Maps
import Wi.CommandSteps
import Wi.CommandPhases
import Wi.Drafts
import Wi.Suffixes
import Wi.Fitting
import Wi.Concluding
import Wi.Selection
import Wi.Canonical
import Wi.Durability
import Wi.EventStream
