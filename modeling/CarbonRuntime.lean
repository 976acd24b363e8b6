import CarbonRuntime.Bugs.ForgottenReissue
import CarbonRuntime.Bugs.HeldReissue
import CarbonRuntime.Bugs.InterruptedFollowUp
import CarbonRuntime.Bugs.ParkedReissue
import CarbonRuntime.Bugs.RetriedReply
import CarbonRuntime.Bugs.UnindexedRecord
import CarbonRuntime.Bugs.CostlyAdmission
import CarbonRuntime.Bugs.RefusedRequest
import CarbonRuntime.Bugs.UnorderedDelivery
import CarbonRuntime.Runtime.Grouping
import CarbonRuntime.Adapters.Email.Rescan
import CarbonRuntime.Bugs.SwitchedInbound
import CarbonRuntime.Bugs.UnparkedImport
import CarbonRuntime.Bugs.UnreadDate
import CarbonRuntime.Bugs.CutBatch
import CarbonRuntime.Bugs.MixedEdits
import CarbonRuntime.Bugs.StuckBatch
import CarbonRuntime.Bugs.TiedTimestamps
import CarbonRuntime.Bugs.StrandedUpgrade
import CarbonRuntime.Bugs.CrossedClaim
import CarbonRuntime.Bugs.SpentRetry
import CarbonRuntime.Bugs.RetiredClaim
import CarbonRuntime.Bugs.StoppedChannel
import CarbonRuntime.Bugs.AbortedStart
import CarbonRuntime.Runtime.Scheduler
import CarbonRuntime.Runtime.Projection
import CarbonRuntime.Bugs.CutPair
import CarbonRuntime.Bugs.LostBreak
import CarbonRuntime.Bugs.MissedTarget
import CarbonRuntime.Runtime.PollHold
import CarbonRuntime.Core.Sparse
import CarbonRuntime.Runtime.Account
import CarbonRuntime.Core.Log
import CarbonRuntime.Runtime.Evidence
import CarbonRuntime.Core.Base64
import CarbonRuntime.Core.Rewrite
import CarbonRuntime.Adapters.Email.Mime
import CarbonRuntime.Bugs.OverlargeEntity
import CarbonRuntime.Adapters.Email.Build
import CarbonRuntime.Bugs.DecodedSubject
import CarbonRuntime.Core.Json
import CarbonRuntime.Harness.Program
import CarbonRuntime.Bugs.EscapedSecret
import CarbonRuntime.Records.Check
import CarbonRuntime.Records.Postgres
import CarbonRuntime.Core.Value
import CarbonRuntime.Jobs.Positions
import CarbonRuntime.Jobs.SopFile
import CarbonRuntime.Bugs.UnlistedPositions
import CarbonRuntime.Stream.Validate
import CarbonRuntime.Bugs.InheritedName
import CarbonRuntime.Bugs.UnpostedSource
import CarbonRuntime.Bugs.SharedIdentity
import CarbonRuntime.Adapters.Email.Poll
import CarbonRuntime.Bugs.UnrestoredFlags
import CarbonRuntime.Runtime.Fragments
import CarbonRuntime.Bugs.DroppedRow
import CarbonRuntime.Bugs.RefusedContinuation
import CarbonRuntime.Core.Torn
import CarbonRuntime.Import.Lines
import CarbonRuntime.Bugs.TornLine
import CarbonRuntime.Harness.ToolServer
import CarbonRuntime.Bugs.TornRequest
import CarbonRuntime.Adapters.WhatsApp.AuthState
import CarbonRuntime.Bugs.SharedKeyFile
import CarbonRuntime.Import.Corrections
import CarbonRuntime.Bugs.ShadowedMessage
import CarbonRuntime.Import.Outbound
import CarbonRuntime.Bugs.UnbrokenTie
import CarbonRuntime.Import.OutboundRecord
import CarbonRuntime.Bugs.ClashingSend
import CarbonRuntime.Core.Bytes
import CarbonRuntime.Import.Zip
import CarbonRuntime.Import.ZipFormat
import CarbonRuntime.Bugs.UncheckedArchive
import CarbonRuntime.Adapters.WhatsApp.Send
import CarbonRuntime.Bugs.MistakenEcho
import CarbonRuntime.Core.Splitting
import CarbonRuntime.Harness.Lines
import CarbonRuntime.Bugs.CrowdedBuffer
import CarbonRuntime.Adapters.Telegram.Lanes
import CarbonRuntime.Adapters.Telegram.Bounds
import CarbonRuntime.Core.Paths
import CarbonRuntime.Stream.Encode
import CarbonRuntime.Stream.Places
import CarbonRuntime.Stream.Cursors
import CarbonRuntime.Bugs.UnpairedIdentifier
import CarbonRuntime.Bugs.SharedCursor
import CarbonRuntime.Tools.Args
import CarbonRuntime.Bugs.InheritedArgument
import CarbonRuntime.Stream.Converge
import CarbonRuntime.Stream.Taught
import CarbonRuntime.Harness.Connection
import CarbonRuntime.Harness.Turns
import CarbonRuntime.Bugs.StrandedTurn
import CarbonRuntime.Browser.Submissions
import CarbonRuntime.Core.Durable
import CarbonRuntime.Stream.Writes
