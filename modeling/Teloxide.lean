import Teloxide.Outbound.Scheduler.Rate
import Teloxide.Outbound.Scheduler.PenaltySafety
import Teloxide.Outbound.Scheduler.Reference
import Teloxide.Outbound.Scheduler.LaneOrder
import Teloxide.Outbound.Scheduler.Hold
import Teloxide.Outbound.Scheduler.Residue
import Teloxide.Outbound.Scheduler.Slots
import Teloxide.Outbound.Scheduler.Debits
import Teloxide.Outbound.Scheduler.NoPanic
import Teloxide.Outbound.Scheduler.Aging
import Teloxide.Outbound.Scheduler.Sequences
import Teloxide.Outbound.Adaptor.Turns
import Teloxide.Outbox.Delivery
import Teloxide.Drafter.SentOnce
import Teloxide.Drafter.Flush
import Teloxide.Drafter.StatusCleanup
import Teloxide.Drafter.NoopSkip
import Teloxide.Drafter.Pacing
import Teloxide.Drafter.Backoff
import Teloxide.Drafter.Generation
import Teloxide.Drafter.LimiterSound
import Teloxide.Outbound.Actor.Penalties
import Teloxide.Dispatching.Shutdown
import Teloxide.Dispatching.Handled
import Teloxide.UpdateListeners.AllowedUpdates
import Teloxide.Requests.Attachments
import Teloxide.Requests.PartSerializer
import Teloxide.Requests.ValidationSound
import Teloxide.RichText.HtmlAttributes
import Teloxide.RichText.Panics
import Teloxide.RichText.LinkRoundTrip
import Teloxide.RichText.CodeSpans
import Teloxide.Types.RichBlockSerde
import Teloxide.Utils.Markdown
import Teloxide.Utils.Render.Html
import Teloxide.Utils.Render.Nesting
import Teloxide.Core.Json
import Teloxide.Types.SharedReader
import Teloxide.Net.Response
import Teloxide.Outbound.Actor.Horizon
import Teloxide.RichText.TimeSpans
import Teloxide.Utils.Command
import Teloxide.Adaptors.Throttle.Deferred
import Teloxide.Drafter.Permits
import Teloxide.UpdateListeners.Webhooks
