import HaranaMatrix.Linked.AsVector
import HaranaMatrix.Linked.Persist
import HaranaMatrix.Linked.Index
import HaranaMatrix.StoreCodec.Keys
import HaranaMatrix.EventCache.ReadReceipts
import HaranaMatrix.EventCache.Reachable
import HaranaMatrix.StateRes.AuthCheck
import HaranaMatrix.Timeline.Separation
import HaranaMatrix.Timeline.Edits
import HaranaMatrix.SendQueue.Order
import HaranaMatrix.Crypto.ReplayProtection
import HaranaMatrix.Crypto.OwnSessions
import HaranaMatrix.Crypto.Rotation
import HaranaMatrix.Crypto.RoomKeyMerge
import HaranaMatrix.Crypto.Invalidations
import HaranaMatrix.Linked.LazyLoad
import HaranaMatrix.StoreCodec.SepInside
import HaranaMatrix.Base.MemberRace
import HaranaMatrix.Base.Ambiguity
import HaranaMatrix.StoreCodec.Sequences
import HaranaMatrix.EventCache.GapReplacement
import HaranaMatrix.EventCache.Retention
import HaranaMatrix.SlidingSync.RangeArithmetic
import HaranaMatrix.Spaces.LeaveOrder
import HaranaMatrix.Common.LeaseHistory
import HaranaMatrix.EventCache.Relations
import HaranaMatrix.Thumbnail.Dim
import HaranaMatrix.Resolver.Resolve
import HaranaMatrix.Crypto.SasOutcome
import HaranaMatrix.RoomList.Sorters
import HaranaMatrix.EventCache.Redecryption
import HaranaMatrix.EventCache.PinnedEvents
import HaranaMatrix.EventCache.FailedLoad
import HaranaMatrix.EventCache.IgnoredUsers
import HaranaMatrix.SlidingSync.ThreadSubscriptions
