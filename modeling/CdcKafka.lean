import CdcKafka.Apply.Aborted
import CdcKafka.Apply.Consistent
import CdcKafka.Apply.Subscription
import CdcKafka.Apply.Table
import CdcKafka.BlockRef.FileBounds
import CdcKafka.BlockRef.FileRoundTrip
import CdcKafka.BufFile.Truncate
import CdcKafka.Buffer.Kinship
import CdcKafka.Buffer.Run
import CdcKafka.Copy.CopyTable
import CdcKafka.Copy.FieldBounds
import CdcKafka.Copy.LineSplit
import CdcKafka.Copy.RoundTrip
import CdcKafka.Datetime.Julian
import CdcKafka.Feedback.Delivery
import CdcKafka.Feedback.Report
import CdcKafka.Fsm.FsmSearch
import CdcKafka.Gin.PostingRemoval
import CdcKafka.HeapPage.PageRuns
import CdcKafka.Heaps.Pairingheap
import CdcKafka.IntSet.SetRuns
import CdcKafka.Kafka.Batching
import CdcKafka.Kafka.ConnectedName
import CdcKafka.Launcher.Ownership
import CdcKafka.Mq.Delivery
import CdcKafka.Nodes.BitmapMembers
import CdcKafka.Numeric.Accum
import CdcKafka.Numeric.Mul
import CdcKafka.Origin.Checkpoint
import CdcKafka.Parallel.Count
import CdcKafka.Pool.Bookkeeping
import CdcKafka.ProcArray.RunningSet
import CdcKafka.Publish.Filtered
import CdcKafka.Publish.OrderIndependent
import CdcKafka.Relation.Accesses
import CdcKafka.Reorder.SpillRestore
import CdcKafka.Reorder.Stream
import CdcKafka.Reorder.ToastFaithful
import CdcKafka.Slot.Clean
import CdcKafka.Slot.Durable
import CdcKafka.Slot.Retained
import CdcKafka.SyncRep.Promise
import CdcKafka.TableSync.CopyReadData
import CdcKafka.TableSync.Delivery
import CdcKafka.TableSync.Start
import CdcKafka.WalSender.LagTracker
import CdcKafka.Xact.Logged
import CdcKafka.Xlog.LiveRecords
import CdcKafka.Xlog.PglzBuffer
import CdcKafka.Xlog.PglzCorrupt
import CdcKafka.Xlog.PglzSlice
