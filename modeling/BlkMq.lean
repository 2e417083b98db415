import BlkMq.Tags
import BlkMq.Dispatch
import BlkMq.TagLifecycle
import BlkMq.Completion
import BlkMq.Freeze
import BlkMq.SwQueue
import BlkMq.Quiesce
import BlkMq.Topology
import BlkMq.TagSet
import BlkMq.DispatchTags
import BlkMq.DirectIssue
import BlkMq.Timeout
import BlkMq.Requeue
import BlkMq.HctxMap
import BlkMq.RqMaps
import BlkMq.NrRequests
import BlkMq.NextCpu
import BlkMq.AllocRqs
import BlkMq.Plug
import BlkMq.Reinit
import BlkMq.MakeRequest
import BlkMq.RunQueue
import BlkMq.HctxLife
import BlkMq.SwConservation
import BlkMq.RunInterleaving
