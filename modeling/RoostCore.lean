import RoostCore.Saga.Retention
import RoostCore.Saga.Conclusions
import RoostCore.Saga.EndToEnd
import RoostCore.Saga.Recovery
import RoostCore.Saga.Timers
import RoostCore.Lockstep.Reassembly
import RoostCore.Lockstep.Formats
import RoostCore.Nestwal.RoundTrip
import RoostCore.Nestwal.Prune
import RoostCore.Dataengine.Projecting
import RoostCore.Dataengine.ReplayWindows
import RoostCore.Dataengine.SyncChanges
import RoostCore.Entitysync.Delivery
import RoostCore.Entitysync.Interest
import RoostCore.Nest.Resume
import RoostCore.Nest.GroupExclusion
import RoostCore.Versionstore.Outcomes
import RoostCore.Nest.SerialOrder
import RoostCore.Nest.CompletionVisible
import RoostCore.Platform.Granting
import RoostCore.Cellworld.Grid
import RoostCore.Entity.Idgen
