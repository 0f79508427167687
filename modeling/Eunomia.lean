import Eunomia.Alloc.Allocators
import Eunomia.Cas.Canonical
import Eunomia.Cas.DirtyBounds
import Eunomia.Cas.GuardedBatch
import Eunomia.Cas.IndexFrame
import Eunomia.Cas.Mountable
import Eunomia.Cas.Neighborhood
import Eunomia.Cas.OverlayContents
import Eunomia.Cas.OverlayRuns
import Eunomia.Cas.Records
import Eunomia.Cas.Tlv
import Eunomia.Ipc.Attribution
import Eunomia.Ipc.Quota
import Eunomia.Kernel.Authority
import Eunomia.Kernel.Refusal
import Eunomia.Kernel.Timers
import Eunomia.Kernel.Wakeups
import Eunomia.Loader.Spawn
import Eunomia.Loader.Startup
import Eunomia.StorageServer.Revocation
import Eunomia.Sys.Pairing
import Eunomia.Sys.Paths
import Eunomia.Urt.Futex
import Eunomia.Virtio.Setup
