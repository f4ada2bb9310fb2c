import Jerboa.NetworkSeparation
import Jerboa.VMMigration
import Jerboa.ExplicitStop
import Jerboa.RecoveredLifecycle
import Jerboa.RunRollback
import Jerboa.TfsLogDurability
import Jerboa.GuestNetwork
import Jerboa.MountExclusion
import Jerboa.VolumeMounting
import Jerboa.ProgramManifest
import Jerboa.ImageDirectories
import Jerboa.ImageCatalog
import Jerboa.GossipOrder
import Jerboa.LinkNesting
import Jerboa.ExtractConfinement
import Jerboa.FileTreeLog
import Jerboa.NetworkGateway
import Jerboa.FirecrackerSockets
import Jerboa.ManifestInsertion
import Jerboa.StoreSaves
import Jerboa.LogCapture
import Jerboa.FrameStream
import Jerboa.OpsPackageStore
import Jerboa.ScopedNames
import Jerboa.BuildContext
import Jerboa.ComposeOrder
import Jerboa.LinkCounts
import Jerboa.MaterializedLinks
import Jerboa.IdHeapAlignment
import Jerboa.VolumeStore
import Jerboa.KernelTimers
import Jerboa.PriorityQueue
import Jerboa.IntegerValues
import Jerboa.VolumeSize
import Jerboa.PortForwarding
import Jerboa.RangeLookup
import Jerboa.BitmapFirstFit
import Jerboa.NestedVirtualization
import Jerboa.NetworkRemoval
