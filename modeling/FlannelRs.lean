import FlannelRs.InteractionPrograms
import FlannelRs.ProcessPools
import FlannelRs.Ipv4Addresses
import FlannelRs.CniTypes
import FlannelRs.FileSystem
import FlannelRs.HostLocalCommands
import FlannelRs.ExclusiveLeases
import FlannelRs.LeaseStores
import FlannelRs.BridgePlugin
import FlannelRs.HostNetworking
import FlannelRs.BridgeAddFailures
import FlannelRs.JsonTexts
import FlannelRs.BridgeAddresses
import FlannelRs.FlannelPlugin
import FlannelRs.ExclusiveTables
import FlannelRs.FlanneldPeers
import FlannelRs.KernelTables
import FlannelRs.PeerReconciliation
import FlannelRs.PeerFailures
import FlannelRs.PeerRestart
import FlannelRs.NatTables
import FlannelRs.Masquerade
import FlannelRs.PortmapPlugin
import FlannelRs.PortmapChains
import FlannelRs.SubnetEnvFiles
import FlannelRs.BackendDetection
import FlannelRs.LeasePublication
import FlannelRs.PeerBookkeeping
import FlannelRs.PortmapRelay
import FlannelRs.LeaseFailures
import FlannelRs.TracedPrograms
import FlannelRs.BridgeTeardown
import FlannelRs.MasqueradeRestart
import FlannelRs.PeerOrphans
import FlannelRs.PortmapTables
import FlannelRs.PortmapInterleavings
import FlannelRs.PublishedPorts
import FlannelRs.PortmapIsolation
import FlannelRs.LeasedAddresses
import FlannelRs.DelegateIpam
import FlannelRs.LeaseRequests
import FlannelRs.FlannelTeardown
import FlannelRs.LeaseOwnership
import FlannelRs.CheckedSteps
import FlannelRs.PortmapSteps
import FlannelRs.PortmapRestarts
import FlannelRs.PortmapMarks
import FlannelRs.MasqueradeFailures
import FlannelRs.RoundRobin
import FlannelRs.LeaseRounds
import FlannelRs.FlanneldBootstrap
import FlannelRs.ClusterAddresses
import FlannelRs.HairpinMasquerade
import FlannelRs.VethNames
import FlannelRs.LeaseReleases
import FlannelRs.VxlanDevices
import FlannelRs.BridgeSubnets
import FlannelRs.VxlanConvergence
import FlannelRs.FlanneldDaemon
import FlannelRs.PacketForwarding
import FlannelRs.OverlayCluster
import FlannelRs.BootstrapRuns
import FlannelRs.BootstrapSuccess
import FlannelRs.OverlayDelivery
import FlannelRs.SerialRuns
import FlannelRs.LeaseTurns
import FlannelRs.LeaseRegistry
import FlannelRs.SerialProgress
import FlannelRs.LeaseProgress
import FlannelRs.PodDelivery
