import PersonalCloud.Lib.Run
import PersonalCloud.Lib.OrdMap
import PersonalCloud.StorageNode.VssFile
import PersonalCloud.Lib.Bytes
import PersonalCloud.Lib.Cbc
import PersonalCloud.Lib.Tiling
import PersonalCloud.Lib.Frames
import PersonalCloud.Lib.Codec
import PersonalCloud.StorageNode.LockSeparation
import PersonalCloud.StorageNode.OplockExclusive
import PersonalCloud.StorageNode.LockWaits
import PersonalCloud.StorageNode.DeadClient
import PersonalCloud.StorageNode.WriteBack
import PersonalCloud.StorageNode.Negotiation
import PersonalCloud.StorageNode.AccessMode
import PersonalCloud.StorageNode.ByteOverlap
import PersonalCloud.StorageNode.RenameRemove
import PersonalCloud.StorageNode.ComponentNames
import PersonalCloud.Ts2.Packet.Authentication
import PersonalCloud.Ts2.Packet.Bounds
import PersonalCloud.Ts2.Packet.LargeBody
import PersonalCloud.Ts2.Server
import PersonalCloud.Ts2.Transport.BufferOwnership
import PersonalCloud.Ts2.Transport.Delivery
import PersonalCloud.Ts2.Transport.FlowControl
import PersonalCloud.Ts2.Transport.RetrySchedule
import PersonalCloud.Ts2.Transport.Tunnel
import PersonalCloud.Ts2.Transport.WriteRelease
import PersonalCloud.Ts2.Transport.SendAccounting
import PersonalCloud.Ts2.Transport.CloseOrder
import PersonalCloud.Ts2.Transport.SynAgain
import PersonalCloud.Pxd.ProxyLogin
import PersonalCloud.Pxd.Output
import PersonalCloud.Pxd.Pairing
import PersonalCloud.Pxd.RoundTrip
import PersonalCloud.Pxd.BlobRoundTrip
import PersonalCloud.Pxd.HostileInput
import PersonalCloud.SyncConfig.ContentsEqual
import PersonalCloud.SyncConfig.LocalDifference
import PersonalCloud.SyncConfig.SubtreeDeletes
import PersonalCloud.SyncConfig.TargetedUpdate
import PersonalCloud.SyncConfig.UploadRounds
import PersonalCloud.SyncConfig.ThreadPool
import PersonalCloud.Ccd.RingInvariant
import PersonalCloud.DatasetDb.Utf8
import PersonalCloud.DatasetDb.ContentPath
import PersonalCloud.Http.QueryString
import PersonalCloud.Http.Ranges
import PersonalCloud.Http.Stream
import PersonalCloud.Http.Arrival
import PersonalCloud.Http.RelayFaithful
import PersonalCloud.Vplex.Base64RoundTrip
import PersonalCloud.SyncConfig.SyncStateExact
import PersonalCloud.SyncConfig.FileMonitorDelivery
import PersonalCloud.Ans.RejectedPackets
import PersonalCloud.Http.Lines
import PersonalCloud.Http.RequestParser
import PersonalCloud.Http.ResponseParser
import PersonalCloud.DatasetDb.Guarantees
import PersonalCloud.DatasetDb.Moves
