import ProxmoxBackup.Foundations.Except
import ProxmoxBackup.Foundations.LinkedHeap
import ProxmoxBackup.Datastore.Prune
import ProxmoxBackup.Datastore.Chunker
import ProxmoxBackup.Server.Pull
import ProxmoxBackup.Tools.LruCache
import ProxmoxBackup.Datastore.DynamicReader
import ProxmoxBackup.Foundations.LittleEndian
import ProxmoxBackup.Datastore.CatalogFormat
import ProxmoxBackup.Datastore.Catalog
import ProxmoxBackup.Foundations.Chunked
import ProxmoxBackup.Datastore.DataBlob
import ProxmoxBackup.Rrd.Database
import ProxmoxBackup.Rrd.Consolidation
import ProxmoxBackup.Foundations.Runs
import ProxmoxBackup.Datastore.IndexWriter
import ProxmoxBackup.Server.BackupEnvironment
import ProxmoxBackup.Server.BackupSession
import ProxmoxBackup.Datastore.GarbageCollection
import ProxmoxBackup.Backup.Verify
import ProxmoxBackup.Config.Acl
import ProxmoxBackup.Config.CachedUserInfo
import ProxmoxBackup.Foundations.Assoc
import ProxmoxBackup.Foundations.Text
import ProxmoxBackup.Config.AclMaps
import ProxmoxBackup.Backup.Hierarchy
import ProxmoxBackup.Server.ReaderSession
import ProxmoxBackup.Datastore.FixedReader
import ProxmoxBackup.Datastore.IndexFile
import ProxmoxBackup.Datastore.PruneRule
import ProxmoxBackup.Datastore.CatalogWalk
import ProxmoxBackup.ApiTypes.Namespace
import ProxmoxBackup.Foundations.Greatest
import ProxmoxBackup.Server.TrafficControl
import ProxmoxBackup.Foundations.ByteRead
import ProxmoxBackup.Tape.Blocked
import ProxmoxBackup.Tape.ChunkArchive
import ProxmoxBackup.Foundations.Json
import ProxmoxBackup.Tools.ZpoolStatus
import ProxmoxBackup.Client.KeyConfig
import ProxmoxBackup.Rrd.V1
import ProxmoxBackup.Rrd.Journal
import ProxmoxBackup.Client.MergeKnownChunks
import ProxmoxBackup.Client.BackupWriter
import ProxmoxBackup.Tape.MediaPool
import ProxmoxBackup.Tape.Changer
import ProxmoxBackup.Datastore.ListNamespaces
import ProxmoxBackup.Datastore.Manifest
import ProxmoxBackup.Config.AclConfig
import ProxmoxBackup.Config.AclWritable
import ProxmoxBackup.Config.AclRoundTrip
import ProxmoxBackup.Tape.MediaCatalog
import ProxmoxBackup.Tape.MediaCatalogLog
