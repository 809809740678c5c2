import SubstrateClient.Lib.Outcome
import SubstrateClient.Lib.Cursor
import SubstrateClient.Lib.Codec
import SubstrateClient.Lib.LittleEndian
import SubstrateClient.Lib.Transcribe
import SubstrateClient.Lib.Fuel
import SubstrateClient.Lib.Rows
import SubstrateClient.Lib.Collect
import SubstrateClient.Scale
import SubstrateClient.Node.Registry
import SubstrateClient.Node.Metadata
import SubstrateClient.Node.Decoder
import SubstrateClient.Node.Dispatch
import SubstrateClient.Node.Steps
import SubstrateClient.Node.Faithful
import SubstrateClient.Node.Value
import SubstrateClient.Node.VariantIndex
import SubstrateClient.Node.EventRecords
import SubstrateClient.Primitives.Extrinsic
import SubstrateClient.Primitives.Compose
import SubstrateClient.Lib.Mailbox
import SubstrateClient.Utils
import SubstrateClient.Rpc.Handlers
import SubstrateClient.Rpc.Client
import SubstrateClient.Api.Requests
import SubstrateClient.Api.WaitForEvent
import SubstrateClient.Lib.PrefixFree
import SubstrateClient.Node.Tables
import SubstrateClient.Node.Calls
import SubstrateClient.Node.StorageKeys
import SubstrateClient.Node.MapIdentifier
import SubstrateClient.Rpc.Milestones
import SubstrateClient.Rpc.BlockHash
import SubstrateClient.Api.Blocks
import SubstrateClient.Keystore.Store
import SubstrateClient.Lib.Layers
import SubstrateClient.Keystore.Layers
import SubstrateClient.Keystore.Retrieval
import SubstrateClient.Keystore.Listing
import SubstrateClient.Node.CompactTypes
import SubstrateClient.Keystore.FailedWrites
import SubstrateClient.Keystore.Supported
import SubstrateClient.Primitives.SignedBytes
import SubstrateClient.Node.StorageShape
import SubstrateClient.Rpc.LastStatus
import SubstrateClient.Rpc.Subscription
import SubstrateClient.Rpc.Panics
import SubstrateClient.Node.Delimited
import SubstrateClient.Node.Termination
import SubstrateClient.Rpc.HexForms
import SubstrateClient.Node.BitSequences
import SubstrateClient.Node.EventPanics
import SubstrateClient.Node.Exact
import SubstrateClient.Lib.Separated
import SubstrateClient.Rpc.Texts
import SubstrateClient.Api.Methods
import SubstrateClient.Lib.Region
import SubstrateClient.Api.Storage
import SubstrateClient.Node.StorageLayout
import SubstrateClient.Api.Entries
import SubstrateClient.Api.Connect
import SubstrateClient.Api.Compose
import SubstrateClient.Lib.Pipe
import SubstrateClient.Api.EventStream
import SubstrateClient.Keystore.Traits
import SubstrateClient.Keystore.Lifetime
import SubstrateClient.Node.Listings
import SubstrateClient.Api.Fees
import SubstrateClient.Lib.Session
import SubstrateClient.Lib.Forest
import SubstrateClient.Api.Sessions
import SubstrateClient.Api.Upgrades
import SubstrateClient.Api.Finality
