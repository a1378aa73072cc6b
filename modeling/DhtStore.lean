import DhtStore.Address.Text
import DhtStore.Classification
import DhtStore.Client
import DhtStore.Context
import DhtStore.Engine.Iterative
import DhtStore.Engine.Sequential
import DhtStore.Item.Json
import DhtStore.NodeId.Text
import DhtStore.ScriptedNetwork
import DhtStore.Signal
import DhtStore.Testnet
import DhtStore.Proofs.Client.Faults
import DhtStore.Proofs.Client.SequenceHint
import DhtStore.Proofs.Client.Stall
import DhtStore.Proofs.Client.WriteSet
import DhtStore.Proofs.Discovery.Convergence
import DhtStore.Proofs.Client.Replicas
import DhtStore.Proofs.Testnet.Survey
import DhtStore.Proofs.Testnet.Puts
import DhtStore.Proofs.Testnet.Mutables
import DhtStore.Proofs.Testnet.Succession
import DhtStore.Proofs.Client.Placement
import DhtStore.Proofs.Client.ReadYourWrites
import DhtStore.Proofs.Client.Malformed
import DhtStore.Proofs.StorageNode.Entries
import DhtStore.Proofs.StorageNode.Replies
import DhtStore.Proofs.StorageNode.Rollback
import DhtStore.Proofs.StorageNode.Atomicity
import DhtStore.Proofs.StorageNode.Retention
import DhtStore.Proofs.StorageNode.Tampering
import DhtStore.Proofs.Bytes
import DhtStore.Proofs.NodeId.Text
import DhtStore.Proofs.NodeId.Distance
import DhtStore.Proofs.Hash.Crc32c
import DhtStore.Proofs.TokenSecrets.Validity
import DhtStore.Proofs.Item.Targets
import DhtStore.Proofs.Item.Json
import DhtStore.Proofs.Client.Reconciliation
import DhtStore.Proofs.Client.Aftermath
import DhtStore.Proofs.Context
import DhtStore.Proofs.Client.Supersession
import DhtStore.Proofs.FanOut.Join
import DhtStore.Proofs.ClosestNodes.Selection
import DhtStore.Proofs.Engine.Safety
