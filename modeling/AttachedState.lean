import AttachedState.OperationName
import AttachedState.Session
import AttachedState.Finish
import AttachedState.Proofs.Transparency
import AttachedState.Proofs.OneToOne
import AttachedState.Proofs.Conservation
import AttachedState.Proofs.Unseen
import AttachedState.Proofs.Reentrancy
import AttachedState.Proofs.LateKeys
import AttachedState.Proofs.CacheLines
import AttachedState.Proofs.Rolls
import AttachedState.Proofs.Refusals
import AttachedState.Proofs.CacheCounts
import AttachedState.Proofs.Permanence
import AttachedState.Proofs.Versions
import AttachedState.Proofs.Leases
import AttachedState.Proofs.Deeds
import AttachedState.Proofs.Creations
import AttachedState.Proofs.Counterparts
import AttachedState.Proofs.Lockstep
import AttachedState.Proofs.Turns
import AttachedState.Proofs.Rounds
import AttachedState.Proofs.Strangers
import AttachedState.Proofs.Exits
import AttachedState.Proofs.Independence
import AttachedState.Proofs.Blocks
import AttachedState.Proofs.HighWater
import AttachedState.Proofs.OperationNames
