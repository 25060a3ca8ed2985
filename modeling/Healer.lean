import Healer.Proofs.Live
import Healer.Proofs.Scaling
import Healer.Proofs.ScaleRelease
import Healer.Proofs.Placement
import Healer.Proofs.Fencing
import Healer.Proofs.Durable
import Healer.Proofs.AtMostOnce
import Healer.Proofs.Updates
import Healer.Proofs.Registry
import Healer.Proofs.Outcome
import Healer.Proofs.Record
import Healer.Proofs.Messages
import Healer.Proofs.Stale
import Healer.Proofs.Draining
import Healer.Proofs.ActiveRelease
import Healer.Proofs.Reload
import Healer.Proofs.Recovery
import Healer.Proofs.Waits
import Healer.Proofs.Accounted
import Healer.Proofs.Spared
import Healer.Proofs.Lineage
import Healer.Proofs.Stored
import Healer.Proofs.Exchange
import Healer.Proofs.Enrollment
import Healer.Proofs.Access
import Healer.Proofs.Administrator
import Healer.Proofs.Target
import Healer.Proofs.Online
import Healer.Proofs.Confirmed
import Healer.Proofs.Mirror
import Healer.Proofs.LaunchSpecs
import Healer.Proofs.StartGate
import Healer.Proofs.FirstDeploy
import Healer.Proofs.ContainerTail
import Healer.Proofs.FileTail
import Healer.Proofs.Redaction
import Healer.Proofs.Pruning
import Healer.Proofs.Demux
import Healer.Proofs.FreshTail
import Healer.Proofs.CommandOut
import Healer.Proofs.Slugs
import Healer.Proofs.TablePages
import Healer.Proofs.Escape
import Healer.Proofs.DeployLock
import Healer.Proofs.Ports
import Healer.Proofs.FailureCounts
