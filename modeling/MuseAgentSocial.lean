import MuseAgentSocial.Watcher.Checkpoint
import MuseAgentSocial.Store.Attestation
import MuseAgentSocial.Teardown.Attested
import MuseAgentSocial.Teardown.Frame
import MuseAgentSocial.Store.History
import MuseAgentSocial.Store.PollCount
import MuseAgentSocial.Model.InviteLifecycle
import MuseAgentSocial.Cli.RetiredKey
import MuseAgentSocial.Model.Consent
import MuseAgentSocial.Migrate.PhaseMachine
import MuseAgentSocial.Cli.Labels
import MuseAgentSocial.Store.Display
import MuseAgentSocial.Store.Authority
import MuseAgentSocial.Store.EditOrder
import MuseAgentSocial.Store.Quota
import MuseAgentSocial.Transports.FetchStream
import MuseAgentSocial.Cli.ReplayGuard
import MuseAgentSocial.Model.CardVerification
import MuseAgentSocial.Policy.Setters
import MuseAgentSocial.Policy.RetentionScan
import MuseAgentSocial.KeyFiles.AtomicPairSpec
import MuseAgentSocial.Cli.Attachments
import MuseAgentSocial.Scheduler.Visibility
import MuseAgentSocial.Migrate.SeqAssigner
import MuseAgentSocial.Cli.RetryState
import MuseAgentSocial.Cli.AckBinding
import MuseAgentSocial.Cli.EpochGate
import MuseAgentSocial.Crypto.OldKey
import MuseAgentSocial.Cli.Redrive
import MuseAgentSocial.Crypto.Unseal
import MuseAgentSocial.Store.SetUp
import MuseAgentSocial.Transports.MirrorLock
import MuseAgentSocial.Transports.Pacing
import MuseAgentSocial.Model.Handoff
