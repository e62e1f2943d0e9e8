import EcuQuiet.Bus.Limited
import EcuQuiet.Bus.Recorded
import EcuQuiet.Disabling.Attempts
import EcuQuiet.Proofs.IsoTp.Transfer
import EcuQuiet.Scripted.Engine
import EcuQuiet.Scripted.Playback
import EcuQuiet.Scripted.Prompted
import EcuQuiet.Simulation.Network
import EcuQuiet.Stored.Settings
import EcuQuiet.Proofs.Bus.Recording
import EcuQuiet.Proofs.Silence.Watched
import EcuQuiet.Proofs.Disabling.Trials
import EcuQuiet.Proofs.Bus.Ending
import EcuQuiet.Proofs.Disabling.Course
import EcuQuiet.Proofs.IsoTp.Endings
import EcuQuiet.Proofs.IsoTp.Abandoning
import EcuQuiet.Proofs.IsoTp.Following
import EcuQuiet.Proofs.Disabling.Handshake
import EcuQuiet.Proofs.Simulation.Alone
import EcuQuiet.Proofs.Simulation.Units
import EcuQuiet.Proofs.Simulation.Completion
import EcuQuiet.Proofs.Bus.Contract
import EcuQuiet.Proofs.Simulation.Emission
import EcuQuiet.Proofs.Silence.Verdicts
import EcuQuiet.Proofs.IsoTp.Waiting
import EcuQuiet.Proofs.Disabling.Delivery
import EcuQuiet.Proofs.IsoTp.Steps
import EcuQuiet.Proofs.Answers
import EcuQuiet.Proofs.IsoTp.Courses
import EcuQuiet.Proofs.IsoTp.Pending
import EcuQuiet.Proofs.IsoTp.Segmentation
import EcuQuiet.Proofs.IsoTp.Chains
import EcuQuiet.Proofs.Scripted.Rounds
import EcuQuiet.Proofs.Scripted.Independence
import EcuQuiet.Proofs.Scripted.Noise
import EcuQuiet.Proofs.IsoTp.Reassembly
import EcuQuiet.Proofs.IsoTp.Pacing
import EcuQuiet.Proofs.IsoTp.Indexed
import EcuQuiet.Proofs.IsoTp.Unfailing
import EcuQuiet.Proofs.IsoTp.Buffering
import EcuQuiet.Proofs.Simulation.Beside
import EcuQuiet.Proofs.Disabling.Confirming
import EcuQuiet.Proofs.Bus.Duration
import EcuQuiet.Proofs.Disabling.Duration
import EcuQuiet.Proofs.Disabling.Validity
import EcuQuiet.Proofs.Disabling.Retrying
import EcuQuiet.Proofs.Silence.Calm
import EcuQuiet.Proofs.Disabling.Repeating
import EcuQuiet.Proofs.Disabling.Failures
import EcuQuiet.Proofs.Disabling.Pauses
import EcuQuiet.Proofs.Simulation.History
import EcuQuiet.Proofs.Simulation.Delivered
import EcuQuiet.Proofs.Simulation.Obedience
import EcuQuiet.Proofs.Simulation.Segments
import EcuQuiet.Proofs.Silence.Polls
import EcuQuiet.Proofs.Bus.Views
import EcuQuiet.Proofs.IsoTp.Endpoints
import EcuQuiet.Proofs.IsoTp.Refusals
import EcuQuiet.Proofs.Simulation.Voices
import EcuQuiet.Proofs.Simulation.Isolation
import EcuQuiet.Proofs.Stored.Returning
import EcuQuiet.Proofs.Uds.ControlRequests
