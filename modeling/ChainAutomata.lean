import ChainAutomata.Session
import ChainAutomata.Json.Reader
import ChainAutomata.Settings.Exchange
import ChainAutomata.Settings.File
import ChainAutomata.Proofs.WellFormed
import ChainAutomata.Proofs.Outcome
import ChainAutomata.Proofs.Language
import ChainAutomata.Proofs.Collision
import ChainAutomata.Proofs.Naming
import ChainAutomata.Proofs.Unambiguity
import ChainAutomata.Proofs.Passage
import ChainAutomata.Proofs.Reconstruction
import ChainAutomata.Proofs.Loosening
import ChainAutomata.Proofs.Arena
import ChainAutomata.Proofs.Reachability
import ChainAutomata.Proofs.Renumbering
import ChainAutomata.Proofs.Determinism
import ChainAutomata.Proofs.Gliding
import ChainAutomata.Proofs.FirstFault
import ChainAutomata.Proofs.Building
import ChainAutomata.Proofs.Declaration
import ChainAutomata.Proofs.Evaluation
import ChainAutomata.Proofs.Repetition
import ChainAutomata.Proofs.Views
import ChainAutomata.Proofs.Membership
import ChainAutomata.Proofs.Export
import ChainAutomata.Proofs.Transcript
import ChainAutomata.Proofs.Readability
import ChainAutomata.Proofs.Exchange
import ChainAutomata.Proofs.Growth
import ChainAutomata.Proofs.Worklist
