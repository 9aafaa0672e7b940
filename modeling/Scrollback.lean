import Scrollback.Main
import Scrollback.World
import Scrollback.Desk
import Scrollback.Proofs.Log.Layout
import Scrollback.Proofs.Log.Insertion
import Scrollback.Proofs.Log.Teardown
import Scrollback.Proofs.Log.Changes
import Scrollback.Proofs.Log.Retaining
import Scrollback.Proofs.Log.Pieces
import Scrollback.Proofs.Log.Places
import Scrollback.Proofs.Log.Slots
import Scrollback.Proofs.Assembler.Feeding
import Scrollback.Proofs.Assembler.Fragments
import Scrollback.Proofs.Assembler.Policies
import Scrollback.Proofs.Assembler.Budget
import Scrollback.Proofs.History.Reference
import Scrollback.Proofs.History.Stream
import Scrollback.Proofs.History.Refusal
import Scrollback.Proofs.History.Reading
import Scrollback.Proofs.History.Effects
import Scrollback.Proofs.History.Failures
import Scrollback.Proofs.History.Journal
import Scrollback.Proofs.History.Following
import Scrollback.Proofs.History.Returning
import Scrollback.Proofs.History.Safety
import Scrollback.Proofs.History.Draining
import Scrollback.Proofs.History.Filling
import Scrollback.Proofs.History.Window
import Scrollback.Proofs.History.Replay
import Scrollback.Proofs.History.Writers
import Scrollback.Proofs.History.Likeness
import Scrollback.Proofs.History.Ledger
import Scrollback.Proofs.History.Readers
import Scrollback.Proofs.Random
import Scrollback.Proofs.Text.Numeral
import Scrollback.Proofs.Text.Utf8
import Scrollback.Proofs.Text.PrefixFree
import Scrollback.Proofs.Text.Quoted
import Scrollback.Proofs.Display
import Scrollback.Proofs.Metrics
import Scrollback.Proofs.Arguments
import Scrollback.Proofs.Config
import Scrollback.Proofs.Sample
import Scrollback.Proofs.Pass.LastLines
import Scrollback.Proofs.Pass.Verification
import Scrollback.Proofs.Pass.Retrying
import Scrollback.Proofs.Pass.Counters
import Scrollback.Proofs.Banner
import Scrollback.Proofs.Delimiter
import Scrollback.Proofs.Pass.Blocks
import Scrollback.Proofs.Slices
import Scrollback.Proofs.Host
import Scrollback.Proofs.Disk
import Scrollback.Proofs.World
import Scrollback.Proofs.Session
