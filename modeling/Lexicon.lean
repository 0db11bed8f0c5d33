import Lexicon.Text.Ranges
import Lexicon.Text.Alphanumeric
import Lexicon.Text.Blank
import Lexicon.Text.Slice
import Lexicon.Error
import Lexicon.Hash
import Lexicon.Arena.Basic
import Lexicon.Splay.Basic
import Lexicon.Splay.Nodes
import Lexicon.Symbol
import Lexicon.Bucket
import Lexicon.Table.Basic
import Lexicon.Source.Lexeme
import Lexicon.Source.Keyword
import Lexicon.Source.Scan
import Lexicon.Source.Scanner
import Lexicon.Command.Output
import Lexicon.Listing
import Lexicon.Command.Options
import Lexicon.Command.Run
import Lexicon.Command.Workspace
import Lexicon.Main
import Lexicon.Splay.Lemmas
import Lexicon.Proofs.Splay.Order
import Lexicon.Proofs.Splay.Links
import Lexicon.Proofs.Splay.Map
import Lexicon.Proofs.Arena.Trial
import Lexicon.Proofs.Arena.Layout
import Lexicon.Proofs.Arena.Live
import Lexicon.Proofs.Table.Steps
import Lexicon.Proofs.Table.Invariant
import Lexicon.Proofs.Table.Refinement
import Lexicon.Proofs.Table.Shared
import Lexicon.Proofs.Table.Isolation
import Lexicon.Proofs.Text.Utf8Order
import Lexicon.Proofs.Table.Room
import Lexicon.Proofs.Listing.Fold
import Lexicon.Proofs.Listing.Collect
import Lexicon.Proofs.Splay.Access
import Lexicon.Proofs.Table.Access
import Lexicon.Proofs.Text.Classes
import Lexicon.Proofs.Source.Case
import Lexicon.Proofs.Listing.Case
import Lexicon.Proofs.Source.Reference
import Lexicon.Proofs.Arena.Session
import Lexicon.Proofs.Arena.Tail
import Lexicon.Proofs.Table.Failure
import Lexicon.Proofs.Hash.Separation
import Lexicon.Proofs.Table.Collisions
import Lexicon.Proofs.Command.Arguments
import Lexicon.Proofs.Source.Scanner
import Lexicon.Proofs.Splay.Rotation
import Lexicon.Proofs.Splay.Walks
import Lexicon.Proofs.Splay.Stored
import Lexicon.Proofs.Splay.Drain
