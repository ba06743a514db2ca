import PageSplice.CommandLine.Basic
import PageSplice.CommandLine.Scan
import PageSplice.Config.Basic
import PageSplice.Config.Reading
import PageSplice.Config.Writing
import PageSplice.Decimal.Binary64
import PageSplice.Decimal.Shortest
import PageSplice.Files
import PageSplice.Host
import PageSplice.Log
import PageSplice.Main
import PageSplice.Notice
import PageSplice.Page.Body
import PageSplice.Page.Fault
import PageSplice.Page.Section
import PageSplice.Path
import PageSplice.Proofs.Batch
import PageSplice.Proofs.Body
import PageSplice.Proofs.Checking
import PageSplice.Proofs.Filling
import PageSplice.Proofs.Host
import PageSplice.Proofs.Fragments
import PageSplice.Proofs.Interior
import PageSplice.Proofs.Keys
import PageSplice.Proofs.Layers
import PageSplice.Proofs.Logging
import PageSplice.Proofs.Marker
import PageSplice.Proofs.Names
import PageSplice.Proofs.Path
import PageSplice.Proofs.Program
import PageSplice.Proofs.Rebuilding
import PageSplice.Proofs.Region
import PageSplice.Proofs.Retemplating
import PageSplice.Proofs.Search
import PageSplice.Proofs.Sparing
import PageSplice.Proofs.Starting
import PageSplice.Proofs.Stopping
import PageSplice.Proofs.Storing
import PageSplice.Proofs.Substitution
import PageSplice.Proofs.Tags
import PageSplice.Proofs.Tree.Fresh
import PageSplice.Proofs.Tree.Growth
import PageSplice.Proofs.Tree.Plain
import PageSplice.Proofs.Tree.Real
import PageSplice.Proofs.Tree.Shape
import PageSplice.Proofs.Tree.Steps
import PageSplice.Run.Batch
import PageSplice.Run.Failure
import PageSplice.Run.Init
import PageSplice.Run.Program
import PageSplice.Run.Rebuild
import PageSplice.Run.Retemplate
import PageSplice.Text
import PageSplice.Text.Blank
import PageSplice.Text.Lossy
import PageSplice.Text.Occurrence
import PageSplice.Text.Quoted
import PageSplice.Text.Unprintable
import PageSplice.Toml.Document
import PageSplice.Toml.Scalar
import PageSplice.Toml.Value
import PageSplice.Tree.Access
import PageSplice.Tree.Basic
import PageSplice.Tree.Lookup
import PageSplice.Tree.Walk
import PageSplice.Proofs.Pieces
import PageSplice.Proofs.Rules
import PageSplice.Proofs.ByteOrder
import PageSplice.Proofs.Targets
import PageSplice.Proofs.Tree.Located
import PageSplice.Proofs.Anchoring
import PageSplice.Proofs.Unambiguous
import PageSplice.Proofs.Clipping
