import Graphwright.Accounts.Service
import Graphwright.Json.Reader
import Graphwright.Main
import Graphwright.Number.Reading
import Graphwright.Proofs.Client.FiniteSize
import Graphwright.Proofs.Execution.Builders
import Graphwright.Proofs.Execution.Correctness
import Graphwright.Proofs.Execution.InputObjects
import Graphwright.Proofs.Execution.Nulls
import Graphwright.Proofs.Execution.Typing
import Graphwright.Proofs.Generation
import Graphwright.Proofs.Request.Document
import Graphwright.Proofs.Request.RawScalars
import Graphwright.Proofs.Request.RoundTrip
import Graphwright.Proofs.Request.SelectionSets
import Graphwright.Proofs.Rust.MemberNames
import Graphwright.Proofs.Rust.Namespaces
import Graphwright.Proofs.Rust.ShortNames
import Graphwright.Response.RawScalar
import Graphwright.Rust.Listing
import Graphwright.Proofs.Files.Rollback
import Graphwright.Proofs.Registry.Declared
import Graphwright.Proofs.Registry.Roots
import Graphwright.Proofs.Files.Layout
import Graphwright.Proofs.Client.InputPositions
import Graphwright.Proofs.Client.Interfaces
import Graphwright.Proofs.Client.Renaming
import Graphwright.Proofs.Client.Substitution
import Graphwright.Proofs.Files.Order
import Graphwright.Proofs.Registry.Acceptance
import Graphwright.Proofs.Client.Usability
import Graphwright.Proofs.Rust.Traits
import Graphwright.Proofs.Rust.Keywords
import Graphwright.Proofs.Registry.Registration
import Graphwright.Proofs.Registry.Layers
import Graphwright.Proofs.Rust.PathNames
import Graphwright.Proofs.Rust.ModuleTree
import Graphwright.Proofs.Request.OrderedMaps
import Graphwright.Proofs.Accounts.User
import Graphwright.Proofs.Files.Writing
import Graphwright.Proofs.Client.Documentation
import Graphwright.Proofs.Execution.ArgumentPlans
