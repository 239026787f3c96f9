import FixtureBench.Cursor.Access
import FixtureBench.Cursor.Text
import FixtureBench.Library
import FixtureBench.Descriptor.Infer
import FixtureBench.Descriptor.Accepts
import FixtureBench.Descriptor.Minimal
import FixtureBench.Descriptor.Random
import FixtureBench.Random.Xoshiro
import FixtureBench.Editor
import FixtureBench.Store.Dispatch
import FixtureBench.Proofs.Equality
import FixtureBench.Proofs.Form
import FixtureBench.Proofs.Registry
import FixtureBench.Proofs.Session.Basic
import FixtureBench.Proofs.Session.Steps
import FixtureBench.Proofs.Validator
import FixtureBench.Proofs.Descriptor.Grounded
import FixtureBench.Proofs.Descriptor.Infer
import FixtureBench.Proofs.Session.Infer
import FixtureBench.Proofs.Descriptor.Delegation
import FixtureBench.Proofs.Recipe.Basic
import FixtureBench.Proofs.Recipe.Recovery
import FixtureBench.Proofs.Descriptor.Minimal
import FixtureBench.Proofs.Numeric.Finite
import FixtureBench.Proofs.Random.Growth
import FixtureBench.Proofs.Descriptor.Random
import FixtureBench.Proofs.Session.Pairs
import FixtureBench.Proofs.Cursor.Access
import FixtureBench.Proofs.Store.Run
import FixtureBench.Proofs.Store.Log
import FixtureBench.Proofs.Cursor.Lockstep
import FixtureBench.Proofs.Cursor.Escape
import FixtureBench.Proofs.Cursor.Pointer
import FixtureBench.Proofs.Fixtures
import FixtureBench.Proofs.Store.Document
import FixtureBench.Proofs.Store.Backfill
import FixtureBench.Proofs.Descriptor.Overrides
import FixtureBench.Proofs.Editor
import FixtureBench.Proofs.Store.Preview
import FixtureBench.Proofs.Random.Odds
import FixtureBench.Proofs.Random.Paths
import FixtureBench.Proofs.Random.Run
import FixtureBench.Proofs.Random.Complete
import FixtureBench.Proofs.Cursor.Lens
import FixtureBench.Proofs.Cursor.Refusal
import FixtureBench.Proofs.Cursor.Place
import FixtureBench.Proofs.Descriptor.Splice
import FixtureBench.Proofs.Session.Blame
import FixtureBench.Proofs.Store.Frame
import FixtureBench.Proofs.Random.Token
import FixtureBench.Proofs.Random.Bounds
import FixtureBench.Proofs.Descriptor.Conforms
import FixtureBench.Proofs.Descriptor.Limits
import FixtureBench.Proofs.Choice
import FixtureBench.Proofs.Descriptor.Interchange
import FixtureBench.Proofs.Recipe.Required
import FixtureBench.Proofs.Recipe.Tightened
import FixtureBench.Proofs.Fixtures.Missing
import FixtureBench.Proofs.Random.Language
import FixtureBench.Proofs.Projection
