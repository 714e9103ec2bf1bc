import Interop.Call.Arguments
import Interop.Call.Basic
import Interop.Call.Invoker
import Interop.Call.Standard
import Interop.Coercion.Adapter
import Interop.Coercion.Convert
import Interop.Coercion.Enumeration
import Interop.Coercion.Narrowing
import Interop.Coercion.Primitive
import Interop.Coercion.Rank
import Interop.Coercion.Ranking
import Interop.Coercion.Target
import Interop.Descriptor.Basic
import Interop.Descriptor.Interning
import Interop.Descriptor.Signature
import Interop.Descriptor.Substitution
import Interop.Dispatch.Memo
import Interop.Dispatch.Ranking
import Interop.Dispatch.Resolution
import Interop.Failure
import Interop.Generics.Inherited
import Interop.Kind
import Interop.Member.Basic
import Interop.Member.Cache
import Interop.Member.Code
import Interop.Member.Flags
import Interop.Member.Inheritance
import Interop.Member.Property
import Interop.Number.Binary
import Interop.Number.Double
import Interop.Numeral.Positional
import Interop.Numeral.Reading
import Interop.Numeral.Shortest
import Interop.Proofs.Call.Adapters
import Interop.Proofs.Call.Arguments
import Interop.Proofs.Call.Discipline
import Interop.Proofs.Call.Operations
import Interop.Proofs.Coercion.Adapting
import Interop.Proofs.Coercion.Agreement
import Interop.Proofs.Coercion.Conformance
import Interop.Proofs.Coercion.Content
import Interop.Proofs.Coercion.Discipline
import Interop.Proofs.Coercion.Elements
import Interop.Proofs.Coercion.Enums
import Interop.Proofs.Coercion.Frame
import Interop.Proofs.Coercion.Identity
import Interop.Proofs.Coercion.Instances
import Interop.Proofs.Coercion.Kinds
import Interop.Proofs.Coercion.Landing
import Interop.Proofs.Coercion.Narrowing
import Interop.Proofs.Coercion.Ranking
import Interop.Proofs.Coercion.RoundTrip
import Interop.Proofs.Coercion.Sharing
import Interop.Proofs.Coercion.Tracking
import Interop.Proofs.Coercion.Unions
import Interop.Proofs.Coercion.Variables
import Interop.Proofs.Descriptor.Erasure
import Interop.Proofs.Descriptor.Occurrences
import Interop.Proofs.Descriptor.Positions
import Interop.Proofs.Descriptor.Same
import Interop.Proofs.Descriptor.Substitution
import Interop.Proofs.Dispatch.Memo
import Interop.Proofs.Dispatch.Order
import Interop.Proofs.Dispatch.Ranking
import Interop.Proofs.Dispatch.Redundant
import Interop.Proofs.Dispatch.Resolution
import Interop.Proofs.Dispatch.Ties
import Interop.Proofs.Dispatch.Variadic
import Interop.Proofs.Generics.Idempotence
import Interop.Proofs.Generics.Inherited
import Interop.Proofs.Generics.Paths
import Interop.Proofs.Generics.References
import Interop.Proofs.Lookup
import Interop.Proofs.Member.Constants
import Interop.Proofs.Member.Discovery
import Interop.Proofs.Member.History
import Interop.Proofs.Member.Origins
import Interop.Proofs.Member.Overloads
import Interop.Proofs.Member.Properties
import Interop.Proofs.Member.Refusals
import Interop.Proofs.Member.Resolved
import Interop.Proofs.Member.Scanning
import Interop.Proofs.Member.Settled
import Interop.Proofs.Member.Shadowing
import Interop.Proofs.Member.Skipped
import Interop.Proofs.Member.Without
import Interop.Proofs.Number.Exact
import Interop.Proofs.Number.Rounding
import Interop.Proofs.Number.Value
import Interop.Proofs.Numeral.Decimals
import Interop.Proofs.Numeral.Grammar
import Interop.Proofs.Numeral.Hexadecimals
import Interop.Proofs.Numeral.Patterns
import Interop.Proofs.Numeral.Whole
import Interop.Proofs.Proxy.Access
import Interop.Proofs.Proxy.Indexing
import Interop.Proofs.Proxy.Keys
import Interop.Proofs.Proxy.Properties
import Interop.Proofs.Session.Uniqueness
import Interop.Proofs.Store.AdapterCache
import Interop.Proofs.Store.Bridge
import Interop.Proofs.Store.Browsing
import Interop.Proofs.Store.Declarations
import Interop.Proofs.Store.Discipline
import Interop.Proofs.Store.Enums
import Interop.Proofs.Store.Evaluation
import Interop.Proofs.Store.Lived
import Interop.Proofs.Store.Liveness
import Interop.Proofs.Store.Members
import Interop.Proofs.Store.Reached
import Interop.Proofs.Store.Settling
import Interop.Proofs.TypeId.Separation
import Interop.Proofs.TypeTable.Ancestry
import Interop.Proofs.TypeTable.Assignability
import Interop.Proofs.TypeTable.Reachability
import Interop.Proofs.Value.Circles
import Interop.Proofs.Value.Containers
import Interop.Proofs.Value.Lookups
import Interop.Proofs.Value.Numbers
import Interop.Proofs.Value.Texts
import Interop.Proxy.Property
import Interop.Proxy.Wrap
import Interop.Session
import Interop.Store.AdapterCache
import Interop.Store.Basic
import Interop.Store.Declare
import Interop.Store.Liveness
import Interop.Store.View
import Interop.Text.Blank
import Interop.Text.Case
import Interop.Text.Quoted
import Interop.Text.Units
import Interop.Text.Unprintable
import Interop.TypeId.Basic
import Interop.TypeId.Digest
import Interop.TypeTable.Basic
import Interop.TypeTable.Hierarchy
import Interop.TypeTable.Standard
import Interop.Value.Collection
import Interop.Value.Container
import Interop.Value.Display
import Interop.Value.Native
import Interop.Value.Object
import Interop.Value.Referent
import Interop.Value.Script
import Interop.Value.View
