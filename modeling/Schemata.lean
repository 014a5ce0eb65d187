import Schemata.Session.Perform
import Schemata.Proofs.Mirror.Declared
import Schemata.Proofs.Mirror.Paths
import Schemata.Proofs.Derivation.Atomicity
import Schemata.Proofs.Path.Canonical
import Schemata.Proofs.Compilation.Unfolding
import Schemata.Proofs.Compilation.Chain
import Schemata.Proofs.Compilation.Forwarding
import Schemata.Proofs.Validation.Resolved
import Schemata.Proofs.Validation.Fieldwise
import Schemata.Proofs.Validation.Itemwise
import Schemata.Proofs.Output.Order
import Schemata.Proofs.Output.Members
import Schemata.Proofs.Session.Outputs
import Schemata.Proofs.Session.Resolution
import Schemata.Proofs.Session.Calls
import Schemata.Proofs.Session.Limits
import Schemata.Proofs.Session.Restoring
import Schemata.Proofs.Traversal.Transport
import Schemata.Proofs.Path.Building
import Schemata.Proofs.Session.Omissible
import Schemata.Proofs.Translations
