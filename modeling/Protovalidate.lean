import Protovalidate.Foundation.Loop
import Protovalidate.Foundation.WordLanguage
import Protovalidate.Foundation.Recognizer
import Protovalidate.Foundation.Consumption
import Protovalidate.Foundation.Numeral
import Protovalidate.Foundation.Pattern
import Protovalidate.Foundation.Words
import Protovalidate.Foundation.LowBits
import Protovalidate.Foundation.Utf8
import Protovalidate.Lib.ParserCommon
import Protovalidate.Lib.NumberReader
import Protovalidate.Lib.DecimalReader
import Protovalidate.Lib.DottedQuad
import Protovalidate.Lib.IPv6
import Protovalidate.Lib.IPv6Text
import Protovalidate.Lib.IPv6Run
import Protovalidate.Lib.IPv6Loop
import Protovalidate.Lib.IPv6Outcome
import Protovalidate.Lib.IPv6RoundTrip
import Protovalidate.Lib.IPv6Accept
import Protovalidate.Lib.Rfc3986
import Protovalidate.Lib.Uri
import Protovalidate.Lib.UriAddress
import Protovalidate.Lib.UriSyntax
import Protovalidate.Lib.UriUtf8
import Protovalidate.Lib.UriAuthority
import Protovalidate.Lib.UriGrammar
import Protovalidate.Lib.UriReference
import Protovalidate.Lib.UriNetwork
import Protovalidate.Lib.UriLiteral
import Protovalidate.Lib.UriRelative
import Protovalidate.Lib.IPv6Suffix
import Protovalidate.Lib.UriZone
import Protovalidate.Lib.UriEncoding
import Protovalidate.Lib.IPv4
import Protovalidate.Lib.UriHost
import Protovalidate.Extra.ExtraFunc
import Protovalidate.Extra.HostAndPort
import Protovalidate.Extra.Hostname
import Protovalidate.Extra.IPPrefix
import Protovalidate.Extra.CelFunctions
import Protovalidate.Extra.OrDie
import Protovalidate.Extra.IPVersion
import Protovalidate.Extra.Registration
import Protovalidate.Extra.Email
import Protovalidate.Foundation.Journal
import Protovalidate.Foundation.FailFast
import Protovalidate.Foundation.Clean
import Protovalidate.Foundation.Asking
import Protovalidate.Foundation.AskingChecks
import Protovalidate.Foundation.Events
import Protovalidate.Foundation.Divergence
import Protovalidate.Foundation.Halting
import Protovalidate.Foundation.Search
import Protovalidate.Foundation.SharedSearch
import Protovalidate.Foundation.Interleaving
import Protovalidate.Foundation.Moments
import Protovalidate.Foundation.Parallel
import Protovalidate.Foundation.Rearranged
import Protovalidate.Foundation.Additions
import Protovalidate.Foundation.Agenda
import Protovalidate.Foundation.Flaws
import Protovalidate.Validate.Descriptor
import Protovalidate.Validate.RuleContext
import Protovalidate.Validate.PlainRuntime
import Protovalidate.Validate.Rules
import Protovalidate.Validate.Build
import Protovalidate.Validate.Validator
import Protovalidate.Validate.Changes
import Protovalidate.Validate.Children
import Protovalidate.Validate.Reordered
import Protovalidate.Validate.Factory
import Protovalidate.Validate.Entries
import Protovalidate.Validate.Threads
import Protovalidate.Validate.Pointers
import Protovalidate.Validate.Reachable
import Protovalidate.Validate.Erasure
import Protovalidate.Validate.TwoRuns
import Protovalidate.Validate.Loading
import Protovalidate.Validate.LoadedTypes
import Protovalidate.Validate.LazyLoads
import Protovalidate.Validate.Locality
import Protovalidate.Validate.Logging
import Protovalidate.Validate.Parts
import Protovalidate.Validate.CelOutcome
import Protovalidate.Validate.MapCalls
import Protovalidate.Validate.Bindings
import Protovalidate.Validate.Stopping
import Protovalidate.Validate.ContainerStops
import Protovalidate.Validate.RunStops
import Protovalidate.Validate.Paths
import Protovalidate.Validate.Compositional
import Protovalidate.Validate.Errors
import Protovalidate.Validate.FirstViolation
import Protovalidate.Validate.ElementKinds
import Protovalidate.Validate.ElementRules
import Protovalidate.Validate.RuleShape
import Protovalidate.Validate.IgnoredRules
import Protovalidate.Validate.Presence
import Protovalidate.Validate.Findings
import Protovalidate.Validate.Origins
import Protovalidate.Validate.Agenda
import Protovalidate.Validate.RuleOptions
import Protovalidate.Validate.RulePaths
import Protovalidate.Validate.FieldPlaces
import Protovalidate.Validate.EntryClashes
import Protovalidate.Validate.FieldValues
import Protovalidate.Validate.ProtoFields
import Protovalidate.Validate.IgnoredContents
import Protovalidate.Validate.Noninterference
import Protovalidate.Validate.Declared
import Protovalidate.Validate.Meaning
import Protovalidate.Validate.Acceptance
import Protovalidate.Validate.Verdicts
import Protovalidate.Validate.Lookups
import Protovalidate.Validate.Descendants
import Protovalidate.Validate.Sessions
import Protovalidate.Validate.Settings
import Protovalidate.Validate.Workers
import Protovalidate.Validate.Returning
import Protovalidate.Validate.ConcurrentAdds
import Protovalidate.Validate.EntryOrder
import Protovalidate.Validate.FieldAgenda
import Protovalidate.Validate.ReportedOnce
import Protovalidate.Conformance.Runner
