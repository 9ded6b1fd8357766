import FileRoutes.Json.Choice
import FileRoutes.Log.Clock
import FileRoutes.Main
import FileRoutes.Proofs.Agreement
import FileRoutes.Proofs.EntrypointNames
import FileRoutes.Proofs.Imports
import FileRoutes.Proofs.KnownMiddleware
import FileRoutes.Proofs.Order
import FileRoutes.Proofs.Ways
import FileRoutes.Proofs.Accounts
import FileRoutes.Proofs.Atomic
import FileRoutes.Proofs.Attempts
import FileRoutes.Proofs.Beginnings
import FileRoutes.Proofs.Containment
import FileRoutes.Proofs.Findings
import FileRoutes.Proofs.Sources
import FileRoutes.Proofs.Stages
import FileRoutes.Proofs.Mounting
import FileRoutes.Proofs.Rendering
import FileRoutes.Proofs.JsonConfigs
import FileRoutes.Proofs.LiteralConfigs
import FileRoutes.Proofs.Watching
import FileRoutes.Proofs.Ends
import FileRoutes.Proofs.Directories
import FileRoutes.Proofs.Overwriting
import FileRoutes.Proofs.Companions
import FileRoutes.Proofs.Repeats
import FileRoutes.Proofs.Repetition
import FileRoutes.Proofs.Batches
import FileRoutes.Proofs.EmptyFolders
import FileRoutes.Proofs.OneFile
import FileRoutes.Proofs.Reachability
import FileRoutes.Proofs.Climbing
import FileRoutes.Proofs.Structures
import FileRoutes.Proofs.IntegerNumerals
import FileRoutes.Proofs.QuotedTexts
import FileRoutes.Proofs.ExportedFunctions
import FileRoutes.Proofs.AllOrNothing
import FileRoutes.Proofs.ParameterNames
import FileRoutes.Proofs.Tables
import FileRoutes.Proofs.Collections
import FileRoutes.Proofs.FreeNames
import FileRoutes.Proofs.RouterPlaces
import FileRoutes.Proofs.Refusals
import FileRoutes.Proofs.NormalForms
