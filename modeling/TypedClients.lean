import TypedClients.Text.CharTable
import TypedClients.Text.Letter
import TypedClients.Text.Words
import TypedClients.Text.Cut
import TypedClients.Name
import TypedClients.Keyed
import TypedClients.Decimal.Double
import TypedClients.Decimal.Shortest
import TypedClients.Decimal.Layout
import TypedClients.Json.Value
import TypedClients.Json.Printer
import TypedClients.Json.Reader
import TypedClients.Datum
import TypedClients.Yaml.Cursor
import TypedClients.Yaml.Text
import TypedClients.Yaml.Token
import TypedClients.Yaml.Node
import TypedClients.Yaml.Scalar
import TypedClients.Yaml.Printer
import TypedClients.Shape.Source
import TypedClients.Config
import TypedClients.Document.Schema
import TypedClients.Document.Basic
import TypedClients.Document.Decode
import TypedClients.Document.Swagger
import TypedClients.Document.Parse
import TypedClients.Document.Pointer
import TypedClients.Document.Walk
import TypedClients.Resolve.Arena
import TypedClients.Resolve.Check
import TypedClients.Resolve.Discriminator
import TypedClients.Resolve.Reachable
import TypedClients.Resolve.Resolved
import TypedClients.Types.TypeExpr
import TypedClients.Types.Translate
import TypedClients.Types.Model
import TypedClients.Operation.Record
import TypedClients.Operation.Responses
import TypedClients.Operation.Build
import TypedClients.Operation.Unit
import TypedClients.Output.Import
import TypedClients.Output.Index
import TypedClients.Output.ModelFile
import TypedClients.Output.Page
import TypedClients.TypeScript.Text
import TypedClients.TypeScript.Declaration
import TypedClients.TypeScript.Emitter
import TypedClients.Generator.Backend
import TypedClients.Generator.Deferred
import TypedClients.Generator.Registry
import TypedClients.Generator.Run
import TypedClients.Client.Request
import TypedClients.Client.Fetch
import TypedClients.Client.Axios
import TypedClients.Client.Backend
import TypedClients.Zod.Chain
import TypedClients.Zod.Release
import TypedClients.Zod.Validate
import TypedClients.Zod.Backend
import TypedClients.Disk.Path
import TypedClients.Disk.Basic
import TypedClients.Disk.FileSystem
import TypedClients.CommandLine.Arguments
import TypedClients.CommandLine.DefaultConfig
import TypedClients.CommandLine.Inspect
import TypedClients.CommandLine.Workspace
import TypedClients.CommandLine.Execute
import TypedClients.Main
import TypedClients.Proofs.Keyed
import TypedClients.Proofs.Pointer
import TypedClients.Proofs.Surfaces
import TypedClients.Proofs.Reachable
import TypedClients.Proofs.Alias
import TypedClients.Proofs.Discriminator
import TypedClients.Proofs.Overwriting
import TypedClients.Proofs.Outcome
import TypedClients.Proofs.References
import TypedClients.Proofs.Imports
import TypedClients.Proofs.Translation
import TypedClients.Proofs.ModelNames
import TypedClients.Proofs.Recipe
import TypedClients.Proofs.Hereditary
import TypedClients.Proofs.Uses
import TypedClients.Proofs.Validators
import TypedClients.Proofs.Endpoints
import TypedClients.Proofs.Specifiers
import TypedClients.Proofs.Identifiers
import TypedClients.Proofs.Layout
import TypedClients.Proofs.ModelFiles
import TypedClients.Proofs.Generators
import TypedClients.Proofs.Run
import TypedClients.Proofs.Declared
import TypedClients.Proofs.Pages
import TypedClients.Proofs.Resolution
import TypedClients.Proofs.Initialization
import TypedClients.Proofs.WellFormed
import TypedClients.Proofs.Units
import TypedClients.Proofs.Operations
import TypedClients.Proofs.Progress
import TypedClients.Proofs.Expansion
import TypedClients.Proofs.Dereference
import TypedClients.Proofs.Agreement
import TypedClients.Proofs.Extension
import TypedClients.Proofs.Pruning
import TypedClients.Proofs.Injection
import TypedClients.Proofs.Respelling
import TypedClients.Proofs.Reordering
import TypedClients.Proofs.Components
import TypedClients.Proofs.Resolvable
import TypedClients.Proofs.Success
import TypedClients.Proofs.IndexFiles
import TypedClients.Proofs.Rerun
import TypedClients.Proofs.Isolation
import TypedClients.Proofs.LowerCase
import TypedClients.Proofs.OutputPaths
import TypedClients.Proofs.MergedFiles
import TypedClients.Proofs.TypeNames
import TypedClients.Proofs.Collisions
import TypedClients.Proofs.CustomImports
import TypedClients.Proofs.Comments
import TypedClients.Proofs.Carries
import TypedClients.Proofs.PageComments
import TypedClients.Proofs.Constants
import TypedClients.Proofs.Exports
import TypedClients.Proofs.Hoisting
import TypedClients.Proofs.RequestBodies
import TypedClients.Proofs.Arguments
import TypedClients.Proofs.Routes
import TypedClients.Proofs.Signatures
import TypedClients.Proofs.Variants
import TypedClients.Proofs.Recasing
import TypedClients.Proofs.Legibility
import TypedClients.Proofs.VariantNames
import TypedClients.Proofs.ResponseNames
import TypedClients.Proofs.Parameters
import TypedClients.Proofs.Chains
import TypedClients.Proofs.Nullability
import TypedClients.Proofs.Flattening
import TypedClients.Proofs.Precedence
import TypedClients.Proofs.Filing
import TypedClients.Proofs.Gathering
import TypedClients.Proofs.Merging
import TypedClients.Proofs.DistinctKeys
import TypedClients.Proofs.Reinjection
import TypedClients.Proofs.Places
import TypedClients.Proofs.Checking
import TypedClients.Proofs.Ascents
import TypedClients.Proofs.WorkspaceIndex
import TypedClients.Proofs.VersionRanges
import TypedClients.Proofs.NumericBounds
import TypedClients.Proofs.Modernization
import TypedClients.Proofs.Decoding
import TypedClients.Proofs.ParameterSchemas
import TypedClients.Proofs.StringLiterals
import TypedClients.Proofs.IndexMerging
import TypedClients.Proofs.Spelling
import TypedClients.Proofs.KeptLetters
