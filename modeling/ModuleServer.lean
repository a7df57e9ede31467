import ModuleServer.Main
import ModuleServer.Specifier.Change
import ModuleServer.Proofs.Import.Related
import ModuleServer.Proofs.Session.Transparency
import ModuleServer.Proofs.Files.Path
import ModuleServer.Proofs.Files.Tree
import ModuleServer.Proofs.Server.Confinement
import ModuleServer.Proofs.Import.Pass
import ModuleServer.Proofs.Import.Module
import ModuleServer.Proofs.Import.Exactness
import ModuleServer.Proofs.Import.Mark
import ModuleServer.Proofs.Import.Comment
import ModuleServer.Proofs.Import.Inert
import ModuleServer.Proofs.Expression.FreeNames
import ModuleServer.Proofs.Render.Lexical
import ModuleServer.Proofs.Render.Verbatim
import ModuleServer.Proofs.Render.Scoping
import ModuleServer.Proofs.Template.RoundTrip
import ModuleServer.Proofs.Render.Static
import ModuleServer.Proofs.Render.Built
import ModuleServer.Proofs.Render.Seat
import ModuleServer.Proofs.Render.Place
import ModuleServer.Proofs.Render.Spot
import ModuleServer.Proofs.Render.Written
import ModuleServer.Proofs.Render.Exchange
import ModuleServer.Proofs.Render.Guard
import ModuleServer.Proofs.Render.Whole
import ModuleServer.Proofs.Render.Unsupported
import ModuleServer.Proofs.Render.Keys
import ModuleServer.Proofs.Render.Clear
import ModuleServer.Proofs.Component.Enclosed
import ModuleServer.Proofs.Component.RoundTrip
import ModuleServer.Proofs.Component.Link
import ModuleServer.Proofs.Server.Answered
import ModuleServer.Proofs.Render.Sealed
import ModuleServer.Proofs.Files.Components
import ModuleServer.Proofs.Specifier.Address
import ModuleServer.Proofs.Session.Origin
import ModuleServer.Proofs.Files.Location
import ModuleServer.Proofs.Files.Change
import ModuleServer.Proofs.Specifier.Noticed
import ModuleServer.Proofs.Render.Parts
import ModuleServer.Proofs.Render.Resolved
import ModuleServer.Proofs.Expression.Word
import ModuleServer.Proofs.Render.Reference
import ModuleServer.Proofs.Render.Referred
import ModuleServer.Proofs.Render.Given
import ModuleServer.Proofs.Render.Bare
import ModuleServer.Proofs.Render.Imported
import ModuleServer.Proofs.Server.Linked
import ModuleServer.Proofs.Expression.Token
import ModuleServer.Proofs.Expression.Ends
import ModuleServer.Proofs.Expression.Shape
import ModuleServer.Proofs.Render.Handler
import ModuleServer.Proofs.Expression.Lambda
import ModuleServer.Proofs.Expression.Arrow
import ModuleServer.Proofs.Expression.Insertion
import ModuleServer.Proofs.Render.Merge
import ModuleServer.Proofs.Render.Siblings
import ModuleServer.Proofs.Template.Preformatted
import ModuleServer.Proofs.Template.Collapse
import ModuleServer.Proofs.Template.Local
import ModuleServer.Proofs.Template.Moved
import ModuleServer.Proofs.Template.Spans
import ModuleServer.Proofs.Component.Message
import ModuleServer.Proofs.Script.Code
import ModuleServer.Proofs.Script.Export
import ModuleServer.Proofs.Component.Export
import ModuleServer.Proofs.Server.Extension
import ModuleServer.Proofs.Server.Entry
import ModuleServer.Proofs.Render.Shorthand
import ModuleServer.Proofs.Render.Statement
import ModuleServer.Proofs.Template.Normaliser
import ModuleServer.Proofs.Import.Frame
import ModuleServer.Proofs.Import.FirstLine
import ModuleServer.Proofs.Session.Interleaving
import ModuleServer.Proofs.Session.Tokens
import ModuleServer.Proofs.Session.TemplateImport
import ModuleServer.Proofs.Script.Quote
import ModuleServer.Proofs.Expression.Pattern
