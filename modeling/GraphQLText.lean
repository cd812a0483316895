import GraphQLText.Assembly
import GraphQLText.Json.Reader
import GraphQLText.Proofs.Reading.Routes
import GraphQLText.Proofs.RoundTrip.Document
import GraphQLText.Proofs.Layout.Content
import GraphQLText.Proofs.Layout.Symbol
import GraphQLText.Proofs.Reading.Extension
import GraphQLText.Proofs.Reading.Position
import GraphQLText.Proofs.Layout.Punctuation
import GraphQLText.Proofs.Reading.Coverage
import GraphQLText.Proofs.Reading.Provenance
import GraphQLText.Proofs.Reading.Pruning
import GraphQLText.Proofs.Reading.Container
import GraphQLText.Proofs.Grammar.Denotable
import GraphQLText.Proofs.Layout.TypeRef
import GraphQLText.Proofs.Layout.Slot
import GraphQLText.Proofs.Layout.Lines
import GraphQLText.Proofs.Tree.Assembly
