import ClassAtlas.Discovery
import ClassAtlas.Proofs.Consistency
import ClassAtlas.Proofs.InferredLinks
import ClassAtlas.Proofs.Runs
import ClassAtlas.Proofs.Diagram.ReadBack
import ClassAtlas.Proofs.Diagram.Rerendering
import ClassAtlas.Proofs.Interchange.References
import ClassAtlas.Proofs.Assembly.Identifiers
import ClassAtlas.Proofs.Assembly.TypeReferences
import ClassAtlas.Proofs.Code.HiddenText
import ClassAtlas.Proofs.TypeExpression
import ClassAtlas.Proofs.Source.Segments
import ClassAtlas.Proofs.Source.Statements
import ClassAtlas.Proofs.Code.MemberSources
import ClassAtlas.Proofs.Code.FieldStatements
import ClassAtlas.Proofs.Code.OperationStatements
import ClassAtlas.Proofs.Code.Bodies
import ClassAtlas.Proofs.DeclaredLinks
import ClassAtlas.Proofs.Restriction
import ClassAtlas.Proofs.Assembly.Determinacy
import ClassAtlas.Proofs.UnitOrder
import ClassAtlas.Proofs.Diagram.InheritanceStyles
import ClassAtlas.Proofs.Appearance
import ClassAtlas.Proofs.WellFormed
import ClassAtlas.Proofs.Diagram.UnclosedBlocks
import ClassAtlas.Proofs.Code.UnclosedTypes
import ClassAtlas.Proofs.InferenceExactness
import ClassAtlas.Proofs.Assembly.LinkedReferences
import ClassAtlas.Proofs.Assembly.StableIdentifiers
import ClassAtlas.Proofs.Code.Headers
import ClassAtlas.Proofs.Diagram.FoldedLinks
import ClassAtlas.Proofs.ValueTypes
import ClassAtlas.Proofs.Code.EnumConstants
import ClassAtlas.Proofs.Diagram.LinkDiagrams
import ClassAtlas.Proofs.Source.Masking
import ClassAtlas.Proofs.Source.Projection
import ClassAtlas.Proofs.Source.Matching
import ClassAtlas.Proofs.Code.MemberBoundaries
import ClassAtlas.Proofs.Diagram.Packages
import ClassAtlas.Proofs.Diagram.InlineBlocks
import ClassAtlas.Proofs.TypeReferents
import ClassAtlas.Proofs.Diagram.WritableLinks
import ClassAtlas.Proofs.Interchange.Readability
import ClassAtlas.Proofs.Discovery.FoundFiles
import ClassAtlas.Proofs.Assembly.RegistryRuns
import ClassAtlas.Proofs.Diagram.MemberShapes
