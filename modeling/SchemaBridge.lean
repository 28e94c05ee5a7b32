import SchemaBridge.Arguments
import SchemaBridge.AvroEmission
import SchemaBridge.AvroType
import SchemaBridge.Binary64
import SchemaBridge.CamelCase
import SchemaBridge.Command
import SchemaBridge.Emission
import SchemaBridge.Entries
import SchemaBridge.Execution
import SchemaBridge.Failure
import SchemaBridge.FileTree
import SchemaBridge.InstancePath
import SchemaBridge.Json
import SchemaBridge.JsonText
import SchemaBridge.JsonToken
import SchemaBridge.JsonType
import SchemaBridge.Keyword
import SchemaBridge.Letter
import SchemaBridge.LetterTable
import SchemaBridge.Numeral
import SchemaBridge.Outline
import SchemaBridge.ParquetEmission
import SchemaBridge.ParquetField
import SchemaBridge.Pointer
import SchemaBridge.Program
import SchemaBridge.Proofs.AcceptedDocuments
import SchemaBridge.Proofs.AvroBranches
import SchemaBridge.Proofs.AvroBreaks
import SchemaBridge.Proofs.AvroCycles
import SchemaBridge.Proofs.AvroDefinitions
import SchemaBridge.Proofs.AvroFields
import SchemaBridge.Proofs.AvroNames
import SchemaBridge.Proofs.AvroShapes
import SchemaBridge.Proofs.AvroSteps
import SchemaBridge.Proofs.AvroTermination
import SchemaBridge.Proofs.AvroText
import SchemaBridge.Proofs.AvroUnions
import SchemaBridge.Proofs.BranchAgreement
import SchemaBridge.Proofs.BranchLeaves
import SchemaBridge.Proofs.ChangedFiles
import SchemaBridge.Proofs.DistinctKeys
import SchemaBridge.Proofs.DocumentParts
import SchemaBridge.Proofs.DocumentPlaces
import SchemaBridge.Proofs.DocumentReferences
import SchemaBridge.Proofs.DocumentSize
import SchemaBridge.Proofs.EmittersAgree
import SchemaBridge.Proofs.EqualValues
import SchemaBridge.Proofs.EqualityLaws
import SchemaBridge.Proofs.ErrorLocations
import SchemaBridge.Proofs.FaithfulReading
import SchemaBridge.Proofs.FieldExpansion
import SchemaBridge.Proofs.FieldShapes
import SchemaBridge.Proofs.FirstViolation
import SchemaBridge.Proofs.FlattenedUnions
import SchemaBridge.Proofs.KeywordCompleteness
import SchemaBridge.Proofs.KeywordPrecedence
import SchemaBridge.Proofs.LiveNodes
import SchemaBridge.Proofs.MemberOrder
import SchemaBridge.Proofs.MessageText
import SchemaBridge.Proofs.NameIssuing
import SchemaBridge.Proofs.NodeLinks
import SchemaBridge.Proofs.NodePayloads
import SchemaBridge.Proofs.OmittedOption
import SchemaBridge.Proofs.ParquetCycles
import SchemaBridge.Proofs.ParquetFields
import SchemaBridge.Proofs.ParquetMarks
import SchemaBridge.Proofs.ParquetShapes
import SchemaBridge.Proofs.ParquetSteps
import SchemaBridge.Proofs.PartPlaces
import SchemaBridge.Proofs.PathResolution
import SchemaBridge.Proofs.PathText
import SchemaBridge.Proofs.PointerEncoding
import SchemaBridge.Proofs.PointerLaws
import SchemaBridge.Proofs.ReachedLocations
import SchemaBridge.Proofs.ReadingBudgets
import SchemaBridge.Proofs.ReadingGrowth
import SchemaBridge.Proofs.ReadingSteps
import SchemaBridge.Proofs.ReadingSuccess
import SchemaBridge.Proofs.ReadingWork
import SchemaBridge.Proofs.ReferenceChains
import SchemaBridge.Proofs.RepeatedReading
import SchemaBridge.Proofs.ResolvedReferences
import SchemaBridge.Proofs.StepInversion
import SchemaBridge.Proofs.StepOutcomes
import SchemaBridge.Proofs.TextDocuments
import SchemaBridge.Proofs.UnreferencedParts
import SchemaBridge.Proofs.ValidationCycles
import SchemaBridge.Proofs.ValidationMeaning
import SchemaBridge.Proofs.ValidationSteps
import SchemaBridge.Proofs.ValidationTermination
import SchemaBridge.Schema
import SchemaBridge.SchemaError
import SchemaBridge.SchemaReading
import SchemaBridge.Settings
import SchemaBridge.SettingsReading
import SchemaBridge.ShortestDecimal
import SchemaBridge.Summary
import SchemaBridge.UnionTypes
import SchemaBridge.Validation
import SchemaBridge.YamlNode
import SchemaBridge.YamlScalar
import SchemaBridge.YamlText
import SchemaBridge.YamlToken
import SchemaBridge.YamlValue
import SchemaBridge.YamlWriting
