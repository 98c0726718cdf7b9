import SqlFootprint.Main
import SqlFootprint.Proofs.Conservation
import SqlFootprint.Proofs.Stored
import SqlFootprint.Proofs.Storing
import SqlFootprint.Proofs.Front
import SqlFootprint.Proofs.Barriers
import SqlFootprint.Proofs.Cuts
import SqlFootprint.Proofs.Phrases
import SqlFootprint.Proofs.Clauses
import SqlFootprint.Proofs.Conditions
import SqlFootprint.Proofs.TableReferences
import SqlFootprint.Proofs.ProjectionItems
import SqlFootprint.Proofs.Targets
import SqlFootprint.Proofs.Assignments
import SqlFootprint.Proofs.Insertions
import SqlFootprint.Proofs.Scripts
import SqlFootprint.Proofs.Nesting
import SqlFootprint.Proofs.CommonTables
import SqlFootprint.Proofs.Gists
import SqlFootprint.Proofs.Origins
import SqlFootprint.Proofs.GistFindings
import SqlFootprint.Proofs.Restyling
import SqlFootprint.Proofs.Shapes
import SqlFootprint.Proofs.Links
import SqlFootprint.Proofs.Cases
import SqlFootprint.Proofs.Predicates
import SqlFootprint.Proofs.Twins
import SqlFootprint.Proofs.Prefixes
import SqlFootprint.Proofs.AliasNames
import SqlFootprint.Proofs.AliasFindings
import SqlFootprint.Proofs.Programs
import SqlFootprint.Analysis.InPlace
import SqlFootprint.Proofs.DerivedTables
import SqlFootprint.Proofs.InPlaceColumns
import SqlFootprint.Proofs.ProjectionPlaces
import SqlFootprint.Proofs.JoinConditions
import SqlFootprint.Proofs.Outside
import SqlFootprint.Proofs.Kinds
import SqlFootprint.Proofs.Bodies
import SqlFootprint.Proofs.Consolidation
import SqlFootprint.Proofs.Likeness
import SqlFootprint.Proofs.NumberRescans
import SqlFootprint.Proofs.Rereading
import SqlFootprint.Proofs.RoundTrips
import SqlFootprint.Proofs.Quantifiers
import SqlFootprint.Proofs.ArithmeticValues
import SqlFootprint.Proofs.NestedValues
import SqlFootprint.Proofs.ChangedTables
import SqlFootprint.Proofs.TablePlaces
import SqlFootprint.Proofs.ColumnLists
import SqlFootprint.Proofs.Parentheses
import SqlFootprint.Proofs.Saturation
import SqlFootprint.Proofs.Requoting
import SqlFootprint.Proofs.QuotedColumns
import SqlFootprint.Proofs.Decoding
import SqlFootprint.Proofs.FileFailures
import SqlFootprint.Proofs.LongestNames
