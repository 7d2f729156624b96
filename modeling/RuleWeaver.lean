import RuleWeaver.Main
import RuleWeaver.Proofs.Registry.Declarations
import RuleWeaver.Proofs.Registry.Imports
import RuleWeaver.Proofs.Registry.Regeneration
import RuleWeaver.Proofs.Updates
import RuleWeaver.Proofs.Document.GrowingMaps
import RuleWeaver.Proofs.Registry.Merging
import RuleWeaver.Proofs.Registry.RuleMap
import RuleWeaver.Proofs.Detection.Methods
import RuleWeaver.Proofs.Methods
import RuleWeaver.Proofs.Registry.Rebinding
import RuleWeaver.Proofs.Detection.Declared
import RuleWeaver.Proofs.AddedMethods
import RuleWeaver.Proofs.PackageFunctions
import RuleWeaver.Proofs.Detection.Keys
import RuleWeaver.Proofs.FailedRuns
import RuleWeaver.Proofs.DryRuns
import RuleWeaver.Proofs.Layout.Finding
import RuleWeaver.Proofs.Source.Coverage
import RuleWeaver.Proofs.DeclarationOrder
import RuleWeaver.Proofs.Registry.Creation
import RuleWeaver.Proofs.Detection.FoundFunctions
import RuleWeaver.Proofs.Source.Uncommenting
import RuleWeaver.Proofs.Source.Nesting
import RuleWeaver.Proofs.Source.InsertedComments
import RuleWeaver.Proofs.Source.PrintedStructs
import RuleWeaver.Proofs.PrintedTypes
import RuleWeaver.Proofs.TypesFiles
import RuleWeaver.Proofs.Writing
import RuleWeaver.Proofs.Source.Bodies
import RuleWeaver.Proofs.Initializer.Statements
import RuleWeaver.Proofs.Initializer.Cuts
import RuleWeaver.Proofs.Initializer.Removals
import RuleWeaver.Proofs.Initializer.Variables
import RuleWeaver.Proofs.Initializer.Lifting
import RuleWeaver.Proofs.Initializer.Depths
import RuleWeaver.Proofs.Initializer.Forms
import RuleWeaver.Proofs.Registry.MergedImports
import RuleWeaver.Proofs.Rule.StructTags
import RuleWeaver.Proofs.Rule.FunctionNames
import RuleWeaver.Proofs.Registry.FirstReferences
import RuleWeaver.Proofs.Registry.Sufficiency
import RuleWeaver.Proofs.Layout.NormalLines
import RuleWeaver.Proofs.Document.AddedEntries
import RuleWeaver.Proofs.Document.Splicing
import RuleWeaver.Proofs.Source.Partners
import RuleWeaver.Proofs.Source.BlankedBytes
import RuleWeaver.Proofs.Text.Positions
