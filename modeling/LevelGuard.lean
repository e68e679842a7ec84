import LevelGuard.Check.Files
import LevelGuard.Command.Run
import LevelGuard.Config
import LevelGuard.Discovery
import LevelGuard.Facts.Basic
import LevelGuard.Hierarchy
import LevelGuard.Java.Read
import LevelGuard.Main
import LevelGuard.Manifest
import LevelGuard.Platform.Locate
import LevelGuard.Proofs.AncestorOrder
import LevelGuard.Proofs.Ancestors
import LevelGuard.Proofs.ClassElements
import LevelGuard.Proofs.Coverage
import LevelGuard.Proofs.GuardVariables
import LevelGuard.Proofs.Handlers
import LevelGuard.Proofs.IndexOrder
import LevelGuard.Proofs.LevelSoundness
import LevelGuard.Proofs.Minimum
import LevelGuard.Proofs.Refusal
import LevelGuard.Proofs.Simulation
import LevelGuard.Proofs.Suppression
import LevelGuard.Proofs.UnitOrder
import LevelGuard.Report.Json
import LevelGuard.Report.Terminal
import LevelGuard.Proofs.ClassWriting
import LevelGuard.Proofs.Enclosing
import LevelGuard.Proofs.Numbering
import LevelGuard.Proofs.ReadExpressions
import LevelGuard.Proofs.ReadDeclarations
import LevelGuard.Proofs.TypeNames
import LevelGuard.Proofs.Outlines
import LevelGuard.Proofs.Rules
import LevelGuard.Proofs.Renaming
import LevelGuard.Proofs.SourceOrder
import LevelGuard.Proofs.MemberTypes
import LevelGuard.Proofs.MethodReferences
import LevelGuard.Proofs.CallTypes
import LevelGuard.Proofs.ExpressionGrammar
import LevelGuard.Proofs.TableEntries
import LevelGuard.Proofs.BlockScopes
import LevelGuard.Proofs.Grants
import LevelGuard.Proofs.Wording
import LevelGuard.Proofs.LevelRanges
import LevelGuard.Proofs.DeviceStates
import LevelGuard.Proofs.FactLattice
import LevelGuard.Proofs.Fragments
import LevelGuard.Proofs.InlineConditions
import LevelGuard.Proofs.Recognition
import LevelGuard.Proofs.FactInvariants
import LevelGuard.Proofs.SeedFacts
import LevelGuard.Proofs.Repetition
import LevelGuard.Proofs.AttributePlaces
import LevelGuard.Proofs.ElementFloors
import LevelGuard.Proofs.IntegerLiterals
import LevelGuard.Proofs.LinePositions
import LevelGuard.Proofs.WrittenTypes
