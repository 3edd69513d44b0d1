import CanonIR.Fault
import CanonIR.Handle
import CanonIR.Node.Category
import CanonIR.Node.Census
import CanonIR.Node.Decl
import CanonIR.Node.Directive
import CanonIR.Node.Expr
import CanonIR.Node.Flags
import CanonIR.Node.Name
import CanonIR.Node.Reference
import CanonIR.Node.Stmt
import CanonIR.Node.TypeNode
import CanonIR.Ordered.Code
import CanonIR.Ordered.Index
import CanonIR.Ordered.Insertion
import CanonIR.Ordered.Sequences
import CanonIR.Ordered.Traversal
import CanonIR.Ordered.Tree
import CanonIR.Program.Basic
import CanonIR.Program.Binding
import CanonIR.Program.Body
import CanonIR.Program.Completion
import CanonIR.Program.Declaration
import CanonIR.Program.Error
import CanonIR.Program.Expression
import CanonIR.Program.Outline
import CanonIR.Program.Query
import CanonIR.Program.Request
import CanonIR.Program.Vocabulary
import CanonIR.Slab
import CanonIR.Space.Region
import CanonIR.Space.Scope
import CanonIR.Text.Bytes
import CanonIR.Text.Error
import CanonIR.Text.ReservedWord
import CanonIR.Text.Sizing
import CanonIR.Text.Symbol
import CanonIR.Text.SymbolPool
import CanonIR.Text.TextArena
import CanonIR.Proofs.Storage
import CanonIR.Proofs.TreeReading
import CanonIR.Proofs.TreeRotation
import CanonIR.Proofs.TreeRepair
import CanonIR.Proofs.TreeInsertion
import CanonIR.Proofs.TreeCalls
import CanonIR.Proofs.TreeOrder
import CanonIR.Proofs.IndexLaws
import CanonIR.Proofs.OrderedRuns
import CanonIR.Proofs.ArenaPlacement
import CanonIR.Proofs.ReservedWords
import CanonIR.Proofs.PoolChains
import CanonIR.Proofs.PoolInterning
import CanonIR.Proofs.PoolRuns
import CanonIR.Proofs.PoolGrowth
import CanonIR.Proofs.PoolTables
import CanonIR.Proofs.KeyOrder
import CanonIR.Proofs.ProgramChanges
import CanonIR.Proofs.RequestChanges
import CanonIR.Proofs.CanonicalTables
import CanonIR.Proofs.CanonicalRuns
import CanonIR.Proofs.CanonicalNodes
import CanonIR.Proofs.NodeCensus
import CanonIR.Proofs.ScopeTables
import CanonIR.Proofs.TableGrowth
import CanonIR.Proofs.DeclarationTables
import CanonIR.Proofs.RequestEffects
import CanonIR.Proofs.DeclarationChains
import CanonIR.Proofs.ScopeScans
import CanonIR.Proofs.IssuedHandles
import CanonIR.Proofs.RefusedRequests
import CanonIR.Proofs.Unfoldings
import CanonIR.Proofs.StructuralIdentity
import CanonIR.Proofs.WriteOnce
import CanonIR.Proofs.TemplateLinks
import CanonIR.Proofs.ArenaRuns
import CanonIR.Proofs.ArenaAccounts
import CanonIR.Proofs.RegionTree
import CanonIR.Proofs.RegionOwners
import CanonIR.Proofs.CreationOrder
import CanonIR.Proofs.TreeBalance
import CanonIR.Proofs.TableRoom
import CanonIR.Proofs.QualifierMerging
import CanonIR.Proofs.SumsAndProducts
import CanonIR.Proofs.CanonicalRequests
import CanonIR.Proofs.GenuineSpecializations
import CanonIR.Proofs.DeclarationRoom
import CanonIR.Proofs.RedeclarationCheck
import CanonIR.Proofs.OversizedStrings
import CanonIR.Proofs.ArenaWaste
import CanonIR.Proofs.TreeVerdicts
import CanonIR.Proofs.BindingStates
import CanonIR.Proofs.WordLookup
import CanonIR.Proofs.TreeIteration
import CanonIR.Proofs.ParameterNumbers
import CanonIR.Proofs.SideLists
import CanonIR.Proofs.ListRequests
import CanonIR.Proofs.FaithfulLogs
import CanonIR.Proofs.StructuralOrder
import CanonIR.Proofs.RotationEffects
import CanonIR.Proofs.RepairRounds
import CanonIR.Proofs.TemplateIdSearch
