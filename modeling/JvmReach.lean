import JvmReach.Main
import JvmReach.Proofs.ClassFile.Switches
import JvmReach.Proofs.ClassFile.Tiling
import JvmReach.Proofs.Construction.EdgeGrowth
import JvmReach.Proofs.Construction.InitializerOrigins
import JvmReach.Proofs.Construction.Policies
import JvmReach.Proofs.Construction.Schedule
import JvmReach.Proofs.Hierarchy.Agreement
import JvmReach.Proofs.Hierarchy.Formation
import JvmReach.Proofs.Hierarchy.PrivateDeclarations
import JvmReach.Proofs.Hierarchy.SubtypeOrder
import JvmReach.Proofs.Load.Lines
import JvmReach.Proofs.Load.Models
import JvmReach.Proofs.Load.Spellings
import JvmReach.Proofs.Manifest.Folding
import JvmReach.Proofs.Program.Formation
import JvmReach.Proofs.Report.LoadOrder
import JvmReach.Proofs.Report.Records
import JvmReach.Proofs.Report.Text
import JvmReach.Proofs.Run.Output
import JvmReach.Proofs.Strategy.Generations
