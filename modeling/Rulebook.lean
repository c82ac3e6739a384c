import Rulebook.Assistant
import Rulebook.Command.Options
import Rulebook.Command.Run
import Rulebook.Compilation
import Rulebook.Disk.Basic
import Rulebook.Disk.Change
import Rulebook.Disk.Entry
import Rulebook.Disk.Fault
import Rulebook.Disk.Forest.Basic
import Rulebook.Disk.Forest.View
import Rulebook.Disk.Look
import Rulebook.Disk.Name
import Rulebook.Disk.Walk
import Rulebook.Document
import Rulebook.Excerpt
import Rulebook.Failure
import Rulebook.FrontMatter
import Rulebook.Generator
import Rulebook.LegacyGuard
import Rulebook.Main
import Rulebook.Outcome
import Rulebook.Path
import Rulebook.Plan
import Rulebook.Preview
import Rulebook.Proofs.CleanOutput
import Rulebook.Proofs.CommandLine
import Rulebook.Proofs.Compilation
import Rulebook.Proofs.CompileCommand
import Rulebook.Proofs.Disk.Change
import Rulebook.Proofs.Disk.Ends
import Rulebook.Proofs.Disk.Grown
import Rulebook.Proofs.Disk.Leads
import Rulebook.Proofs.Disk.Name
import Rulebook.Proofs.Disk.Retains
import Rulebook.Proofs.Disk.Stops
import Rulebook.Proofs.Disk.Straight
import Rulebook.Proofs.Extension
import Rulebook.Proofs.FailedWrite
import Rulebook.Proofs.ForeignPassages
import Rulebook.Proofs.FrontMatter
import Rulebook.Proofs.FullOutput
import Rulebook.Proofs.Idempotence
import Rulebook.Proofs.JoinedTexts
import Rulebook.Proofs.Layouts
import Rulebook.Proofs.LegacyVerdict
import Rulebook.Proofs.Loading
import Rulebook.Proofs.MergedFile
import Rulebook.Proofs.Outcome
import Rulebook.Proofs.Path
import Rulebook.Proofs.Placement
import Rulebook.Proofs.PlannedPaths
import Rulebook.Proofs.Planning
import Rulebook.Proofs.PreviewAgreement
import Rulebook.Proofs.PreviewCommand
import Rulebook.Proofs.Registration
import Rulebook.Proofs.Reloading
import Rulebook.Proofs.RepeatedExcerpts
import Rulebook.Proofs.RulesDirectory
import Rulebook.Proofs.Sections
import Rulebook.Proofs.SetUpReport
import Rulebook.Proofs.SettingUp
import Rulebook.Proofs.ShownLines
import Rulebook.Proofs.Sources
import Rulebook.Proofs.Stability
import Rulebook.Proofs.Writing
import Rulebook.Proofs.Written
import Rulebook.Registry
import Rulebook.RulesDirectory
import Rulebook.Section
import Rulebook.Starter
import Rulebook.Text.Blank
import Rulebook.Text.GraphemeExtend
import Rulebook.Text.Lines
import Rulebook.Text.Lossy
import Rulebook.Text.Paragraphs
import Rulebook.Text.Quoted
import Rulebook.Text.Unprintable
