import DevRepro.Python.JsonRoundTrip
import DevRepro.Python.JsonPaired
import DevRepro.Lib.HashChain
import DevRepro.Snapshots.Chain
import DevRepro.Snapshots.ChainVerify
import DevRepro.Snapshots.ChainAppend
import DevRepro.Snapshots.ChainIntegrity
import DevRepro.Lib.ReadAppend
import DevRepro.Lib.Rewrite
import DevRepro.Python.JsonEscapes
import DevRepro.Python.JsonLiterals
import DevRepro.Privacy.Gate
import DevRepro.Snapshots.ChainConcurrent
import DevRepro.Mcp.CacheScope
import DevRepro.Mcp.Stdio
import DevRepro.Diff.Tools
import DevRepro.Snapshots.Migration
import DevRepro.Server.BackupRoundTrip
import DevRepro.Server.Policies
import DevRepro.Server.Exceptions
import DevRepro.Server.Enrollment
import DevRepro.Server.Redeem
import DevRepro.Server.Db
import DevRepro.Server.Enroll
import DevRepro.Server.Publish
import DevRepro.Core.Versioning
import DevRepro.Server.Analytics
import DevRepro.Server.Api
import DevRepro.Server.WriteIsolation
import DevRepro.Server.ReadApi
import DevRepro.Server.ReadIsolation
import DevRepro.Server.Onboarding
import DevRepro.Python.Stamp
import DevRepro.Rules.Base
import DevRepro.Exporters.Bundle
import DevRepro.Rules.ActiveVersion
import DevRepro.Drift.Timeline
import DevRepro.Snapshots.History
import DevRepro.Python.Words
import DevRepro.Python.Fnmatch
import DevRepro.Lib.Dict
import DevRepro.Lib.Layers
import DevRepro.Project.Policy
import DevRepro.Project.Extends
import DevRepro.Project.Compose
import DevRepro.Project.Sections
import DevRepro.Project.Contract
import DevRepro.Agents.Commands
import DevRepro.Agents.Manifest
import DevRepro.Agents.Author
import DevRepro.Privacy.Report
import DevRepro.Lib.Lines
import DevRepro.Generators.Onboarding
import DevRepro.Server.Rollout
import DevRepro.Generators.OnboardingScript
import DevRepro.Lib.DepthFirst
import DevRepro.Project.Lockfiles
import DevRepro.Agents.Fences
import DevRepro.Rules.Packs
import DevRepro.Rules.Engine
import DevRepro.Rules.Sources
import DevRepro.Cli.Pipeline
import DevRepro.Rules.PolicyCoverage
import DevRepro.Rules.DeclaredRuntimes
import DevRepro.Python.Replace
import DevRepro.Shell.Quoted
import DevRepro.Reproduce.Emit
import DevRepro.Reproduce.Staleness
import DevRepro.Reproduce.Injection
import DevRepro.Project.TomlReader
import DevRepro.Generators.DevreproToml
import DevRepro.Lib.Minimal
import DevRepro.Reproduce.Bisect
import DevRepro.Reproduce.Minimise
import DevRepro.Reproduce.Searches
import DevRepro.Lib.Padded
import DevRepro.Core.VersionOrder
import DevRepro.Rules.Advisories
import DevRepro.Python.Digits
import DevRepro.Core.VersionText
import DevRepro.Core.Bounds
import DevRepro.Core.Ranges
import DevRepro.Core.WholeClauses
import DevRepro.Core.SpecText
import DevRepro.Core.SpecStable
import DevRepro.Core.SpecRoundTrip
import DevRepro.Rules.AdvisoryBundle
import DevRepro.Remediation.Graph
import DevRepro.Remediation.DryRun
import DevRepro.Remediation.Planner
import DevRepro.Lib.Changes
import DevRepro.Watch.Loop
import DevRepro.Watch.Reports
import DevRepro.Lib.Firsts
import DevRepro.Project.ContractDepth
import DevRepro.Project.GitPaths
import DevRepro.Project.ContractChanges
import DevRepro.Project.QuotedChanges
import DevRepro.Agents.Gates
import DevRepro.Agents.Freshness
import DevRepro.Agents.Checks
import DevRepro.Project.Monorepo
import DevRepro.Project.CiParsers
import DevRepro.Project.CiDiff
import DevRepro.Project.CiSteps
import DevRepro.Lib.AddNew
import DevRepro.Project.MatrixText
import DevRepro.Project.MatrixSections
import DevRepro.Project.Matrices
import DevRepro.Project.Workflows
import DevRepro.Project.VersionFiles
import DevRepro.Project.ToolVersions
import DevRepro.Project.MiseToml
import DevRepro.Project.Detectors
import DevRepro.Reproduce.Recipe
import DevRepro.Reproduce.BaseImage
import DevRepro.Lib.Escapes
import DevRepro.Python.Calendar
import DevRepro.Python.Escapes
import DevRepro.Server.Retention
import DevRepro.Mcp.Confinement
import DevRepro.Snapshots.Signing
import DevRepro.Reports.Annotations
import DevRepro.Reports.Commands
import DevRepro.Reports.Truncation
import DevRepro.Reports.CheckRun
import DevRepro.Reports.TableRows
import DevRepro.Reports.HtmlDocuments
import DevRepro.Reports.JunitKept
import DevRepro.Generators.ImageDigest
import DevRepro.Envvars.DotenvSafety
import DevRepro.Lib.Masks
import DevRepro.Platforms.Paths
import DevRepro.Platforms.PathAnalysis
import DevRepro.Platforms.Shadowing
import DevRepro.Platforms.Resolution
import DevRepro.Services.Ports
import DevRepro.Git.Health
import DevRepro.Plugins.Testkit
import DevRepro.Network.Credentials
import DevRepro.Privacy.Stability
import DevRepro.Reproduce.MinimiseRounds
import DevRepro.Server.Percentile
import DevRepro.Snapshots.Fingerprint
import DevRepro.Probes.Engine
import DevRepro.Probes.Toolchains
import DevRepro.Compliance.Agreement
import DevRepro.Platforms.MountChoice
import DevRepro.Cli.ScopedGuard
import DevRepro.Project.NativeLayout
import DevRepro.Reproduce.Corpus
import DevRepro.Snapshots.Vault
import DevRepro.Drift.Monitor
import DevRepro.Reports.Sarif
import DevRepro.Core.Contract
import DevRepro.Compliance.Attest
