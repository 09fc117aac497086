import ModulePack.Main
import ModulePack.Proofs.Build.Output
import ModulePack.Proofs.Build.Inputs
import ModulePack.Proofs.Build.Repeat
import ModulePack.Proofs.Header.Cursor
import ModulePack.Proofs.Wrapper.Unwrap
import ModulePack.Proofs.Manifest.Dependencies
import ModulePack.Proofs.Build.Halting
import ModulePack.Proofs.Build.Confined
import ModulePack.Proofs.Build.Sessions
import ModulePack.Proofs.Build.Exports
import ModulePack.Proofs.Entry.Lines
import ModulePack.Proofs.Build.Headers
import ModulePack.Proofs.Manifest.Synthesis
import ModulePack.Proofs.Manifest.Rebasing
import ModulePack.Proofs.Build.Manifests
import ModulePack.Proofs.Settings.Paths
import ModulePack.Proofs.Build.Fingerprints
import ModulePack.Proofs.Disk.Digests
import ModulePack.Proofs.Disk.FaithfulCopy
import ModulePack.Proofs.Build.LinkedCopies
import ModulePack.Proofs.Build.LineEnds
import ModulePack.Proofs.Build.Fields
import ModulePack.Proofs.Settings.Changes
import ModulePack.Proofs.Text.Splitting
import ModulePack.Proofs.Build.Listings
import ModulePack.Proofs.Build.OutputNames
import ModulePack.Proofs.Command.Arguments
import ModulePack.Proofs.Command.Resolution
