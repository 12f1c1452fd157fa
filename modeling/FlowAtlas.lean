import FlowAtlas.Disk.Launch
import FlowAtlas.Main
import FlowAtlas.Proofs.Artifacts.Manifest
import FlowAtlas.Proofs.Json.Decoding
import FlowAtlas.Proofs.Json.Numbers
import FlowAtlas.Proofs.Json.Normal
import FlowAtlas.Proofs.Diagram.Walk
import FlowAtlas.Proofs.Diagram.Closed
import FlowAtlas.Proofs.Diagram.Reading
import FlowAtlas.Proofs.Path
import FlowAtlas.Proofs.Path.Below
import FlowAtlas.Proofs.Artifacts.Directory
import FlowAtlas.Proofs.Disk.Laws
import FlowAtlas.Proofs.Disk.Local
import FlowAtlas.Proofs.Disk.Standing
import FlowAtlas.Proofs.Disk.Steady
import FlowAtlas.Proofs.Run.Isolation
import FlowAtlas.Proofs.Run.Steps
import FlowAtlas.Proofs.Run.Stages
import FlowAtlas.Proofs.Run.Tracking
import FlowAtlas.Proofs.Run.Retention
import FlowAtlas.Proofs.Run.Unreadable
import FlowAtlas.Proofs.Run.Regeneration
import FlowAtlas.Proofs.Disk.Tree
import FlowAtlas.Proofs.Disk.Rendering
import FlowAtlas.Proofs.Disk.Outcomes
import FlowAtlas.Proofs.Disk.Promises
import FlowAtlas.Proofs.Artifacts.Settling
import FlowAtlas.Proofs.Run.Within
import FlowAtlas.Proofs.Run.Keeping
import FlowAtlas.Proofs.Run.Repetition
import FlowAtlas.Proofs.Hierarchy.RoundTrip
import FlowAtlas.Proofs.Hierarchy.Rereading
import FlowAtlas.Proofs.Architecture.Closed
import FlowAtlas.Proofs.Architecture.Flat
import FlowAtlas.Proofs.Disk.Ancestors
import FlowAtlas.Proofs.Disk.Footprint
import FlowAtlas.Proofs.Run.Footprint
import FlowAtlas.Proofs.Run.Accounting
import FlowAtlas.Proofs.Run.Composition
import FlowAtlas.Proofs.Run.Warnings
import FlowAtlas.Proofs.CommandLine.Startup
import FlowAtlas.Proofs.Artifacts.Inside
import FlowAtlas.Proofs.Architecture.Growth
import FlowAtlas.Proofs.Architecture.Summary
import FlowAtlas.Proofs.Disk.Absence
import FlowAtlas.Proofs.Run.Sweeping
import FlowAtlas.Proofs.Run.Pruned
import FlowAtlas.Proofs.Run.Colliding
import FlowAtlas.Proofs.Json.Repeated
import FlowAtlas.Proofs.Json.Faithful
import FlowAtlas.Proofs.Graph.Recorded
import FlowAtlas.Proofs.Snapshot.Handing
import FlowAtlas.Proofs.Artifacts.Apart
import FlowAtlas.Proofs.Diagram.Labels
import FlowAtlas.Proofs.Json.Grammar
import FlowAtlas.Proofs.Json.Layout
import FlowAtlas.Proofs.Json.Rewriting
import FlowAtlas.Proofs.Hierarchy.Regraphing
import FlowAtlas.Proofs.Fault
import FlowAtlas.Proofs.Text.Lines
import FlowAtlas.Proofs.Diagram.Escaping
import FlowAtlas.Proofs.Disk.Recall
import FlowAtlas.Proofs.Artifacts.Calls
import FlowAtlas.Proofs.Snapshot.Opening
