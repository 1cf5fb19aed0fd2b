import ReactiveView.Document.Build
import ReactiveView.Page.Fire
import ReactiveView.Page.Outline
import ReactiveView.Proofs.Acceptance
import ReactiveView.Proofs.Accounting
import ReactiveView.Proofs.ActionErrors
import ReactiveView.Proofs.Atomicity
import ReactiveView.Proofs.Bounds
import ReactiveView.Proofs.Coherence
import ReactiveView.Proofs.Commuting
import ReactiveView.Proofs.Comparison
import ReactiveView.Proofs.Containment
import ReactiveView.Proofs.Course
import ReactiveView.Proofs.Delivery
import ReactiveView.Proofs.Editing
import ReactiveView.Proofs.Flattening
import ReactiveView.Proofs.Grouping
import ReactiveView.Proofs.Headroom
import ReactiveView.Proofs.Hexadecimal
import ReactiveView.Proofs.Incremental
import ReactiveView.Proofs.Listening
import ReactiveView.Proofs.Modular
import ReactiveView.Proofs.Noninterference
import ReactiveView.Proofs.Numerals
import ReactiveView.Proofs.Occurrence
import ReactiveView.Proofs.Padding
import ReactiveView.Proofs.Remounting
import ReactiveView.Proofs.Replacement
import ReactiveView.Proofs.Residue
import ReactiveView.Proofs.Scheduling
import ReactiveView.Proofs.Segmentation
import ReactiveView.Proofs.Selectivity
import ReactiveView.Proofs.Sequencing
import ReactiveView.Proofs.Showing
import ReactiveView.Proofs.Soundness
import ReactiveView.Proofs.Termination
import ReactiveView.Proofs.Transparency
import ReactiveView.Sandbox.Source
import ReactiveView.Schedule.Job
import ReactiveView.Session.Call
import ReactiveView.Session.Start
