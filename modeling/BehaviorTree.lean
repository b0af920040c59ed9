import BehaviorTree.Bench
import BehaviorTree.Bench.Station
import BehaviorTree.Main
import BehaviorTree.Proofs.Conduct
import BehaviorTree.Proofs.Continuity
import BehaviorTree.Proofs.Forgetting
import BehaviorTree.Proofs.Inspection
import BehaviorTree.Proofs.Pace
import BehaviorTree.Proofs.Protocol
import BehaviorTree.Proofs.Pursuit
import BehaviorTree.Proofs.Visits
import BehaviorTree.Ticker.Record
import BehaviorTree.Timer
import BehaviorTree.Proofs.Counterpart
import BehaviorTree.Proofs.Lifelong
import BehaviorTree.Proofs.Service
import BehaviorTree.Proofs.Driving
import BehaviorTree.Proofs.Serving
import BehaviorTree.Proofs.Stints
import BehaviorTree.Proofs.Consent
import BehaviorTree.Proofs.Acknowledging
import BehaviorTree.Proofs.Minutes
import BehaviorTree.Proofs.Collecting
import BehaviorTree.Proofs.Resolution
import BehaviorTree.Proofs.Flags
import BehaviorTree.Proofs.Tracing
import BehaviorTree.Proofs.Formula
import BehaviorTree.Proofs.Staffing
import BehaviorTree.Proofs.Manning
import BehaviorTree.Proofs.Reporting
import BehaviorTree.Proofs.Drafting
import BehaviorTree.Proofs.Journal
import BehaviorTree.Proofs.Prompting
import BehaviorTree.Proofs.Interaction
import BehaviorTree.Proofs.Console
import BehaviorTree.Proofs.Resuming
import BehaviorTree.Proofs.Abreast
import BehaviorTree.Proofs.Mirror
import BehaviorTree.Proofs.Unseen
import BehaviorTree.Proofs.Goals
import BehaviorTree.Proofs.Finding
import BehaviorTree.Proofs.Increment
import BehaviorTree.Proofs.Showing
import BehaviorTree.Proofs.Comparing
import BehaviorTree.Proofs.Alarms
