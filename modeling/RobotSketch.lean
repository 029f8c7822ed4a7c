import RobotSketch.Command
import RobotSketch.Exchange
import RobotSketch.Files
import RobotSketch.Json.Reader
import RobotSketch.Main
import RobotSketch.Proofs.Behaviour
import RobotSketch.Proofs.Cycles
import RobotSketch.Proofs.FirstUses
import RobotSketch.Proofs.Grammar
import RobotSketch.Proofs.Interruption
import RobotSketch.Proofs.PassingOver
import RobotSketch.Proofs.Persistence
import RobotSketch.Proofs.Prolog.Bytes
import RobotSketch.Proofs.StaleSketches
import RobotSketch.Proofs.Thresholds
import RobotSketch.Proofs.Pruning
import RobotSketch.Proofs.Exchange
import RobotSketch.Proofs.Writing
import RobotSketch.Proofs.Settings
import RobotSketch.Proofs.DeviceCalls
import RobotSketch.Proofs.Joining
import RobotSketch.Proofs.Devices
import RobotSketch.Proofs.Counting
import RobotSketch.Proofs.Locations
import RobotSketch.Proofs.Routes
import RobotSketch.Proofs.Survey
import RobotSketch.Proofs.Placement
import RobotSketch.Proofs.Prompting
import RobotSketch.Proofs.Quoting
import RobotSketch.Proofs.SavedSettings
import RobotSketch.Proofs.Stack
