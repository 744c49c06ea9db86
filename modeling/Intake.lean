import Intake.Main
import Intake.Proofs.Acceptance
import Intake.Proofs.Composition
import Intake.Proofs.CalendarText
import Intake.Proofs.CanonicalText
import Intake.Proofs.Declared
import Intake.Proofs.Redeclaring
import Intake.Proofs.Reloading
import Intake.Proofs.Yaml.Blocks
import Intake.Proofs.Yaml.Making
import Intake.Proofs.Yaml.Parsing
import Intake.Proofs.BinaryText
import Intake.Proofs.Refusing
import Intake.Proofs.Reparsing
import Intake.Proofs.RuleAnswers
import Intake.Proofs.Untrusted
import Intake.Proofs.BinaryRounding
import Intake.Proofs.Dumping
import Intake.Proofs.Relisting
import Intake.Proofs.BuilderCalls
import Intake.Proofs.Strictness
import Intake.Proofs.KeyIndifference
import Intake.Proofs.Mirroring
import Intake.Proofs.StrictLevels
import Intake.Proofs.CommandLine.FixedPoint
import Intake.Proofs.TextForms
import Intake.Proofs.Json.AsYaml
import Intake.Proofs.NumericVerdict
import Intake.Proofs.Conservation
import Intake.Proofs.Projections
import Intake.Proofs.SizeBounds
import Intake.Proofs.BlankFields
import Intake.Proofs.InstanceEquality
import Intake.Proofs.OptionChecking
import Intake.Proofs.KeyLookup
import Intake.Proofs.TypeNames
import Intake.Proofs.Unfolding
import Intake.Proofs.Json.Payload
