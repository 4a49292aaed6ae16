import V2x.Dissector.Basic
import V2x.Schema.Denm
import V2x.Schema.GroupC
import V2x.Schema.Ssem

/-!
# Filling the tables

Registrations are tried one after another. One that fails leaves the tables as they are.
-/

namespace V2x

inductive Registration
  | version (version : UInt8) (grammar : Grammar)
  | message (id : UInt8) (grammar : Grammar)
  | extension (key : ExtensionKey) (grammar : Grammar)

inductive BuildStep
  | register (registration : Registration)
  /-- The standard registrations, up to the first that fails. -/
  | standard

namespace Registration

def undecodedFamilies : List (UInt8 × String) :=
  [(2, "CAM"), (4, "SPATEM"), (5, "MAPEM"), (6, "IVIM"), (7, "EVRSR"), (8, "TISTPG"), (9, "SREM"),
   (11, "EVCSN")]

def messageGrammar (name : String) (parser : Parser) : Grammar :=
  ⟨name, "ITS message - " ++ name, parser⟩

def groupC (slot : Slot) (name : String) (schema : Schema) : Registration :=
  .extension ⟨.groupC, slot⟩ ⟨name ++ "-addGrpC", "DSRC Addition Grp C (EU)", .schema schema⟩

def extensions : List Registration :=
  [ groupC .connectionManeuverAssist "ConnectionManeuverAssist"
      Schema.GroupC.connectionManeuverAssist,
    groupC .genericLane "ConnectionTrajectory" Schema.GroupC.connectionTrajectory,
    groupC .nodeAttributeSetXY "Control" Schema.GroupC.control,
    groupC .intersectionState "IntersectionState" Schema.GroupC.intersectionState,
    groupC .mapData "MapData" Schema.GroupC.mapData,
    groupC .position3D "Position3D" Schema.GroupC.position3D,
    groupC .restrictionUserType "RestrictionUserType" Schema.GroupC.restrictionUserType,
    groupC .signalStatusPackage "SignalStatusPackage" Schema.GroupC.signalStatusPackage ]

def standard (config : Config) : List Registration :=
  (config.versions.map fun version =>
    .version version ⟨"ItsPduHeader", "ITS PDU header", .message⟩) ++
  [ .message 1 (messageGrammar "DENM" (.schema Schema.Denm.schema)),
    .message 10 (messageGrammar "SSEM" (.schema Schema.Ssem.schema)) ] ++
  (undecodedFamilies.map fun (id, name) => .message id (messageGrammar name .undecoded)) ++
  extensions

end Registration

namespace Dissector

def register (d : Dissector) : Registration → Except Refusal Dissector
  | .version version grammar => do
    return { d with versions := ← d.versions.register version grammar }
  | .message id grammar => do
    return { d with messages := ← d.messages.register id grammar }
  | .extension key grammar => do
    return { d with extensions := ← d.extensions.register key grammar }

/-- Registers up to the first failure, which is given along with what was registered before it. -/
def registerAll : List Registration → Dissector → Option Refusal × Dissector
  | [], d => (none, d)
  | registration :: more, d =>
    match d.register registration with
    | .ok d => registerAll more d
    | .error error => (some error, d)

def build (d : Dissector) : BuildStep → Option Refusal × Dissector
  | .register registration => registerAll [registration] d
  | .standard => registerAll (Registration.standard d.config) d

/-- Builds on after a step that fails; gives the outcome of each step. -/
def buildAll : List BuildStep → Dissector → List (Option Refusal) × Dissector
  | [], d => ([], d)
  | step :: more, d =>
    let (outcome, d) := d.build step
    let (outcomes, d) := buildAll more d
    (outcome :: outcomes, d)

def standard (config : Config) : Except Refusal Dissector :=
  match (empty config).build .standard with
  | (none, d) => .ok d
  | (some error, _) => .error error

end Dissector

end V2x
