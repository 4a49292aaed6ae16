import V2x.Proofs.Message.Recovery
import V2x.Schema.Ssem

/-!
# Signal status messages

What a signal status message says at each of its levels, how it is written, and that its decoder recovers
it (`recovers_parts`). Names, bounds and order are those of the message, given here apart from its schema.
-/

namespace V2x

namespace StatusMessage

/-! ## What a signal status message says -/

inductive AccessPoint
  | lane (n : Within 0 255)
  | approach (n : Within 0 15)
  | connection (n : Within 0 255)
  | addition (n : Small) (h : 3 + n.value < 2 ^ 64) (data : Per.Short)

def AccessPoint.item (name : String) : AccessPoint → Item
  | .lane n => .choice name [.index 0 3 true] (.number "lane" n)
  | .approach n => .choice name [.index 1 3 true] (.number "approach" n)
  | .connection n => .choice name [.index 2 3 true] (.number "connection" n)
  | .addition n _ data => .choice name (.flag true :: n.steps) (.addition data)

inductive VehicleId
  | entity (data : { data : Octets // data.length = 4 })
  | station (n : Within 0 4294967295)

def VehicleId.item (name : String) : VehicleId → Item
  | .entity data => .choice name [.index 0 2 false] (.octets "entityID" data)
  | .station n => .choice name [.index 1 2 false] (.number "stationID" n)

def vehicleRoles : List String :=
  ["basicVehicle", "publicTransport", "specialTransport", "dangerousGoods", "roadWork",
   "roadRescue", "emergency", "safetyCar", "none-unknown", "truck", "motorcycle",
   "roadSideSource", "police", "fire", "ambulance", "dot", "transit", "slowMoving", "stopNgo",
   "cyclist", "pedestrian", "nonMotorized", "military"]

def subRoles : List String :=
  ["requestSubRoleUnKnown", "requestSubRole1", "requestSubRole2", "requestSubRole3",
   "requestSubRole4", "requestSubRole5", "requestSubRole6", "requestSubRole7", "requestSubRole8",
   "requestSubRole9", "requestSubRole10", "requestSubRole11", "requestSubRole12",
   "requestSubRole13", "requestSubRole14", "requestSubRoleReserved"]

def importanceLevels : List String :=
  ["requestImportanceLevelUnKnown", "requestImportanceLevel1", "requestImportanceLevel2",
   "requestImportanceLevel3", "requestImportanceLevel4", "requestImportanceLevel5",
   "requestImportanceLevel6", "requestImportanceLevel7", "requestImportanceLevel8",
   "requestImportanceLevel9", "requestImportanceLevel10", "requestImportanceLevel11",
   "requestImportanceLevel12", "requestImportanceLevel13", "requestImportanceLevel14",
   "requestImportanceReserved"]

def vehicleTypes : List String :=
  ["none", "unknown", "special", "moto", "car", "carOther", "bus", "axleCnt2", "axleCnt3",
   "axleCnt4", "axleCnt4Trailer", "axleCnt5Trailer", "axleCnt6Trailer", "axleCnt5MultiTrailer",
   "axleCnt6MultiTrailer", "axleCnt7MultiTrailer"]

structure RequestorType where
  role : Enumerated vehicleRoles.length
  subRole : Option (Fin subRoles.length)
  request : Option (Fin importanceLevels.length)
  iso3883 : Option (Within 0 100)
  hpmsType : Option (Enumerated vehicleTypes.length)
  regional : Option Extension
  additions : Option Additions

/-- It has room for one extension only, which is not counted. -/
def RequestorType.item (t : RequestorType) : Item :=
  .extensibleSequence "typeData" t.additions
    [.required (.enumerated "role" vehicleRoles t.role),
     .optional (t.subRole.map (.named "subrole" subRoles)),
     .optional (t.request.map (.named "request" importanceLevels)),
     .optional (t.iso3883.map (.number "iso3883")),
     .optional (t.hpmsType.map (.enumerated "hpmsType" vehicleTypes)),
     .optional (t.regional.map fun e => .sequence "regional" [.required (e.item .requestorType)])]

structure Requester where
  id : VehicleId
  request : Within 0 255
  sequenceNumber : Within 0 127
  role : Option (Enumerated vehicleRoles.length)
  typeData : Option RequestorType
  additions : Option Additions

def Requester.item (r : Requester) : Item :=
  .extensibleSequence "requester" r.additions
    [.required (r.id.item "id"),
     .required (.number "request" r.request),
     .required (.number "sequenceNumber" r.sequenceNumber),
     .optional (r.role.map (.enumerated "role" vehicleRoles)),
     .optional (r.typeData.map RequestorType.item)]

def responseStatuses : List String :=
  ["unknown", "requested", "processing", "watchOtherTraffic", "granted", "rejected", "maxPresence",
   "reserviceLocked"]

structure Package where
  requester : Option Requester
  inboundOn : AccessPoint
  outboundOn : Option AccessPoint
  minute : Option (Within 0 527040)
  second : Option (Within 0 65535)
  duration : Option (Within 0 65535)
  status : Enumerated responseStatuses.length
  regional : Option Extensions
  additions : Option Additions

def Package.item (p : Package) : Item :=
  .extensibleSequence "SignalStatusPackage" p.additions
    [.optional (p.requester.map Requester.item),
     .required (p.inboundOn.item "inboundOn"),
     .optional (p.outboundOn.map (AccessPoint.item "outboundOn")),
     .optional (p.minute.map (.number "minute")),
     .optional (p.second.map (.number "second")),
     .optional (p.duration.map (.number "duration")),
     .required (.enumerated "status" responseStatuses p.status),
     .optional (p.regional.map (Extensions.item .signalStatusPackage))]

structure Intersection where
  region : Option (Within 0 65535)
  id : Within 0 65535

def Intersection.item (i : Intersection) : Item :=
  .sequence "id"
    [.optional (i.region.map (.number "region")), .required (.number "id" i.id)]

structure Status where
  sequenceNumber : Within 0 127
  id : Intersection
  packages : Counted 1 32 Package
  regional : Option Extensions
  additions : Option Additions

def Status.item (s : Status) : Item :=
  .extensibleSequence "SignalStatus" s.additions
    [.required (.number "sequenceNumber" s.sequenceNumber),
     .required s.id.item,
     .required (.list "sigStatus" Package.item s.packages),
     .optional (s.regional.map (Extensions.item .signalStatus))]

end StatusMessage

structure StatusMessage where
  timeStamp : Option (Within 0 527040)
  second : Within 0 65535
  sequenceNumber : Option (Within 0 127)
  statuses : Counted 1 32 StatusMessage.Status
  regional : Option Extensions
  additions : Option Additions

namespace StatusMessage

def item (m : StatusMessage) : Item :=
  .extensibleSequence "SignalStatusMessage" m.additions
    [.optional (m.timeStamp.map (.number "timeStamp")),
     .required (.number "second" m.second),
     .optional (m.sequenceNumber.map (.number "sequenceNumber")),
     .required (.list "status" Status.item m.statuses),
     .optional (m.regional.map (Extensions.item .signalStatusMessage))]

def parts (m : StatusMessage) : List Item.Part :=
  [.required m.item]

def items (m : StatusMessage) : List Item :=
  Item.message m.parts

/-! ## Its decoder recovers it -/

open Dissect Components Schema V2x.Field

variable {resolve : Resolver}

theorem recovers_accessPoint (name : String) : ∀ p : AccessPoint,
    ((accessPoint name).decode resolve).Recovers resolve [p.item name]
  | .lane n =>
    recovers_choice (finds_encodings (Per.Read.finds_index (by decide) true))
      (recovers_integer "lane" (by decide) n)
  | .approach n =>
    recovers_choice (finds_encodings (Per.Read.finds_index (by decide) true))
      (recovers_integer "approach" (by decide) n)
  | .connection n =>
    recovers_choice (finds_encodings (Per.Read.finds_index (by decide) true))
      (recovers_integer "connection" (by decide) n)
  | .addition n h data => by
    refine recovers_choice_addition n ?_ data
    exact h

theorem recovers_vehicleId (name : String) : ∀ v : VehicleId,
    ((vehicleId name).decode resolve).Recovers resolve [v.item name]
  | .entity data =>
    recovers_choice (finds_encodings (Per.Read.finds_index (by decide) false))
      (recovers_octets "entityID" data)
  | .station n =>
    recovers_choice (finds_encodings (Per.Read.finds_index (by decide) false))
      (recovers_integer "stationID" (by decide) n)

theorem recovers_requestorType (t : RequestorType) :
    ((requestor "typeData").decode resolve).Recovers resolve [t.item] :=
  recovers_extensibleSequence _ t.additions <|
    .required (recovers_extensibleEnumerated _ t.role) <|
    .optional (recovers_enumerated _) t.subRole <|
    .optional (recovers_enumerated _) t.request <|
    .optional (recovers_integer _ (by decide)) t.iso3883 <|
    .optional (recovers_extensibleEnumerated _) t.hpmsType <|
    .optional (fun e => recovers_sequence _ <|
      .required (recovers_extension .requestorType e) recovers_done) t.regional
    recovers_done

theorem recovers_requester (r : Requester) :
    (Ssem.requester.decode resolve).Recovers resolve [r.item] :=
  recovers_extensibleSequence _ r.additions <|
    .required (recovers_vehicleId _ r.id) <|
    .required (recovers_integer _ (by decide) r.request) <|
    .required (recovers_integer _ (by decide) r.sequenceNumber) <|
    .optional (recovers_extensibleEnumerated _) r.role <|
    .optional recovers_requestorType r.typeData
    recovers_done

theorem recovers_package (p : Package) :
    (Ssem.statusPackage.decode resolve).Recovers resolve [p.item] :=
  recovers_extensibleSequence _ p.additions <|
    .optional recovers_requester p.requester <|
    .required (recovers_accessPoint _ p.inboundOn) <|
    .optional (recovers_accessPoint _) p.outboundOn <|
    .optional (recovers_integer _ (by decide)) p.minute <|
    .optional (recovers_integer _ (by decide)) p.second <|
    .optional (recovers_integer _ (by decide)) p.duration <|
    .required (recovers_extensibleEnumerated _ p.status) <|
    .optional (recovers_regionalList .signalStatusPackage) p.regional
    recovers_done

theorem recovers_intersection (i : Intersection) :
    ((intersectionReference "id").decode resolve).Recovers resolve [i.item] :=
  recovers_sequence _ <|
    .optional (recovers_integer _ (by decide)) i.region <|
    .required (recovers_integer _ (by decide) i.id)
    recovers_done

theorem recovers_status (s : Status) :
    (Ssem.signalStatus.decode resolve).Recovers resolve [s.item] :=
  recovers_extensibleSequence _ s.additions <|
    .required (recovers_integer _ (by decide) s.sequenceNumber) <|
    .required (recovers_intersection s.id) <|
    .required (recovers_sequenceOf _ (by decide) recovers_package s.packages) <|
    .optional (recovers_regionalList .signalStatus) s.regional
    recovers_done

theorem recovers_parts (m : StatusMessage) : Ssem.schema.Recovers resolve m.parts := by
  refine .required ?_ recovers_done
  exact recovers_extensibleSequence _ m.additions <|
    .optional (recovers_integer _ (by decide)) m.timeStamp <|
    .required (recovers_integer _ (by decide) m.second) <|
    .optional (recovers_integer _ (by decide)) m.sequenceNumber <|
    .required (recovers_sequenceOf _ (by decide) recovers_status m.statuses) <|
    .optional (recovers_regionalList .signalStatusMessage) m.regional
    recovers_done

end StatusMessage

end V2x
